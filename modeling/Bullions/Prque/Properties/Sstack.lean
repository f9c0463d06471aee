import Bullions.Prque.Prque
import Bullions.Lib.Chunked
import Mathlib

/-!
# `sstack` の表す列

`sstack` の block をつなぎ、先頭の `size` 個の slot（`slots`）を読めば、`sstack` の表す
`item` の列（`items`）になる。`Valid` は block の置き方：どの block も `blockSize` 個、
`capacity` は block の数の `blockSize` 倍、次に書く位置 `active * blockSize + offset` は `size`、
使われている slot はどれも nil でない。

`newSstack` は `Valid` で、`Push`、`Pop`、`Swap` は `Valid` を保ち、表す列の上ではそれぞれ
末尾に足す、末尾を外す、二つを入れ替える（`Push_spec`、`Pop_spec`、`Swap_spec`）。block を
またぐ `Push`（新しい block を足す、次の block に移る）と `Pop`（前の block に戻る）も、
この三つの中で扱う。`setIndex` に知らせる位置も、それぞれの spec が言う。
-/

namespace Prque

open Chunked

variable {V W : Type}

instance [Inhabited V] : Inhabited (Item V) := ⟨⟨default, 0⟩⟩

/-! ## 列についての補題 -/

/-- nil のない列から nil を除いて `some` で戻すと元の列。 -/
theorem map_some_reduceOption {α : Type} : ∀ {l : List (Option α)}, none ∉ l →
    l.reduceOption.map some = l
  | [], _ => rfl
  | none :: _, h => absurd List.mem_cons_self h
  | some x :: l, h => by
    rw [List.reduceOption_cons_of_some, List.map_cons,
      map_some_reduceOption (fun hn => h (List.mem_cons_of_mem _ hn))]

/-- 位置 `n` に書いて先頭の `n + 1` 個をとると、先頭の `n` 個の後に書いた値。 -/
theorem take_succ_set {α : Type} {l : List α} {n : Nat} (h : n < l.length) (v : α) :
    (l.set n v).take (n + 1) = l.take n ++ [v] := by
  rw [List.take_add_one, List.take_set_of_le (Nat.le_refl n), List.getElem?_set_self h]
  rfl

namespace Sstack

/-- 使われている slot。 -/
def slots (s : Sstack V W) : List (Option (Item V)) := s.blocks.flatten.take s.size

/-- `sstack` の表す列。 -/
def items (s : Sstack V W) : List (Item V) := s.slots.reduceOption

/-- `sstack` の block の置き方。 -/
structure Valid (s : Sstack V W) : Prop where
  uniform : Uniform blockSize s.blocks
  capacity_eq : s.capacity = blockSize * s.blocks.length
  size_le : s.size ≤ s.capacity
  active_lt : s.active < s.blocks.length
  offset_le : s.offset ≤ blockSize
  position : s.active * blockSize + s.offset = s.size
  filled : none ∉ s.slots

variable {s : Sstack V W}

theorem Valid.length_flatten (hv : s.Valid) : s.blocks.flatten.length = s.capacity := by
  rw [Chunked.length_flatten hv.uniform, hv.capacity_eq]

theorem Valid.slots_eq (hv : s.Valid) : s.slots = s.items.map some :=
  (map_some_reduceOption hv.filled).symm

theorem Valid.length_items (hv : s.Valid) : s.items.length = s.size := by
  have h := congrArg List.length hv.slots_eq
  rw [List.length_map, slots, List.length_take, hv.length_flatten, Nat.min_eq_left hv.size_le] at h
  exact h.symm

/-- 使われている位置の slot は、表す列のその位置。 -/
theorem Valid.getD_flatten [Inhabited V] (hv : s.Valid) {k : Nat} (hk : k < s.size) :
    s.blocks.flatten.getD k none = some (s.items.getD k default) := by
  have hk' : k < s.items.length := by rw [hv.length_items]; exact hk
  have h := congrArg (fun l => l.getD k none) hv.slots_eq
  simp only [slots, List.getD_eq_getElem?_getD, List.getElem?_take_of_lt hk, List.getElem?_map,
    List.getElem?_eq_getElem hk'] at h
  rw [List.getD_eq_getElem?_getD, List.getD_eq_getElem?_getD, List.getElem?_eq_getElem hk']
  exact h

/-! ## slot の読み書き -/

theorem slot_of_lt (hu : Uniform blockSize s.blocks) {b o : Nat} (hb : b < s.blocks.length)
    (ho : o < blockSize) : s.slot b o = .ok (s.blocks.flatten.getD (b * blockSize + o) none) := by
  have hbl : s.blocks[b].length = blockSize := hu _ (List.getElem_mem hb)
  have ho' : o < s.blocks[b].length := by omega
  rw [slot, List.getElem?_eq_getElem hb]
  dsimp only
  rw [List.getElem?_eq_getElem ho', List.getD_eq_getElem?_getD, getElem?_flatten hu b ho,
    List.getElem?_eq_getElem hb, Option.bind_some, List.getElem?_eq_getElem ho', Option.getD_some]

theorem setSlot_of_lt (hu : Uniform blockSize s.blocks) {b o : Nat} (hb : b < s.blocks.length)
    (ho : o < blockSize) (x : Option (Item V)) :
    s.setSlot b o x = .ok { s with blocks := s.blocks.set b ((s.blocks.getD b []).set o x) } := by
  have hbl : s.blocks[b].length = blockSize := hu _ (List.getElem_mem hb)
  rw [setSlot, List.getElem?_eq_getElem hb]
  simp only [hbl, ho, if_true, List.getD_eq_getElem?_getD, List.getElem?_eq_getElem hb,
    Option.getD_some]

theorem blockSize_pos : 0 < blockSize := by decide

/-- 位置 `k` は block `k / blockSize` の `k % blockSize` 番目。 -/
theorem div_mul_add_mod (k : Nat) : k / blockSize * blockSize + k % blockSize = k :=
  Nat.div_add_mod' k blockSize

theorem div_lt_of_lt_capacity (hv : s.Valid) {k : Nat} (hk : k < s.capacity) :
    k / blockSize < s.blocks.length := by
  rw [hv.capacity_eq] at hk
  exact Nat.div_lt_of_lt_mul hk

theorem mod_lt (k : Nat) : k % blockSize < blockSize := Nat.mod_lt k (by decide)

theorem Valid.get_eq [Inhabited V] (hv : s.Valid) {k : Nat} (hk : k < s.size) :
    s.get k = .ok (some (s.items.getD k default)) := by
  rw [get, if_neg (by omega), Int.toNat_natCast,
    slot_of_lt hv.uniform (div_lt_of_lt_capacity hv (by have := hv.size_le; omega)) (mod_lt k),
    div_mul_add_mod, hv.getD_flatten hk]

theorem Valid.set_eq (hv : s.Valid) {k : Nat} (hk : k < s.capacity) (x : Option (Item V)) :
    ∃ s', s.set k x = .ok s' ∧ s'.blocks.flatten = s.blocks.flatten.set k x ∧
      Uniform blockSize s'.blocks ∧ s'.blocks.length = s.blocks.length ∧ s'.size = s.size ∧
      s'.capacity = s.capacity ∧ s'.offset = s.offset ∧ s'.active = s.active ∧
      s'.setIndex = s.setIndex := by
  refine ⟨{ s with
      blocks := s.blocks.set (k / blockSize) ((s.blocks.getD (k / blockSize) []).set (k % blockSize) x) },
    ?_, ?_, hv.uniform.set _ _ x, List.length_set, rfl, rfl, rfl, rfl, rfl⟩
  · rw [set, if_neg (by omega), Int.toNat_natCast,
      setSlot_of_lt hv.uniform (div_lt_of_lt_capacity hv hk) (mod_lt k)]
  · rw [flatten_set hv.uniform _ (mod_lt k), div_mul_add_mod]

/-! ## `newSstack` -/

theorem slots_of_size_zero (h : s.size = 0) : s.slots = [] := by
  rw [slots, h, List.take_zero]

@[simp] theorem blocks_newSstack (setIndex : Option (SetIndexCallback V W)) :
    (newSstack setIndex).blocks = [List.replicate blockSize none] := rfl

theorem newSstack_valid (setIndex : Option (SetIndexCallback V W)) : (newSstack setIndex).Valid where
  uniform l hl := by
    rw [blocks_newSstack, List.mem_singleton] at hl
    rw [hl, List.length_replicate]
  capacity_eq := by
    rw [blocks_newSstack, List.length_singleton, Nat.mul_one]
    rfl
  size_le := Nat.zero_le _
  active_lt := by
    rw [blocks_newSstack, List.length_singleton]
    exact Nat.zero_lt_one
  offset_le := Nat.zero_le _
  position := by
    show 0 * blockSize + 0 = 0
    rw [Nat.zero_mul]
  filled := by
    rw [slots_of_size_zero rfl]
    exact List.not_mem_nil

@[simp] theorem items_newSstack (setIndex : Option (SetIndexCallback V W)) :
    (newSstack setIndex).items = [] := by
  rw [items, slots_of_size_zero rfl]
  rfl

/-! ## `Less` と `Swap` -/

open ExceptSpec

theorem reduceOption_map_some {α : Type} (l : List α) : (l.map some).reduceOption = l := by
  induction l with
  | nil => rfl
  | cons x l ih => rw [List.map_cons, List.reduceOption_cons_of_some, ih]

/-- 使われている位置に nil でない値を書くと、表す列のその位置が変わる。 -/
theorem Valid.set_some (hv : s.Valid) {k : Nat} (hk : k < s.size) (x : Item V) :
    ∃ s', s.set k (some x) = .ok s' ∧ s'.Valid ∧ s'.items = s.items.set k x ∧ s'.size = s.size ∧
      s'.setIndex = s.setIndex := by
  obtain ⟨s', hset, hfl, hu, hlen, hsize, hcap, hoff, hact, hidx⟩ :=
    hv.set_eq (by have := hv.size_le; omega : k < s.capacity) (some x)
  have hslots : s'.slots = (s.items.set k x).map some := by
    rw [slots, hfl, hsize, List.take_set, ← slots, hv.slots_eq, List.map_set]
  refine ⟨s', hset, ⟨hu, ?_, ?_, ?_, ?_, ?_, ?_⟩, ?_, hsize, hidx⟩
  · rw [hcap, hlen]; exact hv.capacity_eq
  · rw [hcap, hsize]; exact hv.size_le
  · rw [hact, hlen]; exact hv.active_lt
  · rw [hoff]; exact hv.offset_le
  · rw [hact, hoff, hsize]; exact hv.position
  · rw [hslots, List.mem_map]
    rintro ⟨a, -, h⟩
    cases h
  · rw [items, hslots, reduceOption_map_some]

theorem Valid.Less_eq [Inhabited V] (hv : s.Valid) {i j : Nat} (hi : i < s.size)
    (hj : j < s.size) :
    s.Less i j = .ok (decide ((s.items.getD i default).priority -
      (s.items.getD j default).priority > 0)) := by
  rw [Less, hv.get_eq hi, ok_bind, hv.get_eq hj, ok_bind]
  rfl

/-- `Swap(i, j)`：表す列の二つを入れ替え、`setIndex` に `(x_j, i)`、`(x_i, j)` の順で知らせる。 -/
theorem Valid.Swap_spec [Inhabited V] (hv : s.Valid) (w : W) {i j : Nat} (hi : i < s.size)
    (hj : j < s.size) :
    ∃ s', s.Swap w i j = .ok (s', s.report (s.items.getD i default).value j
        (s.report (s.items.getD j default).value i w)) ∧
      s'.Valid ∧ s'.items = GoHeap.swap s.items i j ∧ s'.size = s.size ∧
      s'.setIndex = s.setIndex := by
  obtain ⟨s₁, h₁, hv₁, hit₁, hsz₁, hidx₁⟩ := hv.set_some hi (s.items.getD j default)
  obtain ⟨s₂, h₂, hv₂, hit₂, hsz₂, hidx₂⟩ := hv₁.set_some (by omega : j < s₁.size)
    (s.items.getD i default)
  refine ⟨s₂, ?_, hv₂, ?_, by rw [hsz₂, hsz₁], by rw [hidx₂, hidx₁]⟩
  · rw [Swap, hv.get_eq hj, ok_bind, hv.get_eq hi, ok_bind]
    -- `setIndex` が nil でもなくても、知らせる値は `report`
    cases hsi : s.setIndex <;> simp only [report, hsi, pure_bind, ok_bind, h₁, h₂] <;> rfl
  · rw [hit₂, hit₁]
    rfl

/-! ## `Push` -/

/-- 書き込み：`offset` が block の内なら、位置 `size` に書いて一つ進める。 -/
theorem Valid.push_write (hv : s.Valid) (ho : s.offset < blockSize) (x : Item V) :
    ∃ s', s.setSlot s.active s.offset (some x) = .ok s' ∧ s'.size = s.size ∧
      s'.offset = s.offset ∧ s'.setIndex = s.setIndex ∧
      ({ s' with offset := s'.offset + 1, size := s'.size + 1 } : Sstack V W).Valid ∧
      ({ s' with offset := s'.offset + 1, size := s'.size + 1 } : Sstack V W).items =
        s.items ++ [x] := by
  have hpos := hv.position
  have hcap := hv.capacity_eq
  have hact := hv.active_lt
  have hlt : s.size < s.blocks.flatten.length := by
    rw [hv.length_flatten, hcap]
    have : s.active + 1 ≤ s.blocks.length := hact
    have : (s.active + 1) * blockSize ≤ s.blocks.length * blockSize := Nat.mul_le_mul_right _ this
    rw [Nat.succ_mul] at this
    rw [Nat.mul_comm blockSize]
    omega
  have hfl : (s.blocks.set s.active ((s.blocks.getD s.active []).set s.offset (some x))).flatten =
      s.blocks.flatten.set s.size (some x) := by
    rw [flatten_set hv.uniform _ ho, hpos]
  have hslots : ({ s with
      blocks := s.blocks.set s.active ((s.blocks.getD s.active []).set s.offset (some x)),
      offset := s.offset + 1, size := s.size + 1 } : Sstack V W).slots = s.slots ++ [some x] := by
    rw [slots, hfl, take_succ_set hlt]
    rfl
  refine ⟨_, setSlot_of_lt hv.uniform hact ho (some x), rfl, rfl, rfl, ⟨hv.uniform.set _ _ _, ?_,
    ?_, by simpa using hact, by simp only; exact ho, by simp only; omega, ?_⟩, ?_⟩
  · simpa using hcap
  · have : s.size < s.capacity := by rw [← hv.length_flatten]; exact hlt
    simp only
    omega
  · rw [hslots]
    simpa using hv.filled
  · rw [items, hslots, List.reduceOption_append, ← items]
    rfl

/-- `Push(x)`：表す列の末尾に足し、`setIndex` に `(x, size)` を知らせる。 -/
theorem Valid.Push_spec (hv : s.Valid) (w : W) (x : Item V) :
    ∃ s', s.Push w x = .ok (s', s.report x.value s.size w) ∧ s'.Valid ∧
      s'.items = s.items ++ [x] ∧ s'.size = s.size + 1 ∧ s'.setIndex = s.setIndex := by
  -- 書く前の block の切り替え：どの場合も `Valid` で、`offset` は block の内
  obtain ⟨s₁, hsw, hv₁, ho₁, hit₁, hsz₁, hidx₁⟩ : ∃ s₁,
      (if s.size = s.capacity then
        pure { s with
          blocks := s.blocks ++ [List.replicate blockSize none]
          active := s.blocks.length
          capacity := s.capacity + blockSize
          offset := 0 }
      else if s.offset = blockSize then
        if s.size / blockSize < s.blocks.length then
          pure { s with active := s.size / blockSize, offset := 0 }
        else .error .indexOutOfRange
      else pure s : Except Panic (Sstack V W)) = .ok s₁ ∧
      s₁.Valid ∧ s₁.offset < blockSize ∧ s₁.items = s.items ∧ s₁.size = s.size ∧
      s₁.setIndex = s.setIndex := by
    have hpos := hv.position
    have hcap := hv.capacity_eq
    have hact := hv.active_lt
    have hoff := hv.offset_le
    by_cases hfull : s.size = s.capacity
    · -- 埋まっている：block を一つ足す
      have hfl : (s.blocks ++ [List.replicate blockSize none]).flatten.take s.size = s.slots := by
        rw [List.flatten_append, List.take_append_of_le_length (by rw [hv.length_flatten]; omega)]
        rfl
      refine ⟨{ s with
          blocks := s.blocks ++ [List.replicate blockSize none]
          active := s.blocks.length
          capacity := s.capacity + blockSize
          offset := 0 }, if_pos hfull, ⟨hv.uniform.append List.length_replicate, ?_, ?_, ?_,
        Nat.zero_le _, ?_, ?_⟩, blockSize_pos, ?_, rfl, rfl⟩
      · simp only [List.length_append, List.length_singleton]
        rw [hcap, Nat.mul_succ]
      · simp only
        omega
      · simp
      · simp only [Nat.add_zero]
        rw [hfull, hcap, Nat.mul_comm]
      · show none ∉ (s.blocks ++ [List.replicate blockSize none]).flatten.take s.size
        rw [hfl]
        exact hv.filled
      · show ((s.blocks ++ [List.replicate blockSize none]).flatten.take s.size).reduceOption = _
        rw [hfl]
        rfl
    · rw [if_neg hfull]
      by_cases hend : s.offset = blockSize
      · -- block の終わり：次の block はもうある
        have hlt : s.size < s.capacity := by have := hv.size_le; omega
        have hnext : s.size / blockSize = s.active + 1 := by
          rw [← hpos, hend, ← Nat.succ_mul, Nat.mul_div_cancel _ (by decide)]
        have hnl : s.size / blockSize < s.blocks.length := by
          rw [hnext]
          rw [← hpos, hend, hcap, ← Nat.succ_mul, Nat.mul_comm blockSize] at hlt
          exact Nat.lt_of_mul_lt_mul_right hlt
        refine ⟨{ s with active := s.size / blockSize, offset := 0 },
          by rw [if_pos hend, if_pos hnl]; rfl, ⟨hv.uniform, hcap, hv.size_le, hnl, Nat.zero_le _,
          ?_, hv.filled⟩, blockSize_pos, rfl, rfl, rfl⟩
        simp only [Nat.add_zero]
        rw [hnext, Nat.succ_mul, ← hpos, hend]
      · -- block の途中：そのまま
        rw [if_neg hend]
        exact ⟨s, rfl, hv, by omega, rfl, rfl, rfl⟩
  obtain ⟨s₂, hwr, hsz₂, hoff₂, hidx₂, hv₂, hit₂⟩ := hv₁.push_write ho₁ x
  refine ⟨_, ?_, hv₂, by rw [hit₂, hit₁], by simp [hsz₂, hsz₁], by simp [hidx₂, hidx₁]⟩
  have hrep : s₁.report x.value s₁.size w = s.report x.value s.size w := by
    rw [report, report, hidx₁, hsz₁]
  rw [Push, hsw, ok_bind, hrep, hwr, ok_bind]
  rfl

/-! ## `Pop` -/

/-- 外す位置 `size - 1` の slot を読み、nil にして一つ戻す。 -/
theorem Valid.pop_write [Inhabited V] (hv : s.Valid) (hne : 0 < s.size) {b o : Nat}
    (hb : b < s.blocks.length) (ho : o < blockSize) (hpos : b * blockSize + o = s.size - 1) :
    s.slot b o = .ok (some (s.items.getD (s.size - 1) default)) ∧
    ∃ s₂, s.setSlot b o none = .ok s₂ ∧ s₂.setIndex = s.setIndex ∧
      ({ s₂ with size := s.size - 1, offset := o, active := b } : Sstack V W).Valid ∧
      ({ s₂ with size := s.size - 1, offset := o, active := b } : Sstack V W).items =
        s.items.dropLast := by
  have hlen := hv.length_items
  have hfl : (s.blocks.set b ((s.blocks.getD b []).set o none)).flatten =
      s.blocks.flatten.set (s.size - 1) none := by
    rw [flatten_set hv.uniform _ ho, hpos]
  -- 残る slot は、元の slot の末尾を除いたもの
  have hslots : ({ s with
      blocks := s.blocks.set b ((s.blocks.getD b []).set o none),
      size := s.size - 1, offset := o, active := b } : Sstack V W).slots =
      s.items.dropLast.map some := by
    rw [slots, hfl, List.take_set_of_le (Nat.le_refl _), List.dropLast_eq_take, hlen,
      List.map_take, ← hv.slots_eq, slots, List.take_take, Nat.min_eq_left (by omega)]
  refine ⟨by rw [slot_of_lt hv.uniform hb ho, hpos, hv.getD_flatten (by omega)], _,
    setSlot_of_lt hv.uniform hb ho none, rfl, ⟨hv.uniform.set _ _ _, ?_, ?_, ?_, ?_, hpos, ?_⟩, ?_⟩
  · simp only [List.length_set]
    exact hv.capacity_eq
  · have := hv.size_le
    simp only
    omega
  · simpa using hb
  · simp only
    omega
  · rw [hslots, List.mem_map]
    rintro ⟨a, -, h⟩
    cases h
  · rw [items, hslots, reduceOption_map_some]

/-- `Pop()`：表す列の末尾を外して返し、`setIndex` に `(x, -1)` を知らせる。 -/
theorem Valid.Pop_spec [Inhabited V] (hv : s.Valid) (hne : 0 < s.size) (w : W) :
    ∃ s', s.Pop w = .ok (s', s.report (s.items.getD (s.size - 1) default).value (-1) w,
        some (s.items.getD (s.size - 1) default)) ∧
      s'.Valid ∧ s'.items = s.items.dropLast ∧ s'.size = s.size - 1 ∧ s'.setIndex = s.setIndex := by
  have hpos := hv.position
  have hoff := hv.offset_le
  have hact := hv.active_lt
  -- 外す位置：block の先頭なら前の block の末尾
  obtain ⟨o, b, hsw, hb, ho, hob⟩ : ∃ o b,
      (if s.offset = 0 then
        if (s.size - 1) / blockSize < s.blocks.length then pure (blockSize - 1, (s.size - 1) / blockSize)
        else .error .indexOutOfRange
      else pure (s.offset - 1, s.active) : Except Panic (Nat × Nat)) = .ok (o, b) ∧
      b < s.blocks.length ∧ o < blockSize ∧ b * blockSize + o = s.size - 1 := by
    by_cases h0 : s.offset = 0
    · have hprev : (s.size - 1) / blockSize = s.active - 1 := by
        simp only [blockSize] at hpos ⊢
        omega
      have hpl : (s.size - 1) / blockSize < s.blocks.length := by omega
      refine ⟨blockSize - 1, (s.size - 1) / blockSize, by rw [if_pos h0, if_pos hpl]; rfl, hpl,
        by decide, ?_⟩
      rw [hprev]
      simp only [blockSize] at hpos ⊢
      rw [h0] at hpos
      have : 1 ≤ s.active := by omega
      rw [Nat.sub_mul]
      omega
    · refine ⟨s.offset - 1, s.active, by rw [if_neg h0]; rfl, hact, by omega, ?_⟩
      omega
  obtain ⟨hrd, s₂, hwr, hidx₂, hv₃, hit₃⟩ := hv.pop_write hne hb ho hob
  refine ⟨_, ?_, hv₃, hit₃, rfl, hidx₂⟩
  rw [Pop, if_neg (by omega)]
  simp only [hsw, ok_bind, hrd, hwr]
  -- `setIndex` が nil でもなくても、知らせる値は `report`
  unfold report
  rw [hidx₂]
  cases s.setIndex <;> rfl

end Sstack

end Prque
