import Bullions.Lib.GoHeap
import Bullions.Lib.ExceptSpec

/-!
# interface の上の `container/heap`

Go の `container/heap` は、列を `heap.Interface`（`Len`、`Less`、`Swap`、`Push`、`Pop`）だけを
通して動かす。ここでは interface を状態 `σ` の上の操作の組 `Iface` とし、`up`、`down`、
`Push`、`Pop`、`Remove` を Go の通りに書く。`Less` と `Swap` は範囲の外で panic しうるので
`Except ε` を返す。添字は Go の `int`（`Int`）で渡し、`heap.Pop` と `heap.Remove` の
`n := h.Len() - 1` は空の heap で `-1` になる。

* `Sim`：状態の写像 `f` が、`Ok` な状態で一つの interface の基本の操作を、もう一つの
  interface の基本の操作に写すこと。そのとき heap の操作も写る（`up_sim`、`down_sim`、
  `Push_sim`、`Pop_sim`、`Remove_sim`）。
* `listIface key`：列の上の interface。`Less` は `key` で比べる。`key = id` のとき、その上の
  heap の操作は `GoHeap` の操作そのもの（`up_listIface_id` ほか）。
* `up_inv`、`downLoop_inv`：`Swap` が触る位置の組で保たれる性質は、`up` と `down` で保たれる。
  列の上では、要素の並べ替えと、触らない位置がそのままであることを引く。
-/

namespace HeapIface

open ExceptSpec

/-- Go の `heap.Interface`。状態 `σ` の上の、panic（`ε`）しうる操作の組。 -/
structure Iface (σ α ρ ε : Type) where
  Len : σ → Nat
  Less : σ → Int → Int → Except ε Bool
  Swap : σ → Int → Int → Except ε σ
  Push : σ → α → Except ε σ
  Pop : σ → Except ε (σ × ρ)

section Defs

variable {σ α ρ ε : Type} (h : Iface σ α ρ ε)

/-- `up(h, j)`。親は `(j - 1) / 2` で、`j = 0` では Go の切り捨ての割り算でも `i == j`。 -/
def up (s : σ) (j : Nat) : Except ε σ :=
  let i := (j - 1) / 2
  if _hij : i = j then pure s
  else do
    let less ← h.Less s j i
    if less then
      let s ← h.Swap s i j
      up s i
    else pure s
termination_by j
decreasing_by omega

/--
`down(h, i0, n)` の loop。止まった位置も返す。`j1 < 0`（`int` の桁あふれ）は、列の長さが
`int` に収まるので起きない。
-/
def downLoop (s : σ) (i n : Nat) : Except ε (σ × Nat) :=
  let j1 := 2 * i + 1
  if _hj1 : j1 ≥ n then pure (s, i)
  else do
    -- `j2 < n && h.Less(j2, j1)`：右の子は範囲の内のときだけ比べる
    let j2 := j1 + 1
    let right ← if j2 < n then h.Less s j2 j1 else pure false
    let j := if right then j2 else j1
    let less ← h.Less s j i
    if !less then pure (s, i)
    else
      let s ← h.Swap s i j
      downLoop s j n
termination_by n - i
decreasing_by all_goals (split <;> omega)

/-- `down(h, i0, n)`：動いたか（`i > i0`）も返す。 -/
def down (s : σ) (i0 n : Nat) : Except ε (σ × Bool) := do
  let (s, i) ← downLoop h s i0 n
  pure (s, decide (i > i0))

/-- `heap.Push(h, x)`。 -/
def Push (s : σ) (x : α) : Except ε σ := do
  let s ← h.Push s x
  up h s (h.Len s - 1)

/-- `heap.Pop(h)`。 -/
def Pop (s : σ) : Except ε (σ × ρ) := do
  let n : Int := h.Len s - 1
  let s ← h.Swap s 0 n
  let (s, _) ← down h s 0 n.toNat
  h.Pop s

/-- `heap.Remove(h, i)`。 -/
def Remove (s : σ) (i : Nat) : Except ε (σ × ρ) := do
  let n : Int := h.Len s - 1
  let s ← (if n ≠ i then (do
      let s ← h.Swap s i n
      let (s, moved) ← down h s i n.toNat
      if !moved then up h s i else pure s) else pure s)
  h.Pop s

end Defs

/-! ## 基本の操作を写す写像 -/

section Sim

variable {σ₁ α₁ ρ₁ ε₁ σ₂ α₂ ρ₂ ε₂ : Type} {h₁ : Iface σ₁ α₁ ρ₁ ε₁} {h₂ : Iface σ₂ α₂ ρ₂ ε₂}

/--
`f` が `Ok` な状態で `h₁` の基本の操作を `h₂` の基本の操作に写す。`Less` と `Swap` は
範囲の内の添字で、`Pop` は空でない状態で。`g` は `Pop` の返す値を写す。
-/
structure Sim (h₁ : Iface σ₁ α₁ ρ₁ ε₁) (h₂ : Iface σ₂ α₂ ρ₂ ε₂) (Ok : σ₁ → Prop) (f : σ₁ → σ₂)
    (g : ρ₁ → ρ₂) : Prop where
  len : ∀ s, Ok s → h₂.Len (f s) = h₁.Len s
  less : ∀ s (i j : Nat), Ok s → i < h₁.Len s → j < h₁.Len s →
    ∃ b, h₁.Less s i j = .ok b ∧ h₂.Less (f s) i j = .ok b
  swap : ∀ s (i j : Nat), Ok s → i < h₁.Len s → j < h₁.Len s →
    ∃ s', h₁.Swap s i j = .ok s' ∧ Ok s' ∧ h₁.Len s' = h₁.Len s ∧ h₂.Swap (f s) i j = .ok (f s')
  pop : ∀ s, Ok s → 0 < h₁.Len s →
    ∃ s' r, h₁.Pop s = .ok (s', r) ∧ Ok s' ∧ h₂.Pop (f s) = .ok (f s', g r)

variable {Ok : σ₁ → Prop} {f : σ₁ → σ₂} {g : ρ₁ → ρ₂}

theorem up_sim (hs : Sim h₁ h₂ Ok f g) {s : σ₁} {j : Nat} (hok : Ok s) (hj : j < h₁.Len s) :
    ∃ s', up h₁ s j = .ok s' ∧ Ok s' ∧ h₁.Len s' = h₁.Len s ∧ up h₂ (f s) j = .ok (f s') := by
  induction s, j using up.induct with
  | case1 s j _ hij =>
    refine ⟨s, ?_, hok, rfl, ?_⟩ <;> rw [up, dif_pos hij] <;> rfl
  | case2 s j _ hij ih =>
    have hi : (j - 1) / 2 < j := by omega
    obtain ⟨b, hb₁, hb₂⟩ := hs.less s j ((j - 1) / 2) hok hj (by omega)
    rw [up, dif_neg hij, up, dif_neg hij, hb₁, hb₂, ok_bind, ok_bind]
    cases b with
    | false => exact ⟨s, rfl, hok, rfl, rfl⟩
    | true =>
      -- 親と入れ替えて、親の位置から続ける
      obtain ⟨s', hsw₁, hok', hlen', hsw₂⟩ := hs.swap s ((j - 1) / 2) j hok (by omega) hj
      obtain ⟨s'', hup₁, hok'', hlen'', hup₂⟩ := ih s' hok' (by omega)
      refine ⟨s'', ?_, hok'', by rw [hlen'', hlen'], ?_⟩
      · simp only [if_true, hsw₁, ok_bind]
        exact hup₁
      · simp only [if_true, hsw₂, ok_bind]
        exact hup₂

theorem downLoop_sim (hs : Sim h₁ h₂ Ok f g) {n : Nat} {s : σ₁} {i : Nat} (hok : Ok s)
    (hn : n ≤ h₁.Len s) :
    ∃ s' k, downLoop h₁ s i n = .ok (s', k) ∧ Ok s' ∧ h₁.Len s' = h₁.Len s ∧
      downLoop h₂ (f s) i n = .ok (f s', k) := by
  induction s, i using downLoop.induct h₁ n with
  | case1 s i _ hj1 =>
    refine ⟨s, i, ?_, hok, rfl, ?_⟩ <;> rw [downLoop, dif_pos hj1] <;> rfl
  | case2 s i _ hj1 _ hj2 ih =>
    -- 右の子も範囲の内：二つの子のうち小さい方
    obtain ⟨r, hr₁, hr₂⟩ := hs.less s (2 * i + 1 + 1) (2 * i + 1) hok (by omega) (by omega)
    have hj : (if r = true then 2 * i + 1 + 1 else 2 * i + 1) < n := by split <;> omega
    obtain ⟨b, hb₁, hb₂⟩ := hs.less s (if r = true then 2 * i + 1 + 1 else 2 * i + 1) i hok
      (by omega) (by omega)
    rw [downLoop, dif_neg hj1, downLoop, dif_neg hj1, if_pos hj2, if_pos hj2, hr₁, hr₂, ok_bind,
      ok_bind]
    simp only [hb₁, hb₂, ok_bind]
    cases b with
    | false => exact ⟨s, i, rfl, hok, rfl, rfl⟩
    | true =>
      obtain ⟨s', hsw₁, hok', hlen', hsw₂⟩ :=
        hs.swap s i (if r = true then 2 * i + 1 + 1 else 2 * i + 1) hok (by omega) (by omega)
      obtain ⟨s'', k, hd₁, hok'', hlen'', hd₂⟩ := ih r s' hok' (by omega)
      simp only [dite_eq_ite] at hd₁ hd₂
      refine ⟨s'', k, ?_, hok'', by rw [hlen'', hlen'], ?_⟩
      · simp only [Bool.not_true, Bool.false_eq_true, if_false, hsw₁, ok_bind]
        exact hd₁
      · simp only [Bool.not_true, Bool.false_eq_true, if_false, hsw₂, ok_bind]
        exact hd₂
  | case3 s i _ hj1 _ hj2 ih =>
    -- 左の子だけ
    obtain ⟨b, hb₁, hb₂⟩ := hs.less s (2 * i + 1) i hok (by omega) (by omega)
    rw [downLoop, dif_neg hj1, downLoop, dif_neg hj1, if_neg hj2, if_neg hj2]
    simp only [pure_bind, Bool.false_eq_true, if_false, hb₁, hb₂, ok_bind]
    cases b with
    | false => exact ⟨s, i, rfl, hok, rfl, rfl⟩
    | true =>
      obtain ⟨s', hsw₁, hok', hlen', hsw₂⟩ := hs.swap s i (2 * i + 1) hok (by omega) (by omega)
      obtain ⟨s'', k, hd₁, hok'', hlen'', hd₂⟩ := ih false s' hok' (by omega)
      refine ⟨s'', k, ?_, hok'', by rw [hlen'', hlen'], ?_⟩
      · simp only [Bool.not_true, Bool.false_eq_true, if_false, hsw₁, ok_bind]
        exact hd₁
      · simp only [Bool.not_true, Bool.false_eq_true, if_false, hsw₂, ok_bind]
        exact hd₂

theorem down_sim (hs : Sim h₁ h₂ Ok f g) {n : Nat} {s : σ₁} (i : Nat) (hok : Ok s)
    (hn : n ≤ h₁.Len s) :
    ∃ s' b, down h₁ s i n = .ok (s', b) ∧ Ok s' ∧ h₁.Len s' = h₁.Len s ∧
      down h₂ (f s) i n = .ok (f s', b) := by
  obtain ⟨s', k, hd₁, hok', hlen', hd₂⟩ := downLoop_sim (i := i) hs hok hn
  exact ⟨s', decide (k > i), by rw [down, hd₁]; rfl, hok', hlen', by rw [down, hd₂]; rfl⟩

/-- `Push` の足し方が写るなら、`heap.Push` も写る。 -/
theorem Push_sim (hs : Sim h₁ h₂ Ok f g) {s : σ₁} {x₁ : α₁} {x₂ : α₂}
    (hpush : ∃ s', h₁.Push s x₁ = .ok s' ∧ Ok s' ∧ h₁.Len s' = h₁.Len s + 1 ∧
      h₂.Push (f s) x₂ = .ok (f s')) :
    ∃ s', Push h₁ s x₁ = .ok s' ∧ Ok s' ∧ h₁.Len s' = h₁.Len s + 1 ∧
      Push h₂ (f s) x₂ = .ok (f s') := by
  obtain ⟨s', hp₁, hok', hlen', hp₂⟩ := hpush
  obtain ⟨s'', hu₁, hok'', hlen'', hu₂⟩ := up_sim (j := h₁.Len s' - 1) hs hok' (by omega)
  refine ⟨s'', ?_, hok'', by omega, ?_⟩
  · rw [Push, hp₁, ok_bind]
    exact hu₁
  · rw [Push, hp₂, ok_bind, hs.len s' hok']
    exact hu₂

/-- 空の heap の `n` は `-1` だが、空でなければ最後の位置。 -/
theorem last_eq {m : Nat} (hm : 0 < m) : ((m : Int) - 1) = ((m - 1 : Nat) : Int) := by omega

theorem Pop_sim (hs : Sim h₁ h₂ Ok f g) {s : σ₁} (hok : Ok s) (hne : 0 < h₁.Len s) :
    ∃ s' r, Pop h₁ s = .ok (s', r) ∧ Ok s' ∧ Pop h₂ (f s) = .ok (f s', g r) := by
  -- 根と末尾を入れ替え、末尾の前までで下ろし、末尾を外す
  obtain ⟨s₁, hsw₁, hok₁, hlen₁, hsw₂⟩ := hs.swap s 0 (h₁.Len s - 1) hok hne (by omega)
  obtain ⟨s₂, b, hd₁, hok₂, hlen₂, hd₂⟩ := down_sim (n := h₁.Len s - 1) hs 0 hok₁ (by omega)
  obtain ⟨s₃, r, hp₁, hok₃, hp₂⟩ := hs.pop s₂ hok₂ (by omega)
  rw [Int.natCast_zero] at hsw₁ hsw₂
  refine ⟨s₃, r, ?_, hok₃, ?_⟩
  · rw [Pop, last_eq hne, hsw₁, ok_bind, Int.toNat_natCast, hd₁, ok_bind]
    exact hp₁
  · rw [Pop, hs.len s hok, last_eq hne, hsw₂, ok_bind, Int.toNat_natCast, hd₂, ok_bind]
    exact hp₂

theorem Remove_sim (hs : Sim h₁ h₂ Ok f g) {s : σ₁} (hok : Ok s) {i : Nat} (hi : i < h₁.Len s) :
    ∃ s' r, Remove h₁ s i = .ok (s', r) ∧ Ok s' ∧ Remove h₂ (f s) i = .ok (f s', g r) := by
  have hne : 0 < h₁.Len s := by omega
  -- `Pop` の前の状態：末尾でなければ、入れ替えて下ろすか上げる
  obtain ⟨s₁, h₁₁, hok₁, hlen₁, h₁₂⟩ : ∃ s₁,
      (if ((h₁.Len s : Int) - 1) ≠ i then (do
          let t ← h₁.Swap s i ((h₁.Len s : Int) - 1)
          let (t, moved) ← down h₁ t i ((h₁.Len s : Int) - 1).toNat
          if !moved then up h₁ t i else pure t) else pure s) = .ok s₁ ∧ Ok s₁ ∧
      h₁.Len s₁ = h₁.Len s ∧
      (if ((h₁.Len s : Int) - 1) ≠ i then (do
          let t ← h₂.Swap (f s) i ((h₁.Len s : Int) - 1)
          let (t, moved) ← down h₂ t i ((h₁.Len s : Int) - 1).toNat
          if !moved then up h₂ t i else pure t) else pure (f s)) = .ok (f s₁) := by
    by_cases hni : ((h₁.Len s : Int) - 1) ≠ i
    · obtain ⟨s₂, hsw₁, hok₂, hlen₂, hsw₂⟩ := hs.swap s i (h₁.Len s - 1) hok hi (by omega)
      obtain ⟨s₃, b, hd₁, hok₃, hlen₃, hd₂⟩ := down_sim (n := h₁.Len s - 1) hs i hok₂ (by omega)
      rw [if_pos hni, if_pos hni]
      simp only [last_eq hne, hsw₁, hsw₂, ok_bind, Int.toNat_natCast, hd₁, hd₂]
      cases b with
      | false =>
        obtain ⟨s₄, hu₁, hok₄, hlen₄, hu₂⟩ := up_sim (j := i) hs hok₃ (by omega)
        exact ⟨s₄, hu₁, hok₄, by omega, hu₂⟩
      | true => exact ⟨s₃, rfl, hok₃, by omega, rfl⟩
    · simp only [if_neg hni]
      exact ⟨s, rfl, hok, rfl, rfl⟩
  obtain ⟨s₂, r, hp₁, hok₂, hp₂⟩ := hs.pop s₁ hok₁ (by omega)
  refine ⟨s₂, r, ?_, hok₂, ?_⟩
  · rw [Remove, h₁₁, ok_bind]
    exact hp₁
  · rw [Remove, hs.len s hok, h₁₂, ok_bind]
    exact hp₂

end Sim

/-! ## 列の上の interface -/

section List

variable {α β : Type} [Inhabited α] [LinearOrder β]

/--
列の上の interface：`Less` は比べ方 `lt`、`Swap` は `GoHeap.swap`、`Push` は末尾に足し、
`Pop` は末尾を外す。panic しない。
-/
def relIface (lt : α → α → Bool) : Iface (List α) α (Option α) Empty where
  Len l := l.length
  Less l i j := pure (lt (l.getD i.toNat default) (l.getD j.toNat default))
  Swap l i j := pure (GoHeap.swap l i.toNat j.toNat)
  Push l x := pure (l ++ [x])
  Pop l := pure (l.dropLast, l.getLast?)

section Rel

variable {lt : α → α → Bool}

@[simp] theorem relIface_Len (l : List α) : (relIface lt).Len l = l.length := rfl

@[simp] theorem relIface_Less (l : List α) (i j : Nat) :
    (relIface lt).Less l i j = .ok (lt (l.getD i default) (l.getD j default)) := by
  simp only [relIface, Int.toNat_natCast]
  rfl

@[simp] theorem relIface_Swap (l : List α) (i j : Nat) :
    (relIface lt).Swap l i j = .ok (GoHeap.swap l i j) := by
  simp only [relIface, Int.toNat_natCast]
  rfl

@[simp] theorem relIface_Push (l : List α) (x : α) :
    (relIface lt).Push l x = .ok (l ++ [x]) := rfl

@[simp] theorem relIface_Pop (l : List α) :
    (relIface lt).Pop l = .ok (l.dropLast, l.getLast?) := rfl

end Rel

/-- 列の上の interface で、`Less` は `key` で比べる。 -/
def listIface (key : α → β) : Iface (List α) α (Option α) Empty where
  Len l := l.length
  Less l i j := pure (decide (key (l.getD i.toNat default) < key (l.getD j.toNat default)))
  Swap l i j := pure (GoHeap.swap l i.toNat j.toNat)
  Push l x := pure (l ++ [x])
  Pop l := pure (l.dropLast, l.getLast?)

variable {key : α → β}

@[simp] theorem listIface_Len (l : List α) : (listIface key).Len l = l.length := rfl

@[simp] theorem listIface_Less (l : List α) (i j : Nat) :
    (listIface key).Less l i j = .ok (decide (key (l.getD i default) < key (l.getD j default))) := by
  simp only [listIface, Int.toNat_natCast]
  rfl

@[simp] theorem listIface_Swap (l : List α) (i j : Nat) :
    (listIface key).Swap l i j = .ok (GoHeap.swap l i j) := by
  simp only [listIface, Int.toNat_natCast]
  rfl

@[simp] theorem listIface_Push (l : List α) (x : α) :
    (listIface key).Push l x = .ok (l ++ [x]) := rfl

@[simp] theorem listIface_Pop (l : List α) :
    (listIface key).Pop l = .ok (l.dropLast, l.getLast?) := rfl

/-- 長さ `n + 1` の列の末尾を外した列と末尾。 -/
theorem dropLast_getLast?_of_length {b : List α} {n : Nat} (hb : b.length = n + 1) :
    b.dropLast = b.take n ∧ b.getLast? = some (b.getD n default) := by
  refine ⟨by rw [List.dropLast_eq_take, hb, Nat.add_sub_cancel], ?_⟩
  rw [List.getLast?_eq_getElem?, hb, Nat.add_sub_cancel, List.getD_eq_getElem?_getD,
    List.getElem?_eq_getElem (by omega)]
  rfl

/-- 列の上の interface は失敗しない。 -/
theorem exists_ok {γ : Type} (x : Except Empty γ) : ∃ a, x = .ok a := by
  cases x with
  | error e => exact e.elim
  | ok a => exact ⟨a, rfl⟩

end List

/-! ## `key = id` の列の上では `GoHeap` の操作 -/

section GoHeapEq

variable {α : Type} [Inhabited α] [LinearOrder α]

theorem up_listIface_id (l : List α) (j : Nat) :
    up (listIface (id : α → α)) l j = .ok (GoHeap.up l j) := by
  induction l, j using up.induct with
  | case1 l j _ hij =>
    have hj : j = 0 := by omega
    rw [up, dif_pos hij, GoHeap.up, if_pos hj]
    rfl
  | case2 l j _ hij ih =>
    have hj : j ≠ 0 := by omega
    rw [up, dif_neg hij, GoHeap.up, if_neg hj, listIface_Less, ok_bind]
    by_cases hlt : l.getD j default < l.getD ((j - 1) / 2) default
    · simp only [id, hlt, decide_true, if_true, listIface_Swap, ok_bind]
      exact ih _
    · simp only [id, hlt, decide_false, Bool.false_eq_true, if_false]
      rfl

theorem downLoop_listIface_id (l : List α) (i n : Nat) :
    downLoop (listIface (id : α → α)) l i n = .ok (GoHeap.downLoop l i n) := by
  induction l, i using downLoop.induct (listIface (id : α → α)) n with
  | case1 l i _ hj1 =>
    rw [downLoop, dif_pos hj1, GoHeap.downLoop_of_ge (by omega)]
    rfl
  | case2 l i _ hj1 _ hj2 ih =>
    -- 右の子も範囲の内：`smallerChild` の比べ方そのもの
    have hc : GoHeap.smallerChild l i n =
        if decide (l.getD (2 * i + 1 + 1) default < l.getD (2 * i + 1) default) = true
        then 2 * i + 1 + 1 else 2 * i + 1 := by
      have h2 : 2 * i + 2 < n := hj2
      by_cases hr : l.getD (2 * i + 1 + 1) default < l.getD (2 * i + 1) default
      · rw [GoHeap.smallerChild, if_pos ⟨h2, hr⟩, if_pos (decide_eq_true hr)]
      · rw [GoHeap.smallerChild, if_neg (fun h => hr h.2), if_neg (by simpa using hr)]
    rw [downLoop, dif_neg hj1, if_pos hj2, listIface_Less, ok_bind]
    simp only [id, listIface_Less, ok_bind]
    by_cases hlt : l.getD (GoHeap.smallerChild l i n) default < l.getD i default
    · rw [GoHeap.downLoop_of_lt (by omega) hlt, hc]
      rw [hc] at hlt
      have ih' := ih (decide (l.getD (2 * i + 1 + 1) default < l.getD (2 * i + 1) default))
      simp only [dite_eq_ite] at ih'
      simp only [hlt, decide_true, Bool.not_true, Bool.false_eq_true, if_false, listIface_Swap,
        ok_bind]
      exact ih' _
    · rw [GoHeap.downLoop_of_not_lt (by omega) hlt]
      rw [hc] at hlt
      simp only [hlt, decide_false, Bool.not_false, if_true]
      rfl
  | case3 l i _ hj1 _ hj2 ih =>
    -- 左の子だけ
    have hc : GoHeap.smallerChild l i n = 2 * i + 1 := by
      simp only [GoHeap.smallerChild]
      split_ifs with h
      · omega
      · rfl
    rw [downLoop, dif_neg hj1, if_neg hj2]
    simp only [pure_bind, Bool.false_eq_true, if_false, id, listIface_Less, ok_bind]
    by_cases hlt : l.getD (GoHeap.smallerChild l i n) default < l.getD i default
    · rw [GoHeap.downLoop_of_lt (by omega) hlt, hc]
      rw [hc] at hlt
      have ih' := ih false
      simp only [dite_eq_ite, Bool.false_eq_true, if_false] at ih'
      simp only [hlt, decide_true, Bool.not_true, Bool.false_eq_true, if_false, listIface_Swap,
        ok_bind]
      exact ih' _
    · rw [GoHeap.downLoop_of_not_lt (by omega) hlt]
      rw [hc] at hlt
      simp only [hlt, decide_false, Bool.not_false, if_true]
      rfl

theorem down_listIface_id (l : List α) (i n : Nat) :
    down (listIface (id : α → α)) l i n = .ok (GoHeap.down l i n) := by
  rw [down, downLoop_listIface_id, ok_bind]
  rfl

theorem Push_listIface_id (l : List α) (x : α) :
    Push (listIface (id : α → α)) l x = .ok (GoHeap.push l x) := by
  rw [Push, listIface_Push, ok_bind, listIface_Len, List.length_append, List.length_singleton,
    Nat.add_sub_cancel, up_listIface_id]
  rfl

theorem Pop_listIface_id {l : List α} (hne : l ≠ []) :
    Pop (listIface (id : α → α)) l = .ok ((GoHeap.pop l).1, some (GoHeap.pop l).2) := by
  have hl : 0 < l.length := List.length_pos_iff.mpr hne
  have hb : (GoHeap.down (GoHeap.swap l 0 (l.length - 1)) 0 (l.length - 1)).1.length =
      l.length - 1 + 1 := by
    rw [GoHeap.down, GoHeap.length_downLoop, GoHeap.length_swap]
    omega
  obtain ⟨hd, hg⟩ := dropLast_getLast?_of_length hb
  rw [Pop, listIface_Len, last_eq hl, ← Int.natCast_zero, listIface_Swap, ok_bind,
    Int.toNat_natCast, down_listIface_id, ok_bind]
  simp only [listIface_Pop, hd, hg]
  rfl

theorem Remove_listIface_id {l : List α} {i : Nat} (hi : i < l.length) :
    Remove (listIface (id : α → α)) l i = .ok ((GoHeap.remove l i).1, some (GoHeap.remove l i).2) := by
  have hl : 0 < l.length := by omega
  -- `Pop` の前の列：`GoHeap.remove` の `b`
  set b := if l.length - 1 ≠ i then
      if (GoHeap.down (GoHeap.swap l i (l.length - 1)) i (l.length - 1)).2 then
        (GoHeap.down (GoHeap.swap l i (l.length - 1)) i (l.length - 1)).1
      else GoHeap.up (GoHeap.down (GoHeap.swap l i (l.length - 1)) i (l.length - 1)).1 i
    else l with hbdef
  have hfix : (if ((listIface (id : α → α)).Len l : Int) - 1 ≠ i then (do
      let t ← (listIface (id : α → α)).Swap l i (((listIface (id : α → α)).Len l : Int) - 1)
      let (t, moved) ← down (listIface (id : α → α)) t i
        (((listIface (id : α → α)).Len l : Int) - 1).toNat
      if !moved then up (listIface (id : α → α)) t i else pure t) else pure l) = .ok b := by
    rw [listIface_Len, last_eq hl, hbdef]
    by_cases hni : l.length - 1 ≠ i
    · have hni' : ((l.length - 1 : Nat) : Int) ≠ i := by omega
      rw [if_pos hni', if_pos hni, listIface_Swap, ok_bind, Int.toNat_natCast, down_listIface_id,
        ok_bind]
      cases hmv : (GoHeap.down (GoHeap.swap l i (l.length - 1)) i (l.length - 1)).2 with
      | false => simp only [hmv, Bool.not_false, if_true, up_listIface_id, Bool.false_eq_true,
          if_false]
      | true => simp only [hmv, Bool.not_true, Bool.false_eq_true, if_false, if_true]; rfl
    · have hni' : ¬ ((l.length - 1 : Nat) : Int) ≠ i := by omega
      rw [if_neg hni', if_neg hni]
      rfl
  have hlb : b.length = l.length - 1 + 1 := by
    rw [hbdef]
    split_ifs
    · rw [GoHeap.down, GoHeap.length_downLoop, GoHeap.length_swap]
      omega
    · rw [GoHeap.length_up, GoHeap.down, GoHeap.length_downLoop, GoHeap.length_swap]
      omega
    · omega
  obtain ⟨hd, hg⟩ := dropLast_getLast?_of_length hlb
  rw [Remove, hfix, ok_bind, listIface_Pop, hd, hg]
  rfl

end GoHeapEq

/-! ## 鍵で比べる列から、鍵の列へ -/

section MapKey

variable {α β : Type} [Inhabited α] [Inhabited β]

theorem getD_map_of_lt {l : List α} (f : α → β) {i : Nat} (hi : i < l.length) :
    (l.map f).getD i default = f (l.getD i default) := by
  simp only [List.getD_eq_getElem?_getD, List.getElem?_map, List.getElem?_eq_getElem hi]
  rfl

theorem map_swap {l : List α} (f : α → β) {i j : Nat} (hi : i < l.length) (hj : j < l.length) :
    (GoHeap.swap l i j).map f = GoHeap.swap (l.map f) i j := by
  rw [GoHeap.swap, GoHeap.swap, List.map_set, List.map_set, getD_map_of_lt f hi,
    getD_map_of_lt f hj]

/-- 鍵で比べる列の interface は、鍵の列の interface に写る。 -/
theorem sim_map_key [LinearOrder β] (key : α → β) :
    Sim (listIface key) (listIface (id : β → β)) (fun _ => True) (List.map key) (Option.map key) where
  len l _ := by simp
  less l i j _ hi hj := by
    simp only [listIface_Len] at hi hj
    refine ⟨_, listIface_Less l i j, ?_⟩
    rw [listIface_Less, getD_map_of_lt key hi, getD_map_of_lt key hj]
    rfl
  swap l i j _ hi hj := by
    simp only [listIface_Len] at hi hj
    exact ⟨_, listIface_Swap l i j, trivial, by simp, by rw [listIface_Swap, map_swap key hi hj]⟩
  pop l _ _ := ⟨_, _, listIface_Pop l, trivial, by
    rw [listIface_Pop, List.map_dropLast, List.getLast?_map]⟩

end MapKey

/-! ## 入れ替えで保たれる性質 -/

section Inv

variable {σ α ρ ε : Type} (h : Iface σ α ρ ε)

/-- `up h s j` の `Swap` は、`k ≤ j` の親子 `((k - 1) / 2, k)` だけ。 -/
theorem up_inv (P : σ → Prop) {j0 : Nat}
    (hP : ∀ s s' (k : Nat), P s → 0 < k → k ≤ j0 →
      h.Swap s ((k - 1) / 2 : Nat) k = .ok s' → P s') :
    ∀ {s s' : σ} {j : Nat}, j ≤ j0 → P s → up h s j = .ok s' → P s' := by
  intro s s' j
  induction s, j using up.induct with
  | case1 s j _ hij =>
    intro _ hs hup
    rw [up, dif_pos hij] at hup
    cases hup
    exact hs
  | case2 s j _ hij ih =>
    intro hj hs hup
    rw [up, dif_neg hij] at hup
    obtain ⟨b, -, hb⟩ := bind_eq_ok.mp hup
    cases b with
    | false =>
      cases hb
      exact hs
    | true =>
      obtain ⟨t, ht, hrec⟩ := bind_eq_ok.mp hb
      exact ih t (by omega) (hP s t j hs (by omega) hj ht) hrec

/-- `downLoop h s i n` の `Swap` は、`i < j < n` の `(i, j)` だけ。 -/
theorem downLoop_inv (P : σ → Prop) {n : Nat}
    (hP : ∀ s s' (i j : Nat), P s → i < j → j < n → h.Swap s i j = .ok s' → P s') :
    ∀ {s s' : σ} {i k : Nat}, P s → downLoop h s i n = .ok (s', k) → P s' := by
  intro s s' i k
  induction s, i using downLoop.induct h n with
  | case1 s i _ hj1 =>
    intro hs hd
    rw [downLoop, dif_pos hj1] at hd
    cases hd
    exact hs
  | case2 s i _ hj1 _ hj2 ih =>
    intro hs hd
    rw [downLoop, dif_neg hj1, if_pos hj2] at hd
    obtain ⟨r, -, hd⟩ := bind_eq_ok.mp hd
    obtain ⟨b, -, hd⟩ := bind_eq_ok.mp hd
    cases b with
    | false =>
      cases hd
      exact hs
    | true =>
      obtain ⟨t, ht, hrec⟩ := bind_eq_ok.mp hd
      have hsw := hP s t i _ hs (by split <;> omega) (by split <;> omega) ht
      have ih' := ih r t
      simp only [dite_eq_ite] at ih'
      exact ih' hsw hrec
  | case3 s i _ hj1 _ hj2 ih =>
    intro hs hd
    rw [downLoop, dif_neg hj1, if_neg hj2, pure_bind] at hd
    obtain ⟨b, -, hd⟩ := bind_eq_ok.mp hd
    cases b with
    | false =>
      cases hd
      exact hs
    | true =>
      obtain ⟨t, ht, hrec⟩ := bind_eq_ok.mp hd
      have hsw := hP s t i (2 * i + 1) hs (by omega) (by omega) ht
      have ih' := ih false t
      simp only [dite_eq_ite, Bool.false_eq_true, if_false] at ih'
      exact ih' hsw hrec

end Inv

/-! ## 列の上の heap の操作：並べ替えと、触らない位置 -/

section ListFacts

variable {α : Type} [Inhabited α] (lt : α → α → Bool)

/-- `up` は並べ替えで、`j` より後ろの位置はそのまま。 -/
theorem up_relIface {l : List α} {j : Nat} (hj : j < l.length) :
    ∃ t, up (relIface lt) l j = .ok t ∧ t.Perm l ∧
      ∀ m, j < m → t.getD m default = l.getD m default := by
  obtain ⟨t, ht⟩ := exists_ok (up (relIface lt) l j)
  refine ⟨t, ht, up_inv (relIface lt)
    (fun t => t.Perm l ∧ ∀ m, j < m → t.getD m default = l.getD m default) ?_ (Nat.le_refl _)
    ⟨List.Perm.refl l, fun _ _ => rfl⟩ ht⟩
  rintro t t' k ⟨hp, hf⟩ hk0 hkj hsw
  rw [relIface_Swap] at hsw
  cases hsw
  have hkl : k < t.length := by rw [hp.length_eq]; omega
  refine ⟨(GoHeap.swap_perm (by omega) hkl).trans hp, fun m hm => ?_⟩
  rw [GoHeap.getD_swap_of_ne (by omega) (by omega), hf m hm]

/-- `down` は並べ替えで、`n` から後ろの位置はそのまま。 -/
theorem down_relIface {l : List α} (i : Nat) {n : Nat} (hn : n ≤ l.length) :
    ∃ t b, down (relIface lt) l i n = .ok (t, b) ∧ t.Perm l ∧
      ∀ m, n ≤ m → t.getD m default = l.getD m default := by
  obtain ⟨⟨t, k⟩, ht⟩ := exists_ok (downLoop (relIface lt) l i n)
  refine ⟨t, decide (k > i), by rw [down, ht]; rfl, downLoop_inv (relIface lt)
    (fun t => t.Perm l ∧ ∀ m, n ≤ m → t.getD m default = l.getD m default) ?_
    ⟨List.Perm.refl l, fun _ _ => rfl⟩ ht⟩
  rintro t t' i' j' ⟨hp, hf⟩ hij hjn hsw
  rw [relIface_Swap] at hsw
  cases hsw
  have hjl : j' < t.length := by rw [hp.length_eq]; omega
  refine ⟨(GoHeap.swap_perm (by omega) hjl).trans hp, fun m hm => ?_⟩
  rw [GoHeap.getD_swap_of_ne (by omega) (by omega), hf m hm]

/-- `heap.Push`：足した列の並べ替え。 -/
theorem Push_relIface (l : List α) (x : α) :
    ∃ t, Push (relIface lt) l x = .ok t ∧ t.Perm (l ++ [x]) := by
  obtain ⟨t, ht, hp, -⟩ := up_relIface lt (l := l ++ [x]) (j := l.length) (by simp)
  refine ⟨t, ?_, hp⟩
  rw [Push, relIface_Push, ok_bind, relIface_Len, List.length_append, List.length_singleton,
    Nat.add_sub_cancel]
  exact ht

/-- 外す前の列 `b` の末尾が `r` なら、`Pop` は `r` を返し、残りと `r` で `b` になる。 -/
theorem Pop_last {b : List α} {n : Nat} (hb : b.length = n + 1) :
    (relIface lt).Pop b = .ok (b.take n, some (b.getD n default)) ∧
      b.take n ++ [b.getD n default] = b := by
  obtain ⟨hd, hg⟩ := dropLast_getLast?_of_length hb
  exact ⟨by rw [relIface_Pop, hd, hg], GoHeap.take_append_getD hb⟩

/-- `heap.Pop`：根を返し、残りと根で元の列の並べ替え。 -/
theorem Pop_relIface {l : List α} (hne : l ≠ []) :
    ∃ l', Pop (relIface lt) l = .ok (l', some (l.getD 0 default)) ∧
      (l' ++ [l.getD 0 default]).Perm l := by
  have hl : 0 < l.length := List.length_pos_iff.mpr hne
  set n := l.length - 1 with hn
  -- 根と末尾を入れ替え、末尾の前までで下ろす：末尾は根のまま
  obtain ⟨t, b, hd, hp, hf⟩ := down_relIface lt (l := GoHeap.swap l 0 n) 0 (n := n)
    (by rw [GoHeap.length_swap]; omega)
  have htn : t.getD n default = l.getD 0 default := by
    rw [hf n (Nat.le_refl _), GoHeap.getD_swap hl (by omega), if_pos rfl]
  have hsp := GoHeap.swap_perm (a := l) hl (by omega : n < l.length)
  have htl : t.length = n + 1 := by rw [hp.length_eq, GoHeap.length_swap]; omega
  obtain ⟨hpop, happ⟩ := Pop_last lt htl
  refine ⟨t.take n, ?_, ?_⟩
  · rw [Pop, relIface_Len, last_eq hl, ← Int.natCast_zero, relIface_Swap, ok_bind,
      Int.toNat_natCast, ← hn, hd, ok_bind]
    dsimp only
    rw [hpop, htn]
  · rw [← htn, happ]
    exact hp.trans hsp

/-- `heap.Remove(h, i)`：`i` 番目を返し、残りとそれで元の列の並べ替え。 -/
theorem Remove_relIface {l : List α} {i : Nat} (hi : i < l.length) :
    ∃ l', Remove (relIface lt) l i = .ok (l', some (l.getD i default)) ∧
      (l' ++ [l.getD i default]).Perm l := by
  have hl : 0 < l.length := by omega
  set n := l.length - 1 with hn
  -- `Pop` の前の列 `b`：`l` の並べ替えで、末尾が `i` 番目
  obtain ⟨b, hfix, hbp, hbn⟩ : ∃ b,
      (if ((relIface lt).Len l : Int) - 1 ≠ i then (do
        let t ← (relIface lt).Swap l i (((relIface lt).Len l : Int) - 1)
        let (t, moved) ← down (relIface lt) t i (((relIface lt).Len l : Int) - 1).toNat
        if !moved then up (relIface lt) t i else pure t) else pure l) = .ok b ∧
      b.Perm l ∧ b.getD n default = l.getD i default := by
    rw [relIface_Len, last_eq hl, ← hn]
    by_cases hni : (n : Int) ≠ i
    · have hin : i < n := by omega
      have hsp := GoHeap.swap_perm (a := l) hi (by omega : n < l.length)
      have hsn : (GoHeap.swap l i n).getD n default = l.getD i default := by
        rw [GoHeap.getD_swap hi (by omega), if_pos rfl]
      obtain ⟨t, mv, hd, hp, hf⟩ := down_relIface lt (l := GoHeap.swap l i n) i (n := n)
        (by rw [GoHeap.length_swap]; omega)
      rw [if_pos hni, relIface_Swap, ok_bind, Int.toNat_natCast, hd, ok_bind]
      cases mv with
      | false =>
        -- 下りなかったので上げる：`i` より後ろの末尾は動かない
        obtain ⟨u, hu, hup, huf⟩ := up_relIface lt (l := t) (j := i)
          (by rw [hp.length_eq, GoHeap.length_swap]; omega)
        refine ⟨u, by simp only [Bool.not_false, if_true]; exact hu, hup.trans (hp.trans hsp), ?_⟩
        rw [huf n hin, hf n (Nat.le_refl _), hsn]
      | true =>
        refine ⟨t, rfl, hp.trans hsp, ?_⟩
        rw [hf n (Nat.le_refl _), hsn]
    · have hni' : n = i := by omega
      rw [if_neg hni]
      exact ⟨l, rfl, List.Perm.refl l, by rw [hni']⟩
  have hbl : b.length = n + 1 := by rw [hbp.length_eq]; omega
  obtain ⟨hpop, happ⟩ := Pop_last lt hbl
  refine ⟨b.take n, ?_, ?_⟩
  · rw [Remove, hfix, ok_bind, hpop, hbn]
  · rw [← hbn, happ]
    exact hbp

end ListFacts

/-! ## 鍵の heap の順 -/

section Specs

variable {α β : Type} [Inhabited α] [Inhabited β] [LinearOrder β] (key : α → β)

theorem Push_listIface_map {l : List α} {x : α} {t : List α}
    (ht : Push (listIface key) l x = .ok t) : t.map key = GoHeap.push (l.map key) (key x) := by
  have hpush : ∃ s', (listIface key).Push l x = .ok s' ∧ True ∧
      (listIface key).Len s' = (listIface key).Len l + 1 ∧
      (listIface (id : β → β)).Push (l.map key) (key x) = .ok (s'.map key) :=
    ⟨l ++ [x], listIface_Push l x, trivial, by simp, by rw [listIface_Push, List.map_append]; rfl⟩
  obtain ⟨t', h₁, -, -, h₂⟩ := Push_sim (sim_map_key key) hpush
  rw [ht] at h₁
  cases h₁
  rw [Push_listIface_id] at h₂
  exact (Except.ok.inj h₂).symm

theorem Pop_listIface_map {l : List α} (hne : l ≠ []) {t : List α} {r : Option α}
    (ht : Pop (listIface key) l = .ok (t, r)) : t.map key = (GoHeap.pop (l.map key)).1 := by
  have hl : 0 < (listIface key).Len l := List.length_pos_iff.mpr hne
  obtain ⟨t', r', h₁, -, h₂⟩ := Pop_sim (sim_map_key key) trivial hl
  rw [ht] at h₁
  cases h₁
  rw [Pop_listIface_id (by simpa using hne)] at h₂
  exact (Prod.mk.inj (Except.ok.inj h₂)).1.symm

theorem Remove_listIface_map {l : List α} {i : Nat} (hi : i < l.length) {t : List α}
    {r : Option α} (ht : Remove (listIface key) l i = .ok (t, r)) :
    t.map key = (GoHeap.remove (l.map key) i).1 := by
  obtain ⟨t', r', h₁, -, h₂⟩ := Remove_sim (sim_map_key key) trivial (i := i) (by simpa using hi)
  rw [ht] at h₁
  cases h₁
  rw [Remove_listIface_id (by simpa using hi)] at h₂
  exact (Prod.mk.inj (Except.ok.inj h₂)).1.symm

/-- 鍵の heap に足すと、鍵の heap で、足した列の並べ替え。 -/
theorem Push_listIface_spec {l : List α} (hl : GoHeap.IsHeap (l.map key)) (x : α) :
    ∃ t, Push (listIface key) l x = .ok t ∧ GoHeap.IsHeap (t.map key) ∧ t.Perm (l ++ [x]) := by
  obtain ⟨t, ht, hp⟩ := Push_relIface (fun a b => decide (key a < key b)) l x
  refine ⟨t, ht, ?_, hp⟩
  rw [Push_listIface_map key ht]
  exact (GoHeap.push_spec hl (key x)).1

/-- 鍵の heap から根を外すと、鍵の heap が残る。 -/
theorem Pop_listIface_spec {l : List α} (hl : GoHeap.IsHeap (l.map key)) (hne : l ≠ []) :
    ∃ t, Pop (listIface key) l = .ok (t, some (l.getD 0 default)) ∧ GoHeap.IsHeap (t.map key) ∧
      (t ++ [l.getD 0 default]).Perm l := by
  obtain ⟨t, ht, hp⟩ := Pop_relIface (fun a b => decide (key a < key b)) hne
  refine ⟨t, ht, ?_, hp⟩
  rw [Pop_listIface_map key hne ht]
  exact (GoHeap.pop_spec hl (by simpa using hne)).1

/-- 鍵の heap から `i` 番目を外すと、鍵の heap が残る。 -/
theorem Remove_listIface_spec {l : List α} (hl : GoHeap.IsHeap (l.map key)) {i : Nat}
    (hi : i < l.length) :
    ∃ t, Remove (listIface key) l i = .ok (t, some (l.getD i default)) ∧
      GoHeap.IsHeap (t.map key) ∧ (t ++ [l.getD i default]).Perm l := by
  obtain ⟨t, ht, hp⟩ := Remove_relIface (fun a b => decide (key a < key b)) hi
  refine ⟨t, ht, ?_, hp⟩
  rw [Remove_listIface_map key hi ht]
  exact (GoHeap.remove_spec hl (by simpa using hi)).1

/-- 鍵の heap の根の鍵は、どの要素の鍵より大きくない。 -/
theorem root_le_of_isHeap {l : List α} (hl : GoHeap.IsHeap (l.map key)) {x : α} (hx : x ∈ l) :
    key (l.getD 0 default) ≤ key x := by
  obtain ⟨c, hc, rfl⟩ := List.getElem_of_mem hx
  have h0 : 0 < l.length := by omega
  have := GoHeap.HeapFrom.root_le hl c (by simpa using hc)
  have hcx : l.getD c default = l[c] := by
    rw [List.getD_eq_getElem?_getD, List.getElem?_eq_getElem hc, Option.getD_some]
  rwa [getD_map_of_lt key h0, getD_map_of_lt key hc, hcx] at this

end Specs

end HeapIface
