import Bullions.Prque.LazyQueue
import Bullions.Prque.Properties.Run
import Mathlib

/-!
# `LazyQueue` の性質：仮想の位置と、入っている値

`LazyQueue` の二つの `sstack` は、`queue[j]` の位置 `i` を仮想の位置 `2i + c` として知らせる。
`c` は `queue[j]` の `sstack` の知らせ方（`setIndex0` なら `0`、`setIndex1` なら `1`）で、
`Remove(index)` は `queue[index&1^indexOffset]` を選ぶ。そこで `queue[j]` の知らせ方は
`j ^ indexOffset` でなければならない。`refresh` は二つを入れ替えて `indexOffset` を反転する
ので、これを保つ。`Reset` は `indexOffset` を見ずに `queue[0]` を `setIndex0`、`queue[1]` を
`setIndex1` で作り直すので、`indexOffset = 1` のときにこれを壊す。

* `Beside`：一つの `sstack` を heap で動かす間、もう一つの `sstack` の値の覚えは変わらない
  （`Reporting.beside`）。`popQueue` は知らせない（`Reporting.silent`）。
* `Tracking`：`LazyQueue` の不変条件。二つの `sstack` の値はどれも違い、値ごとに覚えている
  位置はその item の仮想の位置。
-/

namespace Prque

open ExceptSpec

variable {V W : Type}

/-! ## 仮想の位置の算術 -/

/-- `queue` の位置 `i` の仮想の位置 `2i + c`。`-1`（外れた）はそのまま。 -/
def sideIndex (c : Int) (i : Int) : Int := if i = -1 then -1 else i + i + c

/-- 知らせ方 `c` の `setIndex`：`c = 0` なら `setIndex0`、でなければ `setIndex1`。 -/
def sideCallback (setIndex : SetIndexCallback V W) (c : Int) : SetIndexCallback V W :=
  if c = 0 then setIndex0 setIndex else setIndex1 setIndex

theorem sideIndex_natCast (c : Int) (k : Nat) : sideIndex c k = (k : Int) + k + c := by
  rw [sideIndex, if_neg (by omega)]

theorem land_natCast_one (n : Nat) : Int.land (n : Int) 1 = ((n % 2 : Nat) : Int) := by
  show ((n &&& 1 : Nat) : Int) = _
  rw [Nat.and_one_is_mod]

/-- 仮想の位置 `2k + c` の `index&1` は `c`。 -/
theorem land_virtual (k : Nat) {c : Int} (hc : c = 0 ∨ c = 1) :
    Int.land ((k : Int) + k + c) 1 = c := by
  obtain ⟨n, hn, hcn⟩ : ∃ n : Nat, (k : Int) + k + c = n ∧ ((n % 2 : Nat) : Int) = c := by
    rcases hc with rfl | rfl
    · exact ⟨k + k, by omega, by omega⟩
    · exact ⟨k + k + 1, by omega, by omega⟩
  rw [hn, land_natCast_one, hcn]

/-- 仮想の位置 `2k + c` の `index>>1` は `k`。 -/
theorem shiftRight_virtual (k : Nat) {c : Int} (hc : c = 0 ∨ c = 1) :
    (((k : Int) + k + c) >>> (1 : Nat)).toNat = k := by
  rw [Int.shiftRight_eq_div_pow]
  rcases hc with rfl | rfl <;> omega

theorem xor_side {c o : Int} (hc : c = 0 ∨ c = 1) (ho : o = 0 ∨ o = 1) :
    Int.xor c o = if c = o then 0 else 1 := by
  rcases hc with rfl | rfl <;> rcases ho with rfl | rfl <;> decide

/-! ## 知らせの性質 -/

theorem report_some {s : Sstack V W} {f : SetIndexCallback V W} (h : s.setIndex = some f) (v : V)
    (i : Int) (w : W) : s.report v i w = f v i w := by
  rw [Sstack.report, h]

theorem report_none {s : Sstack V W} (h : s.setIndex = none) (v : V) (i : Int) (w : W) :
    s.report v i w = w := by
  rw [Sstack.report, h]

variable [Inhabited V]

/-- 知らせない `sstack`（`popQueue`）では、使う側の状態は変わらない。 -/
theorem Reporting.silent (w₀ : W) :
    Reporting (fun (_ : List (Item V)) _ => True)
      (fun (s : Sstack V W) w => s.setIndex = none ∧ w = w₀) where
  push s s' w x _ _ _ hidx hq := ⟨hidx.trans hq.1, by rw [report_none hq.1]; exact hq.2⟩
  swap s s' w i j _ _ _ _ hidx hq :=
    ⟨hidx.trans hq.1, by rw [report_none hq.1, report_none hq.1]; exact hq.2⟩
  pop s s' w _ _ _ hidx hq := ⟨hidx.trans hq.1, by rw [report_none hq.1]; exact hq.2⟩
  reset s w hq := hq

variable [DecidableEq V]

omit [Inhabited V] in
theorem sideCallback_record {c : Int} (hc : c = 0 ∨ c = 1) (v : V) (i : Int) (r : Reports V) :
    sideCallback record c v i r = Function.update r v (some (sideIndex c i)) := by
  rcases hc with rfl | rfl
  · by_cases hi : i = -1
    · simp [sideCallback, setIndex0, sideIndex, record, hi]
    · simp [sideCallback, setIndex0, sideIndex, record, hi]
  · by_cases hi : i = -1
    · subst hi
      simp [sideCallback, setIndex1, sideIndex, record]
    · simp [sideCallback, setIndex1, sideIndex, record, hi]

section Beside

variable {l other : List (Item V)}

omit [DecidableEq V] in
theorem not_mem_other (hnd : ((l ++ other).map Item.value).Nodup) {k : Nat} (hk : k < l.length) :
    (l.getD k default).value ∉ other.map Item.value := by
  rw [List.map_append] at hnd
  exact fun h => (List.nodup_append.mp hnd).2.2 _ (List.mem_map_of_mem (getD_mem hk)) _ h rfl

omit [Inhabited V] [DecidableEq V] in
theorem nodup_left (hnd : ((l ++ other).map Item.value).Nodup) : (l.map Item.value).Nodup := by
  rw [List.map_append] at hnd
  exact hnd.of_append_left

omit [Inhabited V] [DecidableEq V] in
theorem nodup_right (hnd : ((l ++ other).map Item.value).Nodup) : (other.map Item.value).Nodup := by
  rw [List.map_append] at hnd
  exact (List.nodup_append.mp hnd).2.1

omit [Inhabited V] [DecidableEq V] in
theorem nodup_of_perm_left {l' : List (Item V)} (hp : l'.Perm l)
    (hnd : ((l ++ other).map Item.value).Nodup) : ((l' ++ other).map Item.value).Nodup :=
  ((hp.append_right other).map Item.value).nodup_iff.mpr hnd

end Beside

/--
一つの `sstack` を heap で動かす間の知らせの性質：その `sstack` は `f` で知らせ、item の位置を
`g` で写して覚え、もう一つの列 `other` の値とは違い、`other` の覚え（`g'`）は変わらない。
-/
structure Beside (f : SetIndexCallback V (Reports V)) (g : Int → Int) (other : List (Item V))
    (g' : Int → Int) (s : Sstack V (Reports V)) (r : Reports V) : Prop where
  setIndex_eq : s.setIndex = some f
  nodup : ((s.items ++ other).map Item.value).Nodup
  here : ReportsAt g s.items r
  there : ReportsAt g' other r

/-- 足す item の値が、動かす列にも `other` にもない。 -/
def FreshBeside (other : List (Item V)) (l : List (Item V)) (x : Item V) : Prop :=
  x.value ∉ (l ++ other).map Item.value

/-- `f` が位置を `g` で写して覚えるなら、heap の操作で `Beside` は保たれる。 -/
theorem Reporting.beside {f : SetIndexCallback V (Reports V)} {g : Int → Int}
    (hf : ∀ v i r, f v i r = Function.update r v (some (g i))) (other : List (Item V))
    (g' : Int → Int) : Reporting (FreshBeside other) (Beside f g other g') where
  push s s' r x hv hF hit hidx hb := by
    have hx : x.value ∉ s.items.map Item.value := fun h => hF (by
      rw [List.map_append]
      exact List.mem_append_left _ h)
    have hxo : x.value ∉ other.map Item.value := fun h => hF (by
      rw [List.map_append]
      exact List.mem_append_right _ h)
    -- 足した item を `other` の後ろへ回した列の並べ替え
    have hperm : ((s.items ++ [x]) ++ other).Perm ((s.items ++ other) ++ [x]) := by
      rw [List.append_assoc, List.append_assoc]
      exact List.Perm.append_left _ List.perm_append_comm
    refine ⟨hidx.trans hb.setIndex_eq, ?_, ?_, ?_⟩
    · rw [hit]
      exact (hperm.map Item.value).nodup_iff.mpr (nodup_values_append hb.nodup hF)
    · rw [hit, report_some hb.setIndex_eq, hf, ← hv.length_items]
      exact hb.here.push hx
    · rw [report_some hb.setIndex_eq, hf]
      exact hb.there.update_of_not_mem hxo _
  swap s s' r i j hv hi hj hit hidx hb := by
    have hi' : i < s.items.length := by rw [hv.length_items]; exact hi
    have hj' : j < s.items.length := by rw [hv.length_items]; exact hj
    refine ⟨hidx.trans hb.setIndex_eq, ?_, ?_, ?_⟩
    · rw [hit]
      exact nodup_of_perm_left (GoHeap.swap_perm hi' hj') hb.nodup
    · rw [hit, report_some hb.setIndex_eq, report_some hb.setIndex_eq, hf, hf]
      exact hb.here.swap (nodup_left hb.nodup) hi' hj'
    · rw [report_some hb.setIndex_eq, report_some hb.setIndex_eq, hf, hf]
      exact (hb.there.update_of_not_mem (not_mem_other hb.nodup hj') _).update_of_not_mem
        (not_mem_other hb.nodup hi') _
  pop s s' r hv hne hit hidx hb := by
    have hlen : s.size - 1 = s.items.length - 1 := by rw [hv.length_items]
    have hlast : s.items.length - 1 < s.items.length := by rw [hv.length_items]; omega
    refine ⟨hidx.trans hb.setIndex_eq, ?_, ?_, ?_⟩
    · rw [hit]
      exact hb.nodup.sublist (((List.dropLast_sublist _).append_right other).map Item.value)
    · rw [hit, report_some hb.setIndex_eq, hf, hlen]
      exact hb.here.dropLast (nodup_left hb.nodup) _
    · rw [report_some hb.setIndex_eq, hf, hlen]
      exact hb.there.update_of_not_mem (not_mem_other hb.nodup hlast) _
  reset s r hb := by
    have hnil : s.Reset.items = [] := Sstack.items_newSstack s.setIndex
    refine ⟨hb.setIndex_eq, ?_, ?_, hb.there⟩
    · rw [hnil, List.nil_append]
      exact nodup_right hb.nodup
    · rw [hnil]
      exact ReportsAt.nil g r

/-! ## `LazyQueue` の不変条件 -/

/-- 列の item の値の多重集合。 -/
def vals (l : List (Item V)) : Multiset V := ↑(l.map Item.value)

omit [Inhabited V] [DecidableEq V] in
/-- 一つ外した列（`(l' ++ [x]).Perm l`）の値は、元の値から `x.value` を一つ除いたもの。 -/
theorem vals_of_perm_append {l l' : List (Item V)} {x : Item V} (h : (l' ++ [x]).Perm l) :
    vals l = x.value ::ₘ vals l' := by
  rw [vals, vals, Multiset.cons_coe, Multiset.coe_eq_coe]
  have hmap := (h.map Item.value).symm
  simp only [List.map_append, List.map_cons, List.map_nil] at hmap
  exact hmap.trans (List.perm_append_singleton _ _)

omit [Inhabited V] [DecidableEq V] in
@[simp] theorem vals_nil : vals ([] : List (Item V)) = 0 := rfl

omit [Inhabited V] [DecidableEq V] in
theorem mem_vals {l : List (Item V)} {v : V} : v ∈ vals l ↔ v ∈ l.map Item.value :=
  Multiset.mem_coe

namespace LazyQueue

/-- 二つの `sstack` と `popQueue` の item の値。 -/
def pending (q : LazyQueue V W) : Multiset V :=
  vals q.queue.1.items + vals q.queue.2.items + vals q.popQueue.items

/-- `LazyQueue` に入っている値：二つの `sstack` の item の値。 -/
def held (q : LazyQueue V W) : Multiset V := vals q.queue.1.items + vals q.queue.2.items

omit [Inhabited V] [DecidableEq V] in
theorem queues_fresh {q : LazyQueue V W} {v : V} (hv : v ∉ q.pending) :
    v ∉ (q.queue.2.items ++ q.queue.1.items).map Item.value := by
  simp only [pending, Multiset.mem_add, mem_vals, List.map_append, List.mem_append] at hv ⊢
  tauto

/--
`LazyQueue` の不変条件。`queue[0]` は知らせ方 `indexOffset`、`queue[1]` は `1 - indexOffset` で
知らせ、`popQueue` は知らせない。三つの `sstack` の値はどれも違い、二つの `queue` の item の値
ごとに覚えている位置は、その item の仮想の位置。
-/
structure Tracking (q : LazyQueue V (Reports V)) (r : Reports V) : Prop where
  setIndex_eq : q.setIndex = record
  offset : q.indexOffset = 0 ∨ q.indexOffset = 1
  valid₁ : q.queue.1.Valid
  valid₂ : q.queue.2.Valid
  validPop : q.popQueue.Valid
  callback₁ : q.queue.1.setIndex = some (sideCallback record q.indexOffset)
  callback₂ : q.queue.2.setIndex = some (sideCallback record (1 - q.indexOffset))
  silentPop : q.popQueue.setIndex = none
  nodup : q.pending.Nodup
  reports₁ : ReportsAt (sideIndex q.indexOffset) q.queue.1.items r
  reports₂ : ReportsAt (sideIndex (1 - q.indexOffset)) q.queue.2.items r

variable {q : LazyQueue V (Reports V)} {r : Reports V}

theorem Tracking.offset' (ht : Tracking q r) : 1 - q.indexOffset = 0 ∨ 1 - q.indexOffset = 1 := by
  rcases ht.offset with h | h <;> omega

theorem Tracking.nodup_queues (ht : Tracking q r) :
    ((q.queue.1.items ++ q.queue.2.items).map Item.value).Nodup := by
  have hle : vals q.queue.1.items + vals q.queue.2.items ≤ q.pending := Multiset.le_add_right _ _
  rw [vals, vals, Multiset.coe_add, ← List.map_append] at hle
  exact Multiset.coe_nodup.mp (Multiset.nodup_of_le hle ht.nodup)

/-- `queue[0]` を heap で動かすときの見方。 -/
theorem Tracking.beside₁ (ht : Tracking q r) :
    Beside (sideCallback record q.indexOffset) (sideIndex q.indexOffset) q.queue.2.items
      (sideIndex (1 - q.indexOffset)) q.queue.1 r :=
  ⟨ht.callback₁, ht.nodup_queues, ht.reports₁, ht.reports₂⟩

/-- `queue[1]` を heap で動かすときの見方。 -/
theorem Tracking.beside₂ (ht : Tracking q r) :
    Beside (sideCallback record (1 - q.indexOffset)) (sideIndex (1 - q.indexOffset))
      q.queue.1.items (sideIndex q.indexOffset) q.queue.2 r :=
  ⟨ht.callback₂, (List.perm_append_comm.map Item.value).nodup_iff.mp ht.nodup_queues,
    ht.reports₂, ht.reports₁⟩

omit [Inhabited V] [DecidableEq V] in
@[simp] theorem queueAt_zero (q : LazyQueue V W) : q.queueAt 0 = .ok q.queue.1 := rfl

omit [Inhabited V] [DecidableEq V] in
@[simp] theorem queueAt_one (q : LazyQueue V W) : q.queueAt 1 = .ok q.queue.2 := rfl

omit [Inhabited V] [DecidableEq V] in
@[simp] theorem setQueueAt_zero (q : LazyQueue V W) (s : Sstack V W) :
    q.setQueueAt 0 s = .ok { q with queue := (s, q.queue.2) } := rfl

omit [Inhabited V] [DecidableEq V] in
@[simp] theorem setQueueAt_one (q : LazyQueue V W) (s : Sstack V W) :
    q.setQueueAt 1 s = .ok { q with queue := (q.queue.1, s) } := rfl

/-- `Tracking` は `sstack` と `indexOffset`、`setIndex` しか見ない。 -/
theorem Tracking.of_fields {q' : LazyQueue V (Reports V)} (ht : Tracking q r)
    (hs : q'.setIndex = q.setIndex) (ho : q'.indexOffset = q.indexOffset) (hq : q'.queue = q.queue)
    (hp : q'.popQueue = q.popQueue) : Tracking q' r := by
  obtain ⟨queue, popQueue, period, maxUntil, indexOffset, setIndex, priority, maxPriority, l₁, l₂⟩ := q'
  dsimp only at hs ho hq hp
  subst hs ho hq hp
  exact ⟨ht.setIndex_eq, ht.offset, ht.valid₁, ht.valid₂, ht.validPop, ht.callback₁, ht.callback₂,
    ht.silentPop, ht.nodup, ht.reports₁, ht.reports₂⟩

/-! ### 一つの `sstack` を取り替えた後 -/

section Replace

variable {s : Sstack V (Reports V)} {r' : Reports V}

theorem Tracking.set₁ (ht : Tracking q r) (hv : s.Valid)
    (hb : Beside (sideCallback record q.indexOffset) (sideIndex q.indexOffset) q.queue.2.items
      (sideIndex (1 - q.indexOffset)) s r')
    (hnd : (vals s.items + vals q.queue.2.items + vals q.popQueue.items).Nodup) :
    Tracking { q with queue := (s, q.queue.2) } r' where
  setIndex_eq := ht.setIndex_eq
  offset := ht.offset
  valid₁ := hv
  valid₂ := ht.valid₂
  validPop := ht.validPop
  callback₁ := hb.setIndex_eq
  callback₂ := ht.callback₂
  silentPop := ht.silentPop
  nodup := hnd
  reports₁ := hb.here
  reports₂ := hb.there

theorem Tracking.set₂ (ht : Tracking q r) (hv : s.Valid)
    (hb : Beside (sideCallback record (1 - q.indexOffset)) (sideIndex (1 - q.indexOffset))
      q.queue.1.items (sideIndex q.indexOffset) s r')
    (hnd : (vals q.queue.1.items + vals s.items + vals q.popQueue.items).Nodup) :
    Tracking { q with queue := (q.queue.1, s) } r' where
  setIndex_eq := ht.setIndex_eq
  offset := ht.offset
  valid₁ := ht.valid₁
  valid₂ := hv
  validPop := ht.validPop
  callback₁ := ht.callback₁
  callback₂ := hb.setIndex_eq
  silentPop := ht.silentPop
  nodup := hnd
  reports₁ := hb.there
  reports₂ := hb.here

theorem Tracking.setPop (ht : Tracking q r) (hv : s.Valid) (hs : s.setIndex = none)
    (hnd : (vals q.queue.1.items + vals q.queue.2.items + vals s.items).Nodup) :
    Tracking { q with popQueue := s } r where
  setIndex_eq := ht.setIndex_eq
  offset := ht.offset
  valid₁ := ht.valid₁
  valid₂ := ht.valid₂
  validPop := hv
  callback₁ := ht.callback₁
  callback₂ := ht.callback₂
  silentPop := hs
  nodup := hnd
  reports₁ := ht.reports₁
  reports₂ := ht.reports₂

end Replace

/-! ### 一つの操作の仕様 -/

omit [Inhabited V] [DecidableEq V] in
@[simp] theorem liftPanic_ok {α : Type} (a : α) : liftPanic (.ok a : Except Panic α) = .ok a := rfl

/-- `q.Push(data)`：新しい値なら、`queue[1]` に入って `Tracking` を保つ。 -/
theorem Tracking.Push_spec (ht : Tracking q r) {data : V} (hx : data ∉ q.pending) :
    ∃ s r', q.Push r data = .ok ({ q with queue := (q.queue.1, s) }, r') ∧
      Tracking { q with queue := (q.queue.1, s) } r' ∧ vals s.items = data ::ₘ vals q.queue.2.items := by
  have hF : FreshBeside q.queue.1.items q.queue.2.items ⟨data, q.maxPriority data q.maxUntil r⟩ :=
    queues_fresh hx
  obtain ⟨s, r', hp, hv, hb, hperm⟩ := heap_Push_spec
    (Reporting.beside (sideCallback_record ht.offset') q.queue.1.items (sideIndex q.indexOffset))
    ht.valid₂ ht.beside₂ hF
  have hvals : vals s.items = data ::ₘ vals q.queue.2.items := vals_of_perm_append hperm.symm
  refine ⟨s, r', ?_, ht.set₂ hv hb ?_, hvals⟩
  · rw [Push, hp, liftPanic_ok, ok_bind]
    rfl
  · rw [hvals, Multiset.add_cons, Multiset.cons_add]
    exact Multiset.nodup_cons.mpr ⟨hx, ht.nodup⟩

/-- `queue[0]` から `x` を外した後（heap の `Pop` か `Remove`）。 -/
theorem Tracking.take₁ (ht : Tracking q r) {s : Sstack V (Reports V)} {r' : Reports V}
    {x : Item V} (hv : s.Valid)
    (hb : Beside (sideCallback record q.indexOffset) (sideIndex q.indexOffset) q.queue.2.items
      (sideIndex (1 - q.indexOffset)) s r')
    (hperm : (s.items ++ [x]).Perm q.queue.1.items) :
    Tracking { q with queue := (s, q.queue.2) } r' ∧
      q.pending = x.value ::ₘ ({ q with queue := (s, q.queue.2) } : LazyQueue V (Reports V)).pending ∧
      q.held = x.value ::ₘ ({ q with queue := (s, q.queue.2) } : LazyQueue V (Reports V)).held := by
  have hvals := vals_of_perm_append hperm
  have hpend : q.pending = x.value ::ₘ (vals s.items + vals q.queue.2.items + vals q.popQueue.items) := by
    rw [pending, hvals, Multiset.cons_add, Multiset.cons_add]
  refine ⟨ht.set₁ hv hb (Multiset.Nodup.of_cons (hpend ▸ ht.nodup)), hpend, ?_⟩
  rw [held, hvals, Multiset.cons_add]
  rfl

/-- `queue[1]` から `x` を外した後。 -/
theorem Tracking.take₂ (ht : Tracking q r) {s : Sstack V (Reports V)} {r' : Reports V}
    {x : Item V} (hv : s.Valid)
    (hb : Beside (sideCallback record (1 - q.indexOffset)) (sideIndex (1 - q.indexOffset))
      q.queue.1.items (sideIndex q.indexOffset) s r')
    (hperm : (s.items ++ [x]).Perm q.queue.2.items) :
    Tracking { q with queue := (q.queue.1, s) } r' ∧
      q.pending = x.value ::ₘ ({ q with queue := (q.queue.1, s) } : LazyQueue V (Reports V)).pending ∧
      q.held = x.value ::ₘ ({ q with queue := (q.queue.1, s) } : LazyQueue V (Reports V)).held := by
  have hvals := vals_of_perm_append hperm
  have hpend : q.pending = x.value ::ₘ (vals q.queue.1.items + vals s.items + vals q.popQueue.items) := by
    rw [pending, hvals, Multiset.add_cons, Multiset.cons_add]
  refine ⟨ht.set₂ hv hb (Multiset.Nodup.of_cons (hpend ▸ ht.nodup)), hpend, ?_⟩
  rw [held, hvals, Multiset.add_cons]
  rfl

omit [Inhabited V] [DecidableEq V] in
/-- `Remove` の分け方：`queue[k]` の heap の `Remove` が成り立てば、`Remove` はその値を返す。 -/
theorem Remove_eq_ok {q q' : LazyQueue V W} {w w' : W} {index : Int} {s s' : Sstack V W}
    {it : Item V} (h0 : 0 ≤ index)
    (hq : q.queueAt (Int.xor (Int.land index 1) q.indexOffset) = .ok s)
    (hr : HeapIface.Remove Sstack.iface (s, w) (index >>> (1 : Nat)).toNat = .ok ((s', w'), some it))
    (hset : q.setQueueAt (Int.xor (Int.land index 1) q.indexOffset) s' = .ok q') :
    q.Remove w index = .ok (q', w', some it.value) := by
  rw [Remove, if_neg (by omega)]
  simp only [hq, ok_bind, hr, liftPanic_ok, hset]
  rfl

/--
`q.Remove(index)` を、値 `x.value` について覚えている位置で呼ぶと、`x` の入っている `queue` から
それを外して返し、`Tracking` を保つ。
-/
theorem Tracking.Remove_spec (ht : Tracking q r) {x : Item V}
    (hx : x ∈ q.queue.1.items ∨ x ∈ q.queue.2.items) :
    ∃ k q' r', r x.value = some k ∧ q.Remove r k = .ok (q', r', some x.value) ∧ Tracking q' r' ∧
      q'.popQueue = q.popQueue ∧ q.held = x.value ::ₘ q'.held := by
  have hoff := ht.offset
  rcases hx with hx | hx
  · -- `queue[0]` の位置 `i`：仮想の位置 `2i + indexOffset` から `k = 0` が選ばれる
    obtain ⟨i, hi, rfl⟩ := List.getElem_of_mem hx
    have hget : q.queue.1.items.getD i default = q.queue.1.items[i] := List.getD_eq_getElem _ _ hi
    have hidx := ht.reports₁ i hi
    rw [hget, sideIndex_natCast] at hidx
    have hsize : i < q.queue.1.size := by rw [← ht.valid₁.length_items]; exact hi
    obtain ⟨s, r', hrm, hv, hb, hperm⟩ := heap_Remove_spec
      (Reporting.beside (sideCallback_record ht.offset) q.queue.2.items (sideIndex (1 - q.indexOffset)))
      ht.valid₁ ht.beside₁ hsize
    rw [hget] at hrm hperm
    obtain ⟨ht', -, hheld⟩ := ht.take₁ hv hb hperm
    have hk : Int.xor (Int.land ((i : Int) + i + q.indexOffset) 1) q.indexOffset = 0 := by
      rw [land_virtual i ht.offset, xor_side ht.offset ht.offset, if_pos rfl]
    have hr : HeapIface.Remove Sstack.iface (q.queue.1, r)
        (((i : Int) + i + q.indexOffset) >>> (1 : Nat)).toNat = .ok ((s, r'), some q.queue.1.items[i]) := by
      rw [shiftRight_virtual i ht.offset]
      exact hrm
    refine ⟨_, _, r', hidx, Remove_eq_ok (by omega) ?_ hr ?_, ht', rfl, hheld⟩
    · rw [hk, queueAt_zero]
    · rw [hk, setQueueAt_zero]
  · -- `queue[1]` の位置 `i`：仮想の位置 `2i + (1 - indexOffset)` から `k = 1` が選ばれる
    obtain ⟨i, hi, rfl⟩ := List.getElem_of_mem hx
    have hget : q.queue.2.items.getD i default = q.queue.2.items[i] := List.getD_eq_getElem _ _ hi
    have hidx := ht.reports₂ i hi
    rw [hget, sideIndex_natCast] at hidx
    have hsize : i < q.queue.2.size := by rw [← ht.valid₂.length_items]; exact hi
    obtain ⟨s, r', hrm, hv, hb, hperm⟩ := heap_Remove_spec
      (Reporting.beside (sideCallback_record ht.offset') q.queue.1.items (sideIndex q.indexOffset))
      ht.valid₂ ht.beside₂ hsize
    rw [hget] at hrm hperm
    obtain ⟨ht', -, hheld⟩ := ht.take₂ hv hb hperm
    have hk : Int.xor (Int.land ((i : Int) + i + (1 - q.indexOffset)) 1) q.indexOffset = 1 := by
      rw [land_virtual i ht.offset', xor_side ht.offset' ht.offset, if_neg (by omega)]
    have hr : HeapIface.Remove Sstack.iface (q.queue.2, r)
        (((i : Int) + i + (1 - q.indexOffset)) >>> (1 : Nat)).toNat = .ok ((s, r'), some q.queue.2.items[i]) := by
      rw [shiftRight_virtual i ht.offset']
      exact hrm
    refine ⟨_, _, r', hidx, Remove_eq_ok (by omega) ?_ hr ?_, ht', rfl, hheld⟩
    · rw [hk, queueAt_one]
    · rw [hk, setQueueAt_one]

/-! ### `refresh` と `Refresh` -/

section Loops

variable {W : Type} {b : Bool} {n : Nat} {q₀ q₂ : LazyQueue V W} {w w₁ w₂ : W}

omit [Inhabited V] [DecidableEq V] in
@[simp] theorem source_false (q : LazyQueue V W) : q.source false = q.queue.1 := rfl

omit [Inhabited V] [DecidableEq V] in
@[simp] theorem source_true (q : LazyQueue V W) : q.source true = q.popQueue := rfl

omit [Inhabited V] [DecidableEq V] in
theorem pushAllFrom_stop (h : (q₀.source b).Len = 0) : pushAllFrom b n q₀ w = .ok (q₀, w) := by
  cases n <;> exact if_neg (not_not_intro h)

omit [Inhabited V] [DecidableEq V] in
/-- `for src.Len() != 0` の一回：外して `Push` した後、残りの fuel で続ける。 -/
theorem pushAllFrom_step {s : Sstack V W} {it : Item V} (hne : (q₀.source b).Len ≠ 0)
    (hpop : HeapIface.Pop Sstack.iface (q₀.source b, w) = .ok ((s, w₁), some it))
    (hpush : (q₀.withSource b s).Push w₁ it.value = .ok (q₂, w₂)) :
    pushAllFrom b (n + 1) q₀ w = pushAllFrom b n q₂ w₂ := by
  rw [pushAllFrom, if_pos hne]
  simp only [hpop, liftPanic_ok, ok_bind, hpush]

omit [Inhabited V] [DecidableEq V] in
theorem size_of_take {s s₀ : Sstack V W} {x : Item V} (hv : s.Valid) (hv₀ : s₀.Valid)
    (hperm : (s.items ++ [x]).Perm s₀.items) : s.size + 1 = s₀.size := by
  rw [← hv.length_items, ← hv₀.length_items, ← hperm.length_eq, List.length_append,
    List.length_singleton]

omit [Inhabited V] [DecidableEq V] in
theorem items_eq_nil {s : Sstack V W} (hv : s.Valid) (h0 : s.size = 0) : s.items = [] :=
  List.eq_nil_of_length_eq_zero (by rw [hv.length_items]; exact h0)

end Loops

/--
`refresh` のループ `for q.queue[0].Len() != 0 { q.Push(heap.Pop(q.queue[0])…) }`：`size` 回で
`queue[0]` は空になり、値はすべて `queue[1]` に移る。ループは `queue` しか変えない。
-/
theorem Tracking.pushAllFrom_false (n : Nat) :
    ∀ {q : LazyQueue V (Reports V)} {r : Reports V}, Tracking q r → q.queue.1.size ≤ n →
      ∃ qs r', pushAllFrom false n q r = .ok ({ q with queue := qs }, r') ∧
        Tracking { q with queue := qs } r' ∧ qs.1.size = 0 ∧
        ({ q with queue := qs } : LazyQueue V (Reports V)).held = q.held := by
  -- fuel についての帰納法：一回ごとに `queue[0]` の `size` が一つ減る
  induction n with
  | zero =>
    intro q r ht hn
    have h0 : q.queue.1.size = 0 := by omega
    exact ⟨q.queue, r, pushAllFrom_stop h0, ht, h0, rfl⟩
  | succ n ih =>
    intro q r ht hn
    by_cases h0 : q.queue.1.size = 0
    · exact ⟨q.queue, r, pushAllFrom_stop h0, ht, h0, rfl⟩
    obtain ⟨s, r₁, hpop, hv, hb, hperm⟩ := heap_Pop_spec
      (Reporting.beside (sideCallback_record ht.offset) q.queue.2.items (sideIndex (1 - q.indexOffset)))
      ht.valid₁ ht.beside₁ (Nat.pos_of_ne_zero h0)
    obtain ⟨ht₁, hpend, hheld⟩ := ht.take₁ hv hb hperm
    -- 外した値は残りのどこにもないので、`Push` できる
    obtain ⟨s₂, r₂, hpush, ht₂, hvals⟩ := ht₁.Push_spec (Multiset.nodup_cons.mp (hpend ▸ ht.nodup)).1
    have hsize : s.size + 1 = q.queue.1.size := size_of_take hv ht.valid₁ hperm
    obtain ⟨qs, r', hloop, ht', hqs, hheld'⟩ := ih ht₂ (by show s.size ≤ n; omega)
    refine ⟨qs, r', ?_, ht', hqs, ?_⟩
    · rw [pushAllFrom_step (b := false) h0 hpop hpush]
      exact hloop
    · rw [hheld', hheld]
      show vals s.items + vals s₂.items = _ ::ₘ (vals s.items + vals q.queue.2.items)
      rw [hvals, Multiset.add_cons]

/-- `queue[0]` が空なら、二つを入れ替えて `indexOffset` を反転しても `Tracking` は保たれる。 -/
theorem Tracking.swap (ht : Tracking q r) (h0 : q.queue.1.size = 0) (m : AbsTime) :
    Tracking
      { q with queue := (q.queue.2, q.queue.1), indexOffset := 1 - q.indexOffset, maxUntil := m } r where
  setIndex_eq := ht.setIndex_eq
  offset := ht.offset'
  valid₁ := ht.valid₂
  valid₂ := ht.valid₁
  validPop := ht.validPop
  callback₁ := ht.callback₂
  callback₂ := by
    show q.queue.1.setIndex = some (sideCallback record (1 - (1 - q.indexOffset)))
    rw [Int.sub_sub_self]
    exact ht.callback₁
  silentPop := ht.silentPop
  nodup := by
    show (vals q.queue.2.items + vals q.queue.1.items + vals q.popQueue.items).Nodup
    rw [Multiset.add_comm (vals q.queue.2.items)]
    exact ht.nodup
  reports₁ := ht.reports₂
  reports₂ := by
    -- 空の `queue[0]` には覚えるものがない
    show ReportsAt _ q.queue.1.items r
    rw [items_eq_nil ht.valid₁ h0]
    exact ReportsAt.nil _ r

/-- `q.refresh(now)`：`queue[0]` を移して入れ替え、`indexOffset` を反転し、値と `Tracking` を保つ。 -/
theorem Tracking.refresh_spec (ht : Tracking q r) (now : AbsTime) :
    ∃ q' r', q.refresh r now = .ok (q', r') ∧ Tracking q' r' ∧ q'.held = q.held ∧
      q' = { q with
        queue := q'.queue
        indexOffset := 1 - q.indexOffset
        maxUntil := now + q.period + q.period } := by
  have ht₀ : Tracking { q with maxUntil := now + q.period } r := ht.of_fields rfl rfl rfl rfl
  obtain ⟨qs, r', hloop, ht', h0, hheld⟩ := ht₀.pushAllFrom_false q.queue.1.size le_rfl
  refine ⟨_, r', ?_, ht'.swap h0 (now + q.period + q.period), ?_, rfl⟩
  · rw [refresh]
    simp only [hloop, ok_bind]
    rfl
  · show vals qs.2.items + vals qs.1.items = q.held
    rw [Multiset.add_comm]
    exact hheld

section RefreshLoop

variable {W : Type} {n : Nat} {q₀ q₁ : LazyQueue V W} {w w₁ : W} {now : AbsTime}

omit [Inhabited V] [DecidableEq V] in
theorem refreshWhile_stop (h : ¬ now - q₀.lastRefresh2 ≥ q₀.period * 2) :
    refreshWhile n q₀ w now = .ok (q₀, w) := by
  cases n <;> exact if_neg h

omit [Inhabited V] [DecidableEq V] in
/-- `Refresh` のループの一回：`refresh` の後、`lastRefresh2, lastRefresh1 = lastRefresh1, now`。 -/
theorem refreshWhile_step (hr : q₀.refresh w now = .ok (q₁, w₁))
    (h : now - q₀.lastRefresh2 ≥ q₀.period * 2) :
    refreshWhile (n + 1) q₀ w now =
      refreshWhile n { q₁ with lastRefresh2 := q₁.lastRefresh1, lastRefresh1 := now } w₁ now := by
  rw [refreshWhile, if_pos h]
  simp only [hr, ok_bind]

end RefreshLoop

/--
`q.Refresh()`：`0 < period*2` なら、二回までの `refresh` で止まり、値と `Tracking` を保つ。
二回目の後は `lastRefresh2 = now` なので、三回目の条件 `0 >= period*2` は偽。
-/
theorem Tracking.Refresh_spec (ht : Tracking q r) (now : AbsTime) (hp : 0 < q.period * 2) :
    ∃ q' r', q.Refresh r now = .ok (q', r') ∧ Tracking q' r' ∧ q'.held = q.held ∧
      q'.popQueue = q.popQueue ∧ q'.period = q.period := by
  rw [Refresh]
  by_cases c₀ : now - q.lastRefresh2 ≥ q.period * 2
  swap
  · exact ⟨q, r, refreshWhile_stop c₀, ht, rfl, rfl, rfl⟩
  obtain ⟨q₁, r₁, hr₁, ht₁, hh₁, hq₁⟩ := ht.refresh_spec now
  have hp₁ : q₁.period = q.period := by rw [hq₁]
  have hpop₁ : q₁.popQueue = q.popQueue := by rw [hq₁]
  rw [refreshWhile_step hr₁ c₀]
  by_cases c₁ : now - q₁.lastRefresh1 ≥ q₁.period * 2
  swap
  · exact ⟨_, r₁, refreshWhile_stop c₁, ht₁.of_fields rfl rfl rfl rfl, hh₁, hpop₁, hp₁⟩
  obtain ⟨q₂, r₂, hr₂, ht₂, hh₂, hq₂⟩ :=
    (ht₁.of_fields rfl rfl rfl rfl :
      Tracking { q₁ with lastRefresh2 := q₁.lastRefresh1, lastRefresh1 := now } r₁).refresh_spec now
  have hl₂ : q₂.lastRefresh1 = now := by rw [hq₂]
  have hp₂ : q₂.period = q₁.period := by rw [hq₂]
  have hpop₂ : q₂.popQueue = q₁.popQueue := by rw [hq₂]
  rw [refreshWhile_step hr₂ c₁]
  -- 三回目の条件は `now - now >= period*2`、つまり `0 >= period*2` で、偽
  have c₂ : ¬ now - q₂.lastRefresh1 ≥ q₂.period * 2 := by
    rw [hl₂, hp₂, hp₁, Int64.sub_self]
    exact Int64.not_le.mpr hp
  exact ⟨_, r₂, refreshWhile_stop c₂, ht₂.of_fields rfl rfl rfl rfl, hh₂.trans hh₁,
    hpop₂.trans hpop₁, hp₂.trans hp₁⟩

/--
`period*2 <= 0`（`int64` で回ったときも含む）なら、更新の時が来ていて
`now - lastRefresh1 >= period*2` のとき、`Refresh` のループはどれだけ回しても止まらない。
-/
theorem Tracking.refreshWhile_diverges (n : Nat) :
    ∀ {q : LazyQueue V (Reports V)} {r : Reports V} {now : AbsTime}, Tracking q r →
      q.period * 2 ≤ 0 → now - q.lastRefresh2 ≥ q.period * 2 → now - q.lastRefresh1 ≥ q.period * 2 →
      refreshWhile n q r now = .error .diverge := by
  -- fuel についての帰納法：一回の後も、二つの条件はまた成り立つ
  induction n with
  | zero =>
    intro q r now _ _ c₀ _
    exact if_pos c₀
  | succ n ih =>
    intro q r now ht hp c₀ c₁
    obtain ⟨q₁, r₁, hr₁, ht₁, -, hq₁⟩ := ht.refresh_spec now
    have hp₁ : q₁.period = q.period := by rw [hq₁]
    have hl₁ : q₁.lastRefresh1 = q.lastRefresh1 := by rw [hq₁]
    rw [refreshWhile_step hr₁ c₀]
    refine ih (ht₁.of_fields rfl rfl rfl rfl) (by rw [hp₁]; exact hp) ?_ ?_
    · show now - q₁.lastRefresh1 ≥ q₁.period * 2
      rw [hl₁, hp₁]
      exact c₁
    · show now - now ≥ q₁.period * 2
      rw [Int64.sub_self, hp₁]
      exact hp

/-! ### `peekIndex` と `popQueue` -/

section Peek

variable {W : Type}

omit [DecidableEq V] in
/-- 空でない正しい `sstack` の `blocks[0][0]` は根の item。 -/
theorem root_eq {s : Sstack V W} (hv : s.Valid) (hne : 0 < s.size) :
    root s = .ok (s.items.getD 0 default) := by
  have hb : 0 < s.blocks.length := by
    have h := Sstack.div_lt_of_lt_capacity hv (k := 0) (by have := hv.size_le; omega)
    rwa [Nat.zero_div] at h
  have hslot := Sstack.slot_of_lt hv.uniform hb Sstack.blockSize_pos
  rw [Nat.zero_mul, Nat.add_zero, hv.getD_flatten hne] at hslot
  rw [root, hslot, liftPanic_ok, ok_bind]
  rfl

omit [DecidableEq V] in
/--
`q.peekIndex()`：二つの `sstack` が正しければ panic せず、`-1` なら二つとも空、`0` か `1` なら
その `queue` は空でない。
-/
theorem peekIndex_spec {q : LazyQueue V W} (hv₁ : q.queue.1.Valid) (hv₂ : q.queue.2.Valid) :
    ∃ k, q.peekIndex = .ok k ∧ ((k = -1 ∧ q.queue.1.size = 0 ∧ q.queue.2.size = 0) ∨
      (k = 0 ∧ 0 < q.queue.1.size) ∨ (k = 1 ∧ 0 < q.queue.2.size)) := by
  rw [peekIndex]
  by_cases h₁ : q.queue.1.Len = 0
  · by_cases h₂ : q.queue.2.Len = 0
    · rw [if_neg (not_not_intro h₁), if_neg (not_not_intro h₂)]
      exact ⟨-1, rfl, .inl ⟨rfl, h₁, h₂⟩⟩
    · rw [if_neg (not_not_intro h₁), if_pos h₂]
      exact ⟨1, rfl, .inr (.inr ⟨rfl, Nat.pos_of_ne_zero h₂⟩)⟩
  · by_cases h₂ : q.queue.2.Len = 0
    · rw [if_pos h₁, if_neg (not_not_intro h₂)]
      exact ⟨0, rfl, .inr (.inl ⟨rfl, Nat.pos_of_ne_zero h₁⟩)⟩
    · -- 二つとも空でない：根の見積もりを比べる
      rw [if_pos h₁, if_pos h₂, root_eq hv₂ (Nat.pos_of_ne_zero h₂),
        root_eq hv₁ (Nat.pos_of_ne_zero h₁)]
      refine ⟨_, rfl, ?_⟩
      split
      · exact .inr (.inr ⟨rfl, Nat.pos_of_ne_zero h₂⟩)
      · exact .inr (.inl ⟨rfl, Nat.pos_of_ne_zero h₁⟩)

end Peek

theorem Tracking.popQueue_nil (ht : Tracking q r) (h0 : q.popQueue.size = 0) :
    q.popQueue.items = [] :=
  items_eq_nil ht.validPop h0

/-- `popQueue` が空なら、三つの `sstack` の値は `LazyQueue` に入っている値。 -/
theorem Tracking.pending_of_nil (ht : Tracking q r) (h0 : q.popQueue.size = 0) :
    q.pending = q.held := by
  rw [pending, ht.popQueue_nil h0, vals_nil, Multiset.add_zero]
  rfl

/-- `popQueue` から `x` を外した後。`popQueue` は知らせないので、覚えは変わらない。 -/
theorem Tracking.takePop (ht : Tracking q r) {s : Sstack V (Reports V)} {x : Item V} (hv : s.Valid)
    (hs : s.setIndex = none) (hperm : (s.items ++ [x]).Perm q.popQueue.items) :
    Tracking { q with popQueue := s } r ∧
      q.pending = x.value ::ₘ ({ q with popQueue := s } : LazyQueue V (Reports V)).pending := by
  have hpend : q.pending = x.value ::ₘ (vals q.queue.1.items + vals q.queue.2.items + vals s.items) := by
    rw [pending, vals_of_perm_append hperm, Multiset.add_cons]
  exact ⟨ht.setPop hv hs (Multiset.Nodup.of_cons (hpend ▸ ht.nodup)), hpend⟩

/-- `popQueue` に新しい値の `x` を入れた後。 -/
theorem Tracking.putPop (ht : Tracking q r) {s : Sstack V (Reports V)} {x : Item V} (hv : s.Valid)
    (hs : s.setIndex = none) (hperm : s.items.Perm (q.popQueue.items ++ [x])) (hx : x.value ∉ q.pending) :
    Tracking { q with popQueue := s } r ∧
      ({ q with popQueue := s } : LazyQueue V (Reports V)).pending = x.value ::ₘ q.pending := by
  have hpend : vals q.queue.1.items + vals q.queue.2.items + vals s.items = x.value ::ₘ q.pending := by
    rw [vals_of_perm_append hperm.symm, Multiset.add_cons]
    rfl
  exact ⟨ht.setPop hv hs (hpend ▸ Multiset.nodup_cons.mpr ⟨hx, ht.nodup⟩), hpend⟩

/--
`MultiPop` の終わりのループ `for q.popQueue.Len() != 0 { q.Push(heap.Pop(q.popQueue)…) }`：
`popQueue` の値はすべて `queue[1]` に戻り、`popQueue` は空になる。
-/
theorem Tracking.pushAllFrom_true (n : Nat) :
    ∀ {q : LazyQueue V (Reports V)} {r : Reports V}, Tracking q r → q.popQueue.size ≤ n →
      ∃ q' r', pushAllFrom true n q r = .ok (q', r') ∧ Tracking q' r' ∧ q'.popQueue.items = [] ∧
        q'.held = q.pending := by
  -- fuel についての帰納法：一回ごとに `popQueue` の `size` が一つ減る
  induction n with
  | zero =>
    intro q r ht hn
    have h0 : q.popQueue.size = 0 := by omega
    exact ⟨q, r, pushAllFrom_stop h0, ht, ht.popQueue_nil h0, (ht.pending_of_nil h0).symm⟩
  | succ n ih =>
    intro q r ht hn
    by_cases h0 : q.popQueue.size = 0
    · exact ⟨q, r, pushAllFrom_stop h0, ht, ht.popQueue_nil h0, (ht.pending_of_nil h0).symm⟩
    obtain ⟨s, r₁, hpop, hv, ⟨hs, rfl⟩, hperm⟩ := heap_Pop_spec (Reporting.silent r) ht.validPop
      ⟨ht.silentPop, rfl⟩ (Nat.pos_of_ne_zero h0)
    obtain ⟨ht₁, hpend⟩ := ht.takePop hv hs hperm
    obtain ⟨s₂, r₂, hpush, ht₂, hvals⟩ := ht₁.Push_spec (Multiset.nodup_cons.mp (hpend ▸ ht.nodup)).1
    have hsize : s.size + 1 = q.popQueue.size := size_of_take hv ht.validPop hperm
    obtain ⟨q', r', hloop, ht', hnil, hheld⟩ := ih ht₂ (by show s.size ≤ n; omega)
    refine ⟨q', r', ?_, ht', hnil, ?_⟩
    · rw [pushAllFrom_step (b := true) h0 hpop hpush]
      exact hloop
    · rw [hheld, hpend]
      show vals q.queue.1.items + vals s₂.items + vals s.items =
        _ ::ₘ (vals q.queue.1.items + vals q.queue.2.items + vals s.items)
      rw [hvals, Multiset.add_cons, Multiset.cons_add]

/-! ### `MultiPop` -/

section MultiPopSteps

variable {W C : Type} (now : AbsTime) (callback : V → Int64 → W × C → (W × C) × Bool)
variable {fuel : Nat} {q₀ q₁ q₂ : LazyQueue V W} {wc wc' wc₂ : W × C} {k k₁ k₂ : Int}
  {s s' pq : Sstack V W} {w w' w₂ : W} {it : Item V} {stopped : Bool}

omit [Inhabited V] [DecidableEq V] in
/-- 内のループが何もせず終わる：`popQueue` が空か、次の `queue` の根の見積もりが大きい。 -/
theorem deliverLoop_idle (h : q₀.popQueue.Len = 0 ∨ q₀.deliverCond k = .ok false) :
    deliverLoop callback fuel q₀ wc k = .ok (q₀, wc, k, false) := by
  by_cases hne : q₀.popQueue.Len = 0
  · cases fuel <;> exact if_neg (not_not_intro hne)
  · have hgo := h.resolve_left hne
    cases fuel <;> rw [deliverLoop, if_pos hne, hgo, ok_bind, if_neg Bool.false_ne_true] <;> rfl

omit [Inhabited V] [DecidableEq V] in
/--
内のループの一回：`popQueue` の根を外して callback に渡す。callback が false なら残りを
`queue[1]` に戻して終わり、true なら `peekIndex` を見直して続ける。
-/
theorem deliverLoop_pop {cont : Bool} (hne : q₀.popQueue.Len ≠ 0) (hgo : q₀.deliverCond k = .ok true)
    (hpop : HeapIface.Pop Sstack.iface (q₀.popQueue, wc.1) = .ok ((pq, w), some it))
    (hcb : callback it.value it.priority (w, wc.2) = (wc', cont)) :
    deliverLoop callback (fuel + 1) q₀ wc k =
      if cont then
        ({ q₀ with popQueue := pq } : LazyQueue V W).peekIndex >>=
          deliverLoop callback fuel { q₀ with popQueue := pq } wc'
      else
        (fun (q, w) => (q, (w, wc'.2), k, true)) <$>
          pushAllFrom true pq.size { q₀ with popQueue := pq } wc'.1 := by
  rw [deliverLoop, if_pos hne, hgo, ok_bind, if_pos rfl]
  simp only [hpop, liftPanic_ok, ok_bind, hcb]
  cases cont <;> rfl

omit [Inhabited V] [DecidableEq V] in
theorem deliverLoop_stopped (hne : q₀.popQueue.Len ≠ 0) (hgo : q₀.deliverCond k = .ok true)
    (hpop : HeapIface.Pop Sstack.iface (q₀.popQueue, wc.1) = .ok ((pq, w), some it))
    (hcb : callback it.value it.priority (w, wc.2) = (wc', false))
    (hpush : pushAllFrom true pq.size { q₀ with popQueue := pq } wc'.1 = .ok (q₁, w')) :
    deliverLoop callback (fuel + 1) q₀ wc k = .ok (q₁, (w', wc'.2), k, true) := by
  rw [deliverLoop_pop callback hne hgo hpop hcb, if_neg Bool.false_ne_true, hpush]
  rfl

omit [Inhabited V] [DecidableEq V] in
theorem deliverLoop_continue (hne : q₀.popQueue.Len ≠ 0) (hgo : q₀.deliverCond k = .ok true)
    (hpop : HeapIface.Pop Sstack.iface (q₀.popQueue, wc.1) = .ok ((pq, w), some it))
    (hcb : callback it.value it.priority (w, wc.2) = (wc', true))
    (hk : ({ q₀ with popQueue := pq } : LazyQueue V W).peekIndex = .ok k₁) :
    deliverLoop callback (fuel + 1) q₀ wc k =
      deliverLoop callback fuel { q₀ with popQueue := pq } wc' k₁ := by
  rw [deliverLoop_pop callback hne hgo hpop hcb, if_pos rfl, hk, ok_bind]

omit [Inhabited V] [DecidableEq V] in
theorem multiPopLoop_stop : multiPopLoop now callback fuel q₀ wc (-1) = .ok (q₀, wc) := by
  cases fuel <;> rfl

omit [Inhabited V] [DecidableEq V] in
/--
外のループの一回：`queue[k]` の根を外して今の優先度で `popQueue` に入れ、`peekIndex` を見直して
内のループを回す。止まったら終わり、でなければ続ける。
-/
theorem multiPopLoop_step (hk : k ≠ -1) (hq : q₀.queueAt k = .ok s)
    (hpop : HeapIface.Pop Sstack.iface (s, wc.1) = .ok ((s', w), some it))
    (hset : q₀.setQueueAt k s' = .ok q₁)
    (hpush : HeapIface.Push Sstack.iface (q₁.popQueue, w) ⟨it.value, q₁.priority it.value now w⟩ =
      .ok (pq, w₂))
    (hpeek : ({ q₁ with popQueue := pq } : LazyQueue V W).peekIndex = .ok k₁)
    (hdel : deliverLoop callback (pq.size + 1) { q₁ with popQueue := pq } (w₂, wc.2) k₁ =
      .ok (q₂, wc₂, k₂, stopped)) :
    multiPopLoop now callback (fuel + 1) q₀ wc k =
      if stopped then .ok (q₂, wc₂) else multiPopLoop now callback fuel q₂ wc₂ k₂ := by
  rw [multiPopLoop, if_pos hk]
  simp only [hq, ok_bind, hpop, liftPanic_ok, hset, hpush, hpeek, hdel]
  rfl

end MultiPopSteps

theorem Tracking.peekIndex_cases (ht : Tracking q r) {k : Int} (hk : q.peekIndex = .ok k) :
    (k = -1 ∧ q.queue.1.size = 0 ∧ q.queue.2.size = 0) ∨ (k = 0 ∧ 0 < q.queue.1.size) ∨
      (k = 1 ∧ 0 < q.queue.2.size) := by
  obtain ⟨k₀, hk₀, hcases⟩ := peekIndex_spec ht.valid₁ ht.valid₂
  obtain rfl : k₀ = k := Except.ok.inj (hk₀.symm.trans hk)
  exact hcases

/-- 内のループの条件は panic しない。`nextIndex = -1` なら真。 -/
theorem Tracking.deliverCond_spec (ht : Tracking q r) {k : Int} (hk : q.peekIndex = .ok k)
    (hpq : 0 < q.popQueue.size) : ∃ go, q.deliverCond k = .ok go ∧ (k = -1 → go = true) := by
  have hb := root_eq ht.validPop hpq
  rcases ht.peekIndex_cases hk with ⟨rfl, -, -⟩ | ⟨rfl, h₁⟩ | ⟨rfl, h₂⟩
  · exact ⟨true, rfl, fun _ => rfl⟩
  · refine ⟨decide ((q.queue.1.items.getD 0 default).priority <
      (q.popQueue.items.getD 0 default).priority), ?_, fun h => absurd h (by decide)⟩
    rw [deliverCond, if_neg (by decide), queueAt_zero, ok_bind, root_eq ht.valid₁ h₁, ok_bind, hb,
      ok_bind]
    rfl
  · refine ⟨decide ((q.queue.2.items.getD 0 default).priority <
      (q.popQueue.items.getD 0 default).priority), ?_, fun h => absurd h (by decide)⟩
    rw [deliverCond, if_neg (by decide), queueAt_one, ok_bind, root_eq ht.valid₂ h₂, ok_bind, hb,
      ok_bind]
    rfl

section MultiPopSpec

variable {C : Type} (now : AbsTime) (callback : V → Int64 → Reports V × C → (Reports V × C) × Bool)

/--
`MultiPop` の callback の約束。使う側の状態（覚え）には触らない。まだ渡していない値の多重集合と
callback の状態とについての `I` から、渡した値を除いて、続けるなら `I`、止めるなら `F` に移る。
-/
structure Contract (I F : Multiset V → C → Prop) : Prop where
  keeps : ∀ d p w c, (callback d p (w, c)).1.1 = w
  cont : ∀ m d p w c, d ∉ m → I (d ::ₘ m) c → (callback d p (w, c)).2 = true →
    I m (callback d p (w, c)).1.2
  stop : ∀ m d p w c, d ∉ m → I (d ::ₘ m) c → (callback d p (w, c)).2 = false →
    F m (callback d p (w, c)).1.2

variable {callback} {I F : Multiset V → C → Prop}

/--
内のループ：panic せず fuel も足りる。callback が止めたら `popQueue` を空にして `F`、でなければ
二つの `queue` は変えず、`peekIndex` は返した `nextIndex` のままで `I` を保つ。
-/
theorem Tracking.deliverLoop_spec (hc : Contract callback I F) (fuel : Nat) :
    ∀ {q : LazyQueue V (Reports V)} {wc : Reports V × C} {k : Int}, Tracking q wc.1 →
      q.peekIndex = .ok k → q.popQueue.size ≤ fuel → I q.pending wc.2 →
      ∃ q' wc' k' stopped, deliverLoop callback fuel q wc k = .ok (q', wc', k', stopped) ∧
        Tracking q' wc'.1 ∧
        ((stopped = true ∧ q'.popQueue.items = [] ∧ F q'.held wc'.2) ∨
          (stopped = false ∧ q'.queue = q.queue ∧ q'.peekIndex = .ok k' ∧ I q'.pending wc'.2 ∧
            (k' = -1 → q'.popQueue.size = 0))) := by
  -- fuel についての帰納法：一回ごとに `popQueue` の `size` が一つ減る
  induction fuel with
  | zero =>
    intro q wc k ht hk hn hI
    have h0 : q.popQueue.Len = 0 := by show q.popQueue.size = 0; omega
    exact ⟨q, wc, k, false, deliverLoop_idle callback (.inl h0), ht, .inr ⟨rfl, rfl, hk, hI, fun _ => h0⟩⟩
  | succ fuel ih =>
    intro q wc k ht hk hn hI
    by_cases h0 : q.popQueue.Len = 0
    · exact ⟨q, wc, k, false, deliverLoop_idle callback (.inl h0), ht,
        .inr ⟨rfl, rfl, hk, hI, fun _ => h0⟩⟩
    obtain ⟨go, hgo, hgo₁⟩ := ht.deliverCond_spec hk (Nat.pos_of_ne_zero h0)
    cases go with
    | false =>
      have hk₁ : k ≠ -1 := fun h => Bool.false_ne_true (hgo₁ h)
      exact ⟨q, wc, k, false, deliverLoop_idle callback (.inr hgo), ht,
        .inr ⟨rfl, rfl, hk, hI, fun h => absurd h hk₁⟩⟩
    | true =>
      obtain ⟨pq, w, hpop, hv, ⟨hs, hw⟩, hperm⟩ := heap_Pop_spec (Reporting.silent wc.1) ht.validPop
        ⟨ht.silentPop, rfl⟩ (Nat.pos_of_ne_zero h0)
      subst hw
      obtain ⟨ht₁, hpend⟩ := ht.takePop hv hs hperm
      have hfresh := (Multiset.nodup_cons.mp (hpend ▸ ht.nodup)).1
      have hI₁ := hpend ▸ hI
      have hsize : pq.size + 1 = q.popQueue.size := size_of_take hv ht.validPop hperm
      have hkeeps := hc.keeps (q.popQueue.items.getD 0 default).value
        (q.popQueue.items.getD 0 default).priority wc.1 wc.2
      rcases hcb : callback (q.popQueue.items.getD 0 default).value
        (q.popQueue.items.getD 0 default).priority (wc.1, wc.2) with ⟨⟨w', c'⟩, cont⟩
      rw [hcb] at hkeeps
      dsimp only at hkeeps
      subst hkeeps
      cases cont with
      | false =>
        -- callback が止めた：残りの `popQueue` を `queue[1]` に戻す
        have hF := hc.stop _ _ _ _ _ hfresh hI₁ (by rw [hcb])
        rw [hcb] at hF
        obtain ⟨q', r', hpush, ht', hnil, hheld⟩ := ht₁.pushAllFrom_true pq.size le_rfl
        exact ⟨q', (r', c'), k, true, deliverLoop_stopped callback h0 hgo hpop hcb hpush, ht',
          .inl ⟨rfl, hnil, hheld ▸ hF⟩⟩
      | true =>
        have hI' := hc.cont _ _ _ _ _ hfresh hI₁ (by rw [hcb])
        rw [hcb] at hI'
        have hk' : ({ q with popQueue := pq } : LazyQueue V (Reports V)).peekIndex = .ok k := hk
        have ht₁' : Tracking _ (wc.1, c').1 := ht₁
        obtain ⟨q', wc', k', stopped, hloop, ht', hres⟩ :=
          ih ht₁' hk' (by show pq.size ≤ fuel; omega) hI'
        exact ⟨q', wc', k', stopped, (deliverLoop_continue callback h0 hgo hpop hcb hk').trans hloop,
          ht', hres⟩

/-- `peekIndex` が `-1` で `popQueue` も空なら、値はもう残っていない。 -/
theorem Tracking.pending_eq_zero (ht : Tracking q r) (hk : q.peekIndex = .ok (-1))
    (h0 : q.popQueue.size = 0) : q.pending = 0 := by
  obtain ⟨-, h₁, h₂⟩ : (-1 : Int) = -1 ∧ q.queue.1.size = 0 ∧ q.queue.2.size = 0 := by
    rcases ht.peekIndex_cases hk with h | ⟨h, -⟩ | ⟨h, -⟩
    · exact h
    · exact absurd h (by decide)
    · exact absurd h (by decide)
  rw [pending, items_eq_nil ht.valid₁ h₁, items_eq_nil ht.valid₂ h₂, items_eq_nil ht.validPop h0,
    vals_nil, Multiset.add_zero, Multiset.add_zero]

/-- `queue[k]`（空でない）の根を外した後。`MultiPop` の外のループの前半。 -/
theorem Tracking.popAt (ht : Tracking q r) {k : Int}
    (hk : (k = 0 ∧ 0 < q.queue.1.size) ∨ (k = 1 ∧ 0 < q.queue.2.size)) :
    ∃ s s' w x q₁, q.queueAt k = .ok s ∧ HeapIface.Pop Sstack.iface (s, r) = .ok ((s', w), some x) ∧
      q.setQueueAt k s' = .ok q₁ ∧ Tracking q₁ w ∧ q.pending = x.value ::ₘ q₁.pending ∧
      q₁.popQueue = q.popQueue ∧ q₁.priority = q.priority ∧
      q₁.queue.1.size + q₁.queue.2.size + 1 = q.queue.1.size + q.queue.2.size := by
  rcases hk with ⟨rfl, h₁⟩ | ⟨rfl, h₂⟩
  · obtain ⟨s', w, hpop, hv, hb, hperm⟩ := heap_Pop_spec
      (Reporting.beside (sideCallback_record ht.offset) q.queue.2.items (sideIndex (1 - q.indexOffset)))
      ht.valid₁ ht.beside₁ h₁
    obtain ⟨ht₁, hpend, -⟩ := ht.take₁ hv hb hperm
    have hsize := size_of_take hv ht.valid₁ hperm
    exact ⟨_, s', w, _, _, queueAt_zero q, hpop, setQueueAt_zero q s', ht₁, hpend, rfl, rfl,
      by show s'.size + q.queue.2.size + 1 = _; omega⟩
  · obtain ⟨s', w, hpop, hv, hb, hperm⟩ := heap_Pop_spec
      (Reporting.beside (sideCallback_record ht.offset') q.queue.1.items (sideIndex q.indexOffset))
      ht.valid₂ ht.beside₂ h₂
    obtain ⟨ht₁, hpend, -⟩ := ht.take₂ hv hb hperm
    have hsize := size_of_take hv ht.valid₂ hperm
    exact ⟨_, s', w, _, _, queueAt_one q, hpop, setQueueAt_one q s', ht₁, hpend, rfl, rfl,
      by show q.queue.1.size + s'.size + 1 = _; omega⟩

/--
外のループ：panic せず fuel（二つの `queue` の item の数）も足りて、`popQueue` を空にして終わる。
終わりは callback が止めたとき（`F`）か、値がもう残っていないとき（`I 0`）。
-/
theorem Tracking.multiPopLoop_spec (hc : Contract callback I F) (fuel : Nat) :
    ∀ {q : LazyQueue V (Reports V)} {wc : Reports V × C} {k : Int}, Tracking q wc.1 →
      q.peekIndex = .ok k → (k = -1 → q.popQueue.size = 0) →
      q.queue.1.size + q.queue.2.size ≤ fuel → I q.pending wc.2 →
      ∃ q' wc', multiPopLoop now callback fuel q wc k = .ok (q', wc') ∧ Tracking q' wc'.1 ∧
        q'.popQueue.items = [] ∧ (F q'.held wc'.2 ∨ (q'.held = 0 ∧ I 0 wc'.2)) := by
  -- fuel についての帰納法：一回ごとに二つの `queue` の item が一つ減る
  induction fuel with
  | zero =>
    intro q wc k ht hk hk₁ hn hI
    have hk' : k = -1 := by
      rcases ht.peekIndex_cases hk with ⟨h, -⟩ | ⟨-, h⟩ | ⟨-, h⟩
      · exact h
      · omega
      · omega
    subst hk'
    have h0 := hk₁ rfl
    have hpend := ht.pending_eq_zero hk h0
    exact ⟨q, wc, multiPopLoop_stop now callback, ht, ht.popQueue_nil h0,
      .inr ⟨(ht.pending_of_nil h0).symm.trans hpend, hpend ▸ hI⟩⟩
  | succ fuel ih =>
    intro q wc k ht hk hk₁ hn hI
    by_cases hkn : k = -1
    · subst hkn
      have h0 := hk₁ rfl
      have hpend := ht.pending_eq_zero hk h0
      exact ⟨q, wc, multiPopLoop_stop now callback, ht, ht.popQueue_nil h0,
        .inr ⟨(ht.pending_of_nil h0).symm.trans hpend, hpend ▸ hI⟩⟩
    have hside : (k = 0 ∧ 0 < q.queue.1.size) ∨ (k = 1 ∧ 0 < q.queue.2.size) :=
      (ht.peekIndex_cases hk).resolve_left fun h => hkn h.1
    obtain ⟨s, s', w, x, q₁, hq, hpop, hset, ht₁, hpend₁, -, -, hsize₁⟩ := ht.popAt hside
    -- 外した値を今の優先度で `popQueue` に入れる（知らせない）
    obtain ⟨pq, w₂, hpush, hvpq, ⟨hs, hw⟩, hperm⟩ := heap_Push_spec (Reporting.silent w)
      ht₁.validPop ⟨ht₁.silentPop, rfl⟩ (x := ⟨x.value, q₁.priority x.value now w⟩) trivial
    subst hw
    obtain ⟨ht₂, hpend₂⟩ := ht₁.putPop hvpq hs hperm (Multiset.nodup_cons.mp (hpend₁ ▸ ht.nodup)).1
    obtain ⟨k₁, hpeek, -⟩ := peekIndex_spec ht₂.valid₁ ht₂.valid₂
    have hI₂ : I ({ q₁ with popQueue := pq } : LazyQueue V (Reports V)).pending wc.2 := by
      rw [hpend₂, ← hpend₁]
      exact hI
    have ht₂' : Tracking _ (w₂, wc.2).1 := ht₂
    obtain ⟨q₃, wc₃, k₃, stopped, hdel, ht₃, hres⟩ :=
      ht₂'.deliverLoop_spec hc (pq.size + 1) hpeek (Nat.le_succ _) hI₂
    have hstep : multiPopLoop now callback (fuel + 1) q wc k = _ :=
      multiPopLoop_step now callback hkn hq hpop hset hpush hpeek hdel
    rcases hres with ⟨rfl, hnil, hF⟩ | ⟨rfl, hq₃, hpeek₃, hI₃, hk₃⟩
    · exact ⟨q₃, wc₃, hstep, ht₃, hnil, .inl hF⟩
    · have hn₃ : q₃.queue.1.size + q₃.queue.2.size ≤ fuel := by
        rw [hq₃]
        show q₁.queue.1.size + q₁.queue.2.size ≤ fuel
        omega
      obtain ⟨q', wc', hloop, ht', hnil, hres'⟩ := ih ht₃ hpeek₃ hk₃ hn₃ hI₃
      exact ⟨q', wc', hstep.trans hloop, ht', hnil, hres'⟩

/--
`q.MultiPop(callback)`：`popQueue` が空の `Tracking` な queue では、panic せず止まり、`Tracking` を
保って `popQueue` を空にする。callback が `Contract` を守れば、終わりに `F` か `I 0` が成り立つ。
-/
theorem Tracking.MultiPop_spec (hc : Contract callback I F) (ht : Tracking q r)
    (hpq : q.popQueue.size = 0) {c : C} (hI : I q.held c) :
    ∃ q' r' c', q.MultiPop now callback (r, c) = .ok (q', (r', c')) ∧ Tracking q' r' ∧
      q'.popQueue.items = [] ∧ (F q'.held c' ∨ (q'.held = 0 ∧ I 0 c')) := by
  obtain ⟨k, hk, -⟩ := peekIndex_spec ht.valid₁ ht.valid₂
  have ht₀ : Tracking q (r, c).1 := ht
  obtain ⟨q', ⟨r', c'⟩, hloop, ht', hnil, hres⟩ := ht₀.multiPopLoop_spec now hc _ hk
    (fun _ => hpq) le_rfl ((ht.pending_of_nil hpq) ▸ hI)
  refine ⟨q', r', c', ?_, ht', hnil, hres⟩
  rw [MultiPop, hk, ok_bind]
  exact hloop

end MultiPopSpec

omit [Inhabited V] [DecidableEq V] in
/-- `Pop` の callback の約束：一度だけ呼ばれ、渡された値と優先度を持って止める。 -/
theorem popContract (H : Multiset V) :
    Contract (C := Option (V × Int64)) (fun data priority wc => ((wc.1, some (data, priority)), false))
      (fun m c => c = none ∧ m = H) (fun m c => ∃ d p, c = some (d, p) ∧ H = d ::ₘ m) where
  keeps _ _ _ _ := rfl
  cont _ _ _ _ _ _ _ h := absurd h Bool.false_ne_true
  stop _ d p _ _ _ hI _ := ⟨d, p, rfl, hI.2.symm⟩

/--
`q.Pop()`：panic せず止まり、`Tracking` を保ち `popQueue` を空にする。空の queue からは `nil`、
でなければ値を一つ外して返す。
-/
theorem Tracking.Pop_spec (ht : Tracking q r) (hpq : q.popQueue.size = 0) (now : AbsTime) :
    ∃ q' r' res, q.Pop r now = .ok (q', r', res) ∧ Tracking q' r' ∧ q'.popQueue.items = [] ∧
      ((res = none ∧ q.held = 0 ∧ q'.held = 0) ∨ ∃ d p, res = some (d, p) ∧ q.held = d ::ₘ q'.held) := by
  obtain ⟨q', r', c', hmp, ht', hnil, hres⟩ :=
    ht.MultiPop_spec now (popContract q.held) hpq (c := none) ⟨rfl, rfl⟩
  refine ⟨q', r', c', ?_, ht', hnil, ?_⟩
  · rw [Pop, hmp, ok_bind]
    rfl
  · rcases hres with ⟨d, p, rfl, h⟩ | ⟨h0, rfl, h⟩
    · exact .inr ⟨d, p, rfl, h⟩
    · exact .inl ⟨rfl, h.symm, h0⟩

/--
`q.Update(index)`：覚えている位置で呼ぶと、外した値を見積もり直して入れ戻し、値と `Tracking` を
保つ。
-/
theorem Tracking.Update_spec (ht : Tracking q r) (hpq : q.popQueue.size = 0) {x : Item V}
    (hx : x ∈ q.queue.1.items ∨ x ∈ q.queue.2.items) :
    ∃ k q' r', r x.value = some k ∧ q.Update r k = .ok (q', r') ∧ Tracking q' r' ∧
      q'.popQueue = q.popQueue ∧ q'.held = q.held := by
  obtain ⟨k, q₁, r₁, hk, hrm, ht₁, hpop₁, hheld₁⟩ := ht.Remove_spec hx
  have hpq₁ : q₁.popQueue.size = 0 := by rw [hpop₁]; exact hpq
  -- 外した値は残りのどこにもない
  have hfresh : x.value ∉ q₁.pending := by
    rw [ht₁.pending_of_nil hpq₁]
    have hnd : (x.value ::ₘ q₁.held).Nodup := by
      rw [← hheld₁, ← ht.pending_of_nil hpq]
      exact ht.nodup
    exact (Multiset.nodup_cons.mp hnd).1
  obtain ⟨s, r', hpush, ht', hvals⟩ := ht₁.Push_spec hfresh
  refine ⟨k, _, r', hk, ?_, ht', hpop₁, ?_⟩
  · rw [Update, hrm, ok_bind]
    exact hpush
  · rw [hheld₁]
    show vals q₁.queue.1.items + vals s.items = _
    rw [hvals, Multiset.add_cons]
    rfl

/-! ### `Reset` と `NewLazyQueue` -/

/--
`q.Reset()`：`indexOffset = 0` のときだけ、作り直した二つの `sstack` の知らせ方が
`j ^ indexOffset` に合う。そのとき空の `Tracking` な queue になる。
-/
theorem Tracking.of_Reset (hs : q.setIndex = record) (h0 : q.indexOffset = 0)
    (hv : q.popQueue.Valid) (hsil : q.popQueue.setIndex = none) (hnd : (vals q.popQueue.items).Nodup) :
    Tracking q.Reset r ∧ q.Reset.held = 0 := by
  have hnil₁ : q.Reset.queue.1.items = [] := Sstack.items_newSstack _
  have hnil₂ : q.Reset.queue.2.items = [] := Sstack.items_newSstack _
  have hheld : q.Reset.held = 0 := by rw [held, hnil₁, hnil₂, vals_nil, Multiset.add_zero]
  refine ⟨⟨hs, .inl h0, Sstack.newSstack_valid _, Sstack.newSstack_valid _, hv, ?_, ?_, hsil, ?_, ?_, ?_⟩,
    hheld⟩
  · show some (setIndex0 q.setIndex) = some (sideCallback record q.indexOffset)
    rw [hs, h0]
    rfl
  · show some (setIndex1 q.setIndex) = some (sideCallback record (1 - q.indexOffset))
    rw [hs, h0]
    rfl
  · show (q.Reset.held + vals q.popQueue.items).Nodup
    rw [hheld, Multiset.zero_add]
    exact hnd
  · rw [hnil₁]
    exact ReportsAt.nil _ r
  · rw [hnil₂]
    exact ReportsAt.nil _ r

/--
`NewLazyQueue(setIndex, …)`：`setIndex` が値ごとに位置を覚えるものなら、空の `Tracking` な queue
を作る。`refresh` を一度した後なので `indexOffset = 1`。
-/
theorem NewLazyQueue_spec (priority maxPriority : V → AbsTime → Reports V → Int64) (now : AbsTime)
    (refreshPeriod : Int64) (r : Reports V) :
    ∃ q r', NewLazyQueue record priority maxPriority now refreshPeriod r = .ok (q, r') ∧
      Tracking q r' ∧ q.held = 0 ∧ q.popQueue.items = [] ∧ q.indexOffset = 1 ∧
      q.period = refreshPeriod ∧ q.lastRefresh1 = now ∧ q.lastRefresh2 = now := by
  obtain ⟨ht, hheld⟩ := Tracking.of_Reset (r := r) (q := {
    queue := (newSstack none, newSstack none)
    popQueue := newSstack none
    period := refreshPeriod
    maxUntil := 0
    indexOffset := 0
    setIndex := record
    priority := priority
    maxPriority := maxPriority
    lastRefresh1 := now
    lastRefresh2 := now }) rfl rfl (Sstack.newSstack_valid none) rfl
    (by rw [Sstack.items_newSstack, vals_nil]; exact Multiset.nodup_zero)
  obtain ⟨q', r', hr, ht', hheld', hq'⟩ := ht.refresh_spec now
  refine ⟨q', r', hr, ht', hheld'.trans hheld, ?_, ?_, ?_, ?_, ?_⟩
  · rw [hq']
    exact Sstack.items_newSstack none
  -- 残りは `refresh` が変えない欄
  all_goals rw [hq']; rfl

/--
`refreshPeriod = 0` で作った queue では、`Refresh` は止まらない：`now - lastRefresh >= 0*2` は
いつも真で、`refreshWhile_diverges` のとおり何回 `refresh` しても条件は変わらない。
-/
theorem refreshWhile_diverges_period_zero :
    ∃ q r', NewLazyQueue (record : SetIndexCallback Nat (Reports Nat)) (fun _ _ _ => 0)
        (fun _ _ _ => 0) 0 0 (fun _ => none) = .ok (q, r') ∧ q.Refresh r' 0 = .error .diverge := by
  obtain ⟨q, r', hnew, ht, -, -, -, hp, hl₁, hl₂⟩ :=
    NewLazyQueue_spec (fun (_ : Nat) _ _ => (0 : Int64)) (fun _ _ _ => 0) 0 0 (fun _ => none)
  refine ⟨q, r', hnew, Tracking.refreshWhile_diverges 3 ht ?_ ?_ ?_⟩
  · rw [hp]
    decide
  · rw [hl₂, hp]
    decide
  · rw [hl₁, hp]
    decide

/-- 走りの結果の誤りを `decide` で比べる。 -/
instance : DecidableEq (Except Fault Unit) := ExceptSpec.decEq

/--
`indexOffset = 1` での `Reset` の後（`NewLazyQueue` の直後がそう）、`Push(5)` は `queue[1]` に
`setIndex1` で入って位置 `1` を知らせるが、`Remove(1)` は `queue[1&1^1] = queue[0]` を選ぶ。
`queue[0]` は空なので `heap.Remove` の `Swap(0, -1)` が panic する。
-/
theorem reset_then_remove_reported_panics :
    ((NewLazyQueue (record : SetIndexCallback Nat (Reports Nat)) (fun _ _ _ => 0) (fun _ _ _ => 0) 0 10
        (fun _ => none) >>= fun (q, w) => q.Reset.Push w 5).toOption.map fun qw => qw.2 5) =
        some (some 1) ∧
      ((NewLazyQueue (record : SetIndexCallback Nat (Reports Nat)) (fun _ _ _ => 0) (fun _ _ _ => 0) 0 10
        (fun _ => none) >>= fun (q, w) => q.Reset.Push w 5) >>= fun (q, w) => q.Remove w 1).map
        (fun _ => ()) = .error (.panic .indexOutOfRange) := by
  decide +kernel

end LazyQueue

end Prque
