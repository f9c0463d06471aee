import Bullions.Prque.Properties.Sstack
import Bullions.Lib.WrapOrder
import Mathlib

/-!
# `Prque` の操作：heap の順と、入っている item

`Prque` の heap の操作は `container/heap` を `sstack` の `heap.Interface` の上で動かす。
優先度が一つの窓に入っていれば、`sstack` の interface は item の列の上の、窓の鍵で比べる
interface に写り（`sim`）、そこでは heap の操作は `GoHeap` の操作である。

* `Ordered`：どの子も親より先に来ない（Go の `Less(子, 親)` が偽）。窓を決めない言い方で、
  窓の中では鍵の列の `GoHeap.IsHeap`（`ordered_iff_isHeap`）。
* `Reporting F Q`：`setIndex` への知らせについての性質 `Q` が、`sstack` の `Push`（足す item が
  `F` を満たすとき）、`Swap`、`Pop`、`Reset` で保たれること。
* `Inv Q`：`sstack` が正しく、優先度が一つの窓に入り、`Ordered` で、`Q`。
* `Push_spec`、`Pop_spec`、`Remove_spec`、`Reset_spec`：`Inv Q` を保ち、`Pop` は先に来る item の
  ない item を返し、入っている item は足したもの・外したものの分だけ変わる。
-/

namespace Prque

open ExceptSpec WrapOrder

variable {V W : Type}

/-! ## 窓と順 -/

/-- 列の item の優先度が、どれも一つの窓に入る。 -/
def Windowed (l : List (Item V)) : Prop := ∃ b, ∀ x ∈ l, InWindow b x.priority

variable [Inhabited V]

/-- どの子も親より先に来ない：`Less(c, (c - 1) / 2)` が偽。 -/
def Ordered (l : List (Item V)) : Prop :=
  ∀ c, c < l.length → 0 < c →
    ¬ (0 < (l.getD c default).priority - (l.getD ((c - 1) / 2) default).priority)

/-- 窓 `b` の中での item の鍵。 -/
def prioKey (b : Int64) (x : Item V) : OrderDual Int := key b x.priority

theorem getD_mem {l : List (Item V)} {c : Nat} (hc : c < l.length) : l.getD c default ∈ l := by
  rw [List.getD_eq_getElem _ _ hc]
  exact List.getElem_mem hc

/-- 窓の中では、`Ordered` は鍵の列が heap の順であること。 -/
theorem ordered_iff_isHeap {l : List (Item V)} {b : Int64} (hw : ∀ x ∈ l, InWindow b x.priority) :
    Ordered l ↔ GoHeap.IsHeap (l.map (prioKey b)) := by
  unfold Ordered GoHeap.IsHeap GoHeap.HeapFrom
  rw [List.length_map]
  refine forall_congr' fun c => imp_congr_right fun hc => imp_congr_right fun hc0 => ?_
  have hp : (c - 1) / 2 < l.length := by omega
  rw [HeapIface.getD_map_of_lt _ hp, HeapIface.getD_map_of_lt _ hc, prioKey, prioKey,
    key_le_iff (hw _ (getD_mem hp)) (hw _ (getD_mem hc))]
  exact ⟨fun h _ => h, fun h => h (Nat.zero_le _)⟩

/-- 鍵の heap の根より先に来る item はない。 -/
theorem not_before_root {l : List (Item V)} {b : Int64} (hw : ∀ x ∈ l, InWindow b x.priority)
    (hl : GoHeap.IsHeap (l.map (prioKey b))) (hne : l ≠ []) :
    ∀ y ∈ l, ¬ (0 < y.priority - (l.getD 0 default).priority) := by
  intro y hy
  have h0 : 0 < l.length := List.length_pos_iff.mpr hne
  rw [← key_le_iff (hw _ (getD_mem h0)) (hw y hy)]
  exact HeapIface.root_le_of_isHeap (prioKey b) hl hy

/-! ## `setIndex` への知らせ -/

/--
`setIndex` への知らせについての性質 `Q` が保たれること。`Q` は `sstack` の item と `setIndex`
にだけよる。`Push` では足す item が `F` を満たすときに。
-/
structure Reporting (F : List (Item V) → Item V → Prop) (Q : Sstack V W → W → Prop) : Prop where
  push : ∀ (s s' : Sstack V W) (w : W) (x : Item V), s.Valid → F s.items x →
    s'.items = s.items ++ [x] → s'.setIndex = s.setIndex → Q s w →
    Q s' (s.report x.value s.size w)
  swap : ∀ (s s' : Sstack V W) (w : W) (i j : Nat), s.Valid → i < s.size → j < s.size →
    s'.items = GoHeap.swap s.items i j → s'.setIndex = s.setIndex → Q s w →
    Q s' (s.report (s.items.getD i default).value j (s.report (s.items.getD j default).value i w))
  pop : ∀ (s s' : Sstack V W) (w : W), s.Valid → 0 < s.size → s'.items = s.items.dropLast →
    s'.setIndex = s.setIndex → Q s w →
    Q s' (s.report (s.items.getD (s.size - 1) default).value (-1) w)
  reset : ∀ (s : Sstack V W) (w : W), Q s w → Q s.Reset w

/-- 何も求めない知らせの性質。`setIndex` と `W` が何でも成り立つ。 -/
theorem Reporting.trivial :
    Reporting (fun (_ : List (Item V)) _ => True) (fun (_ : Sstack V W) (_ : W) => True) where
  push _ _ _ _ _ _ _ _ _ := True.intro
  swap _ _ _ _ _ _ _ _ _ _ _ := True.intro
  pop _ _ _ _ _ _ _ _ := True.intro
  reset _ _ _ := True.intro

variable {F : List (Item V) → Item V → Prop} {Q : Sstack V W → W → Prop}

/-! ## `sstack` の interface から列の interface へ -/

/-- 窓 `b` の中の `sstack` の状態で、`Q` を満たすもの。 -/
def SimOk (Q : Sstack V W → W → Prop) (b : Int64) (p : Sstack V W × W) : Prop :=
  p.1.Valid ∧ (∀ x ∈ p.1.items, InWindow b x.priority) ∧ Q p.1 p.2

/--
窓 `b` の中で、`sstack` の `heap.Interface` は、その item の列の、`prioKey b` で比べる interface
に写る。
-/
theorem sim (b : Int64) (hR : Reporting F Q) :
    HeapIface.Sim Sstack.iface (HeapIface.listIface (prioKey (V := V) b)) (SimOk Q b)
      (fun p => p.1.items) id where
  len p hp := by
    rw [HeapIface.listIface_Len, hp.1.length_items]
    rfl
  less p i j hp hi hj := by
    obtain ⟨hv, hw, -⟩ := hp
    refine ⟨_, hv.Less_eq hi hj, ?_⟩
    have hi' : i < p.1.items.length := by rw [hv.length_items]; exact hi
    have hj' : j < p.1.items.length := by rw [hv.length_items]; exact hj
    rw [HeapIface.listIface_Less]
    exact congrArg Except.ok (decide_eq_decide.mpr
      (key_lt_iff (hw _ (getD_mem hi')) (hw _ (getD_mem hj'))))
  swap p i j hp hi hj := by
    obtain ⟨hv, hw, hq⟩ := hp
    obtain ⟨s', hsw, hv', hit, hsz, hidx⟩ := hv.Swap_spec p.2 hi hj
    have hperm : s'.items.Perm p.1.items := by
      rw [hit]
      exact GoHeap.swap_perm (by rw [hv.length_items]; exact hi) (by rw [hv.length_items]; exact hj)
    refine ⟨(s', _), hsw, ⟨hv', fun x hx => hw x (hperm.mem_iff.mp hx),
      hR.swap p.1 s' p.2 i j hv hi hj hit hidx hq⟩, hsz, ?_⟩
    rw [HeapIface.listIface_Swap, hit]
  pop p hp hne := by
    obtain ⟨hv, hw, hq⟩ := hp
    have hne : 0 < p.1.size := hne
    obtain ⟨s', hpop, hv', hit, -, hidx⟩ := hv.Pop_spec hne p.2
    have hlen : p.1.items.length = p.1.size - 1 + 1 := by rw [hv.length_items]; omega
    refine ⟨(s', _), some (p.1.items.getD (p.1.size - 1) default), ?_,
      ⟨hv', fun x hx => hw x (List.mem_of_mem_dropLast (by rwa [hit] at hx)),
        hR.pop p.1 s' p.2 hv hne hit hidx hq⟩, ?_⟩
    · show p.1.Pop p.2 >>= (fun x => pure ((x.1, x.2.1), x.2.2)) = _
      rw [hpop]
      rfl
    · rw [HeapIface.listIface_Pop, hit, (HeapIface.dropLast_getLast?_of_length hlen).2]
      rfl

/-- Go の `Less` の比べ方：優先度の差が `int64` で正。 -/
def goLess (a b : Item V) : Bool := decide (a.priority - b.priority > 0)

/--
窓がなくても、`sstack` の `heap.Interface` は、その item の列の、Go の比べ方 `goLess` の
interface に写る。
-/
theorem sim_rel (hR : Reporting F Q) :
    HeapIface.Sim Sstack.iface (HeapIface.relIface (goLess (V := V)))
      (fun p => p.1.Valid ∧ Q p.1 p.2) (fun p => p.1.items) id where
  len p hp := by
    rw [HeapIface.relIface_Len, hp.1.length_items]
    rfl
  less p i j hp hi hj := ⟨_, hp.1.Less_eq hi hj, by rw [HeapIface.relIface_Less]; rfl⟩
  swap p i j hp hi hj := by
    obtain ⟨hv, hq⟩ := hp
    obtain ⟨s', hsw, hv', hit, hsz, hidx⟩ := hv.Swap_spec p.2 hi hj
    refine ⟨(s', _), hsw, ⟨hv', hR.swap p.1 s' p.2 i j hv hi hj hit hidx hq⟩, hsz, ?_⟩
    rw [HeapIface.relIface_Swap, hit]
  pop p hp hne := by
    obtain ⟨hv, hq⟩ := hp
    have hne : 0 < p.1.size := hne
    obtain ⟨s', hpop, hv', hit, -, hidx⟩ := hv.Pop_spec hne p.2
    have hlen : p.1.items.length = p.1.size - 1 + 1 := by rw [hv.length_items]; omega
    refine ⟨(s', _), some (p.1.items.getD (p.1.size - 1) default), ?_,
      ⟨hv', hR.pop p.1 s' p.2 hv hne hit hidx hq⟩, ?_⟩
    · show p.1.Pop p.2 >>= (fun x => pure ((x.1, x.2.1), x.2.2)) = _
      rw [hpop]
      rfl
    · rw [HeapIface.relIface_Pop, hit, (HeapIface.dropLast_getLast?_of_length hlen).2]
      rfl

/-! ## 窓のない `sstack` の heap の操作 -/

section HeapOps

variable {s : Sstack V W} {w : W}

/-- `heap.Push(s, x)`：panic せず、足した列の並べ替えで、`Q` を保つ。 -/
theorem heap_Push_spec (hR : Reporting F Q) (hv : s.Valid) (hq : Q s w) {x : Item V}
    (hF : F s.items x) :
    ∃ s' w', HeapIface.Push Sstack.iface (s, w) x = .ok (s', w') ∧ s'.Valid ∧ Q s' w' ∧
      s'.items.Perm (s.items ++ [x]) := by
  obtain ⟨s₁, hps, hv₁, hit₁, hsz₁, hidx₁⟩ := hv.Push_spec w x
  have hpush : ∃ s', Sstack.iface.Push (s, w) x = .ok s' ∧ (s'.1.Valid ∧ Q s'.1 s'.2) ∧
      Sstack.iface.Len s' = Sstack.iface.Len (s, w) + 1 ∧
      (HeapIface.relIface goLess).Push s.items x = .ok s'.1.items :=
    ⟨(s₁, _), hps, ⟨hv₁, hR.push s s₁ w x hv hF hit₁ hidx₁ hq⟩, hsz₁,
      by rw [HeapIface.relIface_Push, hit₁]⟩
  obtain ⟨s', h₁, hok', -, h₂⟩ := HeapIface.Push_sim (sim_rel hR) hpush
  obtain ⟨t, ht, htp⟩ := HeapIface.Push_relIface goLess s.items x
  obtain rfl : s'.1.items = t := Except.ok.inj (h₂.symm.trans ht)
  exact ⟨s'.1, s'.2, h₁, hok'.1, hok'.2, htp⟩

/-- `heap.Pop(s)`：panic せず根を返し、残りと根で元の列の並べ替えで、`Q` を保つ。 -/
theorem heap_Pop_spec (hR : Reporting F Q) (hv : s.Valid) (hq : Q s w) (hne : 0 < s.size) :
    ∃ s' w', HeapIface.Pop Sstack.iface (s, w) = .ok ((s', w'), some (s.items.getD 0 default)) ∧
      s'.Valid ∧ Q s' w' ∧ (s'.items ++ [s.items.getD 0 default]).Perm s.items := by
  have hne' : s.items ≠ [] := by
    rw [← List.length_pos_iff, hv.length_items]
    exact hne
  obtain ⟨s', r, h₁, hok', h₂⟩ := HeapIface.Pop_sim (sim_rel hR) (s := (s, w)) ⟨hv, hq⟩ hne
  obtain ⟨t, ht, htp⟩ := HeapIface.Pop_relIface goLess hne'
  obtain ⟨rfl, rfl⟩ := Prod.mk.inj (Except.ok.inj (h₂.symm.trans ht))
  exact ⟨s'.1, s'.2, h₁, hok'.1, hok'.2, htp⟩

/-- `heap.Remove(s, i)`（`i < Len()`）：panic せず `i` 番目を返し、`Q` を保つ。 -/
theorem heap_Remove_spec (hR : Reporting F Q) (hv : s.Valid) (hq : Q s w) {i : Nat}
    (hi : i < s.size) :
    ∃ s' w', HeapIface.Remove Sstack.iface (s, w) i = .ok ((s', w'), some (s.items.getD i default)) ∧
      s'.Valid ∧ Q s' w' ∧ (s'.items ++ [s.items.getD i default]).Perm s.items := by
  have hi' : i < s.items.length := by rw [hv.length_items]; exact hi
  obtain ⟨s', r, h₁, hok', h₂⟩ := HeapIface.Remove_sim (sim_rel hR) (s := (s, w)) ⟨hv, hq⟩ hi
  obtain ⟨t, ht, htp⟩ := HeapIface.Remove_relIface goLess hi'
  obtain ⟨rfl, rfl⟩ := Prod.mk.inj (Except.ok.inj (h₂.symm.trans ht))
  exact ⟨s'.1, s'.2, h₁, hok'.1, hok'.2, htp⟩

end HeapOps

/-! ## `Prque` の操作 -/

/-- `Prque` の不変条件：`sstack` が正しく、優先度が一つの窓に入り、heap の順で、`Q`。 -/
structure Inv (Q : Sstack V W → W → Prop) (p : Prque V W) (w : W) : Prop where
  valid : p.cont.Valid
  windowed : Windowed p.cont.items
  ordered : Ordered p.cont.items
  reports : Q p.cont w

variable {p : Prque V W} {w : W}

theorem Inv.simOk {b : Int64} (hinv : Inv Q p w) (hb : ∀ x ∈ p.cont.items, InWindow b x.priority) :
    SimOk Q b (p.cont, w) :=
  ⟨hinv.valid, hb, hinv.reports⟩

theorem Inv.isHeap {b : Int64} (hinv : Inv Q p w) (hb : ∀ x ∈ p.cont.items, InWindow b x.priority) :
    GoHeap.IsHeap (p.cont.items.map (prioKey b)) :=
  (ordered_iff_isHeap hb).mp hinv.ordered

/-- heap の操作の後の `sstack` の状態が `SimOk` で鍵の heap なら、`Prque` の `Inv`。 -/
theorem inv_of_simOk {b : Int64} {s : Sstack V W × W} (hok : SimOk Q b s)
    (hh : GoHeap.IsHeap (s.1.items.map (prioKey b))) : Inv Q ⟨s.1⟩ s.2 :=
  ⟨hok.1, ⟨b, hok.2.1⟩, (ordered_iff_isHeap hok.2.1).mpr hh, hok.2.2⟩

/-- `p.Push(data, priority)`：足した列の並べ替えを持ち、`Inv Q` を保つ。 -/
theorem Push_spec (hR : Reporting F Q) (hinv : Inv Q p w) {v : V} {prio : Int64}
    (hF : F p.cont.items ⟨v, prio⟩) (hwin : Windowed (p.cont.items ++ [⟨v, prio⟩])) :
    ∃ p' w', p.Push w v prio = .ok (p', w') ∧ Inv Q p' w' ∧
      p'.cont.items.Perm (p.cont.items ++ [⟨v, prio⟩]) := by
  obtain ⟨b, hb⟩ := hwin
  have hbl : ∀ y ∈ p.cont.items, InWindow b y.priority := fun y hy => hb y (List.mem_append_left _ hy)
  -- `sstack` の末尾に足す一歩は、列の末尾に足すことに写る
  obtain ⟨s₁, hps, hv₁, hit₁, hsz₁, hidx₁⟩ := hinv.valid.Push_spec w ⟨v, prio⟩
  have hpush : ∃ s', Sstack.iface.Push (p.cont, w) ⟨v, prio⟩ = .ok s' ∧ SimOk Q b s' ∧
      Sstack.iface.Len s' = Sstack.iface.Len (p.cont, w) + 1 ∧
      (HeapIface.listIface (prioKey b)).Push p.cont.items ⟨v, prio⟩ = .ok s'.1.items :=
    ⟨(s₁, _), hps, ⟨hv₁, by rw [hit₁]; exact hb,
      hR.push p.cont s₁ w ⟨v, prio⟩ hinv.valid hF hit₁ hidx₁ hinv.reports⟩, hsz₁,
      by rw [HeapIface.listIface_Push, hit₁]⟩
  obtain ⟨s', h₁, hok', -, h₂⟩ := HeapIface.Push_sim (sim b hR) hpush
  obtain ⟨t, ht, hth, htp⟩ := HeapIface.Push_listIface_spec (prioKey b) (hinv.isHeap hbl) ⟨v, prio⟩
  obtain rfl : s'.1.items = t := Except.ok.inj (h₂.symm.trans ht)
  refine ⟨⟨s'.1⟩, s'.2, ?_, inv_of_simOk hok' hth, htp⟩
  rw [Prque.Push, h₁, ok_bind]
  rfl

/--
`p.Pop()`：根の item を返す。入っているどの item も根より先に来ない。残りと根で元の列の
並べ替えで、`Inv Q` を保つ。
-/
theorem Pop_spec (hR : Reporting F Q) (hinv : Inv Q p w) (hne : p.cont.items ≠ []) :
    ∃ p' w', p.Pop w = .ok (p', w', (p.cont.items.getD 0 default).value,
        (p.cont.items.getD 0 default).priority) ∧ Inv Q p' w' ∧
      (p'.cont.items ++ [p.cont.items.getD 0 default]).Perm p.cont.items ∧
      ∀ y ∈ p.cont.items, ¬ (0 < y.priority - (p.cont.items.getD 0 default).priority) := by
  obtain ⟨b, hb⟩ := hinv.windowed
  have hlen : 0 < Sstack.iface.Len (p.cont, w) := by
    show 0 < p.cont.size
    rw [← hinv.valid.length_items]
    exact List.length_pos_iff.mpr hne
  obtain ⟨s', r, h₁, hok', h₂⟩ := HeapIface.Pop_sim (sim b hR) (hinv.simOk hb) hlen
  obtain ⟨t, ht, hth, htp⟩ := HeapIface.Pop_listIface_spec (prioKey b) (hinv.isHeap hb) hne
  -- 列の上の `Pop` の結果から、外した item は根
  obtain ⟨rfl, rfl⟩ := Prod.mk.inj (Except.ok.inj (h₂.symm.trans ht))
  refine ⟨⟨s'.1⟩, s'.2, ?_, inv_of_simOk hok' hth, htp, not_before_root hb (hinv.isHeap hb) hne⟩
  rw [Prque.Pop, h₁, ok_bind]
  rfl

/-- `p.Remove(i)`（`0 ≤ i < Size()`）：`i` 番目を返し、残りとそれで元の列の並べ替え。 -/
theorem Remove_spec (hR : Reporting F Q) (hinv : Inv Q p w) {i : Nat}
    (hi : i < p.cont.items.length) :
    ∃ p' w', p.Remove w i = .ok (p', w', some (p.cont.items.getD i default)) ∧ Inv Q p' w' ∧
      (p'.cont.items ++ [p.cont.items.getD i default]).Perm p.cont.items := by
  obtain ⟨b, hb⟩ := hinv.windowed
  have hlen : i < Sstack.iface.Len (p.cont, w) := by
    show i < p.cont.size
    rw [← hinv.valid.length_items]
    exact hi
  obtain ⟨s', r, h₁, hok', h₂⟩ := HeapIface.Remove_sim (sim b hR) (hinv.simOk hb) hlen
  obtain ⟨t, ht, hth, htp⟩ := HeapIface.Remove_listIface_spec (prioKey b) (hinv.isHeap hb) hi
  obtain ⟨rfl, rfl⟩ := Prod.mk.inj (Except.ok.inj (h₂.symm.trans ht))
  refine ⟨⟨s'.1⟩, s'.2, ?_, inv_of_simOk hok' hth, htp⟩
  rw [Prque.Remove, if_neg (by omega), Int.toNat_natCast, h₁, ok_bind]
  rfl

/-- 空の queue は、`sstack` が正しく `Q` を満たせば `Inv Q`。 -/
theorem Inv.of_items_nil (hv : p.cont.Valid) (hnil : p.cont.items = []) (hq : Q p.cont w) :
    Inv Q p w := by
  refine ⟨hv, ⟨0, by simp [hnil]⟩, ?_, hq⟩
  intro c hc
  rw [hnil] at hc
  exact absurd hc (Nat.not_lt_zero c)

/-- `p.Reset()`：空にして、`Inv Q` を保つ。 -/
theorem Reset_spec (hR : Reporting F Q) (hinv : Inv Q p w) :
    Inv Q p.Reset w ∧ p.Reset.cont.items = [] := by
  have hnil : p.Reset.cont.items = [] := Sstack.items_newSstack p.cont.setIndex
  exact ⟨Inv.of_items_nil (Sstack.newSstack_valid p.cont.setIndex) hnil
    (hR.reset p.cont w hinv.reports), hnil⟩

end Prque
