import Bullions.Prque.Properties.Prque
import Mathlib

/-!
# `Prque` を呼ぶ列：抽象の queue の詳細化

使う側は `Push`、`Pop`、`Remove(i)`、`Reset` を順に呼ぶ（`Op`、`run`）。抽象の queue は入って
いる item の multiset で、`Step` がその一歩を言う：`Push` は足し、`Pop` は先に来る item のない
item を外して返し、`Remove` は一つ外して返し、`Reset` は空にする。

* `Allowed F`：呼び出しの前提。足す item は `F` を満たして、入っている item と一つの窓に入る。
  `Pop` は空でない queue に、`Remove(i)` は `i < Size()` で。
* `step_refines`、`run_refines`：`Inv Q` の状態からの許された一歩（走り）は、抽象の queue の
  一歩（走り）で、`Inv Q` を保つ。
* `record`、`Tracks`：知らされた位置を値ごとに覚える `setIndex`。入っている値がどれも違えば、
  覚えている位置はいつもその item の今の位置（`Reporting.record`）。
-/

namespace Prque

open ExceptSpec WrapOrder

variable {V W : Type}

/-! ## 呼び出しと走り -/

/-- 使う側から `Prque` への呼び出し。 -/
inductive Op (V : Type) where
  | push (data : V) (priority : Int64)
  | pop
  | remove (i : Int)
  | reset

/-- 一つの呼び出し。返すのは `Pop` と `Remove` の返す item。 -/
def step (p : Prque V W) (w : W) : Op V → Except Panic (Prque V W × W × Option (Item V))
  | .push v prio => do
    let (p, w) ← p.Push w v prio
    pure (p, w, none)
  | .pop => do
    let (p, w, v, prio) ← p.Pop w
    pure (p, w, some ⟨v, prio⟩)
  | .remove i => p.Remove w i
  | .reset => pure (p.Reset, w, none)

/-- 呼び出しの列を順に走らせ、返す item を集める。 -/
def run (p : Prque V W) (w : W) : List (Op V) → Except Panic (Prque V W × W × List (Option (Item V)))
  | [] => pure (p, w, [])
  | op :: ops => do
    let (p, w, o) ← step p w op
    let (p, w, os) ← run p w ops
    pure (p, w, o :: os)

/-! ## 抽象の queue -/

/-- 抽象の queue の一歩：入っている item の multiset と、返す item。 -/
inductive Step : Multiset (Item V) → Op V → Option (Item V) → Multiset (Item V) → Prop
  | push (m : Multiset (Item V)) (v : V) (prio : Int64) :
      Step m (.push v prio) none (⟨v, prio⟩ ::ₘ m)
  /-- 外す item より先に来る（優先度の差が正の）item はない。 -/
  | pop (m : Multiset (Item V)) (x : Item V)
      (hmax : ∀ y ∈ x ::ₘ m, ¬ (0 < y.priority - x.priority)) :
      Step (x ::ₘ m) .pop (some x) m
  | removeNeg (m : Multiset (Item V)) (i : Int) (hi : i < 0) : Step m (.remove i) none m
  | remove (m : Multiset (Item V)) (x : Item V) (i : Int) (hi : 0 ≤ i) :
      Step (x ::ₘ m) (.remove i) (some x) m
  | reset (m : Multiset (Item V)) : Step m .reset none 0

/-- 抽象の queue の上の走り。 -/
inductive Runs : Multiset (Item V) → List (Op V) → List (Option (Item V)) → Multiset (Item V) → Prop
  | nil (m : Multiset (Item V)) : Runs m [] [] m
  | cons {m₁ m₂ m₃ : Multiset (Item V)} {op : Op V} {o : Option (Item V)} {ops : List (Op V)}
      {os : List (Option (Item V))} :
      Step m₁ op o m₂ → Runs m₂ ops os m₃ → Runs m₁ (op :: ops) (o :: os) m₃

/-- 呼び出しの前提。足す item は `F` を満たし、入っている item と一つの窓に入る。 -/
def Allowed (F : List (Item V) → Item V → Prop) (l : List (Item V)) : Op V → Prop
  | .push v prio => F l ⟨v, prio⟩ ∧ Windowed (l ++ [⟨v, prio⟩])
  | .pop => l ≠ []
  | .remove i => i < l.length
  | .reset => True

/-- 走りのどの呼び出しも、その時の queue で許される。 -/
def Admissible (F : List (Item V) → Item V → Prop) : Prque V W → W → List (Op V) → Prop
  | _, _, [] => True
  | p, w, op :: ops => Allowed F p.cont.items op ∧
      ∀ p' w' o, step p w op = .ok (p', w', o) → Admissible F p' w' ops

/-! ## 一歩と走りの詳細化 -/

theorem coe_eq_cons_of_perm {l l' : List (Item V)} {x : Item V} (h : l.Perm (l' ++ [x])) :
    (l : Multiset (Item V)) = x ::ₘ l' :=
  Multiset.coe_eq_coe.mpr (h.trans (List.perm_append_singleton x l'))

variable [Inhabited V] {F : List (Item V) → Item V → Prop} {Q : Sstack V W → W → Prop}
  {p : Prque V W} {w : W}

/-- `Inv Q` の状態からの許された一歩は、抽象の queue の一歩で、`Inv Q` を保つ。 -/
theorem step_refines (hR : Reporting F Q) (hinv : Inv Q p w) {op : Op V}
    (hop : Allowed F p.cont.items op) :
    ∃ p' w' o, step p w op = .ok (p', w', o) ∧
      Step (p.cont.items : Multiset (Item V)) op o p'.cont.items ∧ Inv Q p' w' := by
  cases op with
  | push v prio =>
    obtain ⟨p', w', h, hinv', hperm⟩ := Push_spec hR hinv hop.1 hop.2
    refine ⟨p', w', none, by rw [step, h, ok_bind]; rfl, ?_, hinv'⟩
    rw [coe_eq_cons_of_perm hperm]
    exact Step.push _ v prio
  | pop =>
    obtain ⟨p', w', h, hinv', hperm, hmax⟩ := Pop_spec hR hinv hop
    have hm := coe_eq_cons_of_perm hperm.symm
    refine ⟨p', w', _, by rw [step, h, ok_bind]; rfl, ?_, hinv'⟩
    rw [hm]
    refine Step.pop _ _ fun y hy => hmax y ?_
    rw [← hm] at hy
    exact Multiset.mem_coe.mp hy
  | remove i =>
    by_cases hi : i < 0
    · exact ⟨p, w, none, by rw [step, Prque.Remove, if_pos hi], Step.removeNeg _ i hi, hinv⟩
    · -- 負でない添字は `Nat` の添字
      obtain ⟨n, rfl⟩ : ∃ n : Nat, i = n := ⟨i.toNat, by omega⟩
      have hn : n < p.cont.items.length := by
        have h : (n : Int) < p.cont.items.length := hop
        omega
      obtain ⟨p', w', h, hinv', hperm⟩ := Remove_spec hR hinv hn
      refine ⟨p', w', _, h, ?_, hinv'⟩
      rw [coe_eq_cons_of_perm hperm.symm]
      exact Step.remove _ _ _ (Int.natCast_nonneg n)
  | reset =>
    obtain ⟨hinv', hnil⟩ := Reset_spec hR hinv
    refine ⟨p.Reset, w, none, rfl, ?_, hinv'⟩
    rw [hnil]
    exact Step.reset _

/-- `Inv Q` の状態からの許された走りは、抽象の queue の走りで、`Inv Q` を保つ。 -/
theorem run_refines (hR : Reporting F Q) (ops : List (Op V)) :
    ∀ {p : Prque V W} {w : W}, Inv Q p w → Admissible F p w ops →
      ∃ p' w' os, run p w ops = .ok (p', w', os) ∧
        Runs (p.cont.items : Multiset (Item V)) ops os p'.cont.items ∧ Inv Q p' w' := by
  induction ops with
  | nil => exact fun hinv _ => ⟨_, _, [], rfl, Runs.nil _, hinv⟩
  | cons op ops ih =>
    intro p w hinv hadm
    obtain ⟨p₁, w₁, o, h₁, hs, hinv₁⟩ := step_refines hR hinv hadm.1
    obtain ⟨p₂, w₂, os, h₂, hr, hinv₂⟩ := ih hinv₁ (hadm.2 p₁ w₁ o h₁)
    refine ⟨p₂, w₂, o :: os, ?_, Runs.cons hs hr, hinv₂⟩
    rw [run, h₁, ok_bind]
    dsimp only
    rw [h₂, ok_bind]
    rfl

/-- `New(setIndex)` の queue は、`Q` を満たせば `Inv Q`。 -/
theorem New_inv (setIndex : Option (SetIndexCallback V W)) (hq : Q (newSstack setIndex) w) :
    Inv Q (New setIndex) w :=
  Inv.of_items_nil (Sstack.newSstack_valid setIndex) (Sstack.items_newSstack setIndex) hq

/-! ## 値ごとに位置を覚える `setIndex` -/

/-- 使う側が値ごとに覚える、最後に知らされた位置。 -/
abbrev Reports (V : Type) := V → Option Int

section Record

/-- 値がどれも違う列では、位置は値で決まる。 -/
theorem value_inj {l : List (Item V)} (hnd : (l.map Item.value).Nodup) {i j : Nat}
    (hi : i < l.length) (hj : j < l.length)
    (h : (l.getD i default).value = (l.getD j default).value) : i = j := by
  rw [List.getD_eq_getElem _ _ hi, List.getD_eq_getElem _ _ hj] at h
  have hi' : i < (l.map Item.value).length := by rwa [List.length_map]
  have hj' : j < (l.map Item.value).length := by rwa [List.length_map]
  exact (@List.Nodup.getElem_inj_iff _ _ hnd i hi' j hj').mp (by simpa using h)

theorem getD_concat_length (l : List (Item V)) (x : Item V) :
    (l ++ [x]).getD l.length default = x := by
  rw [List.getD_eq_getElem?_getD, List.getElem?_append_right (Nat.le_refl _), Nat.sub_self]
  rfl

variable [DecidableEq V]

/-! ### 値ごとに覚えた位置と、列の操作 -/

/-- 値ごとに覚えている位置が、列 `l` の位置 `k` を `g` で写したもの。 -/
def ReportsAt (g : Int → Int) (l : List (Item V)) (r : Reports V) : Prop :=
  ∀ k, k < l.length → r (l.getD k default).value = some (g k)

variable {g : Int → Int} {l : List (Item V)} {r : Reports V}

omit [DecidableEq V] in
theorem ReportsAt.nil (g : Int → Int) (r : Reports V) : ReportsAt g [] r :=
  fun k hk => absurd hk (Nat.not_lt_zero k)

omit [DecidableEq V] in
theorem value_ne_of_not_mem {k : Nat} (hk : k < l.length) {v : V} (hv : v ∉ l.map Item.value) :
    (l.getD k default).value ≠ v :=
  fun heq => hv (heq ▸ List.mem_map_of_mem (getD_mem hk))

/-- 列にない値の覚えを書き換えても、列の位置の覚えは変わらない。 -/
theorem ReportsAt.update_of_not_mem (h : ReportsAt g l r) {v : V} (hv : v ∉ l.map Item.value)
    (o : Option Int) : ReportsAt g l (Function.update r v o) := by
  intro k hk
  rw [Function.update_of_ne (value_ne_of_not_mem hk hv)]
  exact h k hk

/-- 末尾に足した item の位置を覚えると、足した列の覚え。 -/
theorem ReportsAt.push (h : ReportsAt g l r) {x : Item V} (hx : x.value ∉ l.map Item.value) :
    ReportsAt g (l ++ [x]) (Function.update r x.value (some (g l.length))) := by
  intro k hk
  rw [List.length_append, List.length_singleton] at hk
  rcases Nat.lt_or_ge k l.length with hk' | hk'
  · rw [GoHeap.getD_append_left hk']
    exact (h.update_of_not_mem hx _) k hk'
  · obtain rfl : k = l.length := by omega
    rw [getD_concat_length, Function.update_self]

/-- `Swap(i, j)` の二つの知らせ（`j` の値に `i`、`i` の値に `j`）で、入れ替えた列の覚え。 -/
theorem ReportsAt.swap (h : ReportsAt g l r) (hnd : (l.map Item.value).Nodup) {i j : Nat}
    (hi : i < l.length) (hj : j < l.length) :
    ReportsAt g (GoHeap.swap l i j) (Function.update (Function.update r (l.getD j default).value
      (some (g i))) (l.getD i default).value (some (g j))) := by
  intro k hk
  rw [GoHeap.length_swap] at hk
  rw [GoHeap.getD_swap hi hj]
  -- 入れ替えた二つの位置では新しく知らされた位置、ほかは前のまま
  by_cases hkj : k = j
  · subst hkj
    rw [if_pos rfl, Function.update_self]
  · rw [if_neg hkj]
    by_cases hki : k = i
    · subst hki
      have hne : (l.getD j default).value ≠ (l.getD k default).value :=
        fun heq => hkj (value_inj hnd hj hk heq).symm
      rw [if_pos rfl, Function.update_of_ne hne, Function.update_self]
    · have hnei : (l.getD k default).value ≠ (l.getD i default).value :=
        fun heq => hki (value_inj hnd hk hi heq)
      have hnej : (l.getD k default).value ≠ (l.getD j default).value :=
        fun heq => hkj (value_inj hnd hk hj heq)
      rw [if_neg hki, Function.update_of_ne hnei, Function.update_of_ne hnej]
      exact h k hk

/-- 末尾を外すと、外した値の覚えを何に書き換えても、残りの列の覚え。 -/
theorem ReportsAt.dropLast (h : ReportsAt g l r) (hnd : (l.map Item.value).Nodup)
    (o : Option Int) :
    ReportsAt g l.dropLast (Function.update r (l.getD (l.length - 1) default).value o) := by
  intro k hk
  rw [List.length_dropLast] at hk
  rw [List.dropLast_eq_take, GoHeap.getD_take hk]
  -- 残る item の値は、外した末尾の値と違う
  have hne : (l.getD k default).value ≠ (l.getD (l.length - 1) default).value :=
    fun heq => absurd (value_inj hnd (by omega) (by omega) heq) (by omega)
  rw [Function.update_of_ne hne]
  exact h k (by omega)

omit [Inhabited V] [DecidableEq V] in
theorem nodup_values_append {x : Item V} (hnd : (l.map Item.value).Nodup)
    (hx : x.value ∉ l.map Item.value) : ((l ++ [x]).map Item.value).Nodup := by
  rw [List.map_append, List.map_singleton]
  exact (List.perm_append_singleton _ _).nodup_iff.mpr (hnd.cons hx)

omit [DecidableEq V] in
theorem nodup_values_swap (hnd : (l.map Item.value).Nodup) {i j : Nat} (hi : i < l.length)
    (hj : j < l.length) : ((GoHeap.swap l i j).map Item.value).Nodup :=
  ((GoHeap.swap_perm hi hj).map Item.value).nodup_iff.mpr hnd

omit [Inhabited V] [DecidableEq V] in
theorem nodup_values_dropLast (hnd : (l.map Item.value).Nodup) : (l.dropLast.map Item.value).Nodup := by
  rw [List.map_dropLast]
  exact hnd.sublist (List.dropLast_sublist _)

/-! ### 値ごとに位置を覚える `setIndex` -/

/-- 知らされた位置を値ごとに覚える `setIndex`。 -/
def record : SetIndexCallback V (Reports V) := fun v i r => Function.update r v (some i)

/-- 足す item の値は、入っている item のどの値とも違う。 -/
def Fresh (l : List (Item V)) (x : Item V) : Prop := x.value ∉ l.map Item.value

/--
`setIndex` が `record` で、入っている item の値はどれも違い、値ごとに覚えている位置は、その値の
item の今の位置。
-/
structure Tracks (s : Sstack V (Reports V)) (r : Reports V) : Prop where
  setIndex_eq : s.setIndex = some record
  nodup : (s.items.map Item.value).Nodup
  at_index : ∀ k, k < s.items.length → r (s.items.getD k default).value = some (k : Int)

omit [Inhabited V] in
theorem report_record {s : Sstack V (Reports V)} (h : s.setIndex = some record) (v : V) (i : Int)
    (r : Reports V) : s.report v i r = Function.update r v (some i) := by
  rw [Sstack.report, h]
  rfl

/-- 空の `sstack` では、`setIndex` が `record` なら何を覚えていても `Tracks`。 -/
theorem tracks_of_items_nil {s : Sstack V (Reports V)} {r : Reports V}
    (h : s.setIndex = some record) (hnil : s.items = []) : Tracks s r :=
  ⟨h, by rw [hnil]; exact List.nodup_nil, fun k hk => absurd hk (by rw [hnil]; exact Nat.not_lt_zero k)⟩

/-- 値の違う item を足し、入れ替え、末尾を外しても、覚えている位置は今の位置のまま。 -/
theorem Reporting.record : Reporting (Fresh (V := V)) Tracks where
  push s s' r x hv hF hit hidx ht := by
    refine ⟨hidx.trans ht.setIndex_eq, by rw [hit]; exact nodup_values_append ht.nodup hF, ?_⟩
    rw [hit, report_record ht.setIndex_eq, ← hv.length_items]
    exact ReportsAt.push (g := fun k => k) ht.at_index hF
  swap s s' r i j hv hi hj hit hidx ht := by
    have hi' : i < s.items.length := by rw [hv.length_items]; exact hi
    have hj' : j < s.items.length := by rw [hv.length_items]; exact hj
    refine ⟨hidx.trans ht.setIndex_eq, by rw [hit]; exact nodup_values_swap ht.nodup hi' hj', ?_⟩
    rw [hit, report_record ht.setIndex_eq, report_record ht.setIndex_eq]
    exact ReportsAt.swap (g := fun k => k) ht.at_index ht.nodup hi' hj'
  pop s s' r hv hne hit hidx ht := by
    have hsz : s.size - 1 = s.items.length - 1 := by rw [hv.length_items]
    refine ⟨hidx.trans ht.setIndex_eq, by rw [hit]; exact nodup_values_dropLast ht.nodup, ?_⟩
    rw [hit, report_record ht.setIndex_eq, hsz]
    exact ReportsAt.dropLast (g := fun k => k) ht.at_index ht.nodup _
  reset s r ht := tracks_of_items_nil ht.setIndex_eq (Sstack.items_newSstack s.setIndex)

/--
入っている item は、その値に覚えている位置 `k` で `Remove(k)` すると、その item が返って外れる。
-/
theorem Tracks.remove_reported {p : Prque V (Reports V)} {w : Reports V} (hinv : Inv Tracks p w) {x : Item V} (hx : x ∈ p.cont.items) :
    ∃ k : Nat, w x.value = some (k : Int) ∧ ∃ p' w', p.Remove w k = .ok (p', w', some x) ∧
      Inv Tracks p' w' ∧ (p'.cont.items ++ [x]).Perm p.cont.items := by
  obtain ⟨k, hk, rfl⟩ := List.getElem_of_mem hx
  have hkd : p.cont.items.getD k default = p.cont.items[k] := List.getD_eq_getElem _ _ hk
  refine ⟨k, by rw [← hkd]; exact hinv.reports.at_index k hk, ?_⟩
  obtain ⟨p', w', h, hinv', hperm⟩ := Remove_spec Reporting.record hinv hk
  rw [hkd] at h hperm
  exact ⟨p', w', h, hinv', hperm⟩

theorem tracks_newSstack (r : Reports V) : Tracks (newSstack (some record)) r :=
  tracks_of_items_nil rfl (Sstack.items_newSstack _)

/--
`New(setIndex)` からの許された走りは panic せず、抽象の queue の走りである：`Pop` は先に来る
item のない item を返し、queue には足して返していない item がちょうど入っている。`setIndex` が
値ごとに位置を覚え、足す値が入っている値と違えば、入っているどの item も、覚えている位置での
`Remove` でその item が返って外れる。
-/
theorem prque_correct :
    (∀ {W : Type} (setIndex : Option (SetIndexCallback V W)) (w₀ : W) (ops : List (Op V)),
      Admissible (fun _ _ => True) (New setIndex) w₀ ops →
      ∃ p w os, run (New setIndex) w₀ ops = .ok (p, w, os) ∧ Runs 0 ops os p.cont.items) ∧
    (∀ (w₀ : Reports V) (ops : List (Op V)), Admissible Fresh (New (some record)) w₀ ops →
      ∃ p w os, run (New (some record)) w₀ ops = .ok (p, w, os) ∧ Runs 0 ops os p.cont.items ∧
        ∀ x ∈ p.cont.items, ∃ k : Nat, w x.value = some (k : Int) ∧
          ∃ p' w', p.Remove w k = .ok (p', w', some x) ∧ (p'.cont.items ++ [x]).Perm p.cont.items) := by
  have hnil : ∀ {W : Type} (setIndex : Option (SetIndexCallback V W)),
      ((New setIndex).cont.items : Multiset (Item V)) = 0 := fun setIndex => by
    rw [show (New setIndex).cont.items = [] from Sstack.items_newSstack setIndex]
    rfl
  refine ⟨fun setIndex w₀ ops hadm => ?_, fun w₀ ops hadm => ?_⟩
  · obtain ⟨p, w, os, h, hr, -⟩ :=
      run_refines Reporting.trivial ops (New_inv setIndex True.intro) hadm
    rw [hnil] at hr
    exact ⟨p, w, os, h, hr⟩
  · obtain ⟨p, w, os, h, hr, hinv⟩ :=
      run_refines Reporting.record ops (New_inv (some record) (tracks_newSstack w₀)) hadm
    rw [hnil] at hr
    refine ⟨p, w, os, h, hr, fun x hx => ?_⟩
    obtain ⟨k, hk, p', w', hrm, -, hperm⟩ := Tracks.remove_reported hinv hx
    exact ⟨k, hk, p', w', hrm, hperm⟩

/--
前提のない走りでは成り立たない。`Size()` を越える `Remove(2)` は nil を返すが、入れ替えで末尾の
item を `Size()` の外へ動かして落とす。同じ値を二度足すと、一つを外した後も値は入っているのに、
覚えている位置は `-1`。
-/
theorem remove_past_size_or_pushed_twice :
    ((run (New (none : Option (SetIndexCallback Nat Unit))) () [.push 0 1, .push 1 0, .remove 2]).toOption.map
        fun r => (r.2.2.map (Option.map Item.value), r.1.cont.items.map Item.value)) =
      some ([none, none, none], [0]) ∧
    ((run (New (some record)) (fun _ => none) [.push 5 1, .push 5 0, .remove 1]).toOption.map
        fun r => (r.1.cont.items.map Item.value, r.2.1 5)) = some ([5], some (-1)) :=
  ⟨by decide +kernel, by decide +kernel⟩

end Record

end Prque
