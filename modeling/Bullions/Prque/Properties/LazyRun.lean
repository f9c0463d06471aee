import Bullions.Prque.Properties.LazyQueue

/-!
# `LazyQueue` を呼ぶ列：入っている値と、知らされた位置

使う側は `Push`、`Remove(index)`、`Update(index)`、`Refresh`、`Pop` を順に呼ぶ（`Call`、`run`）。
`Remove` と `Update` の `index` は、使う側が `setIndex` で値ごとに覚えた、最後に知らされた位置。
抽象の queue は入っている値の多重集合と使う側の覚え（`Step`）：`Push` は値を足し、`Remove(index)`
は覚えている位置が `index` の値を外して返し、`Update` と `Refresh` は値を変えず、`Pop` は空なら
`nil`、でなければ値を一つ外して返す。

* `Allowed`：呼び出しの前提。足す値は入っていない値で、`Remove` と `Update` の位置は入っている
  値について覚えている位置、`Refresh` は `0 < period*2` で。
* `step_refines`、`run_refines`：`Ready`（`Tracking` で `popQueue` が空）の状態からの許された一歩
  （走り）は、抽象の queue の一歩（走り）で、`Ready` を保つ。
* `lazyQueue_refines`：`NewLazyQueue` からの許された走りは panic も止まらないこともなく、抽象の
  queue の走り。
* `Reset` は含めない：`indexOffset = 1` のときの `Reset` は知らせ方を壊す
  （`reset_then_remove_reported_panics`）。
-/

namespace Prque

open ExceptSpec

variable {V W : Type}

/-! ## 呼び出しと走り -/

/-- 使う側から `LazyQueue` への呼び出し。 -/
inductive Call (V : Type) where
  | push (data : V)
  | remove (index : Int)
  | update (index : Int)
  | refresh (now : AbsTime)
  | pop (now : AbsTime)

namespace LazyQueue

/-- 一つの呼び出し。返すのは `Remove` と `Pop` の返す値。 -/
def step (q : LazyQueue V W) (w : W) : Call V → Except Fault (LazyQueue V W × W × Option V)
  | .push data => do
    let (q, w) ← q.Push w data
    pure (q, w, none)
  | .remove index => q.Remove w index
  | .update index => do
    let (q, w) ← q.Update w index
    pure (q, w, none)
  | .refresh now => do
    let (q, w) ← q.Refresh w now
    pure (q, w, none)
  | .pop now => q.PopItem w now

/-- 呼び出しの列を順に走らせ、返す値を集める。 -/
def run (q : LazyQueue V W) (w : W) : List (Call V) → Except Fault (LazyQueue V W × W × List (Option V))
  | [] => pure (q, w, [])
  | c :: cs => do
    let (q, w, o) ← q.step w c
    let (q, w, os) ← run q w cs
    pure (q, w, o :: os)

/-! ## 抽象の queue -/

/--
抽象の queue の一歩：入っている値の多重集合と使う側の覚え。覚えの変わり方は言わない。
`Remove(index)` は、覚えている位置が `index` の値を外す。
-/
inductive Step : Multiset V × Reports V → Call V → Option V → Multiset V × Reports V → Prop
  | push (m : Multiset V) (r r' : Reports V) (v : V) : Step (m, r) (.push v) none (v ::ₘ m, r')
  | remove (m : Multiset V) (r r' : Reports V) (v : V) (i : Int) (hi : r v = some i) :
      Step (v ::ₘ m, r) (.remove i) (some v) (m, r')
  | update (m : Multiset V) (r r' : Reports V) (i : Int) : Step (m, r) (.update i) none (m, r')
  | refresh (m : Multiset V) (r r' : Reports V) (now : AbsTime) :
      Step (m, r) (.refresh now) none (m, r')
  | popEmpty (r r' : Reports V) (now : AbsTime) : Step (0, r) (.pop now) none (0, r')
  | pop (m : Multiset V) (r r' : Reports V) (v : V) (now : AbsTime) :
      Step (v ::ₘ m, r) (.pop now) (some v) (m, r')

/-- 抽象の queue の上の走り。 -/
inductive Steps : Multiset V × Reports V → List (Call V) → List (Option V) →
    Multiset V × Reports V → Prop
  | nil (a : Multiset V × Reports V) : Steps a [] [] a
  | cons {a₁ a₂ a₃ : Multiset V × Reports V} {c : Call V} {o : Option V} {cs : List (Call V)}
      {os : List (Option V)} : Step a₁ c o a₂ → Steps a₂ cs os a₃ → Steps a₁ (c :: cs) (o :: os) a₃

/-- 呼び出しの前提。 -/
def Allowed (q : LazyQueue V (Reports V)) (r : Reports V) : Call V → Prop
  | .push v => v ∉ q.held
  | .remove i => ∃ v ∈ q.held, r v = some i
  | .update i => ∃ v ∈ q.held, r v = some i
  | .refresh _ => 0 < q.period * 2
  | .pop _ => True

/-- 走りのどの呼び出しも、その時の queue と覚えで許される。 -/
def Admissible : LazyQueue V (Reports V) → Reports V → List (Call V) → Prop
  | _, _, [] => True
  | q, r, c :: cs => Allowed q r c ∧ ∀ q' r' o, q.step r c = .ok (q', r', o) → Admissible q' r' cs

variable [Inhabited V] [DecidableEq V]

/-- 呼び出しの間の不変条件：`Tracking` で、`popQueue` は空。 -/
structure Ready (q : LazyQueue V (Reports V)) (r : Reports V) : Prop where
  tracking : Tracking q r
  popQueue_empty : q.popQueue.size = 0

variable {q : LazyQueue V (Reports V)} {r : Reports V}

omit [Inhabited V] [DecidableEq V] in
theorem mem_held {v : V} (hv : v ∈ q.held) :
    ∃ x, (x ∈ q.queue.1.items ∨ x ∈ q.queue.2.items) ∧ x.value = v := by
  rw [held, Multiset.mem_add, mem_vals, mem_vals, List.mem_map, List.mem_map] at hv
  rcases hv with ⟨x, hx, rfl⟩ | ⟨x, hx, rfl⟩
  · exact ⟨x, .inl hx, rfl⟩
  · exact ⟨x, .inr hx, rfl⟩

/-- 覚えている位置が `i` の入っている値について、`Remove(i)` はその値を外す。 -/
theorem Ready.remove_reported (hr : Ready q r) {v : V} (hv : v ∈ q.held) {i : Int}
    (hi : r v = some i) :
    ∃ q' r', q.Remove r i = .ok (q', r', some v) ∧ Ready q' r' ∧ q.held = v ::ₘ q'.held := by
  obtain ⟨x, hx, rfl⟩ := mem_held hv
  obtain ⟨k, q', r', hk, hrm, ht', hpop, hheld⟩ := hr.tracking.Remove_spec hx
  obtain rfl : k = i := Option.some.inj (hk.symm.trans hi)
  exact ⟨q', r', hrm, ⟨ht', by rw [hpop]; exact hr.popQueue_empty⟩, hheld⟩

/-- `Ready` の状態からの許された一歩は、抽象の queue の一歩で、`Ready` を保つ。 -/
theorem step_refines (hr : Ready q r) {c : Call V} (hc : Allowed q r c) :
    ∃ q' r' o, q.step r c = .ok (q', r', o) ∧ Step (q.held, r) c o (q'.held, r') ∧ Ready q' r' := by
  have hpend := hr.tracking.pending_of_nil hr.popQueue_empty
  cases c with
  | push v =>
    have hfresh : v ∉ q.pending := by rw [hpend]; exact hc
    obtain ⟨s, r', hpush, ht', hvals⟩ := hr.tracking.Push_spec hfresh
    refine ⟨_, r', none, by rw [step, hpush, ok_bind]; rfl, ?_, ⟨ht', hr.popQueue_empty⟩⟩
    -- 足した後の値は `v` と元の値
    have hheld : ({ q with queue := (q.queue.1, s) } : LazyQueue V (Reports V)).held = v ::ₘ q.held := by
      show vals q.queue.1.items + vals s.items = _
      rw [hvals, Multiset.add_cons]
      rfl
    rw [hheld]
    exact Step.push _ _ _ v
  | remove i =>
    obtain ⟨v, hv, hi⟩ := hc
    obtain ⟨q', r', hrm, hr', hheld⟩ := hr.remove_reported hv hi
    refine ⟨q', r', some v, hrm, ?_, hr'⟩
    rw [hheld]
    exact Step.remove _ _ _ v i hi
  | update i =>
    obtain ⟨v, hv, hi⟩ := hc
    obtain ⟨x, hx, rfl⟩ := mem_held hv
    obtain ⟨k, q', r', hk, hup, ht', hpop, hheld⟩ := hr.tracking.Update_spec hr.popQueue_empty hx
    obtain rfl : k = i := Option.some.inj (hk.symm.trans hi)
    refine ⟨q', r', none, by rw [step, hup, ok_bind]; rfl, ?_,
      ⟨ht', by rw [hpop]; exact hr.popQueue_empty⟩⟩
    rw [hheld]
    exact Step.update _ _ _ _
  | refresh now =>
    obtain ⟨q', r', hrf, ht', hheld, hpop, -⟩ := hr.tracking.Refresh_spec now hc
    refine ⟨q', r', none, by rw [step, hrf, ok_bind]; rfl, ?_,
      ⟨ht', by rw [hpop]; exact hr.popQueue_empty⟩⟩
    rw [hheld]
    exact Step.refresh _ _ _ now
  | pop now =>
    obtain ⟨q', r', res, hpop, ht', hnil, hres⟩ := hr.tracking.Pop_spec hr.popQueue_empty now
    have hr' : Ready q' r' := ⟨ht', by rw [← ht'.validPop.length_items, hnil]; rfl⟩
    rcases hres with ⟨rfl, h₀, h₀'⟩ | ⟨d, p, rfl, hheld⟩
    · refine ⟨q', r', none, by rw [step, PopItem, hpop, ok_bind]; rfl, ?_, hr'⟩
      rw [h₀, h₀']
      exact Step.popEmpty _ _ now
    · refine ⟨q', r', some d, by rw [step, PopItem, hpop, ok_bind]; rfl, ?_, hr'⟩
      rw [hheld]
      exact Step.pop _ _ _ d now

/-- `Ready` の状態からの許された走りは、抽象の queue の走りで、`Ready` を保つ。 -/
theorem run_refines (cs : List (Call V)) :
    ∀ {q : LazyQueue V (Reports V)} {r : Reports V}, Ready q r → Admissible q r cs →
      ∃ q' r' os, q.run r cs = .ok (q', r', os) ∧ Steps (q.held, r) cs os (q'.held, r') ∧
        Ready q' r' := by
  induction cs with
  | nil => exact fun hr _ => ⟨_, _, [], rfl, Steps.nil _, hr⟩
  | cons c cs ih =>
    intro q r hr hadm
    obtain ⟨q₁, r₁, o, h₁, hs, hr₁⟩ := step_refines hr hadm.1
    obtain ⟨q₂, r₂, os, h₂, hss, hr₂⟩ := ih hr₁ (hadm.2 q₁ r₁ o h₁)
    refine ⟨q₂, r₂, o :: os, ?_, Steps.cons hs hss, hr₂⟩
    rw [run, h₁, ok_bind]
    dsimp only
    rw [h₂, ok_bind]
    rfl

/--
`NewLazyQueue(setIndex, …)` から、`setIndex` が値ごとに位置を覚えるなら、許された呼び出しの
どの列も panic せず止まり、空の queue から始まる抽象の queue の走りになる。
-/
theorem lazyQueue_refines
    (priority maxPriority : V → AbsTime → Reports V → Int64) (now : AbsTime) (refreshPeriod : Int64)
    (r : Reports V) (cs : List (Call V))
    (hadm : ∀ q r', NewLazyQueue record priority maxPriority now refreshPeriod r = .ok (q, r') →
      Admissible q r' cs) :
    ∃ q₀ r₀ q' r' os, NewLazyQueue record priority maxPriority now refreshPeriod r = .ok (q₀, r₀) ∧
      q₀.run r₀ cs = .ok (q', r', os) ∧ Steps (0, r₀) cs os (q'.held, r') ∧ Ready q' r' := by
  obtain ⟨q₀, r₀, hnew, ht, hheld, hnil, -, -⟩ :=
    NewLazyQueue_spec priority maxPriority now refreshPeriod r
  have hr₀ : Ready q₀ r₀ := ⟨ht, by rw [← ht.validPop.length_items, hnil]; rfl⟩
  obtain ⟨q', r', os, hrun, hsteps, hr'⟩ := run_refines cs hr₀ (hadm q₀ r₀ hnew)
  rw [hheld] at hsteps
  exact ⟨q₀, r₀, q', r', os, hnew, hrun, hsteps, hr'⟩

/-- 値 `1` を足して取り出す列：最初の `Push` の前の queue は空。 -/
theorem lazyQueue_refines_push_pop :
    ∃ q₀ r₀ q' r' os, NewLazyQueue record (fun (_ : Nat) _ _ => 0) (fun _ _ _ => 0) 0 10
        (fun _ => none) = .ok (q₀, r₀) ∧
      q₀.run r₀ [.push 1, .pop 0] = .ok (q', r', os) ∧ Steps (0, r₀) [.push 1, .pop 0] os (q'.held, r') ∧
      Ready q' r' :=
  lazyQueue_refines _ _ 0 10 _ _ fun q r' hnew => by
    obtain ⟨q₀, r₀, hnew₀, -, hheld, -⟩ :=
      NewLazyQueue_spec (fun (_ : Nat) _ _ => (0 : Int64)) (fun _ _ _ => 0) 0 10 (fun _ => none)
    obtain ⟨rfl, rfl⟩ := Prod.mk.inj (Except.ok.inj (hnew.symm.trans hnew₀))
    refine ⟨?_, fun _ _ _ _ => ⟨trivial, fun _ _ _ _ => trivial⟩⟩
    show (1 : Nat) ∉ q.held
    rw [hheld]
    exact Multiset.notMem_zero 1

end LazyQueue

end Prque
