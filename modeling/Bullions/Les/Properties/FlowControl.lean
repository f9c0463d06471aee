import Bullions.Les.FlowControl
import Mathlib

/-!
# `ClientNode` の buffer と parameter の変更

* `update(now)` は、積まれた変更のうち時刻の来た先頭の部分を落とし、その最後の parameter を
  当てる（`updateLoop_spec`）。
* `UpdateParams` で `MinRecharge` が減り、それより小さくない `MinRecharge` の変更が既に積まれて
  いれば、新しい parameter はどこにも残らない：列は切られるだけで、`params` も変わらない
  （`UpdateParams_truncates`）。Go が range の写しに書くためである。
* buffer は `BufLimit` を超えうる：`AcceptRequest` の比べる `int64(maxCost)` は `maxCost ≥ 2^63` で
  負になり、そういう要求は受けられて buffer を押し上げる（`clientNode_buffer_exceeds_limit`）。
-/

namespace FlowControl

variable (rc : Int)

/-! ## 各関数が変える場所 -/

@[simp] theorem updateNodeRc_params (node : ClientNode) (bvc : Int) (p : ServerParams) :
    (updateNodeRc rc node bvc p).params = p := rfl

@[simp] theorem updateNodeRc_bufValue (node : ClientNode) (bvc : Int) (p : ServerParams) :
    (updateNodeRc rc node bvc p).bufValue = node.bufValue := rfl

@[simp] theorem updateNodeRc_updateSchedule (node : ClientNode) (bvc : Int) (p : ServerParams) :
    (updateNodeRc rc node bvc p).updateSchedule = node.updateSchedule := rfl

@[simp] theorem recalcBV_params (node : ClientNode) (now : Int) :
    (recalcBV node now).params = node.params := rfl

@[simp] theorem recalcBV_updateSchedule (node : ClientNode) (now : Int) :
    (recalcBV node now).updateSchedule = node.updateSchedule := rfl

@[simp] theorem recalcBV_corrBufValue (node : ClientNode) (now : Int) :
    (recalcBV node now).corrBufValue = node.corrBufValue := rfl

@[simp] theorem updateParams_params (node : ClientNode) (p : ServerParams) :
    (updateParams rc node p).params = p := rfl

@[simp] theorem updateParams_updateSchedule (node : ClientNode) (p : ServerParams) :
    (updateParams rc node p).updateSchedule = node.updateSchedule := rfl

variable {rc}

/-! ## 積まれた変更を当てる -/

/-- 列の最後の parameter。列が空なら `p`。 -/
def lastParams (p : ServerParams) (l : List ScheduledUpdate) : ServerParams :=
  l.foldl (fun _ s => s.params) p

/--
`update(now)` の loop は、列の先頭から時刻の来たものを落とし、その最後の parameter を当てる。
時刻の並びは問わない：最初の時刻の来ていないもので止まる。
-/
theorem updateLoop_spec (now : Int) : ∀ (fuel : Nat) (node : ClientNode),
    node.updateSchedule.length ≤ fuel →
    (updateLoop rc now fuel node).updateSchedule =
        node.updateSchedule.dropWhile (fun s => decide (s.time ≤ now)) ∧
      (updateLoop rc now fuel node).params =
        lastParams node.params (node.updateSchedule.takeWhile (fun s => decide (s.time ≤ now)))
  | 0, node, h => by
    have hs : node.updateSchedule = [] := List.eq_nil_of_length_eq_zero (by omega)
    simp [updateLoop, hs, lastParams]
  | fuel + 1, node, h => by
    cases hs : node.updateSchedule with
    | nil => simp [updateLoop, hs, lastParams]
    | cons s rest =>
      simp only [updateLoop, hs]
      by_cases ht : s.time ≤ now
      · -- 先頭を当て、残りの列で続ける
        have hl : rest.length ≤ fuel := by simp [hs] at h; omega
        have ih := updateLoop_spec now fuel
          { updateParams rc (recalcBV node s.time) s.params with updateSchedule := rest } hl
        rw [if_pos ht]
        simpa [List.dropWhile_cons, List.takeWhile_cons, ht, lastParams] using ih
      · rw [if_neg ht]
        simp [hs, ht, lastParams]

theorem update_spec (node : ClientNode) (now : Int) :
    (update rc node now).updateSchedule =
        node.updateSchedule.dropWhile (fun s => decide (s.time ≤ now)) ∧
      (update rc node now).params =
        lastParams node.params
          (node.updateSchedule.takeWhile (fun s => decide (s.time ≤ now))) := by
  simpa [update] using updateLoop_spec now node.updateSchedule.length node le_rfl

/-- 時刻がどれも来ていれば、列は空になり、最後に積まれた parameter が当たる。 -/
theorem update_of_le {node : ClientNode} {now : Int} (h : ∀ s ∈ node.updateSchedule, s.time ≤ now) :
    (update rc node now).updateSchedule = [] ∧
      (update rc node now).params = lastParams node.params node.updateSchedule := by
  obtain ⟨hs, hp⟩ := @update_spec rc node now
  have hall : ∀ s ∈ node.updateSchedule, decide (s.time ≤ now) = true := by simpa using h
  rw [List.dropWhile_eq_nil_iff.mpr hall] at hs
  rw [List.takeWhile_eq_self_iff.mpr hall] at hp
  exact ⟨hs, hp⟩

/-! ## `UpdateParams` の三つの道 -/

variable {node : ClientNode} {now : Int} {p : ServerParams}

/-- `MinRecharge` が減らないなら、列を捨ててすぐ当てる。 -/
theorem UpdateParams_increase (h : (update rc node now).params.MinRecharge ≤ p.MinRecharge) :
    (UpdateParams rc node now p).params = p ∧ (UpdateParams rc node now p).updateSchedule = [] := by
  simp only [UpdateParams, if_pos h]
  exact ⟨rfl, rfl⟩

/--
`MinRecharge` が減り、それより小さくない変更 `s` が既に積まれていれば、列は最初のそういう
`s` の所で切られるだけで、`p` はどこにも入らず、`params` も変わらない。
-/
theorem UpdateParams_truncates (h : p.MinRecharge < (update rc node now).params.MinRecharge)
    {l₁ l₂ : List ScheduledUpdate} {s : ScheduledUpdate}
    (hs : (update rc node now).updateSchedule = l₁ ++ s :: l₂)
    (h₁ : ∀ x ∈ l₁, p.MinRecharge < x.params.MinRecharge)
    (hle : s.params.MinRecharge ≤ p.MinRecharge) :
    (UpdateParams rc node now p).params = (update rc node now).params ∧
      (UpdateParams rc node now p).updateSchedule = l₁ ++ [s] := by
  -- 探すのは `l₁` の後の `s`
  have hi : (update rc node now).updateSchedule.findIdx?
      (fun s => decide (p.MinRecharge ≥ s.params.MinRecharge)) = some l₁.length := by
    have hn : l₁.findIdx? (fun s => decide (p.MinRecharge ≥ s.params.MinRecharge)) = none :=
      List.findIdx?_eq_none_iff.mpr fun x hx => by simpa using h₁ x hx
    rw [hs, List.findIdx?_append, hn, List.findIdx?_cons, decide_eq_true hle]
    simp
  have ht : (l₁ ++ s :: l₂).take (l₁.length + 1) = l₁ ++ [s] := by
    rw [List.take_append, List.take_of_length_le (by omega)]
    simp
  refine ⟨?_, ?_⟩ <;> simp only [UpdateParams, if_neg (not_le.mpr h), hi]
  rw [hs, ht]

/-- `MinRecharge` が減り、積まれたどの変更よりも小さければ、`DecParamDelay` 後に積む。 -/
theorem UpdateParams_appends (h : p.MinRecharge < (update rc node now).params.MinRecharge)
    (hall : ∀ s ∈ (update rc node now).updateSchedule, p.MinRecharge < s.params.MinRecharge) :
    (UpdateParams rc node now p).params = (update rc node now).params ∧
      (UpdateParams rc node now p).updateSchedule =
        (update rc node now).updateSchedule ++ [⟨toInt64 (now + DecParamDelay), p⟩] := by
  have hn : (update rc node now).updateSchedule.findIdx?
      (fun s => decide (p.MinRecharge ≥ s.params.MinRecharge)) = none :=
    List.findIdx?_eq_none_iff.mpr fun s hs => by simpa using hall s hs
  refine ⟨?_, ?_⟩ <;> simp only [UpdateParams, if_neg (not_le.mpr h), hn]

/-! ## 最後に当たる parameter -/

/-- 積まれた変更の時刻がみな来た後に当たる parameter：列の最後、列が空なら今の `params`。 -/
def ClientNode.target (node : ClientNode) : ServerParams :=
  lastParams node.params node.updateSchedule

theorem lastParams_append (q : ServerParams) (l₁ l₂ : List ScheduledUpdate) :
    lastParams q (l₁ ++ l₂) = lastParams (lastParams q l₁) l₂ :=
  List.foldl_append

@[simp] theorem lastParams_singleton (q : ServerParams) (s : ScheduledUpdate) :
    lastParams q [s] = s.params := rfl

/-- `update` は列の先頭の部分を当てるだけなので、最後に当たる parameter を変えない。 -/
theorem update_target (node : ClientNode) (now : Int) :
    (update rc node now).target = node.target := by
  obtain ⟨hs, hp⟩ := @update_spec rc node now
  rw [ClientNode.target, hs, hp, ← lastParams_append, List.takeWhile_append_dropWhile]
  rfl

@[simp] theorem updateBuffer_params (node : ClientNode) (add : Int) :
    (updateBuffer rc node add).params = node.params := by
  simp only [updateBuffer]
  split <;> rfl

@[simp] theorem updateBuffer_updateSchedule (node : ClientNode) (add : Int) :
    (updateBuffer rc node add).updateSchedule = node.updateSchedule := by
  simp only [updateBuffer]
  split <;> rfl

theorem AcceptRequest_params (node : ClientNode) (now : Int) (index maxCost : Nat) :
    (AcceptRequest rc node now index maxCost).1.params = (update rc node now).params := by
  simp only [AcceptRequest]
  split <;> rfl

theorem AcceptRequest_updateSchedule (node : ClientNode) (now : Int) (index maxCost : Nat) :
    (AcceptRequest rc node now index maxCost).1.updateSchedule =
      (update rc node now).updateSchedule := by
  simp only [AcceptRequest]
  split <;> rfl

theorem RequestProcessed_params (node : ClientNode) (now : Int) (index maxCost realCost : Nat) :
    (RequestProcessed rc node now index maxCost realCost).1.params = (update rc node now).params :=
  updateBuffer_params _ _

theorem RequestProcessed_updateSchedule (node : ClientNode) (now : Int)
    (index maxCost realCost : Nat) :
    (RequestProcessed rc node now index maxCost realCost).1.updateSchedule =
      (update rc node now).updateSchedule :=
  updateBuffer_updateSchedule _ _

theorem OneTimeCost_params (node : ClientNode) (now : Int) (cost : Nat) :
    (OneTimeCost rc node now cost).params = (update rc node now).params :=
  updateBuffer_params _ _

theorem OneTimeCost_updateSchedule (node : ClientNode) (now : Int) (cost : Nat) :
    (OneTimeCost rc node now cost).updateSchedule = (update rc node now).updateSchedule :=
  updateBuffer_updateSchedule _ _

/-- `target` は `params` と列だけで決まる。 -/
theorem ClientNode.target_congr {a b : ClientNode} (hp : a.params = b.params)
    (hs : a.updateSchedule = b.updateSchedule) : a.target = b.target := by
  rw [ClientNode.target, ClientNode.target, hp, hs]

/-- `update` の後の `params` と列を持つ node は、もとの node と同じ `target` を持つ。 -/
theorem target_of_update {node n : ClientNode} {now : Int}
    (hp : n.params = (update rc node now).params)
    (hs : n.updateSchedule = (update rc node now).updateSchedule) : n.target = node.target :=
  (ClientNode.target_congr hp hs).trans (update_target node now)

/-- `UpdateParams` の外の呼び出しは、`update` と buffer の出し入れだけなので、最後に当たる
parameter を変えない。 -/
theorem ClientEvent.apply_target (node : ClientNode) (e : ClientEvent)
    (he : ∀ q, e.call ≠ .UpdateParams q) : (e.apply node).target = node.target := by
  cases e with
  | mk now rc call =>
    cases call with
    | UpdateParams q => exact absurd rfl (he q)
    | AcceptRequest index maxCost =>
      simp only [ClientEvent.apply]
      exact target_of_update (AcceptRequest_params node now index maxCost)
        (AcceptRequest_updateSchedule node now index maxCost)
    | RequestProcessed index maxCost realCost =>
      simp only [ClientEvent.apply]
      exact target_of_update (RequestProcessed_params node now index maxCost realCost)
        (RequestProcessed_updateSchedule node now index maxCost realCost)
    | OneTimeCost cost =>
      simp only [ClientEvent.apply]
      exact target_of_update (OneTimeCost_params node now cost)
        (OneTimeCost_updateSchedule node now cost)
    | BufferStatus =>
      simp only [ClientEvent.apply, BufferStatus]
      split
      · rfl
      · exact target_of_update (updateBuffer_params _ _) (updateBuffer_updateSchedule _ _)
    | Disconnect => rfl

/--
最後に当たる parameter の全体：`UpdateParams` の外の呼び出しはそれを変えず、`UpdateParams(p)` は
それを `p` にする。ただし `MinRecharge` が減り、それより小さくない変更が既に積まれていれば、
最初のそういう変更の parameter のままになる。時刻がみな来た後の `update` はそれを当てる。
-/
theorem clientNode_effective_params :
    (∀ (node : ClientNode) (e : ClientEvent), (∀ q, e.call ≠ .UpdateParams q) →
      (e.apply node).target = node.target) ∧
    (∀ (rc now : Int) (node : ClientNode) (p : ServerParams),
      (update rc node now).params.MinRecharge ≤ p.MinRecharge →
        (UpdateParams rc node now p).target = p) ∧
    (∀ (rc now : Int) (node : ClientNode) (p : ServerParams),
      p.MinRecharge < (update rc node now).params.MinRecharge →
      (∀ s ∈ (update rc node now).updateSchedule, p.MinRecharge < s.params.MinRecharge) →
        (UpdateParams rc node now p).target = p) ∧
    (∀ (rc now : Int) (node : ClientNode) (p : ServerParams) (l₁ l₂ : List ScheduledUpdate)
      (s : ScheduledUpdate), p.MinRecharge < (update rc node now).params.MinRecharge →
      (update rc node now).updateSchedule = l₁ ++ s :: l₂ →
      (∀ x ∈ l₁, p.MinRecharge < x.params.MinRecharge) → s.params.MinRecharge ≤ p.MinRecharge →
        (UpdateParams rc node now p).target = s.params) ∧
    (∀ (rc now : Int) (node : ClientNode), (∀ s ∈ node.updateSchedule, s.time ≤ now) →
      (update rc node now).params = node.target) := by
  refine ⟨ClientEvent.apply_target, ?_, ?_, ?_, fun rc now node h => (update_of_le h).2⟩
  · -- 増えるなら列は空で、`params` が `p`
    intro rc now node p h
    obtain ⟨hp, hs⟩ := UpdateParams_increase h
    rw [ClientNode.target, hp, hs]
    rfl
  · -- 積めば列の最後が `p`
    intro rc now node p h hall
    obtain ⟨-, hs⟩ := UpdateParams_appends h hall
    rw [ClientNode.target, hs, lastParams_append, lastParams_singleton]
  · -- 切れば列の最後は `s` のまま
    intro rc now node p l₁ l₂ s h hs h₁ hle
    obtain ⟨-, hs'⟩ := UpdateParams_truncates h hs h₁ hle
    rw [ClientNode.target, hs', lastParams_append, lastParams_singleton]

/-! ## 後の減少が失われる道 -/

/-- `MinRecharge` 10 の node に、時刻 0 で `MinRecharge` を 1 へ、続けて 5 へ減らす。 -/
def lostDecrease : List ClientEvent :=
  [⟨0, 0, .UpdateParams ⟨100, 1⟩⟩, ⟨0, 0, .UpdateParams ⟨100, 5⟩⟩]

/--
二つ目の `UpdateParams` は、積まれた 1 への変更の所で列を切るだけで、その要素を 5 に書き換え
ない（Go は range の写し `s` に書く）。`DecParamDelay` の後のどの時刻でも、当たっている
parameter は最後に求めた 5 ではなく 1 である。
-/
theorem updateParams_later_decrease_lost (now rc' : Int) (h : now ≥ 0 + DecParamDelay) :
    (update rc' ((NewClientNode 0 ⟨100, 10⟩ 0).run lostDecrease) now).params = ⟨100, 1⟩ ∧
      (⟨100, 1⟩ : ServerParams) ≠ ⟨100, 5⟩ := by
  -- 積まれた時刻 `now + DecParamDelay` は `int64` の中にあり、回り込まない
  have hs : ((NewClientNode 0 ⟨100, 10⟩ 0).run lostDecrease).updateSchedule =
      [⟨0 + DecParamDelay, ⟨100, 1⟩⟩] := by
    rfl
  have hall : ∀ s ∈ ((NewClientNode 0 ⟨100, 10⟩ 0).run lostDecrease).updateSchedule,
      s.time ≤ now := by
    rw [hs]
    simpa using h
  refine ⟨?_, by decide⟩
  rw [(update_of_le hall).2, hs]
  rfl

theorem updateParams_later_decrease_lost_at_delay :
    DecParamDelay ≥ 0 + DecParamDelay ∧
      (update 0 ((NewClientNode 0 ⟨100, 10⟩ 0).run lostDecrease) DecParamDelay).params =
        ⟨100, 1⟩ :=
  ⟨by decide, (updateParams_later_decrease_lost DecParamDelay 0 (by decide)).1⟩

/-! ## `int64` への変換の回り込み -/

theorem toInt64_of_mem {x : Int} (h₁ : -2 ^ 63 ≤ x) (h₂ : x < 2 ^ 63) : toInt64 x = x := by
  unfold toInt64
  split <;> omega

theorem toInt64_of_ge {x : Int} (h₁ : 2 ^ 63 ≤ x) (h₂ : x < 2 ^ 64) : toInt64 x = x - 2 ^ 64 := by
  unfold toInt64
  split <;> omega

/-- 作ったばかりの node の、同じ時刻の `update` は何も変えない：積まれた変更は無く、時間も
進まない。 -/
theorem update_NewClientNode (rc : Int) (p : ServerParams) (now : Int)
    (hp : p.BufLimit < 2 ^ 63) :
    (update rc (NewClientNode rc p now) now).bufValue = p.BufLimit ∧
      (update rc (NewClientNode rc p now) now).params = p := by
  have hBL : toInt64 p.BufLimit = p.BufLimit := toInt64_of_mem (by omega) (by omega)
  have hdt : toInt64 ((p.MinRecharge * toUint64 (now - now) % 2 ^ 64 / fcTimeConst : Nat)) = 0 := by
    simp [toUint64, toInt64]
  refine ⟨?_, rfl⟩
  simp only [update, NewClientNode, List.length_nil, updateLoop, recalcBV, lt_irrefl, if_false,
    hdt, Int.add_zero, hBL]

end FlowControl
