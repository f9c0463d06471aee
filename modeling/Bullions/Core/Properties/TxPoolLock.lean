import Bullions.Core.TxPoolLock

/-!
# `pool.mu` の規律：`RemoveTx` のほかは守り、`RemoveTx` は破る

`RemoveTx` のほかの入口（`AddLocals`・`AddRemotes`・`Pending`・`Content`・`Stats`・
`SetGasPrice`・`Get`・`Has`）と `runReorg` の列はどれも `Bracketed` なので、
`RWMutex.raceFree_of_bracketed` により、それらをどう並べた goroutine をどう交互に進めても、
守られた場所の読み書きはどれも `pool.mu` の内で、ぶつからない。

`RemoveTx` は `removeTx(hash, true)` を lock を取らずに呼ぶ。取引が pool にあれば守られた場所に
触れるので、その読み書きはどれも `pool.mu` の外である。待ちの list にある取引なら、
`runReorg` が lock の内で最後の loop に `pool.pending` を読もうとしている同じ時に、`RemoveTx` は
`pool.pending` の list を書こうとしている状態に届く（`RemoveTx_races_runReorg`）。
-/

namespace Core

open RWMutex

/-- `RemoveTx` の呼び出し。 -/
def Call.IsRemoveTx : Call → Bool
  | .RemoveTx _ => true
  | _ => false

/-! ## lock を取る入口 -/

theorem addTxs_bracketed (news : List AddPath) (isLocal : Bool) :
    Bracketed .free (addTxs news isLocal) = true := by
  unfold addTxs
  split_ifs
  · rfl
  · exact bracketed_locked _

theorem Stats_bracketed (n m : Nat) : Bracketed .free (Stats n m) = true :=
  bracketed_rLocked _

/-- `RemoveTx` のほかの method と `runReorg` の列は `Bracketed`。 -/
theorem Call.ops_bracketed {k : Call} (hk : k.IsRemoveTx = false) :
    Bracketed .free k.ops = true := by
  cases k with
  | AddLocals noLocals news => exact addTxs_bracketed news _
  | AddRemotes news => exact addTxs_bracketed news false
  | RemoveTx p => simp [Call.IsRemoveTx] at hk
  | Pending n => exact bracketed_locked _
  | Content n m => exact bracketed_locked _
  | Stats n m => exact Stats_bracketed n m
  | SetGasPrice drops => exact bracketed_locked _
  | Get => rfl
  | Has => rfl
  | runReorg p => exact bracketed_locked _

theorem goroutine_bracketed {calls : List Call} (h : ∀ k ∈ calls, k.IsRemoveTx = false) :
    Bracketed .free (goroutine calls) = true := by
  rw [goroutine, List.flatMap_def]
  apply bracketed_flatten
  intro p hp
  obtain ⟨k, hk, rfl⟩ := List.mem_map.mp hp
  exact Call.ops_bracketed (h k hk)

/-- `RemoveTx` を呼ばない goroutine は、どう並べてどう交互に進めても、守られた場所を
`pool.mu` の内でだけ触り、ぶつからない。 -/
theorem pool_raceFree {gs : List (List Call)} (h : ∀ g ∈ gs, ∀ k ∈ g, k.IsRemoveTx = false)
    {c : Conf PoolField} (hc : Reachable (poolInit gs) c) :
    (∀ th ∈ c.threads, th.Guarded) ∧ ¬ c.Race := by
  apply raceFree_of_bracketed _ hc
  intro p hp
  obtain ⟨g, hg, rfl⟩ := List.mem_map.mp hp
  exact goroutine_bracketed (h g hg)

/-! ## `RemoveTx` -/

theorem goroutine_RemoveTx (p : RemovePath) :
    goroutine [.RemoveTx p] = (removeTx true p).map .acc := by
  simp [goroutine, Call.ops, RemoveTx]

/-- `RemoveTx` を走らせる goroutine は lock を持たないので、その読み書きはどれも `pool.mu` の
外。 -/
theorem RemoveTx_unguarded {gs : List (List Call)} {i : Nat} {p : RemovePath}
    (hi : gs[i]? = some [.RemoveTx p]) {c : Conf PoolField} (hc : Reachable (poolInit gs) c) :
    ∃ th, c.threads[i]? = some th ∧ th.held = .free ∧ (th.rest ≠ [] → ¬ th.Guarded) := by
  have hprog : (gs.map goroutine)[i]? = some ((removeTx true p).map .acc) := by
    simp [hi, goroutine_RemoveTx]
  obtain ⟨bs, -, hth⟩ := hc.thread_of_accs hprog
  refine ⟨_, hth, rfl, fun hne => ?_⟩
  cases bs with
  | nil => exact absurd rfl hne
  | cons b bs => exact not_guarded_of_free

/-- 取引が pool にあれば、`removeTx(hash, true)` は守られた場所に触れる。 -/
theorem removeTx_ne_nil {p : RemovePath} (hk : p.known = true) : removeTx true p ≠ [] := by
  simp [removeTx, hk]

/-- 待ちの list から消える取引の `removeTx(hash, true)` は、`priced` を書き、`pending` を読み、
`pending` の list を書く。 -/
theorem removeTx_pending {p : RemovePath} (hk : p.known = true) (hp : p.inPending = true)
    (hr : p.removedPending = true) :
    ∃ rest, removeTx true p = .write .priced :: .read .pending :: .write .pending :: rest := by
  simp [removeTx, hk, hp, hr]

/-- `runReorg` の lock の内は、最後の loop で `pool.pending` を読む。 -/
theorem runReorgLocked_reads_pending (r : ReorgPath) :
    ∃ pre post, runReorgLocked r = pre ++ .read .pending :: post :=
  ⟨_, _, rfl⟩

/-- `RemoveTx` と `runReorg` の二つの goroutine は、`runReorg` が lock を取って最後の loop の
`pool.pending` の読みに来たところで `RemoveTx` が `priced` を書いて `pending` を読めば、
`pending` の書きと読みが同時に来る状態に届く。 -/
theorem RemoveTx_races_runReorg {p : RemovePath} (r : ReorgPath) (hk : p.known = true)
    (hp : p.inPending = true) (hr : p.removedPending = true) :
    ∃ c, Reachable (poolInit [[.RemoveTx p], [.runReorg r]]) c ∧ c.Race := by
  obtain ⟨rest, hrm⟩ := removeTx_pending hk hp hr
  obtain ⟨pre, post, hlocked⟩ := runReorgLocked_reads_pending r
  have h0 : goroutine [.RemoveTx p] =
      [Access.write PoolField.priced, .read .pending].map .acc ++
        (.write .pending :: rest).map .acc := by
    rw [goroutine_RemoveTx, hrm]; rfl
  have h1 : goroutine [.runReorg r] =
      .lock :: (pre.map .acc ++ ((.read .pending :: post).map .acc ++ [.unlock])) := by
    simp [goroutine, Call.ops, runReorg, hlocked]
  -- `runReorg` が lock を取る
  let c₀ := poolInit [[.RemoveTx p], [.runReorg r]]
  let c₁ : Conf PoolField :=
    { threads := [⟨goroutine [.RemoveTx p], .free⟩,
        ⟨pre.map .acc ++ ((.read .pending :: post).map .acc ++ [.unlock]), .exclusive⟩],
      writer := true, readers := 0 }
  have hs₁ : c₀.run [1] = some c₁ := by
    simp [c₀, c₁, poolInit, Conf.init, Conf.run, Conf.step, h1]
  -- `runReorg` が lock の内を最後の loop まで進む
  let c₂ : Conf PoolField := { c₁ with threads := (c₁.threads.set 1
    (Thread.mk ((.read .pending :: post).map .acc ++ [.unlock]) .exclusive)) }
  have hs₂ : c₁.run (List.replicate pre.length 1) = some c₂ :=
    run_accs pre (show c₁.threads[1]? = some ⟨_, .exclusive⟩ from rfl) rfl
  -- `RemoveTx` が `priced` を書き、`pending` を読む
  let c₃ : Conf PoolField :=
    { c₂ with threads := c₂.threads.set 0 (Thread.mk ((.write .pending :: rest).map .acc) .free) }
  have hs₃ : c₂.run (List.replicate 2 0) = some c₃ :=
    run_accs [.write .priced, .read .pending]
      (show c₂.threads[0]? = some ⟨goroutine [.RemoveTx p], .free⟩ by simp [c₂, c₁]) h0
  have hrun : c₀.run ([1] ++ List.replicate pre.length 1 ++ List.replicate 2 0) = some c₃ := by
    rw [run_append, run_append, hs₁, Option.bind_some, hs₂, Option.bind_some, hs₃]
  refine ⟨c₃, Reachable.of_run hrun, 0, 1, .write .pending, .read .pending, by decide, ?_, ?_, rfl⟩
  · simp [c₃, c₂, c₁, Conf.next?]
  · simp [c₃, c₂, c₁, Conf.next?]

/-- `pool.mu` の規律は `RemoveTx` のほかでは成り立ち、`RemoveTx` で破れる。`RemoveTx` を
呼ばない goroutine をどう並べても、どの交互実行でも読み書きは lock の内でぶつからない。
`RemoveTx` の goroutine は lock を持たず、取引が pool にあれば守られた場所に触れる。
待ちの list の取引なら、どの `runReorg` とも `pool.pending` でぶつかる状態に届く。 -/
theorem RemoveTx_breaks_lock_discipline :
    (∀ gs : List (List Call), (∀ g ∈ gs, ∀ k ∈ g, k.IsRemoveTx = false) →
      ∀ c, Reachable (poolInit gs) c → (∀ th ∈ c.threads, th.Guarded) ∧ ¬ c.Race) ∧
    (∀ (gs : List (List Call)) (i : Nat) (p : RemovePath), gs[i]? = some [.RemoveTx p] →
      p.known = true → goroutine [.RemoveTx p] ≠ [] ∧
      ∀ c, Reachable (poolInit gs) c →
        ∃ th, c.threads[i]? = some th ∧ th.held = .free ∧ (th.rest ≠ [] → ¬ th.Guarded)) ∧
    (∀ (p : RemovePath) (r : ReorgPath), p.known = true → p.inPending = true →
      p.removedPending = true →
      ∃ c, Reachable (poolInit [[.RemoveTx p], [.runReorg r]]) c ∧ c.Race) := by
  refine ⟨fun gs h c hc => pool_raceFree h hc, ?_, fun p r hk hp hr => RemoveTx_races_runReorg r hk hp hr⟩
  intro gs i p hi hk
  refine ⟨?_, fun c hc => RemoveTx_unguarded hi hc⟩
  rw [goroutine_RemoveTx]
  simpa using removeTx_ne_nil hk

end Core
