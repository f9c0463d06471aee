import Bullions.Core.StateTransition
import Bullions.Vm.Properties.Gas

/-!
# block の gas の勘定

成功した取引では、`GasPool` と `usedGas` の和は変わらない：`buyGas` が引いた `Gas` のうち、
使われなかった分（refund を足したもの）は `refundGas` が `GasPool` に返し、使った分は
`ApplyTransaction` が `usedGas` に足す。使った gas は、EVM を走らせる前の固有の gas 以上で、
refund はその半分までである（`commitTransaction_ok_accounting`）。EVM は `Vm.CallRuns` の意味で
深さ 0 の frame を走らせ、受け取った gas より多くは返さないとする。

誤りを返した取引は StateDB を変えず、`usedGas` も変えないが、`buyGas` の後の誤り
（固有の gas の桁あふれと不足、送る価値の不足）では、`GasPool` から引いた `Gas` が戻らない
（`commitTransaction_error_gas`）。`GasPool` と `usedGas` の和が uint64 に収まれば、`refundGas` が
返す gas は `buyGas` の引いた分以下なので、`AddGas` の panic は起こらない
（`commitTransaction_ne_gasPoolOverflow`）。
-/

namespace Core

open Vm

/-! ## StateDB と `GasPool` -/

namespace StateDB

@[simp] theorem AddBalance_balance (s : StateDB) (a b : Address) (x : Nat) :
    (s.AddBalance a x).balance b = s.balance b + if b = a then x else 0 := by
  simp only [AddBalance, Function.update_apply]
  split <;> simp_all

@[simp] theorem AddBalance_refund (s : StateDB) (a : Address) (x : Nat) :
    (s.AddBalance a x).refund = s.refund := rfl

@[simp] theorem SubBalance_balance (s : StateDB) (a b : Address) (x : Nat) :
    (s.SubBalance a x).balance b = if b = a then s.balance a - x else s.balance b :=
  Function.update_apply _ _ _ _

end StateDB

theorem SubGas_ok {gp amount gp' : Nat} (h : SubGas gp amount = .ok gp') :
    amount ≤ gp ∧ gp' = gp - amount := by
  unfold SubGas at h
  split at h
  · cases h
  · cases h
    exact ⟨by omega, rfl⟩

theorem AddGas_of_le {gp amount : Nat} (h : gp + amount ≤ MaxUint64) :
    AddGas gp amount = .ok (gp + amount) := by
  unfold AddGas MaxUint64 at *
  rw [if_neg (by omega)]

theorem AddGas_error {gp amount : Nat} {e : CoreError} (h : AddGas gp amount = .error e) :
    e = .gasPoolOverflow := by
  unfold AddGas at h
  split at h
  · cases h; rfl
  · cases h

/-! ## 各段の結果 -/

theorem IntrinsicGas_error {data : Bytes} {contractCreation isEIP2 isEIP2028 : Bool}
    {e : CoreError} (h : IntrinsicGas data contractCreation isEIP2 isEIP2028 = .error e) :
    e = .ErrGasUintOverflow := by
  simp only [IntrinsicGas] at h
  -- 誤りは二つの桁あふれの検査だけから来る
  split_ifs at h <;> cases h <;> rfl

/-- `buyGas` が成功すれば、送り手は `Gas × GasPrice` を払えて、`GasPool` には `Gas` があった。 -/
theorem buyGas_ok {msg : Message} {st st' : StateTransition} (h : buyGas msg st = .ok st') :
    msg.Gas * msg.GasPrice ≤ st.state.balance msg.From ∧ msg.Gas ≤ st.gp ∧
      st' = ⟨st.gp - msg.Gas, (st.gas + msg.Gas) % 2 ^ 64, msg.Gas,
        st.state.SubBalance msg.From (msg.Gas * msg.GasPrice)⟩ := by
  unfold buyGas at h
  dsimp only at h
  by_cases hbal : st.state.balance msg.From < msg.Gas * msg.GasPrice
  · rw [if_pos hbal] at h
    cases h
  · rw [if_neg hbal] at h
    cases hs : SubGas st.gp msg.Gas with
    | error e => rw [hs] at h; cases h
    | ok gp =>
      rw [hs] at h
      cases h
      obtain ⟨hle, rfl⟩ := SubGas_ok hs
      exact ⟨by omega, hle, rfl⟩

/-- 買った gas は `GasPool` にあったので uint64 に収まり、`st.gas += msg.Gas` は回り込まない。 -/
theorem bought_gas_mod {gas gp : Nat} (hle : gas ≤ gp) (hgp : gp < 2 ^ 64) :
    (0 + gas) % 2 ^ 64 = gas := by
  rw [Nat.zero_add]
  exact Nat.mod_eq_of_lt (by omega)

theorem preCheck_ok {msg : Message} {st st' : StateTransition} (h : preCheck msg st = .ok st') :
    buyGas msg st = .ok st' := by
  unfold preCheck at h
  split at h
  · cases h
  · split at h
    · cases h
    · exact h

/-- `preCheck` の誤りは、nonce の二つの検査、残高の不足、`GasPool` の不足だけ。 -/
theorem preCheck_error {msg : Message} {st : StateTransition} {e : CoreError}
    (h : preCheck msg st = .error e) :
    e = .ErrNonceTooHigh ∨ e = .ErrNonceTooLow ∨ e = .ErrInsufficientFunds ∨
      e = .ErrGasLimitReached := by
  unfold preCheck at h
  split at h
  · cases h
    exact .inl rfl
  split at h
  · cases h
    exact .inr (.inl rfl)
  unfold buyGas at h
  dsimp only at h
  split at h
  · cases h
    exact .inr (.inr (.inl rfl))
  split at h
  · rename_i hs
    cases h
    unfold SubGas at hs
    split at hs <;> cases hs
    exact .inr (.inr (.inr rfl))
  · cases h

/-- refund を足した残りの gas：使った gas（`initialGas - gas`）の半分までで、refund の counter
までを足す。 -/
def gasAfterRefund (initialGas gas refund : Nat) : Nat :=
  gas + min ((initialGas - gas) / 2) refund

theorem gasAfterRefund_le {initialGas gas refund : Nat} (h : gas ≤ initialGas) :
    gasAfterRefund initialGas gas refund ≤ initialGas := by
  unfold gasAfterRefund
  have : min ((initialGas - gas) / 2) refund ≤ initialGas - gas :=
    Nat.le_trans (Nat.min_le_left _ _) (Nat.div_le_self _ _)
  omega

theorem StateTransition.gasUsed_of_le {st : StateTransition} (h : st.gas ≤ st.initialGas)
    (hlt : st.initialGas < 2 ^ 64) : st.gasUsed = st.initialGas - st.gas := by
  unfold StateTransition.gasUsed
  omega

/-- EVM が受け取った gas より多くは返さず、`GasPool` に返す gas が uint64 に収まるなら、
`refundGas` は panic せず、refund を足した残りの gas を返す。 -/
theorem refundGas_eq {msg : Message} {st : StateTransition} (hle : st.gas ≤ st.initialGas)
    (hlt : st.initialGas < 2 ^ 64) (hgp : st.gp + st.initialGas ≤ MaxUint64) :
    refundGas msg st =
      .ok ⟨st.gp + gasAfterRefund st.initialGas st.gas st.state.refund,
        gasAfterRefund st.initialGas st.gas st.state.refund, st.initialGas,
        st.state.AddBalance msg.From
          (gasAfterRefund st.initialGas st.gas st.state.refund * msg.GasPrice)⟩ := by
  have hafter : gasAfterRefund st.initialGas st.gas st.state.refund ≤ st.initialGas :=
    gasAfterRefund_le hle
  have hmod : (st.gas + min (st.gasUsed / 2) st.state.refund) % 2 ^ 64 =
      gasAfterRefund st.initialGas st.gas st.state.refund := by
    rw [StateTransition.gasUsed_of_le hle hlt]
    exact Nat.mod_eq_of_lt (by unfold gasAfterRefund at *; omega)
  unfold refundGas
  dsimp only
  rw [hmod, AddGas_of_le (by omega)]

theorem refundGas_error {msg : Message} {st : StateTransition} {e : CoreError}
    (h : refundGas msg st = .error e) : e = .gasPoolOverflow := by
  unfold refundGas at h
  dsimp only at h
  split at h
  · rename_i e' he
    cases h
    exact AddGas_error he
  · cases h

/-! ## `TransitionDb` の結果 -/

section transition
variable {env : TxEnv} {msg : Message} {gp : Nat} {state : StateDB}

/-- 成功した `TransitionDb` の各段：gas を買い、固有の gas を払い、EVM を走らせ、
`refundGas` が成功し、使った gas の代金を coinbase に払う。 -/
theorem TransitionDb_ok_cases {r : TransitionOutcome} {res : ExecutionResult}
    (h : TransitionDb env msg gp state = r) (hr : r.result = .ok res) :
    ∃ st ig out st', preCheck msg ⟨gp, 0, 0, state⟩ = .ok st ∧
      IntrinsicGas msg.Data msg.To.isNone env.eip2 env.eip2028 = .ok ig ∧ ig ≤ st.gas ∧
      runEvm env msg st.state (st.gas - ig) = out ∧
      refundGas msg ⟨st.gp, out.2.leftOverGas, st.initialGas, out.1⟩ = .ok st' ∧
      r.gp = st'.gp ∧ r.state = st'.state.AddBalance env.coinbase (st'.gasUsed * msg.GasPrice) ∧
      res = ⟨st'.gasUsed, out.2.err, out.2.ret⟩ := by
  unfold TransitionDb at h
  dsimp only at h
  cases hp : preCheck msg ⟨gp, 0, 0, state⟩ with
  | error e => rw [hp] at h; subst h; cases hr
  | ok st =>
    rw [hp] at h
    dsimp only at h
    cases hi : IntrinsicGas msg.Data msg.To.isNone env.eip2 env.eip2028 with
    | error e => rw [hi] at h; subst h; cases hr
    | ok ig =>
      rw [hi] at h
      dsimp only at h
      by_cases hlt : st.gas < ig
      · rw [if_pos hlt] at h; subst h; cases hr
      · rw [if_neg hlt] at h
        split at h
        · subst h; cases hr
        · split at h
          · subst h; cases hr
          · rename_i st' hrf
            subst h
            cases hr
            exact ⟨st, ig, _, st', rfl, rfl, by omega, rfl, hrf, rfl, rfl, rfl⟩

/-- 誤りを返す `TransitionDb` は、`preCheck` の誤りなら `GasPool` を変えず、その後の三つの検査の
誤りなら `buyGas` の後の `GasPool` を残し、それ以外の誤りは `refundGas` の panic である。 -/
theorem TransitionDb_error_cases {r : TransitionOutcome} {e : CoreError}
    (h : TransitionDb env msg gp state = r) (hr : r.result = .error e) :
    (preCheck msg ⟨gp, 0, 0, state⟩ = .error e ∧ r.gp = gp) ∨
    (∃ st, preCheck msg ⟨gp, 0, 0, state⟩ = .ok st ∧ r.gp = st.gp ∧
      (e = .ErrGasUintOverflow ∨ e = .ErrIntrinsicGas ∨ e = .ErrInsufficientFundsForTransfer)) ∨
    (∃ st ig, preCheck msg ⟨gp, 0, 0, state⟩ = .ok st ∧
      IntrinsicGas msg.Data msg.To.isNone env.eip2 env.eip2028 = .ok ig ∧ ig ≤ st.gas ∧
      refundGas msg ⟨st.gp, (runEvm env msg st.state (st.gas - ig)).2.leftOverGas, st.initialGas,
        (runEvm env msg st.state (st.gas - ig)).1⟩ = .error e) := by
  unfold TransitionDb at h
  dsimp only at h
  cases hp : preCheck msg ⟨gp, 0, 0, state⟩ with
  | error e' =>
    rw [hp] at h
    subst h
    cases hr
    exact .inl ⟨rfl, rfl⟩
  | ok st =>
    rw [hp] at h
    dsimp only at h
    cases hi : IntrinsicGas msg.Data msg.To.isNone env.eip2 env.eip2028 with
    | error e' =>
      rw [hi] at h
      subst h
      cases hr
      exact .inr (.inl ⟨st, rfl, rfl, .inl (IntrinsicGas_error hi)⟩)
    | ok ig =>
      rw [hi] at h
      dsimp only at h
      by_cases hlt : st.gas < ig
      · rw [if_pos hlt] at h
        subst h
        cases hr
        exact .inr (.inl ⟨st, rfl, rfl, .inr (.inl rfl)⟩)
      · rw [if_neg hlt] at h
        split at h
        · subst h
          cases hr
          exact .inr (.inl ⟨st, rfl, rfl, .inr (.inr rfl)⟩)
        · split at h
          · rename_i e' hrf
            subst h
            cases hr
            exact .inr (.inr ⟨st, ig, rfl, rfl, by omega, hrf⟩)
          · subst h
            cases hr

end transition

/-! ## `commitTransaction` -/

section commit
variable {env : TxEnv} {msg : Message} {gp usedGas : Nat} {state : StateDB}

theorem commitTransaction_ok {o : TxOutcome} {res : ExecutionResult}
    (h : commitTransaction env gp state msg usedGas = o) (hr : o.result = .ok res) :
    TransitionDb env msg gp state = ⟨o.gp, o.state, .ok res⟩ ∧
      o.usedGas = (usedGas + res.UsedGas) % 2 ^ 64 := by
  unfold commitTransaction ApplyTransaction at h
  generalize TransitionDb env msg gp state = r at h
  obtain ⟨gp', state', result⟩ := r
  cases result with
  | error e => subst h; cases hr
  | ok res' =>
    subst h
    cases hr
    exact ⟨rfl, rfl⟩

/-- 誤りを返した `commitTransaction` は、StateDB を snapshot に戻し、`usedGas` を変えない。
`GasPool` は `TransitionDb` の残したままである。 -/
theorem commitTransaction_error {o : TxOutcome} {e : CoreError}
    (h : commitTransaction env gp state msg usedGas = o) (hr : o.result = .error e) :
    (TransitionDb env msg gp state).result = .error e ∧
      o.gp = (TransitionDb env msg gp state).gp ∧ o.state = state ∧ o.usedGas = usedGas := by
  unfold commitTransaction ApplyTransaction at h
  generalize TransitionDb env msg gp state = r at h
  obtain ⟨gp', state', result⟩ := r
  cases result with
  | error e' =>
    subst h
    cases hr
    exact ⟨rfl, rfl, rfl, rfl⟩
  | ok res' => subst h; cases hr

end commit

/-! ## 成功した取引の勘定 -/

/-- 環境の EVM は、`Vm.CallRuns` の意味で深さ 0 の呼び出しと作成を走らせる。 -/
structure TxEnv.Runs (env : TxEnv) : Prop where
  call : ∀ s g, CallRuns 0 g (env.call s g).2
  create : ∀ s g, CallRuns 0 g (env.create s g).2

theorem runEvm_leftOverGas_le {env : TxEnv} (henv : env.Runs) (msg : Message) (s : StateDB)
    (g : Nat) : (runEvm env msg s g).2.leftOverGas ≤ g := by
  unfold runEvm
  split
  · exact callRuns_le (henv.create s g)
  · exact callRuns_le (henv.call _ g)

/--
成功した取引の勘定。`GasPool` と `usedGas` の和が uint64 に収まり、EVM が `Vm.CallRuns` の
とおりに走るなら：

* 固有の gas は、refund の前に使った gas（`Gas - leftOverGas`）以下で、使った gas は `Gas` 以下
* `UsedGas` は、refund の前に使った gas から、その半分と refund の counter の小さい方を引いたもの
* `GasPool` と `usedGas` の和は変わらない
* 送り手には `Gas - UsedGas` の代金が戻り、coinbase には `UsedGas` の代金が入る（EVM の後の
  StateDB に比べて）
-/
theorem commitTransaction_ok_accounting {env : TxEnv} {gp usedGas : Nat} {state : StateDB}
    {msg : Message} {res : ExecutionResult} (henv : env.Runs) (hG : gp + usedGas < 2 ^ 64)
    (h : (commitTransaction env gp state msg usedGas).result = .ok res) :
    ∃ ig out, IntrinsicGas msg.Data msg.To.isNone env.eip2 env.eip2028 = .ok ig ∧
      runEvm env msg (state.SubBalance msg.From (msg.Gas * msg.GasPrice)) (msg.Gas - ig) = out ∧
      ig ≤ msg.Gas - out.2.leftOverGas ∧ res.UsedGas ≤ msg.Gas ∧
      res.UsedGas = msg.Gas - out.2.leftOverGas -
        min ((msg.Gas - out.2.leftOverGas) / 2) out.1.refund ∧
      res.Err = out.2.err ∧
      (commitTransaction env gp state msg usedGas).gp +
        (commitTransaction env gp state msg usedGas).usedGas = gp + usedGas ∧
      ∀ a, (commitTransaction env gp state msg usedGas).state.balance a =
        out.1.balance a + (if a = msg.From then (msg.Gas - res.UsedGas) * msg.GasPrice else 0) +
          (if a = env.coinbase then res.UsedGas * msg.GasPrice else 0) := by
  obtain ⟨hdb, hused⟩ := commitTransaction_ok rfl h
  obtain ⟨st, ig, out, st', hp, hi, hig, hout, hrf, hgp, hstate, hres⟩ :=
    TransitionDb_ok_cases hdb rfl
  obtain ⟨-, hGas, rfl⟩ := buyGas_ok (preCheck_ok hp)
  dsimp only at hGas hig hout hrf hgp hstate
  rw [bought_gas_mod hGas (by omega)] at hig hout
  -- EVM は受け取った gas より多くは返さない
  have hL : out.2.leftOverGas ≤ msg.Gas - ig := hout ▸ runEvm_leftOverGas_le henv msg _ _
  -- refund を足した残りの gas `g` が `GasPool` と送り手に戻る
  obtain ⟨g, hg⟩ : ∃ g, g = gasAfterRefund msg.Gas out.2.leftOverGas out.1.refund := ⟨_, rfl⟩
  have hafter : g ≤ msg.Gas := hg ▸ gasAfterRefund_le (by omega)
  have hst' : st' = ⟨gp - msg.Gas + g, g, msg.Gas, out.1.AddBalance msg.From (g * msg.GasPrice)⟩ := by
    rw [refundGas_eq (by dsimp only; omega) (by dsimp only; omega)
      (by unfold MaxUint64; dsimp only; omega)] at hrf
    rw [hg]
    exact (Except.ok.inj hrf).symm
  have hgasUsed : st'.gasUsed = msg.Gas - g := by
    rw [hst']
    exact StateTransition.gasUsed_of_le hafter (by dsimp only; omega)
  have hUsedGas : res.UsedGas = msg.Gas - g := by
    rw [hres]
    exact hgasUsed
  refine ⟨ig, out, hi, hout, by omega, by omega, ?_, by rw [hres], ?_, fun a => ?_⟩
  · -- refund の前に使った gas から refund を引いたもの
    rw [hUsedGas, hg]
    unfold gasAfterRefund
    omega
  · have hu : (commitTransaction env gp state msg usedGas).usedGas = usedGas + (msg.Gas - g) := by
      rw [hused, hUsedGas]
      exact Nat.mod_eq_of_lt (by omega)
    rw [hgp, hst', hu]
    dsimp only
    omega
  · rw [hstate, hgasUsed, hst', hUsedGas]
    dsimp only
    rw [StateDB.AddBalance_balance, StateDB.AddBalance_balance,
      show msg.Gas - (msg.Gas - g) = g by omega]

/-! ## 取引の列 -/

/-- 誤りを返した取引のうち、`preCheck`（`buyGas`）を通ったものが `GasPool` から持ち去る gas。 -/
def lostGas (env : TxEnv) (gp : Nat) (state : StateDB) (msg : Message) (usedGas : Nat) : Nat :=
  match (commitTransaction env gp state msg usedGas).result, preCheck msg ⟨gp, 0, 0, state⟩ with
  | .error _, .ok _ => msg.Gas
  | _, _ => 0

/-- 一つの `GasPool` と `usedGas` に、取引の列を順に `commitTransaction` で掛ける。 -/
def commitAll (env : TxEnv) : Nat → StateDB → Nat → List Message → Nat × StateDB × Nat
  | gp, state, usedGas, [] => (gp, state, usedGas)
  | gp, state, usedGas, msg :: msgs =>
    let o := commitTransaction env gp state msg usedGas
    commitAll env o.gp o.state o.usedGas msgs

/-- 列の中で持ち去られる gas の合計。 -/
def lostGasAll (env : TxEnv) : Nat → StateDB → Nat → List Message → Nat
  | _, _, _, [] => 0
  | gp, state, usedGas, msg :: msgs =>
    let o := commitTransaction env gp state msg usedGas
    lostGas env gp state msg usedGas + lostGasAll env o.gp o.state o.usedGas msgs

/-- 列の各取引の結果。 -/
def commitResults (env : TxEnv) :
    Nat → StateDB → Nat → List Message → List (Except CoreError ExecutionResult)
  | _, _, _, [] => []
  | gp, state, usedGas, msg :: msgs =>
    let o := commitTransaction env gp state msg usedGas
    o.result :: commitResults env o.gp o.state o.usedGas msgs

section run
variable {env : TxEnv} {gp usedGas : Nat} {state : StateDB} {msg : Message}

/--
EVM が `Vm.CallRuns` のとおりに走るなら、`buyGas` の後の `refundGas` は `GasPool` を uint64 の
外に押し出さない：返す gas は `buyGas` が引いた `Gas` 以下なので、`AddGas` の panic は起こらない。
-/
theorem refundGas_after_buyGas_ne_error (henv : env.Runs) (hgp : gp < 2 ^ 64) {st : StateTransition}
    {ig : Nat} (hp : preCheck msg ⟨gp, 0, 0, state⟩ = .ok st) (hig : ig ≤ st.gas) (e : CoreError) :
    refundGas msg ⟨st.gp, (runEvm env msg st.state (st.gas - ig)).2.leftOverGas, st.initialGas,
      (runEvm env msg st.state (st.gas - ig)).1⟩ ≠ .error e := by
  obtain ⟨-, hGas, rfl⟩ := buyGas_ok (preCheck_ok hp)
  dsimp only at hGas hig ⊢
  rw [bought_gas_mod hGas hgp] at hig ⊢
  have hL := runEvm_leftOverGas_le henv msg
    (state.SubBalance msg.From (msg.Gas * msg.GasPrice)) (msg.Gas - ig)
  rw [refundGas_eq (by dsimp only; omega) (by dsimp only; omega)
    (by unfold MaxUint64; dsimp only; omega)]
  intro h
  cases h

/--
`GasPool` と `usedGas` の和が uint64 に収まり、EVM が `Vm.CallRuns` のとおりに走るなら、
取引は `GasPool` の panic に至らない：`preCheck` と三つの検査の誤りはそれではなく、`refundGas`
は失敗しない。
-/
theorem commitTransaction_ne_gasPoolOverflow (henv : env.Runs) (hG : gp + usedGas < 2 ^ 64) :
    (commitTransaction env gp state msg usedGas).result ≠ .error .gasPoolOverflow := by
  intro h
  obtain ⟨hres, -⟩ := commitTransaction_error rfl h
  rcases TransitionDb_error_cases rfl hres with ⟨hp, -⟩ | ⟨st, -, -, he⟩ |
      ⟨st, ig, hp, -, hig, hrf⟩
  · rcases preCheck_error hp with he | he | he | he <;> cases he
  · rcases he with he | he | he <;> cases he
  · exact refundGas_after_buyGas_ne_error henv (by omega) hp hig _ hrf

/-- 誤りを返した取引は StateDB と `usedGas` を変えず、`GasPool` は `lostGas` だけ減る。 -/
theorem commitTransaction_error_gas {e : CoreError} (henv : env.Runs) (hG : gp + usedGas < 2 ^ 64)
    (h : (commitTransaction env gp state msg usedGas).result = .error e) :
    (commitTransaction env gp state msg usedGas).state = state ∧
      (commitTransaction env gp state msg usedGas).usedGas = usedGas ∧
      (commitTransaction env gp state msg usedGas).gp + lostGas env gp state msg usedGas = gp := by
  obtain ⟨hres, hgp, hstate, hused⟩ := commitTransaction_error rfl h
  refine ⟨hstate, hused, ?_⟩
  unfold lostGas
  rw [h, hgp]
  rcases TransitionDb_error_cases rfl hres with ⟨hp, hgp'⟩ | ⟨st, hp, hgp', -⟩ |
      ⟨st, ig, hp, -, hig, hrf⟩
  · -- `preCheck` の誤り：何も引いていない
    rw [hp, hgp']
    rfl
  · -- `buyGas` の後の誤り：`Gas` は戻らない
    rw [hp, hgp']
    obtain ⟨-, hGas, rfl⟩ := buyGas_ok (preCheck_ok hp)
    dsimp only at hGas ⊢
    omega
  · -- `refundGas` は失敗しない
    exact absurd hrf (refundGas_after_buyGas_ne_error henv (by omega) hp hig _)

/-- 取引一つで、`GasPool` と `usedGas` の和は、持ち去られる gas だけ減る。 -/
theorem commitTransaction_gas_step (henv : env.Runs) (hG : gp + usedGas < 2 ^ 64) :
    (commitTransaction env gp state msg usedGas).gp +
      (commitTransaction env gp state msg usedGas).usedGas +
      lostGas env gp state msg usedGas = gp + usedGas := by
  cases hr : (commitTransaction env gp state msg usedGas).result with
  | error e =>
    obtain ⟨-, hused, hgp⟩ := commitTransaction_error_gas henv hG hr
    omega
  | ok res =>
    obtain ⟨-, -, -, -, -, -, -, -, hsum, -⟩ := commitTransaction_ok_accounting henv hG hr
    -- 成功した取引は何も持ち去らない
    have hlost : lostGas env gp state msg usedGas = 0 := by
      unfold lostGas
      rw [hr]
    omega

/--
取引の列を一つの `GasPool` と `usedGas` に掛けると、最後の `GasPool` と `usedGas` の和に、
`buyGas` を通ってから誤りを返した取引の `Gas` の合計を足したものが、初めの和に等しい。
どの取引も `GasPool` の panic（`refundGas` の `AddGas`）に至らない。
-/
theorem commitAll_gas_accounting (henv : env.Runs) (hG : gp + usedGas < 2 ^ 64)
    (msgs : List Message) :
    (commitAll env gp state usedGas msgs).1 + (commitAll env gp state usedGas msgs).2.2 +
      lostGasAll env gp state usedGas msgs = gp + usedGas ∧
      Except.error .gasPoolOverflow ∉ commitResults env gp state usedGas msgs := by
  -- 列についての帰納法：一つ目の取引の後の和も uint64 に収まる
  induction msgs generalizing gp state usedGas with
  | nil => exact ⟨rfl, List.not_mem_nil⟩
  | cons msg msgs ih =>
    have hstep : (commitTransaction env gp state msg usedGas).gp +
        (commitTransaction env gp state msg usedGas).usedGas +
        lostGas env gp state msg usedGas = gp + usedGas := commitTransaction_gas_step henv hG
    obtain ⟨ihsum, ihres⟩ := @ih (commitTransaction env gp state msg usedGas).gp
      (commitTransaction env gp state msg usedGas).usedGas
      (commitTransaction env gp state msg usedGas).state (by omega)
    refine ⟨?_, ?_⟩
    · simp only [commitAll, lostGasAll]
      omega
    · simp only [commitResults, List.mem_cons, not_or]
      exact ⟨(commitTransaction_ne_gasPoolOverflow henv hG).symm, ihres⟩

end run

/-! ## 固有の gas に足りない取引 -/

/-- 呼び出しは code のない口座へのもので、gas をすべて返す。作成は address の衝突で終わる。 -/
def plainTxEnv : TxEnv :=
  ⟨false, false, 0, fun s g => (s, create ⟨false, true, true, 0, false, false⟩ 0 g ([], none, 0)),
    fun s g => (s, Vm.Call ⟨false, true, true, false, none, true⟩ 0 g 0 ([], none, 0))⟩

/-- `plainTxEnv` の呼び出しと作成は、子の code を走らせずに返る frame である。 -/
theorem plainTxEnv_runs : plainTxEnv.Runs where
  call _ g := @CallRuns.noChild 0 g .call ⟨false, true, true, false, none, true⟩
    ⟨false, true, true, 0, false, false⟩ 0 fun _ _ => rfl
  create _ g := @CallRuns.noChild 0 g .create plainCallQuery
    ⟨false, true, true, 0, false, false⟩ 0 fun _ _ => rfl

/-- どの口座も残高は 1000000、nonce は 0。 -/
def plainState : StateDB :=
  ⟨fun _ => 1000000, fun _ => 0, 0⟩

/-- 口座 2 への呼び出し：gas は 20000 で、固有の gas `TxGas` = 21000 に足りない。 -/
def shortMsg : Message :=
  ⟨1, some 2, 20000, 1, 0, 0, true, []⟩

/-- `GasPool` が 100000、`usedGas` が 0 の block に `shortMsg` を入れると、`ErrIntrinsicGas` で
落ち、StateDB と `usedGas` は戻るが、`buyGas` の引いた 20000 は `GasPool` に戻らない。 -/
theorem commitTransaction_intrinsic_gas_leaks_pool :
    (commitTransaction plainTxEnv 100000 plainState shortMsg 0).result =
        .error .ErrIntrinsicGas ∧
      (commitTransaction plainTxEnv 100000 plainState shortMsg 0).gp = 100000 - shortMsg.Gas ∧
      (commitTransaction plainTxEnv 100000 plainState shortMsg 0).usedGas = 0 :=
  ⟨rfl, rfl, rfl⟩

/-- 口座 2 への呼び出し：gas は 30000。 -/
def transferMsg : Message :=
  ⟨1, some 2, 30000, 1, 0, 0, true, []⟩

theorem commitTransaction_ok_accounting_transfer :
    plainTxEnv.Runs ∧ 100000 + 0 < 2 ^ 64 ∧
      (commitTransaction plainTxEnv 100000 plainState transferMsg 0).result =
        .ok ⟨21000, none, []⟩ ∧
      ∃ ig out, IntrinsicGas transferMsg.Data transferMsg.To.isNone false false = .ok ig ∧
        runEvm plainTxEnv transferMsg
          (plainState.SubBalance transferMsg.From (transferMsg.Gas * transferMsg.GasPrice))
          (transferMsg.Gas - ig) = out ∧
        ig ≤ transferMsg.Gas - out.2.leftOverGas ∧ 21000 ≤ transferMsg.Gas ∧
        21000 = transferMsg.Gas - out.2.leftOverGas -
          min ((transferMsg.Gas - out.2.leftOverGas) / 2) out.1.refund ∧
        (none : Option VmError) = out.2.err ∧
        (commitTransaction plainTxEnv 100000 plainState transferMsg 0).gp +
          (commitTransaction plainTxEnv 100000 plainState transferMsg 0).usedGas = 100000 + 0 ∧
        ∀ a, (commitTransaction plainTxEnv 100000 plainState transferMsg 0).state.balance a =
          out.1.balance a +
            (if a = transferMsg.From then (transferMsg.Gas - 21000) * transferMsg.GasPrice else 0) +
            (if a = plainTxEnv.coinbase then 21000 * transferMsg.GasPrice else 0) :=
  ⟨plainTxEnv_runs, by decide, rfl,
    @commitTransaction_ok_accounting plainTxEnv 100000 0 plainState transferMsg ⟨21000, none, []⟩
      plainTxEnv_runs (by decide) rfl⟩

/-- `shortMsg` と `transferMsg` を続けて入れる block：一つ目が `GasPool` から 20000 を持ち去る。 -/
theorem commitAll_gas_accounting_short_transfer :
    plainTxEnv.Runs ∧ 100000 + 0 < 2 ^ 64 ∧
      ((commitAll plainTxEnv 100000 plainState 0 [shortMsg, transferMsg]).1 +
        (commitAll plainTxEnv 100000 plainState 0 [shortMsg, transferMsg]).2.2 +
        lostGasAll plainTxEnv 100000 plainState 0 [shortMsg, transferMsg] = 100000 + 0 ∧
      Except.error .gasPoolOverflow ∉
        commitResults plainTxEnv 100000 plainState 0 [shortMsg, transferMsg]) :=
  ⟨plainTxEnv_runs, by decide, commitAll_gas_accounting plainTxEnv_runs (by decide) _⟩

example : lostGasAll plainTxEnv 100000 plainState 0 [shortMsg, transferMsg] = 20000 := rfl

end Core
