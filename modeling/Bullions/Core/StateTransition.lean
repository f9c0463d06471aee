import Bullions.Vm.Evm

/-!
# 取引の状態遷移と、block の gas の勘定（`core/state_transition.go`、`core/state_processor.go`、
`miner/worker.go`）

`TransitionDb` は nonce を確かめ、`buyGas` で送り手の残高と block の `GasPool` から
`Gas × GasPrice` と `Gas` を先に引いてから、固有の gas（`IntrinsicGas`）と送る価値を確かめ、
EVM を走らせ、残りの gas を送り手と `GasPool` に返し、使った gas の代金を coinbase に払う。

`buyGas` の後の三つの検査のどれかで誤りを返すと、`GasPool` から引いた gas は戻らない。
`worker.commitTransaction` は誤りなら StateDB を snapshot に戻すが、`GasPool` は戻さない。

StateDB は、状態遷移が読み書きする残高、nonce、refund の counter だけを持つ。EVM の
呼び出しと作成は `TxEnv.call` と `TxEnv.create` で与える。
-/

namespace Core

open Vm

/-- 口座の address。 -/
abbrev Address := Nat

/-! ## 定数と誤り -/

/-- `params.TxGas`。 -/
def TxGas : Nat := 21000
/-- `params.TxGasContractCreation`。 -/
def TxGasContractCreation : Nat := 53000
/-- `params.TxDataZeroGas`。 -/
def TxDataZeroGas : Nat := 4
/-- `params.TxDataNonZeroGasFrontier`。 -/
def TxDataNonZeroGasFrontier : Nat := 68
/-- `params.TxDataNonZeroGasEIP2028`。 -/
def TxDataNonZeroGasEIP2028 : Nat := 16

/-- 取引を block に入れられない誤り（`core/error.go`）。 -/
inductive CoreError where
  | ErrNonceTooLow
  | ErrNonceTooHigh
  | ErrGasLimitReached
  | ErrInsufficientFundsForTransfer
  | ErrInsufficientFunds
  | ErrGasUintOverflow
  | ErrIntrinsicGas
  /-- `GasPool.AddGas` の panic（"gas pool pushed above uint64"）。 -/
  | gasPoolOverflow
  deriving DecidableEq, Repr

/-! ## StateDB と `GasPool` -/

/-- StateDB のうち、状態遷移が読み書きするもの。 -/
structure StateDB where
  balance : Address → Nat
  nonce : Address → Nat
  /-- `GetRefund()`：refund の counter。 -/
  refund : Nat

/-- `StateDB.AddBalance`。 -/
def StateDB.AddBalance (s : StateDB) (addr : Address) (amount : Nat) : StateDB :=
  { s with balance := Function.update s.balance addr (s.balance addr + amount) }

/-- `StateDB.SubBalance`（呼び手は先に残高を確かめる）。 -/
def StateDB.SubBalance (s : StateDB) (addr : Address) (amount : Nat) : StateDB :=
  { s with balance := Function.update s.balance addr (s.balance addr - amount) }

/-- `StateDB.SetNonce`。 -/
def StateDB.SetNonce (s : StateDB) (addr : Address) (n : Nat) : StateDB :=
  { s with nonce := Function.update s.nonce addr n }

/-- `GasPool.SubGas`：足りなければ `ErrGasLimitReached`。 -/
def SubGas (gp amount : Nat) : Except CoreError Nat :=
  if gp < amount then .error .ErrGasLimitReached else .ok (gp - amount)

/-- `GasPool.AddGas`：uint64 を超えれば panic する。 -/
def AddGas (gp amount : Nat) : Except CoreError Nat :=
  if gp > MaxUint64 - amount then .error .gasPoolOverflow else .ok (gp + amount)

/-! ## 取引 -/

/-- `Message` の読む値。`To = none` は作成。 -/
structure Message where
  From : Address
  To : Option Address
  Gas : Nat
  GasPrice : Nat
  Value : Nat
  Nonce : Nat
  CheckNonce : Bool
  Data : Bytes

/-- 状態遷移の環境：有効な EIP、coinbase、EVM の作成と呼び出し（状態と gas を受けて、新しい
状態と結果を返す）。 -/
structure TxEnv where
  eip2 : Bool
  eip2028 : Bool
  coinbase : Address
  create : StateDB → Nat → StateDB × CallResult
  call : StateDB → Nat → StateDB × CallResult

/-- `IntrinsicGas(data, contractCreation, isEIP2, isEIP2028)`。 -/
def IntrinsicGas (data : Bytes) (contractCreation isEIP2 isEIP2028 : Bool) :
    Except CoreError Nat :=
  let gas := if contractCreation && isEIP2 then TxGasContractCreation else TxGas
  if data.length > 0 then
    let nz := data.countP (· != 0)
    let nonZeroGas := if isEIP2028 then TxDataNonZeroGasEIP2028 else TxDataNonZeroGasFrontier
    -- どの data でも uint64 を超えないことを確かめる
    if (MaxUint64 - gas) / nonZeroGas < nz then .error .ErrGasUintOverflow
    else
      let gas := gas + nz * nonZeroGas
      let z := data.length - nz
      if (MaxUint64 - gas) / TxDataZeroGas < z then .error .ErrGasUintOverflow
      else .ok (gas + z * TxDataZeroGas)
  else .ok gas

/-- `ExecutionResult`。 -/
structure ExecutionResult where
  UsedGas : Nat
  Err : Option VmError
  ReturnData : Bytes

/-- `StateTransition` の変わる field：block の `GasPool`、残りの gas、買った gas、StateDB。 -/
structure StateTransition where
  gp : Nat
  gas : Nat
  initialGas : Nat
  state : StateDB

/-- `gasUsed`：uint64 の引き算 `initialGas - gas`。 -/
def StateTransition.gasUsed (st : StateTransition) : Nat :=
  (2 ^ 64 + st.initialGas - st.gas) % 2 ^ 64

/-- `buyGas`。 -/
def buyGas (msg : Message) (st : StateTransition) : Except CoreError StateTransition :=
  let mgval := msg.Gas * msg.GasPrice
  if st.state.balance msg.From < mgval then .error .ErrInsufficientFunds
  else
    match SubGas st.gp msg.Gas with
    | .error err => .error err
    | .ok gp =>
      let state := st.state.SubBalance msg.From mgval
      .ok ⟨gp, (st.gas + msg.Gas) % 2 ^ 64, msg.Gas, state⟩

/-- `preCheck`：nonce を確かめてから gas を買う。 -/
def preCheck (msg : Message) (st : StateTransition) : Except CoreError StateTransition :=
  if msg.CheckNonce && decide (st.state.nonce msg.From < msg.Nonce) then .error .ErrNonceTooHigh
  else if msg.CheckNonce && decide (st.state.nonce msg.From > msg.Nonce) then .error .ErrNonceTooLow
  else buyGas msg st

/-- `refundGas`：refund の counter を使った gas の半分までで足し、残りの gas を送り手と
`GasPool` に返す。 -/
def refundGas (msg : Message) (st : StateTransition) : Except CoreError StateTransition :=
  let refund := min (st.gasUsed / 2) st.state.refund
  let st := { st with gas := (st.gas + refund) % 2 ^ 64 }
  let remaining := st.gas * msg.GasPrice
  let st := { st with state := st.state.AddBalance msg.From remaining }
  match AddGas st.gp st.gas with
  | .error err => .error err
  | .ok gp => .ok { st with gp := gp }

/-- `TransitionDb` が EVM を走らせる部分：作成なら `evm.Create`、呼び出しなら送り手の nonce を
進めてから `evm.Call`。 -/
def runEvm (env : TxEnv) (msg : Message) (state : StateDB) (gas : Nat) : StateDB × CallResult :=
  if msg.To.isNone then env.create state gas
  else
    -- 次の取引のために nonce を進める
    env.call (state.SetNonce msg.From ((state.nonce msg.From + 1) % 2 ^ 64)) gas

/-- 状態遷移の結果：誤りでも、それまでに書き換えた `GasPool` と StateDB は残る。 -/
structure TransitionOutcome where
  gp : Nat
  state : StateDB
  result : Except CoreError ExecutionResult

/-- `TransitionDb`。`gp` は block の `GasPool`。 -/
def TransitionDb (env : TxEnv) (msg : Message) (gp : Nat) (state : StateDB) : TransitionOutcome :=
  let st : StateTransition := ⟨gp, 0, 0, state⟩
  match preCheck msg st with
  | .error err => ⟨st.gp, st.state, .error err⟩
  | .ok st =>
    let contractCreation := msg.To.isNone
    -- 固有の gas を払う
    match IntrinsicGas msg.Data contractCreation env.eip2 env.eip2028 with
    | .error err => ⟨st.gp, st.state, .error err⟩
    | .ok gas =>
      if st.gas < gas then ⟨st.gp, st.state, .error .ErrIntrinsicGas⟩
      else
        let st := { st with gas := st.gas - gas }
        if msg.Value > 0 && decide (st.state.balance msg.From < msg.Value) then
          ⟨st.gp, st.state, .error .ErrInsufficientFundsForTransfer⟩
        else
          let out := runEvm env msg st.state st.gas
          let st := { st with gas := out.2.leftOverGas, state := out.1 }
          match refundGas msg st with
          | .error err => ⟨st.gp, st.state, .error err⟩
          | .ok st =>
            let state := st.state.AddBalance env.coinbase (st.gasUsed * msg.GasPrice)
            ⟨st.gp, state, .ok ⟨st.gasUsed, out.2.err, out.2.ret⟩⟩

/-- 取引を一つ適用した後の block の勘定：`GasPool`、StateDB、`usedGas`、結果。 -/
structure TxOutcome where
  gp : Nat
  state : StateDB
  usedGas : Nat
  result : Except CoreError ExecutionResult

/-- `ApplyTransaction`：成功すれば `usedGas` に使った gas を足す（uint64 の足し算）。 -/
def ApplyTransaction (env : TxEnv) (gp : Nat) (state : StateDB) (msg : Message)
    (usedGas : Nat) : TxOutcome :=
  let r := TransitionDb env msg gp state
  match r.result with
  | .error err => ⟨r.gp, r.state, usedGas, .error err⟩
  | .ok res => ⟨r.gp, r.state, (usedGas + res.UsedGas) % 2 ^ 64, .ok res⟩

/-- `worker.commitTransaction`：誤りなら StateDB を snapshot に戻す。`GasPool` は戻さない。 -/
def commitTransaction (env : TxEnv) (gp : Nat) (state : StateDB) (msg : Message)
    (usedGas : Nat) : TxOutcome :=
  let snap := state
  let r := ApplyTransaction env gp state msg usedGas
  match r.result with
  | .error err => ⟨r.gp, snap, r.usedGas, .error err⟩
  | .ok res => ⟨r.gp, r.state, r.usedGas, .ok res⟩

end Core
