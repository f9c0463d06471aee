import Bullions.Vm.GasTable
import Bullions.Vm.JumpTable

/-!
# interpreter の主な loop（`core/vm/interpreter.go` の `EVMInterpreter.Run`）

loop の一回（`step`）は、命令を表から引き、stack の長さと書き込みの禁止を確かめ、固定の gas
を払い、memory の大きさを求め、動的な gas を払い、memory を広げてから命令を実行する。
どこかで誤りになれば `Run` はそこで返る。

命令の実行（`operation.execute`）は `RunEnv.execute` で与える。命令は memory の中身を
読み書きし stack と pc を変えるが、memory を広げるのは `step` の `Resize` だけである
（`instructions.go` の命令は `Memory.Set`、`Set32`、`GetPtr`、`GetCopy` と `store` の添字で
しか memory に触れない）。

`steps % 1000 == 0` で中断の印を見て抜ける分岐と tracer は持たない。
-/

namespace Vm

/-- `NewEVMInterpreter` が `cfg.JumpTable` に入れる表（`cfg.JumpTable` を与えなかったときの
分岐）：`instructionSetForConfig` の表に `cfg.ExtraEips` の EIP を足す。 -/
def NewEVMInterpreterJumpTable (config : Params.ChainConfigurator) (bn : Option Int)
    (extraEips : List Int) : Except RuntimeError JumpTable := do
  let jt ← instructionSetForConfig config bn
  enableEips jt extraEips

/-- loop の一回の間に変わるもの（`Run` の局所変数と `callContext`、`contract.Gas`、
`evm.CallGasTemp`、`in.returnData`）。 -/
structure Frame where
  pc : Nat
  stack : Stack
  /-- `returns`：subroutine の戻り先の stack。 -/
  rstack : List Nat
  mem : Memory
  /-- `contract.Gas`。 -/
  gas : Nat
  /-- `evm.CallGasTemp`。 -/
  callGasTemp : Nat
  /-- `in.returnData`。 -/
  returnData : Bytes

/-- 一つの `Run` の間に変わらないもの。 -/
structure RunEnv where
  jt : JumpTable
  /-- `contract.Code`。 -/
  code : Bytes
  /-- `in.readOnly`。 -/
  readOnly : Bool
  /-- `IsEnabled(GetEIP214Transition, BlockNumber)`。 -/
  eip214 : Bool
  gasEnv : GasEnv
  /-- `operation.execute(&pc, in, callContext)`：返す byte 列と誤り、変えた frame。 -/
  execute : ExecutionFunc → Frame → Bytes × Option VmError × Frame

/-- `contract.GetOp(pc)`：code の外は `STOP`。 -/
def getOp (code : Bytes) (pc : Nat) : OpCode := code.getD pc 0

/-- `Contract.UseGas`。 -/
def useGas (f : Frame) (gas : Nat) : Option Frame :=
  if f.gas < gas then none else some { f with gas := f.gas - gas }

/-- loop の一回の行き先。 -/
inductive StepResult where
  /-- 次の命令へ。 -/
  | next (f : Frame)
  /-- `Run` が `(ret, err)` を返す。 -/
  | done (ret : Bytes) (err : Option VmError) (f : Frame)

/-- 命令の memory の大きさ（word に切り上げた byte 数）。 -/
def memorySizeStep (operation : Operation) (st : Stack) : Except VmError Nat :=
  match operation.memorySize with
  | none => .ok 0
  | some fn =>
    let (memSize, overflow) := memorySizeOf st fn
    if overflow then .error .ErrGasUintOverflow
    else
      -- memory は 32 byte の word ごとに広げる
      let (memorySize, overflow) := SafeMul (toWordSize memSize) 32
      if overflow then .error .ErrGasUintOverflow else .ok memorySize

/-- 動的な gas を求めて払う。gas 関数の誤りも、払えないことも `ErrOutOfGas` になる。 -/
def chargeDynamic (env : GasEnv) (operation : Operation) (f : Frame) (memorySize : Nat) :
    Except VmError Frame :=
  match operation.dynamicGas with
  | none => .ok f
  | some g =>
    let r := dynamicGasOf env f.gas f.stack f.mem memorySize f.callGasTemp g
    let f := { f with mem := r.mem, callGasTemp := r.callGasTemp }
    match r.result with
    | .error _ => .error .ErrOutOfGas
    | .ok dynamicCost =>
      match useGas f dynamicCost with
      | none => .error .ErrOutOfGas
      | some f => .ok f

/-- 実行の後：返す命令は（誤りでも）`returnData` を書き換え、誤り、巻き戻し、停止、跳躍で
なければ `pc` を一つ進める。 -/
def afterExecute (operation : Operation) (res : Bytes × Option VmError × Frame) : StepResult :=
  let (ret, err, f) := res
  let f := if operation.returns then { f with returnData := ret } else f
  match err with
  | some err => .done [] (some err) f
  | none =>
    if operation.reverts then .done ret (some .ErrExecutionReverted) f
    else if operation.halts then .done ret none f
    else if !operation.jumps then .next { f with pc := f.pc + 1 }
    else .next f

/-- loop の一回。 -/
def step (env : RunEnv) (f : Frame) : StepResult :=
  -- CallGasTemp は毎回 0 に戻す
  let f := { f with callGasTemp := 0 }
  let op := getOp env.code f.pc
  match env.jt op with
  | none => .done [] (some (.ErrInvalidOpCode op)) f
  | some operation =>
    let sLen := f.stack.len
    if sLen < operation.minStack then
      .done [] (some (.ErrStackUnderflow sLen operation.minStack)) f
    else if sLen > operation.maxStack then
      .done [] (some (.ErrStackOverflow sLen operation.maxStack)) f
    -- 読み出し専用のときは、書き込む命令と、価値を送る CALL を退ける
    else if env.readOnly && env.eip214 &&
        (operation.writes || (op == CALL && f.stack.Back 2 != 0)) then
      .done [] (some .ErrWriteProtection) f
    else
      match useGas f operation.constantGas with
      | none => .done [] (some .ErrOutOfGas) f
      | some f =>
        match memorySizeStep operation f.stack with
        | .error err => .done [] (some err) f
        | .ok memorySize =>
          match chargeDynamic env.gasEnv operation f memorySize with
          | .error err => .done [] (some err) f
          | .ok f =>
            let f := if memorySize > 0 then { f with mem := f.mem.Resize memorySize } else f
            afterExecute operation (env.execute operation.execute f)

/-- `Run` の始めの frame：空の stack と memory。 -/
def Frame.init (gas callGasTemp : Nat) : Frame :=
  { pc := 0, stack := ⟨[]⟩, rstack := [], mem := Memory.New, gas := gas,
    callGasTemp := callGasTemp, returnData := [] }

/-- `Run` の loop。燃料は loop の回数の上限で、切れれば `none`。 -/
def runLoop (env : RunEnv) : Nat → Frame → Option (Bytes × Option VmError × Frame)
  | 0, _ => none
  | fuel + 1, f =>
    match step env f with
    | .next f => runLoop env fuel f
    | .done ret err f => some (ret, err, f)

/-- `Run`：code が空なら何もせずに返る。 -/
def Run (env : RunEnv) (fuel gas callGasTemp : Nat) : Option (Bytes × Option VmError × Frame) :=
  if env.code.length = 0 then some ([], none, Frame.init gas callGasTemp)
  else runLoop env fuel (Frame.init gas callGasTemp)

end Vm
