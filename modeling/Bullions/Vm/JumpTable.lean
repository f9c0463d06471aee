import Bullions.Vm.Operation
import Bullions.Params.Configurator

/-!
# fork ごとの命令表（`core/vm/jump_table.go`、`core/vm/eips.go`）

`newBaseInstructionSet` は Frontier の命令表を作る。`instructionSetForConfig` はそこから、
設定で有効な EIP ごとに、命令を足す（`jt[op] = &operation{...}`）か、ある命令の field を
書き換える（`jt[op].constantGas = ...`）。書き換えは要素があることを前提にしており、
nil なら panic する。

Go の `if cond { ... }` は `onlyIf cond edit` と書き、その列を `>>=` でつなぐ。field の
書き換えが続く箇所は `JumpTable.modifyAll` にまとめて書く。
-/

namespace Vm

open Params JumpTable

/-! ## Frontier の命令表 -/

/-- `newBaseInstructionSet` の `PUSH2`〜`PUSH32`：`makePush(n, n)`。 -/
def pushOperations : List (OpCode × Operation) :=
  (List.range' 2 31).map fun n =>
    (PUSH1 + (n - 1).toUInt8,
      { execute := .makePush n n, constantGas := GasFastestStep,
        minStack := minStack 0 1, maxStack := maxStack 0 1 })

/-- `newBaseInstructionSet` の `DUP1`〜`DUP16`。 -/
def dupOperations : List (OpCode × Operation) :=
  (List.range' 1 16).map fun n =>
    (DUP1 + (n - 1).toUInt8,
      { execute := .makeDup n, constantGas := GasFastestStep,
        minStack := minDupStack n, maxStack := maxDupStack n })

/-- `newBaseInstructionSet` の `SWAP1`〜`SWAP16`：`SWAPn` は上から `n + 1` 個を使う。 -/
def swapOperations : List (OpCode × Operation) :=
  (List.range' 1 16).map fun n =>
    (SWAP1 + (n - 1).toUInt8,
      { execute := .makeSwap n, constantGas := GasFastestStep,
        minStack := minSwapStack (n + 1), maxStack := maxSwapStack (n + 1) })

/-- `newBaseInstructionSet` の `LOG0`〜`LOG4`。 -/
def logOperations : List (OpCode × Operation) :=
  (List.range 5).map fun n =>
    (LOG0 + n.toUInt8,
      { execute := .makeLog n, dynamicGas := some (.makeGasLog n),
        minStack := minStack (n + 2) 0, maxStack := maxStack (n + 2) 0,
        memorySize := some .memoryLog, writes := true })

/-- `newBaseInstructionSet`：Frontier の命令表。 -/
def newBaseInstructionSet : JumpTable :=
  JumpTable.ofList <| [
  (STOP,
    { execute := .opStop, constantGas := 0, minStack := minStack 0 0, maxStack := maxStack 0 0,
      halts := true }),
  (ADD,
    { execute := .opAdd, constantGas := GasFastestStep, minStack := minStack 2 1,
      maxStack := maxStack 2 1 }),
  (MUL,
    { execute := .opMul, constantGas := GasFastStep, minStack := minStack 2 1,
      maxStack := maxStack 2 1 }),
  (SUB,
    { execute := .opSub, constantGas := GasFastestStep, minStack := minStack 2 1,
      maxStack := maxStack 2 1 }),
  (DIV,
    { execute := .opDiv, constantGas := GasFastStep, minStack := minStack 2 1,
      maxStack := maxStack 2 1 }),
  (SDIV,
    { execute := .opSdiv, constantGas := GasFastStep, minStack := minStack 2 1,
      maxStack := maxStack 2 1 }),
  (MOD,
    { execute := .opMod, constantGas := GasFastStep, minStack := minStack 2 1,
      maxStack := maxStack 2 1 }),
  (SMOD,
    { execute := .opSmod, constantGas := GasFastStep, minStack := minStack 2 1,
      maxStack := maxStack 2 1 }),
  (ADDMOD,
    { execute := .opAddmod, constantGas := GasMidStep, minStack := minStack 3 1,
      maxStack := maxStack 3 1 }),
  (MULMOD,
    { execute := .opMulmod, constantGas := GasMidStep, minStack := minStack 3 1,
      maxStack := maxStack 3 1 }),
  (EXP,
    { execute := .opExp, dynamicGas := some .gasExpFrontier, minStack := minStack 2 1,
      maxStack := maxStack 2 1 }),
  (SIGNEXTEND,
    { execute := .opSignExtend, constantGas := GasFastStep, minStack := minStack 2 1,
      maxStack := maxStack 2 1 }),
  (LT,
    { execute := .opLt, constantGas := GasFastestStep, minStack := minStack 2 1,
      maxStack := maxStack 2 1 }),
  (GT,
    { execute := .opGt, constantGas := GasFastestStep, minStack := minStack 2 1,
      maxStack := maxStack 2 1 }),
  (SLT,
    { execute := .opSlt, constantGas := GasFastestStep, minStack := minStack 2 1,
      maxStack := maxStack 2 1 }),
  (SGT,
    { execute := .opSgt, constantGas := GasFastestStep, minStack := minStack 2 1,
      maxStack := maxStack 2 1 }),
  (EQ,
    { execute := .opEq, constantGas := GasFastestStep, minStack := minStack 2 1,
      maxStack := maxStack 2 1 }),
  (ISZERO,
    { execute := .opIszero, constantGas := GasFastestStep, minStack := minStack 1 1,
      maxStack := maxStack 1 1 }),
  (AND,
    { execute := .opAnd, constantGas := GasFastestStep, minStack := minStack 2 1,
      maxStack := maxStack 2 1 }),
  (XOR,
    { execute := .opXor, constantGas := GasFastestStep, minStack := minStack 2 1,
      maxStack := maxStack 2 1 }),
  (OR,
    { execute := .opOr, constantGas := GasFastestStep, minStack := minStack 2 1,
      maxStack := maxStack 2 1 }),
  (NOT,
    { execute := .opNot, constantGas := GasFastestStep, minStack := minStack 1 1,
      maxStack := maxStack 1 1 }),
  (BYTE,
    { execute := .opByte, constantGas := GasFastestStep, minStack := minStack 2 1,
      maxStack := maxStack 2 1 }),
  (SHA3,
    { execute := .opSha3, constantGas := vars.Sha3Gas, dynamicGas := some .gasSha3,
      minStack := minStack 2 1, maxStack := maxStack 2 1, memorySize := some .memorySha3 }),
  (ADDRESS,
    { execute := .opAddress, constantGas := GasQuickStep, minStack := minStack 0 1,
      maxStack := maxStack 0 1 }),
  (BALANCE,
    { execute := .opBalance, constantGas := vars.BalanceGasFrontier, minStack := minStack 1 1,
      maxStack := maxStack 1 1 }),
  (ORIGIN,
    { execute := .opOrigin, constantGas := GasQuickStep, minStack := minStack 0 1,
      maxStack := maxStack 0 1 }),
  (CALLER,
    { execute := .opCaller, constantGas := GasQuickStep, minStack := minStack 0 1,
      maxStack := maxStack 0 1 }),
  (CALLVALUE,
    { execute := .opCallValue, constantGas := GasQuickStep, minStack := minStack 0 1,
      maxStack := maxStack 0 1 }),
  (CALLDATALOAD,
    { execute := .opCallDataLoad, constantGas := GasFastestStep, minStack := minStack 1 1,
      maxStack := maxStack 1 1 }),
  (CALLDATASIZE,
    { execute := .opCallDataSize, constantGas := GasQuickStep, minStack := minStack 0 1,
      maxStack := maxStack 0 1 }),
  (CALLDATACOPY,
    { execute := .opCallDataCopy, constantGas := GasFastestStep,
      dynamicGas := some .gasCallDataCopy, minStack := minStack 3 0, maxStack := maxStack 3 0,
      memorySize := some .memoryCallDataCopy }),
  (CODESIZE,
    { execute := .opCodeSize, constantGas := GasQuickStep, minStack := minStack 0 1,
      maxStack := maxStack 0 1 }),
  (CODECOPY,
    { execute := .opCodeCopy, constantGas := GasFastestStep, dynamicGas := some .gasCodeCopy,
      minStack := minStack 3 0, maxStack := maxStack 3 0, memorySize := some .memoryCodeCopy }),
  (GASPRICE,
    { execute := .opGasprice, constantGas := GasQuickStep, minStack := minStack 0 1,
      maxStack := maxStack 0 1 }),
  (EXTCODESIZE,
    { execute := .opExtCodeSize, constantGas := vars.ExtcodeSizeGasFrontier,
      minStack := minStack 1 1, maxStack := maxStack 1 1 }),
  (EXTCODECOPY,
    { execute := .opExtCodeCopy, constantGas := vars.ExtcodeCopyBaseFrontier,
      dynamicGas := some .gasExtCodeCopy, minStack := minStack 4 0, maxStack := maxStack 4 0,
      memorySize := some .memoryExtCodeCopy }),
  (BLOCKHASH,
    { execute := .opBlockhash, constantGas := GasExtStep, minStack := minStack 1 1,
      maxStack := maxStack 1 1 }),
  (COINBASE,
    { execute := .opCoinbase, constantGas := GasQuickStep, minStack := minStack 0 1,
      maxStack := maxStack 0 1 }),
  (TIMESTAMP,
    { execute := .opTimestamp, constantGas := GasQuickStep, minStack := minStack 0 1,
      maxStack := maxStack 0 1 }),
  (NUMBER,
    { execute := .opNumber, constantGas := GasQuickStep, minStack := minStack 0 1,
      maxStack := maxStack 0 1 }),
  (DIFFICULTY,
    { execute := .opDifficulty, constantGas := GasQuickStep, minStack := minStack 0 1,
      maxStack := maxStack 0 1 }),
  (GASLIMIT,
    { execute := .opGasLimit, constantGas := GasQuickStep, minStack := minStack 0 1,
      maxStack := maxStack 0 1 }),
  (POP,
    { execute := .opPop, constantGas := GasQuickStep, minStack := minStack 1 0,
      maxStack := maxStack 1 0 }),
  (MLOAD,
    { execute := .opMload, constantGas := GasFastestStep, dynamicGas := some .gasMLoad,
      minStack := minStack 1 1, maxStack := maxStack 1 1, memorySize := some .memoryMLoad }),
  (MSTORE,
    { execute := .opMstore, constantGas := GasFastestStep, dynamicGas := some .gasMStore,
      minStack := minStack 2 0, maxStack := maxStack 2 0, memorySize := some .memoryMStore }),
  (MSTORE8,
    { execute := .opMstore8, constantGas := GasFastestStep, dynamicGas := some .gasMStore8,
      memorySize := some .memoryMStore8, minStack := minStack 2 0, maxStack := maxStack 2 0 }),
  (SLOAD,
    { execute := .opSload, constantGas := vars.SloadGasFrontier, minStack := minStack 1 1,
      maxStack := maxStack 1 1 }),
  (SSTORE,
    { execute := .opSstore, dynamicGas := some .gasSStore, minStack := minStack 2 0,
      maxStack := maxStack 2 0, writes := true }),
  (JUMP,
    { execute := .opJump, constantGas := GasMidStep, minStack := minStack 1 0,
      maxStack := maxStack 1 0, jumps := true }),
  (JUMPI,
    { execute := .opJumpi, constantGas := GasSlowStep, minStack := minStack 2 0,
      maxStack := maxStack 2 0, jumps := true }),
  (PC,
    { execute := .opPc, constantGas := GasQuickStep, minStack := minStack 0 1,
      maxStack := maxStack 0 1 }),
  (MSIZE,
    { execute := .opMsize, constantGas := GasQuickStep, minStack := minStack 0 1,
      maxStack := maxStack 0 1 }),
  (GAS,
    { execute := .opGas, constantGas := GasQuickStep, minStack := minStack 0 1,
      maxStack := maxStack 0 1 }),
  (JUMPDEST,
    { execute := .opJumpdest, constantGas := vars.JumpdestGas, minStack := minStack 0 0,
      maxStack := maxStack 0 0 }),
  (PUSH1,
    { execute := .opPush1, constantGas := GasFastestStep, minStack := minStack 0 1,
      maxStack := maxStack 0 1 })
] ++ pushOperations ++ dupOperations ++ swapOperations ++ logOperations ++ [
  (CREATE,
    { execute := .opCreate, constantGas := vars.CreateGas, dynamicGas := some .gasCreate,
      minStack := minStack 3 1, maxStack := maxStack 3 1, memorySize := some .memoryCreate,
      writes := true, returns := true }),
  (CALL,
    { execute := .opCall, constantGas := vars.CallGasFrontier, dynamicGas := some .gasCall,
      minStack := minStack 7 1, maxStack := maxStack 7 1, memorySize := some .memoryCall,
      returns := true }),
  (CALLCODE,
    { execute := .opCallCode, constantGas := vars.CallGasFrontier, dynamicGas := some .gasCallCode,
      minStack := minStack 7 1, maxStack := maxStack 7 1, memorySize := some .memoryCall,
      returns := true }),
  (RETURN,
    { execute := .opReturn, dynamicGas := some .gasReturn, minStack := minStack 2 0,
      maxStack := maxStack 2 0, memorySize := some .memoryReturn, halts := true }),
  (SELFDESTRUCT,
    { execute := .opSuicide, dynamicGas := some .gasSelfdestruct, minStack := minStack 1 0,
      maxStack := maxStack 1 0, halts := true, writes := true })
]

/-! ## EIP ごとの書き換え（`eips.go`） -/

/-- `enableSelfBalance`：SELFBALANCE を足す。 -/
def enableSelfBalance (jt : JumpTable) : JumpTable :=
  jt.set SELFBALANCE
    { execute := .opSelfBalance, constantGas := GasFastStep,
      minStack := minStack 0 1, maxStack := maxStack 0 1 }

/-- `enable1884`：BALANCE、EXTCODEHASH、SLOAD の値上げと SELFBALANCE。 -/
def enable1884 (jt : JumpTable) : Except RuntimeError JumpTable := do
  let jt ← jt.modifyAll [(BALANCE, withConstantGas vars.BalanceGasEIP1884),
    (EXTCODEHASH, withConstantGas vars.ExtcodeHashGasEIP1884),
    (SLOAD, withConstantGas vars.SloadGasEIP1884)]
  return enableSelfBalance jt

/-- `enable1344`：CHAINID を足す。 -/
def enable1344 (jt : JumpTable) : JumpTable :=
  jt.set CHAINID
    { execute := .opChainID, constantGas := GasQuickStep,
      minStack := minStack 0 1, maxStack := maxStack 0 1 }

/-- `enable2200`：SLOAD の値上げと、SSTORE の net metering。 -/
def enable2200 (jt : JumpTable) : Except RuntimeError JumpTable :=
  jt.modifyAll [(SLOAD, withConstantGas vars.SloadGasEIP2200),
    (SSTORE, withDynamicGas .gasSStoreEIP2200)]

/-- `enable2315`：BEGINSUB、JUMPSUB、RETURNSUB を足す。 -/
def enable2315 (jt : JumpTable) : JumpTable :=
  ((jt.set BEGINSUB
      { execute := .opBeginSub, constantGas := GasQuickStep,
        minStack := minStack 0 0, maxStack := maxStack 0 0 }).set JUMPSUB
      { execute := .opJumpSub, constantGas := GasSlowStep,
        minStack := minStack 1 0, maxStack := maxStack 1 0, jumps := true }).set RETURNSUB
    { execute := .opReturnSub, constantGas := GasFastStep,
      minStack := minStack 0 0, maxStack := maxStack 0 0, jumps := true }

/-! ## `instructionSetForConfig` -/

/-- Go の `if cond { edit }`。 -/
def onlyIf (cond : Bool) (edit : JumpTable → Except RuntimeError JumpTable) (jt : JumpTable) :
    Except RuntimeError JumpTable :=
  if cond then edit jt else .ok jt

/-- `// Tangerine Whistle` の `if` の中身：七つの命令の `constantGas` を上げる。 -/
def tangerineWhistleGas (instructionSet : JumpTable) : Except RuntimeError JumpTable :=
  instructionSet.modifyAll [(BALANCE, withConstantGas vars.BalanceGasEIP150),
    (EXTCODESIZE, withConstantGas vars.ExtcodeSizeGasEIP150),
    (SLOAD, withConstantGas vars.SloadGasEIP150),
    (EXTCODECOPY, withConstantGas vars.ExtcodeCopyBaseEIP150),
    (CALL, withConstantGas vars.CallGasEIP150),
    (CALLCODE, withConstantGas vars.CallGasEIP150),
    (DELEGATECALL, withConstantGas vars.CallGasEIP150)]

/--
`instructionSetForConfig(config, bn)`。Go はこの表を返すか、nil の要素を書き換えようとして
panic する。
-/
def instructionSetForConfig (config : ChainConfigurator) (bn : Option Int) :
    Except RuntimeError JumpTable :=
  .ok newBaseInstructionSet
  -- Homestead
  >>= onlyIf (config.IsEnabled config.GetEIP7Transition bn) (fun instructionSet =>
    .ok (instructionSet.set DELEGATECALL
      { execute := .opDelegateCall, dynamicGas := some .gasDelegateCall,
        constantGas := vars.CallGasFrontier, minStack := minStack 6 1, maxStack := maxStack 6 1,
        memorySize := some .memoryDelegateCall, returns := true }))
  -- Tangerine Whistle
  >>= onlyIf (config.IsEnabled config.GetEIP150Transition bn) tangerineWhistleGas
  -- Spurious Dragon
  >>= onlyIf (config.IsEnabled config.GetEIP160Transition bn) (fun instructionSet =>
    instructionSet.modifyAll [(EXP, withDynamicGas .gasExpEIP158)])
  -- Byzantium
  >>= onlyIf (config.IsEnabled config.GetEIP140Transition bn) (fun instructionSet =>
    .ok (instructionSet.set REVERT
      { execute := .opRevert, dynamicGas := some .gasRevert,
        minStack := minStack 2 0, maxStack := maxStack 2 0, memorySize := some .memoryRevert,
        reverts := true, returns := true }))
  >>= onlyIf (config.IsEnabled config.GetEIP214Transition bn) (fun instructionSet =>
    .ok (instructionSet.set STATICCALL
      { execute := .opStaticCall, constantGas := vars.CallGasEIP150,
        dynamicGas := some .gasStaticCall, minStack := minStack 6 1, maxStack := maxStack 6 1,
        memorySize := some .memoryStaticCall, returns := true }))
  >>= onlyIf (config.IsEnabled config.GetEIP211Transition bn) (fun instructionSet =>
    .ok ((instructionSet.set RETURNDATASIZE
        { execute := .opReturnDataSize, constantGas := GasQuickStep,
          minStack := minStack 0 1, maxStack := maxStack 0 1 }).set RETURNDATACOPY
      { execute := .opReturnDataCopy, constantGas := GasFastestStep,
        dynamicGas := some .gasReturnDataCopy, minStack := minStack 3 0,
        maxStack := maxStack 3 0, memorySize := some .memoryReturnDataCopy }))
  -- Constantinople
  >>= onlyIf (config.IsEnabled config.GetEIP145Transition bn) (fun instructionSet =>
    .ok (((instructionSet.set SHL
          { execute := .opSHL, constantGas := GasFastestStep,
            minStack := minStack 2 1, maxStack := maxStack 2 1 }).set SHR
        { execute := .opSHR, constantGas := GasFastestStep,
          minStack := minStack 2 1, maxStack := maxStack 2 1 }).set SAR
      { execute := .opSAR, constantGas := GasFastestStep,
        minStack := minStack 2 1, maxStack := maxStack 2 1 }))
  >>= onlyIf (config.IsEnabled config.GetEIP1014Transition bn) (fun instructionSet =>
    .ok (instructionSet.set CREATE2
      { execute := .opCreate2, constantGas := vars.Create2Gas,
        dynamicGas := some .gasCreate2, minStack := minStack 4 1, maxStack := maxStack 4 1,
        memorySize := some .memoryCreate2, writes := true, returns := true }))
  >>= onlyIf (config.IsEnabled config.GetEIP1052Transition bn) (fun instructionSet =>
    .ok (instructionSet.set EXTCODEHASH
      { execute := .opExtCodeHash, constantGas := vars.ExtcodeHashGasConstantinople,
        minStack := minStack 1 1, maxStack := maxStack 1 1 }))
  >>= onlyIf (config.IsEnabled config.GetEIP1344Transition bn) (fun instructionSet =>
    .ok (enable1344 instructionSet))
  >>= onlyIf (config.IsEnabled config.GetEIP1884Transition bn) enable1884
  >>= onlyIf (config.IsEnabled config.GetECIP1080Transition bn) (fun instructionSet =>
    .ok (enableSelfBalance instructionSet))
  >>= onlyIf (config.IsEnabled config.GetEIP2200Transition bn &&
      !config.IsEnabled config.GetEIP2200DisableTransition bn) enable2200

/-! ## `cfg.ExtraEips`（`EnableEIP`） -/

/-- `activators[eipNum]`。 -/
def activators : Int → Option (JumpTable → Except RuntimeError JumpTable)
  | 2200 => some enable2200
  | 1884 => some enable1884
  | 1344 => some fun jt => .ok (enable1344 jt)
  | 2315 => some fun jt => .ok (enable2315 jt)
  | _ => none

/-- `EnableEIP(eipNum, jt)`：知らない EIP なら誤り（内側の `.error`）を返して表を変えず、
知っていれば書き換える（nil の要素に当たれば panic する）。 -/
def EnableEIP (eipNum : Int) (jt : JumpTable) : Except RuntimeError (Except String JumpTable) :=
  match activators eipNum with
  | none => .ok (.error "undefined eip")
  | some enablerFn => (enablerFn jt).map .ok

/--
`NewEVMInterpreter` の `for _, eip := range cfg.ExtraEips` の loop：EIP を順に有効にし、
誤りを返した EIP は飛ばす。Go の loop は走査中の slice から飛ばした EIP を取り除くので、
実際に `EnableEIP` に渡る列は `cfg.ExtraEips` と違いうる。ここでは渡る列を `eips` とする。
-/
def enableEips (jt : JumpTable) (eips : List Int) : Except RuntimeError JumpTable :=
  eips.foldlM (fun jt eip => (EnableEIP eip jt).map fun r =>
    match r with
    | .ok jt' => jt'
    | .error _ => jt) jt

end Vm
