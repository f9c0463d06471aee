import Mathlib

/-!
# 命令表の要素（`core/vm/jump_table.go`、`core/vm/opcodes.go`、`core/vm/stack_table.go`）

`operation` は命令一つの実装と、その命令について interpreter が調べる値の組である。Go では
`execute`、`dynamicGas`、`memorySize` は関数値だが、ここではどの関数かを表す名前
（`ExecutionFunc`、`GasFunc`、`MemorySizeFunc`）で持つ。名前に意味を与えるのは、それを
呼ぶ側の model である。

`JumpTable` は opcode から `*operation` への 256 要素の配列で、nil の要素は未定義の命令を
表す。要素を書き換える `jt[op].constantGas = g` は、要素が nil なら nil pointer の参照で
panic する（`JumpTable.modify`）。
-/

namespace Vm

/-! ## 定数 -/

/-- `OpCode`（`byte`）。 -/
abbrev OpCode := UInt8

/-- `GasQuickStep`。 -/
def GasQuickStep : Nat := 2
/-- `GasFastestStep`。 -/
def GasFastestStep : Nat := 3
/-- `GasFastStep`。 -/
def GasFastStep : Nat := 5
/-- `GasMidStep`。 -/
def GasMidStep : Nat := 8
/-- `GasSlowStep`。 -/
def GasSlowStep : Nat := 10
/-- `GasExtStep`。 -/
def GasExtStep : Nat := 20

end Vm

/-! `params/vars/protocol_params.go` の定数のうち、命令表が使うもの。 -/

namespace vars

/-- `StackLimit`。 -/
def StackLimit : Nat := 1024
/-- `Sha3Gas`。 -/
def Sha3Gas : Nat := 30
/-- `JumpdestGas`。 -/
def JumpdestGas : Nat := 1
/-- `CreateGas`。 -/
def CreateGas : Nat := 32000
/-- `Create2Gas`。 -/
def Create2Gas : Nat := 32000
/-- `CallGasFrontier`。 -/
def CallGasFrontier : Nat := 40
/-- `CallGasEIP150`。 -/
def CallGasEIP150 : Nat := 700
/-- `BalanceGasFrontier`。 -/
def BalanceGasFrontier : Nat := 20
/-- `BalanceGasEIP150`。 -/
def BalanceGasEIP150 : Nat := 400
/-- `BalanceGasEIP1884`。 -/
def BalanceGasEIP1884 : Nat := 700
/-- `ExtcodeSizeGasFrontier`。 -/
def ExtcodeSizeGasFrontier : Nat := 20
/-- `ExtcodeSizeGasEIP150`。 -/
def ExtcodeSizeGasEIP150 : Nat := 700
/-- `SloadGasFrontier`。 -/
def SloadGasFrontier : Nat := 50
/-- `SloadGasEIP150`。 -/
def SloadGasEIP150 : Nat := 200
/-- `SloadGasEIP1884`。 -/
def SloadGasEIP1884 : Nat := 800
/-- `SloadGasEIP2200`（`SloadGasEIP1884` と同じ値）。 -/
def SloadGasEIP2200 : Nat := SloadGasEIP1884
/-- `ExtcodeHashGasConstantinople`。 -/
def ExtcodeHashGasConstantinople : Nat := 400
/-- `ExtcodeHashGasEIP1884`。 -/
def ExtcodeHashGasEIP1884 : Nat := 700
/-- `ExtcodeCopyBaseFrontier`。 -/
def ExtcodeCopyBaseFrontier : Nat := 20
/-- `ExtcodeCopyBaseEIP150`。 -/
def ExtcodeCopyBaseEIP150 : Nat := 700

end vars

namespace Vm

/-! ## opcode（`opcodes.go`） -/

/-- `STOP`。 -/
def STOP : OpCode := 0x00
/-- `ADD`。 -/
def ADD : OpCode := 0x01
/-- `MUL`。 -/
def MUL : OpCode := 0x02
/-- `SUB`。 -/
def SUB : OpCode := 0x03
/-- `DIV`。 -/
def DIV : OpCode := 0x04
/-- `SDIV`。 -/
def SDIV : OpCode := 0x05
/-- `MOD`。 -/
def MOD : OpCode := 0x06
/-- `SMOD`。 -/
def SMOD : OpCode := 0x07
/-- `ADDMOD`。 -/
def ADDMOD : OpCode := 0x08
/-- `MULMOD`。 -/
def MULMOD : OpCode := 0x09
/-- `EXP`。 -/
def EXP : OpCode := 0x0a
/-- `SIGNEXTEND`。 -/
def SIGNEXTEND : OpCode := 0x0b
/-- `LT`。 -/
def LT : OpCode := 0x10
/-- `GT`。 -/
def GT : OpCode := 0x11
/-- `SLT`。 -/
def SLT : OpCode := 0x12
/-- `SGT`。 -/
def SGT : OpCode := 0x13
/-- `EQ`。 -/
def EQ : OpCode := 0x14
/-- `ISZERO`。 -/
def ISZERO : OpCode := 0x15
/-- `AND`。 -/
def AND : OpCode := 0x16
/-- `OR`。 -/
def OR : OpCode := 0x17
/-- `XOR`。 -/
def XOR : OpCode := 0x18
/-- `NOT`。 -/
def NOT : OpCode := 0x19
/-- `BYTE`。 -/
def BYTE : OpCode := 0x1a
/-- `SHL`。 -/
def SHL : OpCode := 0x1b
/-- `SHR`。 -/
def SHR : OpCode := 0x1c
/-- `SAR`。 -/
def SAR : OpCode := 0x1d
/-- `SHA3`。 -/
def SHA3 : OpCode := 0x20
/-- `ADDRESS`。 -/
def ADDRESS : OpCode := 0x30
/-- `BALANCE`。 -/
def BALANCE : OpCode := 0x31
/-- `ORIGIN`。 -/
def ORIGIN : OpCode := 0x32
/-- `CALLER`。 -/
def CALLER : OpCode := 0x33
/-- `CALLVALUE`。 -/
def CALLVALUE : OpCode := 0x34
/-- `CALLDATALOAD`。 -/
def CALLDATALOAD : OpCode := 0x35
/-- `CALLDATASIZE`。 -/
def CALLDATASIZE : OpCode := 0x36
/-- `CALLDATACOPY`。 -/
def CALLDATACOPY : OpCode := 0x37
/-- `CODESIZE`。 -/
def CODESIZE : OpCode := 0x38
/-- `CODECOPY`。 -/
def CODECOPY : OpCode := 0x39
/-- `GASPRICE`。 -/
def GASPRICE : OpCode := 0x3a
/-- `EXTCODESIZE`。 -/
def EXTCODESIZE : OpCode := 0x3b
/-- `EXTCODECOPY`。 -/
def EXTCODECOPY : OpCode := 0x3c
/-- `RETURNDATASIZE`。 -/
def RETURNDATASIZE : OpCode := 0x3d
/-- `RETURNDATACOPY`。 -/
def RETURNDATACOPY : OpCode := 0x3e
/-- `EXTCODEHASH`。 -/
def EXTCODEHASH : OpCode := 0x3f
/-- `BLOCKHASH`。 -/
def BLOCKHASH : OpCode := 0x40
/-- `COINBASE`。 -/
def COINBASE : OpCode := 0x41
/-- `TIMESTAMP`。 -/
def TIMESTAMP : OpCode := 0x42
/-- `NUMBER`。 -/
def NUMBER : OpCode := 0x43
/-- `DIFFICULTY`。 -/
def DIFFICULTY : OpCode := 0x44
/-- `GASLIMIT`。 -/
def GASLIMIT : OpCode := 0x45
/-- `CHAINID`。 -/
def CHAINID : OpCode := 0x46
/-- `SELFBALANCE`。 -/
def SELFBALANCE : OpCode := 0x47
/-- `POP`。 -/
def POP : OpCode := 0x50
/-- `MLOAD`。 -/
def MLOAD : OpCode := 0x51
/-- `MSTORE`。 -/
def MSTORE : OpCode := 0x52
/-- `MSTORE8`。 -/
def MSTORE8 : OpCode := 0x53
/-- `SLOAD`。 -/
def SLOAD : OpCode := 0x54
/-- `SSTORE`。 -/
def SSTORE : OpCode := 0x55
/-- `JUMP`。 -/
def JUMP : OpCode := 0x56
/-- `JUMPI`。 -/
def JUMPI : OpCode := 0x57
/-- `PC`。 -/
def PC : OpCode := 0x58
/-- `MSIZE`。 -/
def MSIZE : OpCode := 0x59
/-- `GAS`。 -/
def GAS : OpCode := 0x5a
/-- `JUMPDEST`。 -/
def JUMPDEST : OpCode := 0x5b
/-- `BEGINSUB`。 -/
def BEGINSUB : OpCode := 0x5c
/-- `RETURNSUB`。 -/
def RETURNSUB : OpCode := 0x5d
/-- `JUMPSUB`。 -/
def JUMPSUB : OpCode := 0x5e
/-- `PUSH1`。`PUSHn` は `PUSH1 + (n - 1)`。 -/
def PUSH1 : OpCode := 0x60
/-- `DUP1`。`DUPn` は `DUP1 + (n - 1)`。 -/
def DUP1 : OpCode := 0x80
/-- `SWAP1`。`SWAPn` は `SWAP1 + (n - 1)`。 -/
def SWAP1 : OpCode := 0x90
/-- `LOG0`。`LOGn` は `LOG0 + n`。 -/
def LOG0 : OpCode := 0xa0
/-- `CREATE`。 -/
def CREATE : OpCode := 0xf0
/-- `CALL`。 -/
def CALL : OpCode := 0xf1
/-- `CALLCODE`。 -/
def CALLCODE : OpCode := 0xf2
/-- `RETURN`。 -/
def RETURN : OpCode := 0xf3
/-- `DELEGATECALL`。 -/
def DELEGATECALL : OpCode := 0xf4
/-- `CREATE2`。 -/
def CREATE2 : OpCode := 0xf5
/-- `STATICCALL`。 -/
def STATICCALL : OpCode := 0xfa
/-- `REVERT`。 -/
def REVERT : OpCode := 0xfd
/-- `SELFDESTRUCT`。 -/
def SELFDESTRUCT : OpCode := 0xff

/-! ## 関数値の名前 -/

/-- `executionFunc` として表に入る関数。`make*` は引数ごとに別の関数を作る。 -/
inductive ExecutionFunc where
  | opStop | opAdd | opMul | opSub | opDiv | opSdiv | opMod | opSmod | opAddmod | opMulmod
  | opExp | opSignExtend
  | opLt | opGt | opSlt | opSgt | opEq | opIszero | opAnd | opXor | opOr | opNot | opByte
  | opSHL | opSHR | opSAR
  | opSha3
  | opAddress | opBalance | opOrigin | opCaller | opCallValue | opCallDataLoad | opCallDataSize
  | opCallDataCopy | opCodeSize | opCodeCopy | opGasprice | opExtCodeSize | opExtCodeCopy
  | opReturnDataSize | opReturnDataCopy | opExtCodeHash
  | opBlockhash | opCoinbase | opTimestamp | opNumber | opDifficulty | opGasLimit | opChainID
  | opSelfBalance
  | opPop | opMload | opMstore | opMstore8 | opSload | opSstore | opJump | opJumpi | opPc
  | opMsize | opGas | opJumpdest | opBeginSub | opJumpSub | opReturnSub
  | opPush1
  /-- `makePush(size, pushByteSize)`。 -/
  | makePush (size pushByteSize : Nat)
  /-- `makeDup(size)`。 -/
  | makeDup (size : Nat)
  /-- `makeSwap(size)`。 -/
  | makeSwap (size : Nat)
  /-- `makeLog(size)`。 -/
  | makeLog (size : Nat)
  | opCreate | opCall | opCallCode | opReturn | opDelegateCall | opCreate2 | opStaticCall
  | opRevert | opSuicide
  deriving DecidableEq, Repr

/-- `gasFunc` として表に入る関数。 -/
inductive GasFunc where
  | gasExpFrontier | gasExpEIP158 | gasSha3 | gasCallDataCopy | gasCodeCopy | gasExtCodeCopy
  | gasReturnDataCopy | gasMLoad | gasMStore | gasMStore8 | gasSStore | gasSStoreEIP2200
  /-- `makeGasLog(n)`。 -/
  | makeGasLog (n : Nat)
  | gasCreate | gasCreate2 | gasCall | gasCallCode | gasDelegateCall | gasStaticCall | gasReturn
  | gasRevert | gasSelfdestruct
  deriving DecidableEq, Repr

/-- `memorySizeFunc` として表に入る関数（`memory_table.go`）。 -/
inductive MemorySizeFunc where
  | memorySha3 | memoryCallDataCopy | memoryReturnDataCopy | memoryCodeCopy | memoryExtCodeCopy
  | memoryMLoad | memoryMStore8 | memoryMStore | memoryCreate | memoryCreate2 | memoryCall
  | memoryDelegateCall | memoryStaticCall | memoryReturn | memoryRevert | memoryLog
  deriving DecidableEq, Repr

/-! ## stack の上下限（`stack_table.go`） -/

/-- `minStack(pops, push)`：要る要素の数。 -/
def minStack (pops _push : Nat) : Nat := pops

/-- `maxStack(pop, push)`：実行後に `StackLimit` を超えない、実行前の長さの上限。 -/
def maxStack (pop push : Nat) : Nat := vars.StackLimit + pop - push

/-- `minSwapStack(n)`。 -/
def minSwapStack (n : Nat) : Nat := minStack n n

/-- `maxSwapStack(n)`。 -/
def maxSwapStack (n : Nat) : Nat := maxStack n n

/-- `minDupStack(n)`。 -/
def minDupStack (n : Nat) : Nat := minStack n (n + 1)

/-- `maxDupStack(n)`。 -/
def maxDupStack (n : Nat) : Nat := maxStack n (n + 1)

/-! ## `operation` と `JumpTable` -/

/-- `operation`。書かれていない field は Go の零値（`0`、nil、`false`）になる。 -/
structure Operation where
  execute : ExecutionFunc
  constantGas : Nat := 0
  dynamicGas : Option GasFunc := none
  minStack : Nat
  maxStack : Nat
  memorySize : Option MemorySizeFunc := none
  halts : Bool := false
  jumps : Bool := false
  writes : Bool := false
  reverts : Bool := false
  returns : Bool := false
  deriving DecidableEq, Repr

/-- `jt[op].constantGas = gas` の書き換え。 -/
def withConstantGas (gas : Nat) (o : Operation) : Operation := { o with constantGas := gas }

/-- `jt[op].dynamicGas = gas` の書き換え。 -/
def withDynamicGas (gas : GasFunc) (o : Operation) : Operation := { o with dynamicGas := some gas }

/-- 実行時の panic。 -/
inductive RuntimeError where
  /-- nil の `*operation` の field を読み書きした。 -/
  | nilPointerDereference
  deriving DecidableEq, Repr

/-- `JumpTable`：opcode ごとの `*operation`。`none` が nil。 -/
def JumpTable := OpCode → Option Operation

namespace JumpTable

/-- 鍵付きの配列 literal。書かれていない opcode は nil。 -/
def ofList (entries : List (OpCode × Operation)) : JumpTable := fun op => entries.lookup op

/-- `jt[op] = &operation{...}`。 -/
def set (jt : JumpTable) (op : OpCode) (o : Operation) : JumpTable :=
  Function.update jt op (some o)

/-- `jt[op].field = ...`：`jt[op]` が nil なら panic する。 -/
def modify (jt : JumpTable) (op : OpCode) (f : Operation → Operation) :
    Except RuntimeError JumpTable :=
  match jt op with
  | none => .error .nilPointerDereference
  | some o => .ok (jt.set op (f o))

/-- `jt[op].field = ...` を順に行う。nil の要素に当たったところで panic する。 -/
def modifyAll (jt : JumpTable) (edits : List (OpCode × (Operation → Operation))) :
    Except RuntimeError JumpTable :=
  edits.foldlM (fun jt e => jt.modify e.1 e.2) jt

@[simp] theorem set_apply (jt : JumpTable) (op op' : OpCode) (o : Operation) :
    jt.set op o op' = if op' = op then some o else jt op' :=
  Function.update_apply (α := OpCode) jt op (some o) op'

theorem modify_of_none {jt : JumpTable} {op : OpCode} (h : jt op = none) (f : Operation → Operation) :
    jt.modify op f = .error .nilPointerDereference := by
  simp [modify, h]

theorem modify_of_some {jt : JumpTable} {op : OpCode} {o : Operation} (h : jt op = some o)
    (f : Operation → Operation) : jt.modify op f = .ok (jt.set op (f o)) := by
  simp [modify, h]

end JumpTable

end Vm
