import Mathlib
import Bullions.Lib.Bytes
import Bullions.Vm.Operation

/-!
# EVM の memory と、その大きさの計算（`core/vm/memory.go`、`common.go`、`memory_table.go`）

`Memory` は byte 列と、これまでに memory の拡張に課した gas の総額 `lastGasCost` を持つ。
`memoryGasCost` は拡張の gas を、新しい大きさの総額 `C(w) = 3w + w²/512` から
`lastGasCost` を引いて求め、`lastGasCost` を新しい総額に書き換える。大きさを実際に
変えるのは `Run` の呼ぶ `Resize` だけである。

Go の `uint64` は `Nat` で書き、桁あふれする演算は `% 2 ^ 64` を明示する
（`common/math` の `SafeAdd` などもここに置く）。stack の要素（`uint256.Int`）は、その値の
`Nat` で持つ。`Stack` は先頭が一番上で、`Back(n)` は `n` 番目の要素である。
-/

namespace Vm

/-! ## `common/math` -/

/-- `math.MaxUint64`。 -/
def MaxUint64 : Nat := 2 ^ 64 - 1

/-- `math.SafeAdd`：和と、桁あふれしたか。 -/
def SafeAdd (x y : Nat) : Nat × Bool := ((x + y) % 2 ^ 64, decide (2 ^ 64 ≤ x + y))

/-- `math.SafeSub`：差と、借りが出たか。 -/
def SafeSub (x y : Nat) : Nat × Bool := ((x + 2 ^ 64 - y) % 2 ^ 64, decide (x < y))

/-- `math.SafeMul`：積と、桁あふれしたか。 -/
def SafeMul (x y : Nat) : Nat × Bool := ((x * y) % 2 ^ 64, decide (2 ^ 64 ≤ x * y))

/-- `uint64` の引き算 `x - y`（桁が下にあふれれば回り込む）。 -/
def sub64 (x y : Nat) : Nat := (x + 2 ^ 64 - y) % 2 ^ 64

/-! ## stack の要素と stack -/

/-- `uint256.Int` の値。 -/
abbrev Word := Nat

/-- `IsUint64`。 -/
def isUint64 (v : Word) : Bool := decide (v < 2 ^ 64)

/-- `Uint64WithOverflow`：下位 64 bit と、収まらなかったか。 -/
def uint64WithOverflow (v : Word) : Nat × Bool := (v % 2 ^ 64, !isUint64 v)

/-- `Stack`。先頭が一番上。 -/
structure Stack where
  data : List Word
  deriving DecidableEq, Repr

/-- `Stack.len`。 -/
def Stack.len (st : Stack) : Nat := st.data.length

/-- `Stack.Back(n)`：上から `n` 番目。呼び手は `minStack` を確かめた後にしか呼ばないので、
範囲の外は 0 と読む。 -/
def Stack.Back (st : Stack) (n : Nat) : Word := st.data.getD n 0

/-! ## 大きさの計算（`common.go`） -/

/-- `calcMemSize64WithUint`：`off` から `length64` byte を覆う大きさと、桁あふれしたか。 -/
def calcMemSize64WithUint (off : Word) (length64 : Nat) : Nat × Bool :=
  -- 長さが 0 なら、offset によらず 0
  if length64 = 0 then (0, false)
  else
    let (offset64, overflow) := uint64WithOverflow off
    if overflow then (0, true)
    else
      let val := (offset64 + length64) % 2 ^ 64
      (val, decide (val < offset64))

/-- `calcMemSize64`。 -/
def calcMemSize64 (off l : Word) : Nat × Bool :=
  if !isUint64 l then (0, true) else calcMemSize64WithUint off l

/-- `toWordSize`：32 byte の word の数（切り上げ）。 -/
def toWordSize (size : Nat) : Nat :=
  if size > MaxUint64 - 31 then MaxUint64 / 32 + 1 else (size + 31) / 32

/-! ## 命令ごとの memory の大きさ（`memory_table.go`） -/

/-- `memoryCall` などの二つの範囲の大きい方。 -/
def calcMemSizeMax (x y : Nat × Bool) : Nat × Bool :=
  if x.2 then (0, true)
  else if y.2 then (0, true)
  else if x.1 > y.1 then (x.1, false) else (y.1, false)

/-- `memorySizeFunc` の中身。 -/
def memorySizeOf (st : Stack) : MemorySizeFunc → Nat × Bool
  | .memorySha3 => calcMemSize64 (st.Back 0) (st.Back 1)
  | .memoryCallDataCopy => calcMemSize64 (st.Back 0) (st.Back 2)
  | .memoryReturnDataCopy => calcMemSize64 (st.Back 0) (st.Back 2)
  | .memoryCodeCopy => calcMemSize64 (st.Back 0) (st.Back 2)
  | .memoryExtCodeCopy => calcMemSize64 (st.Back 1) (st.Back 3)
  | .memoryMLoad => calcMemSize64WithUint (st.Back 0) 32
  | .memoryMStore8 => calcMemSize64WithUint (st.Back 0) 1
  | .memoryMStore => calcMemSize64WithUint (st.Back 0) 32
  | .memoryCreate => calcMemSize64 (st.Back 1) (st.Back 2)
  | .memoryCreate2 => calcMemSize64 (st.Back 1) (st.Back 2)
  | .memoryCall =>
    calcMemSizeMax (calcMemSize64 (st.Back 5) (st.Back 6)) (calcMemSize64 (st.Back 3) (st.Back 4))
  | .memoryDelegateCall =>
    calcMemSizeMax (calcMemSize64 (st.Back 4) (st.Back 5)) (calcMemSize64 (st.Back 2) (st.Back 3))
  | .memoryStaticCall =>
    calcMemSizeMax (calcMemSize64 (st.Back 4) (st.Back 5)) (calcMemSize64 (st.Back 2) (st.Back 3))
  | .memoryReturn => calcMemSize64 (st.Back 0) (st.Back 1)
  | .memoryRevert => calcMemSize64 (st.Back 0) (st.Back 1)
  | .memoryLog => calcMemSize64 (st.Back 0) (st.Back 1)

/-! ## `Memory` -/

/-- `Memory`。 -/
structure Memory where
  store : Bytes
  lastGasCost : Nat
  deriving DecidableEq, Repr

/-- `NewMemory`。 -/
def Memory.New : Memory := { store := [], lastGasCost := 0 }

/-- `Memory.Len`。 -/
def Memory.Len (m : Memory) : Nat := m.store.length

/-- `Memory.Resize`：足りなければ 0 の byte を足して `size` にする。 -/
def Memory.Resize (m : Memory) (size : Nat) : Memory :=
  if m.Len < size then { m with store := m.store ++ List.replicate (size - m.Len) 0 } else m

/-! ## 拡張の gas（`gas_table.go`） -/

/-- `params.MemoryGas`。 -/
def MemoryGas : Nat := 3

/-- `params.QuadCoeffDiv`。 -/
def QuadCoeffDiv : Nat := 512

/-- 実行時の誤り（`errors.go`）のうち、gas の計算、`Run` の検査、呼び出しと作成の返すもの。 -/
inductive VmError where
  | ErrGasUintOverflow
  | ErrOutOfGas
  | ErrInvalidOpCode (opcode : OpCode)
  | ErrStackUnderflow (stackLen required : Nat)
  | ErrStackOverflow (stackLen limit : Nat)
  | ErrWriteProtection
  | ErrExecutionReverted
  | ErrDepth
  | ErrInsufficientBalance
  | ErrContractAddressCollision
  | ErrCodeStoreOutOfGas
  | ErrMaxCodeSizeExceeded
  /-- 命令の実行が返した、それ以外の誤り。 -/
  | execError (what : String)
  deriving DecidableEq, Repr

/-- `memoryGasCost`：`newMemSize` まで広げるのに要る gas。広げるときは `lastGasCost` を新しい
総額に書き換えるので、書き換えた `Memory` も返す。 -/
def memoryGasCost (mem : Memory) (newMemSize : Nat) : Memory × Except VmError Nat :=
  if newMemSize = 0 then (mem, .ok 0)
  -- 0x1FFFFFFFE0 を超えると、word の数の二乗が uint64 に収まらない
  else if newMemSize > 0x1FFFFFFFE0 then (mem, .error .ErrGasUintOverflow)
  else
    let newMemSizeWords := toWordSize newMemSize
    let newMemSize := newMemSizeWords * 32
    if newMemSize > mem.Len then
      let square := newMemSizeWords * newMemSizeWords
      let linCoef := newMemSizeWords * MemoryGas
      let quadCoef := square / QuadCoeffDiv
      let newTotalFee := linCoef + quadCoef
      let fee := sub64 newTotalFee mem.lastGasCost
      ({ mem with lastGasCost := newTotalFee }, .ok fee)
    else (mem, .ok 0)

end Vm
