import Bullions.Vm.Memory

/-!
# 命令の動的な gas（`core/vm/gas_table.go`、`core/vm/gas.go`）

`gasFunc` は `(evm, contract, stack, mem, memorySize)` から gas を求め、二つのものを書き換え
うる：memory を広げる命令は `memoryGasCost` で `mem.lastGasCost` を、呼び出しと作成の命令は
`evm.CallGasTemp` を。`dynamicGasOf` はその二つと結果を `GasResult` で返す。

memory を広げる gas 関数は、どれもまず `memoryGasCost(mem, memorySize)` を一度呼び、
誤りならそれを返す。呼び出しの gas 関数は、その後で `callGas` により子に渡す gas
（`CallGasTemp`）を決め、それを足した額を返す。

StateDB を読む三つ（`gasSStore`、`gasSStoreEIP2200`、`gasSelfdestruct`）は、memory にも
`CallGasTemp` にも触れないので、読む値ごと `GasEnv.stateGas` で与える。
-/

namespace Vm

/-! ## 定数 -/

/-- `params.CopyGas`。 -/
def CopyGas : Nat := 3
/-- `params.LogGas`。 -/
def LogGas : Nat := 375
/-- `params.LogTopicGas`。 -/
def LogTopicGas : Nat := 375
/-- `params.LogDataGas`。 -/
def LogDataGas : Nat := 8
/-- `params.Sha3WordGas`。 -/
def Sha3WordGas : Nat := 6
/-- `params.ExpGas`。 -/
def ExpGas : Nat := 10
/-- `params.ExpByteFrontier`。 -/
def ExpByteFrontier : Nat := 10
/-- `params.ExpByteEIP158`。 -/
def ExpByteEIP158 : Nat := 50
/-- `params.CallValueTransferGas`。 -/
def CallValueTransferGas : Nat := 9000
/-- `params.CallNewAccountGas`。 -/
def CallNewAccountGas : Nat := 25000
/-- `params.CallStipend`。 -/
def CallStipend : Nat := 2300

/-! ## 子に渡す gas（`gas.go`） -/

/-- `createGasEip150`：EIP-150 の後は、残りの 63/64。 -/
def createGasEip150 (isEip150 : Bool) (availableGas : Nat) : Except VmError Nat :=
  if isEip150 then .ok (availableGas - availableGas / 64) else .ok availableGas

/-- `callGas`：子に渡す gas。EIP-150 の後は、残りから `base` を引いた額の 63/64 を上限とする。
`availableGas - base` は確かめずに引く（uint64 で回り込む）。 -/
def callGas (isEip150 : Bool) (availableGas base : Nat) (callCost : Word) :
    Except VmError Nat :=
  let eip150Gas :=
    let availableGas := sub64 availableGas base
    availableGas - availableGas / 64
  if isEip150 && (!isUint64 callCost || decide (eip150Gas < callCost % 2 ^ 64)) then .ok eip150Gas
  else if !isUint64 callCost then .error .ErrGasUintOverflow
  else .ok (callCost % 2 ^ 64)

/-! ## 動的な gas -/

/-- 動的な gas の計算で、stack と memory の他に読むもの。 -/
structure GasEnv where
  /-- `IsEnabled(GetEIP150Transition, BlockNumber)`。 -/
  eip150 : Bool
  /-- `IsEnabled(GetEIP161abcTransition, BlockNumber)`。 -/
  eip161abc : Bool
  /-- `StateDB.Empty(address)`。 -/
  empty : Nat → Bool
  /-- `StateDB.Exist(address)`。 -/
  exist : Nat → Bool
  /-- StateDB を読む gas 関数の結果。 -/
  stateGas : GasFunc → Stack → Nat → Except VmError Nat

/-- gas 関数の書き換えたものと、返した値。 -/
structure GasResult where
  mem : Memory
  callGasTemp : Nat
  result : Except VmError Nat

/-- 誤りを返す。 -/
def GasResult.fail (mem : Memory) (callGasTemp : Nat) (err : VmError) : GasResult :=
  ⟨mem, callGasTemp, .error err⟩

/-- `(x, overflow) := SafeAdd(...)` の後の `if overflow { return 0, ErrGasUintOverflow }`。 -/
def checked (r : Nat × Bool) : Except VmError Nat :=
  if r.2 then .error .ErrGasUintOverflow else .ok r.1

/-- `common.Address(w.Bytes20())`：下位 20 byte。 -/
def toAddress (w : Word) : Nat := w % 2 ^ 160

/-- `BitLen`。 -/
def bitLen (v : Word) : Nat := if v = 0 then 0 else Nat.log2 v + 1

/-- `memoryCopierGas(stackpos)`：memory の拡張と、`Back(stackpos)` byte の複写の word ごとの gas。 -/
def memoryCopierGas (stackpos : Nat) (st : Stack) (mem : Memory) (memorySize : Nat) (cgt : Nat) :
    GasResult :=
  let (mem, r) := memoryGasCost mem memorySize
  ⟨mem, cgt, do
    let gas ← r
    let words ← checked (uint64WithOverflow (st.Back stackpos))
    let words ← checked (SafeMul (toWordSize words) CopyGas)
    checked (SafeAdd gas words)⟩

/-- `makeGasLog(n)`。長さの word を先に確かめてから、memory の拡張を求める。 -/
def makeGasLog (n : Nat) (st : Stack) (mem : Memory) (memorySize : Nat) (cgt : Nat) : GasResult :=
  let (requestedSize, overflow) := uint64WithOverflow (st.Back 1)
  if overflow then .fail mem cgt .ErrGasUintOverflow
  else
    let (mem, r) := memoryGasCost mem memorySize
    ⟨mem, cgt, do
      let gas ← r
      let gas ← checked (SafeAdd gas LogGas)
      let gas ← checked (SafeAdd gas (n * LogTopicGas))
      let memorySizeGas ← checked (SafeMul requestedSize LogDataGas)
      checked (SafeAdd gas memorySizeGas)⟩

/-- `gasSha3` の形：memory の拡張と、`Back(stackpos)` byte の hash の word ごとの gas。 -/
def memoryWordGas (stackpos : Nat) (st : Stack) (mem : Memory) (memorySize : Nat) (cgt : Nat) :
    GasResult :=
  let (mem, r) := memoryGasCost mem memorySize
  ⟨mem, cgt, do
    let gas ← r
    let wordGas ← checked (uint64WithOverflow (st.Back stackpos))
    let wordGas ← checked (SafeMul (toWordSize wordGas) Sha3WordGas)
    checked (SafeAdd gas wordGas)⟩

/-- `gasSha3`。 -/
def gasSha3 (st : Stack) (mem : Memory) (memorySize : Nat) (cgt : Nat) : GasResult :=
  memoryWordGas 1 st mem memorySize cgt


/-- `pureMemoryGascost`（`gasReturn`、`gasRevert`、`gasMLoad`、`gasMStore8`、`gasMStore`）。 -/
def pureMemoryGascost (mem : Memory) (memorySize : Nat) (cgt : Nat) : GasResult :=
  let (mem, r) := memoryGasCost mem memorySize
  ⟨mem, cgt, r⟩

/-- `gasCreate`：子に渡す gas は、memory の分を引いた残りから `createGasEip150` で決める。 -/
def gasCreate (env : GasEnv) (contractGas : Nat) (mem : Memory) (memorySize : Nat) (cgt : Nat) :
    GasResult :=
  let (mem, r) := memoryGasCost mem memorySize
  match r with
  | .error err => .fail mem cgt err
  | .ok gas =>
    let (remainingGasTemp, overflow) := SafeSub contractGas gas
    if overflow then .fail mem cgt .ErrGasUintOverflow
    else
      match createGasEip150 env.eip150 remainingGasTemp with
      | .error err => .fail mem cgt err
      | .ok cgt => ⟨mem, cgt, checked (SafeAdd gas cgt)⟩

/-- `gasCreate2`：初期化 code の hash の word ごとの gas を足してから、`gasCreate` と同じく
子に渡す gas を決める。 -/
def gasCreate2 (env : GasEnv) (contractGas : Nat) (st : Stack) (mem : Memory) (memorySize : Nat)
    (cgt : Nat) : GasResult :=
  let (mem, r) := memoryGasCost mem memorySize
  match r with
  | .error err => .fail mem cgt err
  | .ok gas =>
    let (wordGas, overflow) := uint64WithOverflow (st.Back 2)
    if overflow then .fail mem cgt .ErrGasUintOverflow
    else
      let (wordGas, overflow) := SafeMul (toWordSize wordGas) Sha3WordGas
      if overflow then .fail mem cgt .ErrGasUintOverflow
      else
        let (gas, overflow) := SafeAdd gas wordGas
        if overflow then .fail mem cgt .ErrGasUintOverflow
        else
          let (remainingGasTemp, overflow) := SafeSub contractGas gas
          if overflow then .fail mem cgt .ErrGasUintOverflow
          else
            match createGasEip150 env.eip150 remainingGasTemp with
            | .error err => .fail mem cgt err
            | .ok cgt => ⟨mem, cgt, checked (SafeAdd gas cgt)⟩

/-- 呼び出しの gas 関数の後半：`base` を課した上で子に渡す gas を決め、それを足す。 -/
def callTail (env : GasEnv) (contractGas : Nat) (st : Stack) (mem : Memory) (gas : Nat) :
    GasResult :=
  -- callGas が誤りを返すと、CallGasTemp には 0 が入る
  match callGas env.eip150 contractGas gas (st.Back 0) with
  | .error err => .fail mem 0 err
  | .ok cgt => ⟨mem, cgt, checked (SafeAdd gas cgt)⟩

/-- `gasCall`：新しい口座と価値の移転の gas を memory の gas より先に数える。 -/
def gasCall (env : GasEnv) (contractGas : Nat) (st : Stack) (mem : Memory) (memorySize : Nat)
    (cgt : Nat) : GasResult :=
  let transfersValue := st.Back 2 ≠ 0
  let address := toAddress (st.Back 1)
  let gas :=
    if env.eip161abc then
      if transfersValue ∧ env.empty address then CallNewAccountGas else 0
    else if !env.exist address then CallNewAccountGas else 0
  let gas := if transfersValue then gas + CallValueTransferGas else gas
  let (mem, r) := memoryGasCost mem memorySize
  match r with
  | .error err => .fail mem cgt err
  | .ok memoryGas =>
    match checked (SafeAdd gas memoryGas) with
    | .error err => .fail mem cgt err
    | .ok gas => callTail env contractGas st mem gas

/-- `gasCallCode`：memory の gas を先に求めてから、価値の移転の gas を足す。 -/
def gasCallCode (env : GasEnv) (contractGas : Nat) (st : Stack) (mem : Memory) (memorySize : Nat)
    (cgt : Nat) : GasResult :=
  let (mem, r) := memoryGasCost mem memorySize
  match r with
  | .error err => .fail mem cgt err
  | .ok memoryGas =>
    let gas := if st.Back 2 ≠ 0 then CallValueTransferGas else 0
    match checked (SafeAdd gas memoryGas) with
    | .error err => .fail mem cgt err
    | .ok gas => callTail env contractGas st mem gas

/-- `gasDelegateCall` と `gasStaticCall`：memory の gas だけを課して、子に渡す gas を決める。 -/
def gasDelegateCall (env : GasEnv) (contractGas : Nat) (st : Stack) (mem : Memory)
    (memorySize : Nat) (cgt : Nat) : GasResult :=
  let (mem, r) := memoryGasCost mem memorySize
  match r with
  | .error err => .fail mem cgt err
  | .ok gas => callTail env contractGas st mem gas

/-- `gasStaticCall`。 -/
def gasStaticCall (env : GasEnv) (contractGas : Nat) (st : Stack) (mem : Memory)
    (memorySize : Nat) (cgt : Nat) : GasResult :=
  gasDelegateCall env contractGas st mem memorySize cgt

/-- `gasExpFrontier` と `gasExpEIP158`：指数の byte 数に比例する gas。 -/
def gasExp (expByte : Nat) (st : Stack) : Except VmError Nat :=
  let expByteLen := (bitLen (st.Back 1) + 7) / 8
  checked (SafeAdd (expByteLen * expByte) ExpGas)

/-- `gasFunc` の中身。`cgt` は呼ぶ前の `evm.CallGasTemp`。 -/
def dynamicGasOf (env : GasEnv) (contractGas : Nat) (st : Stack) (mem : Memory)
    (memorySize : Nat) (cgt : Nat) : GasFunc → GasResult
  | .gasExpFrontier => ⟨mem, cgt, gasExp ExpByteFrontier st⟩
  | .gasExpEIP158 => ⟨mem, cgt, gasExp ExpByteEIP158 st⟩
  | .gasSha3 => gasSha3 st mem memorySize cgt
  | .gasCallDataCopy => memoryCopierGas 2 st mem memorySize cgt
  | .gasCodeCopy => memoryCopierGas 2 st mem memorySize cgt
  | .gasExtCodeCopy => memoryCopierGas 3 st mem memorySize cgt
  | .gasReturnDataCopy => memoryCopierGas 2 st mem memorySize cgt
  | .gasMLoad => pureMemoryGascost mem memorySize cgt
  | .gasMStore => pureMemoryGascost mem memorySize cgt
  | .gasMStore8 => pureMemoryGascost mem memorySize cgt
  | .gasSStore => ⟨mem, cgt, env.stateGas .gasSStore st contractGas⟩
  | .gasSStoreEIP2200 => ⟨mem, cgt, env.stateGas .gasSStoreEIP2200 st contractGas⟩
  | .makeGasLog n => makeGasLog n st mem memorySize cgt
  | .gasCreate => gasCreate env contractGas mem memorySize cgt
  | .gasCreate2 => gasCreate2 env contractGas st mem memorySize cgt
  | .gasCall => gasCall env contractGas st mem memorySize cgt
  | .gasCallCode => gasCallCode env contractGas st mem memorySize cgt
  | .gasDelegateCall => gasDelegateCall env contractGas st mem memorySize cgt
  | .gasStaticCall => gasStaticCall env contractGas st mem memorySize cgt
  | .gasReturn => pureMemoryGascost mem memorySize cgt
  | .gasRevert => pureMemoryGascost mem memorySize cgt
  | .gasSelfdestruct => ⟨mem, cgt, env.stateGas .gasSelfdestruct st contractGas⟩

end Vm
