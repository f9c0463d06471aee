import Bullions.Vm.Interpreter

/-!
# 呼び出しと作成（`core/vm/evm.go`）と CALL 系の命令（`core/vm/instructions.go`）

`EVM.Call` などは、深さと残高を確かめてから precompile か子の code を走らせ、誤りなら
巻き戻し（`ErrExecutionReverted`）の他は残りの gas をすべて使う。子の code の実行
（`run(evm, contract, input, readOnly)`、つまり子の `EVMInterpreter.Run`）の結果は引数
`child`（返す byte 列、誤り、終わったときの `contract.Gas`）で受ける。StateDB などから読む値は
`CallQuery` と `CreateQuery` にまとめる。

CALL 系の命令は `evm.CallGasTemp`（CALL と CALLCODE は、価値を送るなら stipend を足す）を子に
渡し、子の返した gas を `contract.Gas` に足し戻す。子を呼ぶ部分は引数 `call` で受ける。

tracer、snapshot と巻き戻し、価値の移転は gas に関わらないので持たない。
-/

namespace Vm

/-- `params.CallCreateDepth`。 -/
def CallCreateDepth : Nat := 1024

/-- `params.CreateDataGas`：置く code の byte ごとの gas。 -/
def CreateDataGas : Nat := 200

/-- `params.MaxCodeSize`（EIP-170）。 -/
def MaxCodeSize : Nat := 24576

/-- 呼び出しと作成の結果：返す byte 列、作った address（呼び出しでは 0）、残りの gas、誤り。 -/
structure CallResult where
  ret : Bytes
  addr : Nat
  leftOverGas : Nat
  err : Option VmError

/-! ## 呼び出し -/

/-- 呼び出し一つで StateDB と設定から読む値。 -/
structure CallQuery where
  /-- `vmConfig.NoRecursion`。 -/
  noRecursion : Bool
  /-- `CanTransfer(StateDB, caller.Address(), value)`。 -/
  canTransfer : Bool
  /-- `StateDB.Exist(addr)`。 -/
  exist : Bool
  /-- `IsEnabled(GetEIP161abcTransition, BlockNumber)`。 -/
  eip161abc : Bool
  /-- `precompile(addr)`：precompile なら `RequiredGas(input)` と `Run(input)` の結果。 -/
  precompile : Option (Nat × Bytes × Option VmError)
  /-- `len(StateDB.GetCode(addr)) == 0`。 -/
  codeEmpty : Bool

/-- `RunPrecompiledContract`：要る gas を払えなければ `ErrOutOfGas`。 -/
def RunPrecompiledContract (requiredGas : Nat) (output : Bytes) (runErr : Option VmError)
    (suppliedGas : Nat) : Bytes × Nat × Option VmError :=
  if suppliedGas < requiredGas then ([], 0, some .ErrOutOfGas)
  else (output, suppliedGas - requiredGas, runErr)

/-- 呼び出しの後始末：誤りなら、巻き戻しの他は残りの gas を 0 にする。 -/
def consumeOnError (ret : Bytes) (gas : Nat) (err : Option VmError) : CallResult :=
  match err with
  | none => ⟨ret, 0, gas, none⟩
  | some e => ⟨ret, 0, if e = .ErrExecutionReverted then gas else 0, some e⟩

/-- precompile か子の code を走らせる。 -/
def runCallee (q : CallQuery) (gas : Nat) (child : Bytes × Option VmError × Nat) :
    Bytes × Nat × Option VmError :=
  match q.precompile with
  | some (requiredGas, output, runErr) => RunPrecompiledContract requiredGas output runErr gas
  | none => (child.1, child.2.2, child.2.1)

/-- `EVM.Call`。 -/
def Call (q : CallQuery) (depth gas : Nat) (value : Word) (child : Bytes × Option VmError × Nat) :
    CallResult :=
  if q.noRecursion && decide (depth > 0) then ⟨[], 0, gas, none⟩
  else if depth > CallCreateDepth then ⟨[], 0, gas, some .ErrDepth⟩
  else if value ≠ 0 && !q.canTransfer then ⟨[], 0, gas, some .ErrInsufficientBalance⟩
  -- EIP-161 の後は、価値を送らない存在しない口座への呼び出しは何もしない
  else if !q.exist && q.precompile.isNone && q.eip161abc && value == 0 then ⟨[], 0, gas, none⟩
  else
    let (ret, gas, err) :=
      -- code のない口座は走らせない（gas はそのまま）
      if q.precompile.isNone && q.codeEmpty then ([], gas, none) else runCallee q gas child
    consumeOnError ret gas err

/-- `CallCode`、`DelegateCall`、`StaticCall` の形：深さを確かめ、`canTransfer` でなければ
`ErrInsufficientBalance`、それから precompile か子の code を走らせる。 -/
def callInto (q : CallQuery) (depth gas : Nat) (canTransfer : Bool)
    (child : Bytes × Option VmError × Nat) : CallResult :=
  if q.noRecursion && decide (depth > 0) then ⟨[], 0, gas, none⟩
  else if depth > CallCreateDepth then ⟨[], 0, gas, some .ErrDepth⟩
  else if !canTransfer then ⟨[], 0, gas, some .ErrInsufficientBalance⟩
  else
    let (ret, gas, err) := runCallee q gas child
    consumeOnError ret gas err

/-- `EVM.CallCode`：価値が 0 でも残高を確かめる。 -/
def CallCode (q : CallQuery) (depth gas : Nat) (child : Bytes × Option VmError × Nat) :
    CallResult :=
  callInto q depth gas q.canTransfer child

/-- `EVM.DelegateCall`：価値を送らないので残高は確かめない。 -/
def DelegateCall (q : CallQuery) (depth gas : Nat) (child : Bytes × Option VmError × Nat) :
    CallResult :=
  callInto q depth gas true child

/-- `EVM.StaticCall`（子は読み出し専用で走る）。 -/
def StaticCall (q : CallQuery) (depth gas : Nat) (child : Bytes × Option VmError × Nat) :
    CallResult :=
  callInto q depth gas true child

/-! ## 作成 -/

/-- 作成一つで StateDB と設定から読む値。 -/
structure CreateQuery where
  /-- `vmConfig.NoRecursion`。 -/
  noRecursion : Bool
  /-- `CanTransfer(StateDB, caller.Address(), value)`。 -/
  canTransfer : Bool
  /-- 作る address に nonce か code がすでにある。 -/
  collision : Bool
  /-- 作る address（`CreateAddress` または `CreateAddress2`）。 -/
  address : Nat
  /-- `IsEnabled(GetEIP2Transition, BlockNumber)`：code を置く gas の不足も誤りにする。 -/
  eip2 : Bool
  /-- `IsEnabled(GetEIP170Transition, BlockNumber)`：code の大きさの上限。 -/
  eip170 : Bool

/-- `EVM.create`（`Create` と `Create2` はここへ来る）。 -/
def create (q : CreateQuery) (depth gas : Nat) (child : Bytes × Option VmError × Nat) :
    CallResult :=
  if depth > CallCreateDepth then ⟨[], 0, gas, some .ErrDepth⟩
  else if !q.canTransfer then ⟨[], 0, gas, some .ErrInsufficientBalance⟩
  else if q.collision then ⟨[], 0, 0, some .ErrContractAddressCollision⟩
  else if q.noRecursion && decide (depth > 0) then ⟨[], q.address, gas, none⟩
  else
    let (ret, err, contractGas) := child
    let maxCodeSizeExceeded := q.eip170 && decide (ret.length > MaxCodeSize)
    -- 成功したなら code を置く gas を払う
    let (err, contractGas) :=
      if err = none && !maxCodeSizeExceeded then
        let createDataGas := ret.length * CreateDataGas
        if contractGas < createDataGas then (some .ErrCodeStoreOutOfGas, contractGas)
        else (none, contractGas - createDataGas)
      else (err, contractGas)
    -- Frontier では code を置く gas の不足は巻き戻さず、gas も使わない
    let contractGas :=
      if maxCodeSizeExceeded || (err.isSome && (q.eip2 || err != some .ErrCodeStoreOutOfGas)) then
        if err != some .ErrExecutionReverted then 0 else contractGas
      else contractGas
    let err := if maxCodeSizeExceeded && err = none then some .ErrMaxCodeSizeExceeded else err
    ⟨ret, q.address, contractGas, err⟩

/-! ## CALL 系の命令 -/

/-- `Memory.Set(offset, size, value)`：`value` の先頭を `offset` から書く（`copy` は短い方に
合わせる）。store が足りなければ Go は panic するが、`Run` は先に広げておく。ここではその場合
は何も書かない。 -/
def Memory.Set (m : Memory) (offset size : Nat) (value : Bytes) : Memory :=
  if size = 0 ∨ m.Len < offset + size then m
  else
    let n := min size value.length
    { m with store := m.store.take offset ++ value.take n ++ m.store.drop (offset + n) }

/-- CALL 系の命令の後半：`nArgs` 個を pop し、成功なら 1 を push し、出力を `Back(retPos)` から
の範囲に書き、子の返した gas を足し戻す。 -/
def callReturn (nArgs retPos : Nat) (f : Frame) (res : CallResult) :
    Bytes × Option VmError × Frame :=
  let retOffset := f.stack.Back retPos
  let retSize := f.stack.Back (retPos + 1)
  let temp : Word := if res.err = none then 1 else 0
  let mem :=
    if res.err = none ∨ res.err = some .ErrExecutionReverted then
      f.mem.Set (retOffset % 2 ^ 64) (retSize % 2 ^ 64) res.ret
    else f.mem
  let stack : Stack := ⟨temp :: f.stack.data.drop nArgs⟩
  (res.ret, none, { f with stack := stack, mem := mem, gas := f.gas + res.leftOverGas })

/-- CALL と CALLCODE が子に渡す gas：価値を送るなら stipend を足す。 -/
def valueCallGas (f : Frame) : Nat :=
  if f.stack.Back 2 ≠ 0 then f.callGasTemp + CallStipend else f.callGasTemp

/-- `opCall`：上から gas、address、value、入力の offset と長さ、出力の offset と長さ。
`call gas value` は `evm.Call`。 -/
def opCall (call : Nat → Word → CallResult) (f : Frame) : Bytes × Option VmError × Frame :=
  callReturn 7 5 f (call (valueCallGas f) (f.stack.Back 2))

/-- `opCallCode`：引数は `opCall` と同じ。 -/
def opCallCode (call : Nat → Word → CallResult) (f : Frame) : Bytes × Option VmError × Frame :=
  callReturn 7 5 f (call (valueCallGas f) (f.stack.Back 2))

/-- `opDelegateCall`：上から gas、address、入力の offset と長さ、出力の offset と長さ。 -/
def opDelegateCall (call : Nat → CallResult) (f : Frame) : Bytes × Option VmError × Frame :=
  callReturn 6 4 f (call f.callGasTemp)

/-- `opStaticCall`：引数は `opDelegateCall` と同じ。 -/
def opStaticCall (call : Nat → CallResult) (f : Frame) : Bytes × Option VmError × Frame :=
  callReturn 6 4 f (call f.callGasTemp)

/-- CREATE 系の命令の後半：`nArgs` 個を pop して address か 0 を push し、子の返した gas を足し
戻す。巻き戻しなら子の返した byte 列を返す。 -/
def createReturn (nArgs : Nat) (pushAddr : Bool) (f : Frame) (res : CallResult) :
    Bytes × Option VmError × Frame :=
  let stackvalue : Word := if pushAddr then res.addr else 0
  let stack : Stack := ⟨stackvalue :: f.stack.data.drop nArgs⟩
  (if res.err = some .ErrExecutionReverted then res.ret else [], none,
    { f with stack := stack, gas := f.gas + res.leftOverGas })

/-- `opCreate`：上から value、offset、size。Frontier（EIP-2 の前）では code を置く gas の不足を
成功とみなして address を push する。 -/
def opCreate (eip2 : Bool) (create : Nat → CallResult) (f : Frame) :
    Bytes × Option VmError × Frame :=
  let res := create f.callGasTemp
  createReturn 3 (res.err = none || (!eip2 && res.err == some .ErrCodeStoreOutOfGas)) f res

/-- `opCreate2`：上から endowment、offset、size、salt。誤りならいつも 0 を push する。 -/
def opCreate2 (create : Nat → CallResult) (f : Frame) : Bytes × Option VmError × Frame :=
  let res := create f.callGasTemp
  createReturn 4 (res.err = none) f res

end Vm
