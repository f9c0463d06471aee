import Mathlib

/-!
# chain の設定（`params/types/ctypes`、`params/confp/configurator.go`）

`ChainConfigurator` は fork ごとの切り替え block を返す getter の集まりである。core-geth
ではどの EIP の block も別々に設定でき、nil（その EIP を有効にしない）でもよい。ここでは
`instructionSetForConfig` と `IsValid` が読む getter だけを、その戻り値として持つ。

`IsEnabled(fn, n)` は、どの実装（`CoreGethChainConfig`、`goethereum.ChainConfig`、
`multigeth`、`ParityChainSpec`）でも同じ本体である：`fn()` か `n` が nil なら偽、そうで
なければ `big.NewInt(int64(*f)).Cmp(n) <= 0`。block 番号は `int64` を経るので、2^63 以上の
block は負の数になる。
-/

namespace Params

/-- `ChainConfigurator` のうち、ここで読む getter の戻り値。 -/
structure ChainConfigurator where
  /-- `GetNetworkID()`。 -/
  GetNetworkID : Option UInt64
  /-- `GetChainID()`（`*big.Int`）。 -/
  GetChainID : Option Int
  /-- `GetEIP155Transition()`。 -/
  GetEIP155Transition : Option UInt64
  /-- `GetEIP7Transition()`（DELEGATECALL）。 -/
  GetEIP7Transition : Option UInt64
  /-- `GetEIP150Transition()`（IO の重い命令の値上げ）。 -/
  GetEIP150Transition : Option UInt64
  /-- `GetEIP160Transition()`（EXP の値上げ）。 -/
  GetEIP160Transition : Option UInt64
  /-- `GetEIP140Transition()`（REVERT）。 -/
  GetEIP140Transition : Option UInt64
  /-- `GetEIP214Transition()`（STATICCALL）。 -/
  GetEIP214Transition : Option UInt64
  /-- `GetEIP211Transition()`（RETURNDATASIZE / RETURNDATACOPY）。 -/
  GetEIP211Transition : Option UInt64
  /-- `GetEIP145Transition()`（SHL / SHR / SAR）。 -/
  GetEIP145Transition : Option UInt64
  /-- `GetEIP1014Transition()`（CREATE2）。 -/
  GetEIP1014Transition : Option UInt64
  /-- `GetEIP1052Transition()`（EXTCODEHASH）。 -/
  GetEIP1052Transition : Option UInt64
  /-- `GetEIP1344Transition()`（CHAINID）。 -/
  GetEIP1344Transition : Option UInt64
  /-- `GetEIP1884Transition()`（読み出し命令の値上げと SELFBALANCE）。 -/
  GetEIP1884Transition : Option UInt64
  /-- `GetECIP1080Transition()`（SELFBALANCE）。 -/
  GetECIP1080Transition : Option UInt64
  /-- `GetEIP2200Transition()`（SSTORE の net metering）。 -/
  GetEIP2200Transition : Option UInt64
  /-- `GetEIP2200DisableTransition()`。 -/
  GetEIP2200DisableTransition : Option UInt64
  deriving DecidableEq, Repr

namespace ChainConfigurator

/-- `IsEnabled(fn, n)`。受け手の設定は読まない。 -/
def IsEnabled (_config : ChainConfigurator) (fn : Option UInt64) (n : Option Int) : Bool :=
  match fn, n with
  | some f, some n => decide (f.toInt64.toInt ≤ n)
  | _, _ => false

/-- 切り替え block が 0 の EIP は、どの block でも有効である。 -/
@[simp] theorem isEnabled_zero (config : ChainConfigurator) (n : Nat) :
    config.IsEnabled (some 0) (some n) = true := by
  simp [IsEnabled]

/-- nil の EIP は有効にならない。 -/
@[simp] theorem isEnabled_none (config : ChainConfigurator) (n : Option Int) :
    config.IsEnabled none n = false := rfl

/-- `ConfigValidError` の `What`。`A` と `B`（比べた値）は持たない。 -/
structure ConfigValidError where
  /-- 何が正しくないか。 -/
  What : String
  deriving DecidableEq, Repr

/--
`confp.IsValid(conf, head)`。見るのは NetworkID と、EIP-155 が有効なら ChainID があることだけ
で、fork の順序は見ない。
-/
def IsValid (conf : ChainConfigurator) (head : Option UInt64) : Option ConfigValidError :=
  if conf.GetNetworkID = none then some ⟨"NetworkID cannot be nil"⟩
  else
    match head with
    | none => none
    | some head =>
      if conf.IsEnabled conf.GetEIP155Transition (some (head.toNat : Int)) ∧ conf.GetChainID = none
      then some ⟨"EIP155 requires ChainID. A:EIP155/B:ChainID"⟩
      else none

end ChainConfigurator

end Params
