import Mathlib

/-!
# 保存された chain の設定との互換性（`params/confp/configurator.go`）

`compatible(head, a, b)` は `Transitions(a)` の getter を順に見て、`head` までに fork した
切り替え block が `a` と `b` で違う最初のものを `ConfigCompatError` にする。それが無く、
`a` で EIP-155 が有効なら chain ID を比べる。`Compatible` は `head` を `RewindTo` に
置き換えて `compatible` を繰り返し、`RewindTo` が前と同じになるか誤りが無くなれば止まる。

`Transitions(conf)` は、設定の型の `Get…Transition` という method を reflection で集めた
ものである。ここでは設定を、その名前から値への関数と chain ID で表し、method の名前の列
`names` を両方の設定に共通の引数とする（`a` と `b` が同じ型のとき）。

`(*big.Int).Cmp` は nil の chain ID で panic する。Go の `Compatible` は止まらないことが
あるので、loop は回数 `fuel` を持ち、尽きれば `none` を返す。
-/

namespace Params

/-- `Compatible` が読む設定。 -/
structure CompatConfigurator where
  /-- `Get…Transition()` の値を method の名前から引く。 -/
  transition : String → Option UInt64
  /-- `GetChainID()`。 -/
  GetChainID : Option Int

/-- `ConfigCompatError`。 -/
structure ConfigCompatError where
  What : String
  StoredConfig : Option UInt64
  NewConfig : Option UInt64
  RewindTo : UInt64
  deriving DecidableEq, Repr

namespace CompatConfigurator

/-- `GetEIP155Transition()`。 -/
def GetEIP155Transition (c : CompatConfigurator) : Option UInt64 :=
  c.transition "GetEIP155Transition"

/-- `IsEnabled(fn, n)`：block 番号は `int64` を経る（`ChainConfigurator.IsEnabled` と同じ本体）。 -/
def IsEnabled (_c : CompatConfigurator) (fn : Option UInt64) (n : Option Int) : Bool :=
  match fn, n with
  | some f, some n => decide (f.toInt64.toInt ≤ n)
  | _, _ => false

end CompatConfigurator

/-- `compatibleProtocolNameSchemes`：有っても無くても互換な method の名前に含まれる文字列。 -/
def compatibleProtocolNameSchemes : List String := ["ECBP", "EBP"]

/-- `nameSignalsCompatibility`：名前がどれかの文字列を含む。 -/
def nameSignalsCompatibility (name : String) : Bool :=
  compatibleProtocolNameSchemes.any fun s => decide (s.toList <:+: name.toList)

/-- `NewCompatError`：二つの block のうち nil でない小さい方の一つ前まで巻き戻す。 -/
def NewCompatError (what : String) (storedblock newblock : Option UInt64) : ConfigCompatError :=
  let rew := match storedblock, newblock with
    | none, _ => newblock
    | some s, none => some s
    | some s, some n => if s < n then some s else some n
  ⟨what, storedblock, newblock, match rew with
    | some r => if r > 0 then r - 1 else 0
    | none => 0⟩

/-- `isForked`。 -/
def isForked (x head : Option UInt64) : Bool :=
  match x, head with
  | some x, some head => decide (x ≤ head)
  | _, _ => false

/-- `u2Equal`。 -/
def u2Equal (x y : Option UInt64) : Bool := decide (x = y)

/-- `isForkIncompatible`。 -/
def isForkIncompatible (a b head : Option UInt64) : Bool :=
  (isForked a head || isForked b head) && !u2Equal a b

/-- `compatible` の transition の loop：最初に互換でない transition の誤り。 -/
def firstIncompatible (head : Option UInt64) (a b : CompatConfigurator) :
    List String → Option ConfigCompatError
  | [] => none
  | name :: rest =>
    -- 互換を名乗る名前は fork として扱わない
    if nameSignalsCompatibility name then firstIncompatible head a b rest
    else if isForkIncompatible (a.transition name) (b.transition name) head then
      some (NewCompatError ("incompatible fork value: " ++ name) (a.transition name)
        (b.transition name))
    else firstIncompatible head a b rest

/-- `compatible(head, a, b)`。`.error` は panic。 -/
def compatible (names : List String) (head : Option UInt64) (a b : CompatConfigurator) :
    Except String (Option ConfigCompatError) :=
  match firstIncompatible head a b names with
  | some err => .ok (some err)
  | none =>
    match head with
    | none => .ok none
    | some h =>
      if a.IsEnabled a.GetEIP155Transition (some (h.toNat : Int)) then
        match a.GetChainID, b.GetChainID with
        | some x, some y =>
          if x ≠ y then
            .ok (some (NewCompatError "mismatching chain ids after EIP155 transition"
              a.GetEIP155Transition b.GetEIP155Transition))
          else .ok none
        | _, _ => .error "invalid memory address or nil pointer dereference"
      else .ok none

/-- `Compatible` の loop。`none` は回数が尽きたこと。 -/
def CompatibleLoop (names : List String) (a b : CompatConfigurator) :
    Nat → Option UInt64 → Option ConfigCompatError →
      Option (Except String (Option ConfigCompatError))
  | 0, _, _ => none
  | fuel + 1, head, lastErr =>
    match compatible names head a b with
    | .error e => some (.error e)
    | .ok none => some (.ok lastErr)
    | .ok (some err) =>
      if lastErr.any (·.RewindTo = err.RewindTo) then some (.ok lastErr)
      else CompatibleLoop names a b fuel (some err.RewindTo) (some err)

/-- `Compatible(head, a, b)`：最も低い衝突を探す。 -/
def Compatible (names : List String) (fuel : Nat) (head : Option UInt64)
    (a b : CompatConfigurator) : Option (Except String (Option ConfigCompatError)) :=
  CompatibleLoop names a b fuel head none

end Params
