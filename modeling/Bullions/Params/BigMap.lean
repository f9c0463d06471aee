import Bullions.Lib.GoMap

/-!
# 遅れの表（`params/types/ctypes/types.go`）

`Uint64BigMapEncodesHex` は block の高さから `*big.Int` への map で、difficulty bomb の遅れを
高さごとの差分で持つ。`SumValues(n)` は高さ `n` までの差分の和、すなわち `n` での遅れの総額
を `uint64` で返す（`big.Int.Uint64()` は絶対値の下位 64 bit）。

`SetValueTotalForHeight(n, val)` は、今ある高さごとの総額を `SumValues` で求め直し、高さ `n`
の総額を `val` にして（既にあれば大きい方を残す）、高さの昇順に差分を書き戻す。
`MapMeetsSpecification` は逆引きで、昇順に差分を足して初めて総額が `difficultySum` になる
高さを返す。

`*big.Int` の値は `Int` で表す。map の値が nil になることは無いので、nil の値で panic する
道は無い。`difficultySum` を渡す呼び手はどれも nil でない定数を渡すので `Int` とし、
`rewards` と `wantedReward` の nil は `Option` で表す。
-/

namespace Ctypes

/-- `Uint64BigMapEncodesHex`：block の高さから `*big.Int` への map。 -/
abbrev Uint64BigMapEncodesHex := GoMap Nat Int

/-- `(*big.Int).Uint64()`：絶対値の下位 64 bit。 -/
def bigUint64 (x : Int) : Nat := x.natAbs % 2 ^ 64

/-- `SumValues` の loop：昇順の高さを、`n` を超えたところで止めて差分を足す。 -/
def sumValuesLoop (b : Uint64BigMapEncodesHex) (n : Nat) : List Nat → Int → Int
  | [], sumB => sumB
  | s :: sl, sumB =>
    -- 昇順なので、`n` を超えた後の高さはどれも `n` を超える
    if s > n then sumB else sumValuesLoop b n sl (sumB + (b.lookup s).getD 0)

/-- `SumValues(n)`。 -/
def SumValues (b : Uint64BigMapEncodesHex) (n : Nat) : Nat :=
  bigUint64 (sumValuesLoop b n (GoMap.sortedKeys b) 0)

/-- 差分を書き戻す loop：`d := sums[s] - sumR; b[s] = d; sumR += d`。 -/
def writeDeltas (sums : GoMap Nat Int) :
    List Nat → Uint64BigMapEncodesHex → Int → Uint64BigMapEncodesHex
  | [], b, _ => b
  | s :: sl, b, sumR =>
    let d := (sums.lookup s).getD 0 - sumR
    writeDeltas sums sl (b.insert s d) (sumR + d)

/-- `SetValueTotalForHeight(n, val)`。Go では `b` をその場で書き換える。 -/
def SetValueTotalForHeight (b : Uint64BigMapEncodesHex) (n : Option Nat) (val : Option Int) :
    Uint64BigMapEncodesHex :=
  match n, val with
  | some n, some val =>
    -- 今ある高さごとの総額
    let sums : GoMap Nat Int := b.keys.foldl (fun sums k => sums.insert k (SumValues b k : Int)) ∅
    let sums : GoMap Nat Int :=
      match sums.lookup n with
      | some s => if s < val then sums.insert n val else sums
      | none => sums.insert n val
    writeDeltas sums (GoMap.sortedKeys sums) b 0
  | _, _ => b

/-- `MapMeetsSpecification` の difficulty の loop：昇順に差分を足し、総額が `difficultySum` に
なった高さで止まる。 -/
def meetsLoop (difficulties : Uint64BigMapEncodesHex) (difficultySum : Int) :
    List Nat → Int → Option Nat
  | [], _ => none
  | s :: sl, total =>
    let total := total + (difficulties.lookup s).getD 0
    if total = difficultySum then some s else meetsLoop difficulties difficultySum sl total

/-- `MapMeetsSpecification(difficulties, rewards, difficultySum, wantedReward)`。 -/
def MapMeetsSpecification (difficulties : Uint64BigMapEncodesHex)
    (rewards : Option Uint64BigMapEncodesHex) (difficultySum : Int) (wantedReward : Option Int) :
    Option Nat :=
  match meetsLoop difficulties difficultySum (GoMap.sortedKeys difficulties) 0 with
  | none => none
  | some diffN =>
    match wantedReward, rewards with
    | some wantedReward, some rewards =>
      match rewards.lookup diffN with
      | none => none
      | some reward => if reward ≠ wantedReward then none else some diffN
    | _, _ => some diffN

end Ctypes
