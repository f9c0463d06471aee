import Mathlib

/-!
# ECIP-1017 の block 報酬（`consensus/ethash/consensus_classic.go`、`consensus/ethash/consensus.go`）

ECIP-1017 は block を長さ `eraLength` の era に分け、era ごとに報酬を 4/5 倍に減らす。
`GetBlockEra` は era の番号を `(n - ((n - 1) mod L)) div L` として間接に求める。

Go の `big.Int` の `Div` と `Mod` は Euclid の割り算で、Lean の `Int` の `/` と `%` と同じ。
`Exp(x, y, nil)` は `y ≤ 0` で 1 を返すので、指数は `Int.toNat` で表す。
block header は番号だけを読む。
-/

namespace Ethash

/-- `vars.FrontierBlockReward`：5 ether。 -/
def FrontierBlockReward : Int := 5 * 10 ^ 18

/-- `params.DisinflationRateQuotient`。 -/
def DisinflationRateQuotient : Int := 4

/-- `params.DisinflationRateDivisor`。 -/
def DisinflationRateDivisor : Int := 5

/-- `GetBlockEra`：0 から数えた era の番号。 -/
def GetBlockEra (blockNum eraLength : Int) : Int :=
  -- genesis と負の番号は 0
  if blockNum.sign < 1 then 0
  else
    let remainder := (blockNum - 1) % eraLength
    let base := blockNum - remainder
    let d := base / eraLength
    let dremainder := d % 1
    d - dremainder

/-- `GetBlockWinnerRewardByEra`：`blockReward * 4^era / 5^era`。 -/
def GetBlockWinnerRewardByEra (era blockReward : Int) : Int :=
  if era = 0 then blockReward
  else
    let q := DisinflationRateQuotient ^ era.toNat
    let d := DisinflationRateDivisor ^ era.toNat
    blockReward * q / d

/-- `getEraUncleBlockReward`：era 1 から、uncle の報酬は勝者の報酬の 1/32。 -/
def getEraUncleBlockReward (era blockReward : Int) : Int :=
  GetBlockWinnerRewardByEra era blockReward / 32

/-- `GetBlockUncleRewardByEra`：uncle の miner の報酬。era 0 では uncle の深さで決まる。 -/
def GetBlockUncleRewardByEra (era headerNumber uncleNumber blockReward : Int) : Int :=
  if era = 0 then (uncleNumber + 8 - headerNumber) * blockReward / 8
  else getEraUncleBlockReward era blockReward

/-- `GetBlockWinnerRewardForUnclesByEra`：uncle を含めた勝者への上乗せ。 -/
def GetBlockWinnerRewardForUnclesByEra (era : Int) (uncles : List Int) (blockReward : Int) : Int :=
  uncles.foldl (fun r _ => r + getEraUncleBlockReward era blockReward) 0

/-- `ecip1017BlockReward`：勝者の報酬と、uncle ごとの報酬。`uncles` は uncle の番号。 -/
def ecip1017BlockReward (eraLen : Nat) (headerNumber : Int) (uncles : List Int) :
    Int × List Int :=
  let blockReward := FrontierBlockReward
  let era := GetBlockEra headerNumber eraLen
  let wr := GetBlockWinnerRewardByEra era blockReward
  let wurs := GetBlockWinnerRewardForUnclesByEra era uncles blockReward
  (wr + wurs, uncles.map fun u => GetBlockUncleRewardByEra era headerNumber u blockReward)

end Ethash
