import Bullions.Lib.Bytes
import Mathlib

/-!
# EIP-155 の署名（`core/types/transaction_signing.go`、`core/types/transaction.go`）

EIP-155 の signer は chain ID を署名の `V` に畳み込む：`V = sig[64] + 35 + 2 * chainId`。
`deriveChainId` は `V` から chain ID を読み戻す。`V` が 64 bit に収まれば `uint64` で、
そうでなければ `big.Int` で計算する。`Sender` は chain ID を確かめてから `V` を
`sig[64] + 27` に戻し、`recoverPlain` に渡す。

`big.Int` は `Int` で表す。`BitLen()` は絶対値の bit 数、`Uint64()` は絶対値の下位 64 bit、
`Div` は Euclid の割り算で、Lean の `Int` の `/` と同じ。楕円曲線の公開鍵の復元
（`crypto.Ecrecover` と、そこから address を作る部分）と、署名する transaction の hash は
抽象的な関数とする。
-/

namespace Types

/-- 署名の誤り。`ecrecover` は復元そのものの誤り。 -/
inductive SignError where
  | ErrInvalidSig
  | ErrInvalidChainId
  | ecrecover
  deriving DecidableEq, Repr

/-- 署名された transaction の `V`、`R`、`S`。 -/
structure TxSig where
  V : Int
  R : Int
  S : Int
  deriving DecidableEq, Repr

/-- `(*big.Int).BitLen()`。 -/
def bitLen (x : Int) : Nat := x.natAbs.size

/-- `(*big.Int).Uint64()`：絶対値の下位 64 bit。 -/
def bigUint64 (x : Int) : Nat := x.natAbs % 2 ^ 64

/-- `secp256k1N`：曲線の位数。 -/
def secp256k1N : Int := 0xfffffffffffffffffffffffffffffffebaaedce6af48a03bbfd25e8cd0364141

/-- `secp256k1halfN`。 -/
def secp256k1halfN : Int := secp256k1N / 2

/-- `crypto.ValidateSignatureValues(v, r, s, homestead)`。 -/
def ValidateSignatureValues (v : UInt8) (r s : Int) (homestead : Bool) : Bool :=
  if r < 1 ∨ s < 1 then false
  -- homestead では大きい方の `s` を拒む（ECDSA の malleability）
  else if homestead ∧ s > secp256k1halfN then false
  else decide (r < secp256k1N ∧ s < secp256k1N ∧ (v = 0 ∨ v = 1))

/-- `recoverPlain(sighash, R, S, Vb, homestead)`。`ecrecover` は `crypto.Ecrecover` で公開鍵を
復元して address を作る部分。 -/
def recoverPlain {H A : Type} (ecrecover : H → Int → Int → UInt8 → Except SignError A)
    (sighash : H) (R S Vb : Int) (homestead : Bool) : Except SignError A :=
  if bitLen Vb > 8 then .error .ErrInvalidSig
  else
    -- `byte(Vb.Uint64() - 27)`：`uint64` の引き算を byte に切る
    let V : UInt8 := ((bigUint64 Vb + 2 ^ 64 - 27) % 2 ^ 64).toUInt8
    if !ValidateSignatureValues V R S homestead then .error .ErrInvalidSig
    else ecrecover sighash R S V

/-- `deriveChainId(v)`。 -/
def deriveChainId (v : Int) : Int :=
  if bitLen v ≤ 64 then
    let v := bigUint64 v
    if v = 27 ∨ v = 28 then 0
    -- `(v - 35) / 2` は `uint64` の計算
    else (((v + 2 ^ 64 - 35) % 2 ^ 64 / 2 : Nat) : Int)
  else (v - 35) / 2

/-- `isProtectedV(V)`：27 と 28 のほかは保護されている。 -/
def isProtectedV (V : Int) : Bool :=
  if bitLen V ≤ 8 then
    let v := bigUint64 V
    v ≠ 27 ∧ v ≠ 28
  else true

/-- `EIP155Signer`。 -/
structure EIP155Signer where
  chainId : Int
  chainIdMul : Int
  deriving DecidableEq, Repr

/-- `NewEIP155Signer(chainId)`：nil は 0。 -/
def NewEIP155Signer (chainId : Option Int) : EIP155Signer :=
  let chainId := chainId.getD 0
  ⟨chainId, chainId * 2⟩

/-- `FrontierSigner.SignatureValues(tx, sig)`：65 byte でなければ panic する。 -/
def FrontierSignatureValues (sig : List UInt8) : Option TxSig :=
  if sig.length ≠ 65 then none
  else
    let r := Bytes.beValue (sig.take 32)
    let s := Bytes.beValue ((sig.drop 32).take 32)
    let v := Bytes.beValue [sig.getD 64 0 + 27]
    some ⟨v, r, s⟩

/-- `EIP155Signer.SignatureValues(tx, sig)`：chain ID が 0 でなければ `V` に畳み込む。
`sig[64] + 35` は byte の足し算。 -/
def EIP155Signer.SignatureValues (s : EIP155Signer) (sig : List UInt8) : Option TxSig := do
  let sv ← FrontierSignatureValues sig
  if s.chainId ≠ 0 then
    pure { sv with V := ((sig.getD 64 0 + 35).toNat : Int) + s.chainIdMul }
  else pure sv

/-- `EIP155Signer.Sender(tx)`。保護されていなければ `HomesteadSigner` に任せる。`hash c` は
chain ID `c` の下で署名する hash、`homesteadHash` は `HomesteadSigner` の hash。 -/
def EIP155Signer.Sender {H A : Type} (s : EIP155Signer)
    (ecrecover : H → Int → Int → UInt8 → Except SignError A) (hash : Int → H)
    (homesteadHash : H) (tx : TxSig) : Except SignError A :=
  if !isProtectedV tx.V then recoverPlain ecrecover homesteadHash tx.R tx.S tx.V true
  else if deriveChainId tx.V ≠ s.chainId then .error .ErrInvalidChainId
  else
    let V := tx.V - s.chainIdMul - 8
    recoverPlain ecrecover (hash s.chainId) tx.R tx.S V true

end Types
