import Bullions.Types.Signing

/-!
# EIP-155 の `V` は chain ID を読み戻せる

chain ID `c ≥ 1` と復元の bit `r ∈ {0, 1}` から、`SignatureValues` は `V = r + 35 + 2c` を作る。
この `V` は 35 以上なので、`deriveChainId` は `uint64` の道でも `big.Int` の道でも `(V - 35) / 2`
を返し（`deriveChainId_of_ge`）、それは `c` である。`V` は 27 でも 28 でもないので保護されて
いる。したがって `Sender` は、同じ chain ID の signer では `V - 2c - 8 = r + 27` を
`recoverPlain` に渡し、ほかの chain ID の signer では `ErrInvalidChainId` を返す
（`EIP155Signer_roundtrip`）。
-/

namespace Types

theorem bitLen_le_iff (x : Int) (k : Nat) : bitLen x ≤ k ↔ x.natAbs < 2 ^ k := Nat.size_le

/-- 35 以上の `V` では、`uint64` の道と `big.Int` の道は同じ `(V - 35) / 2` を返す。 -/
theorem deriveChainId_of_ge {v : Int} (hv : 35 ≤ v) : deriveChainId v = (v - 35) / 2 := by
  unfold deriveChainId
  split
  · rename_i hlen
    -- `uint64` の道：`v` は 64 bit に収まり、27 でも 28 でもない
    have hlt := (bitLen_le_iff v 64).mp hlen
    have hu : bigUint64 v = v.natAbs := Nat.mod_eq_of_lt hlt
    dsimp only
    rw [hu, if_neg (by omega)]
    have hsub : (v.natAbs + 2 ^ 64 - 35) % 2 ^ 64 = v.natAbs - 35 := by omega
    rw [hsub]
    omega
  · rfl

/-- 27 と 28 より大きい `V` は保護されている。 -/
theorem isProtectedV_of_gt {V : Int} (hV : 28 < V) : isProtectedV V = true := by
  unfold isProtectedV
  split
  · rename_i hlen
    have hlt := (bitLen_le_iff V 8).mp hlen
    have hu : bigUint64 V = V.natAbs := Nat.mod_eq_of_lt (by omega)
    simp only [hu, decide_eq_true_eq]
    omega
  · rfl

/-- chain ID が 0 でない signer の `V` は `sig[64] + 35 + 2 * chainId`。 -/
theorem SignatureValues_eq {c : Int} (hc : c ≠ 0) {sig : List UInt8} (hsig : sig.length = 65)
    (hr : sig.getD 64 0 ≤ 1) :
    (NewEIP155Signer (some c)).SignatureValues sig =
      some ⟨(sig.getD 64 0).toNat + 35 + 2 * c, Bytes.beValue (sig.take 32),
        Bytes.beValue ((sig.drop 32).take 32)⟩ := by
  -- `r + 35` は byte で回り込まない
  have hbyte : (sig.getD 64 0 + 35).toNat = (sig.getD 64 0).toNat + 35 := by
    have := UInt8.le_iff_toNat_le.mp hr
    rw [UInt8.toNat_add]
    simp only [UInt8.reduceToNat] at this ⊢
    omega
  simp only [EIP155Signer.SignatureValues, FrontierSignatureValues, NewEIP155Signer,
    Option.getD_some, hsig, ne_eq, not_true_eq_false, if_false, hc, not_false_eq_true, if_true,
    hbyte, Option.pure_def, Option.bind_eq_bind, Option.bind_some, Option.some.injEq,
    TxSig.mk.injEq, and_true]
  push_cast
  ring

section sender

variable {H A : Type} (ecrecover : H → Int → Int → UInt8 → Except SignError A) (hash : Int → H)
  (homesteadHash : H)

/-- 保護された `V` の chain ID が signer と違えば、`Sender` は `ErrInvalidChainId` を返す。 -/
theorem Sender_of_chainId_ne {s : EIP155Signer} {tx : TxSig} (hp : isProtectedV tx.V = true)
    (hc : deriveChainId tx.V ≠ s.chainId) :
    s.Sender ecrecover hash homesteadHash tx = .error .ErrInvalidChainId := by
  simp only [EIP155Signer.Sender, hp, Bool.not_true, Bool.false_eq_true, if_false, hc,
    if_true, ne_eq, not_false_eq_true]

/-- 保護された `V` の chain ID が signer と同じなら、`Sender` は `V - 2c - 8` を
`recoverPlain` に渡す。 -/
theorem Sender_of_chainId_eq {s : EIP155Signer} {tx : TxSig} (hp : isProtectedV tx.V = true)
    (hc : deriveChainId tx.V = s.chainId) :
    s.Sender ecrecover hash homesteadHash tx =
      recoverPlain ecrecover (hash s.chainId) tx.R tx.S (tx.V - s.chainIdMul - 8) true := by
  simp only [EIP155Signer.Sender, hp, Bool.not_true, Bool.false_eq_true, if_false, hc, ne_eq,
    not_true_eq_false]

/-- EIP-155 の往復：`SignatureValues` が作る `V` は `r + 35 + 2c` で、chain ID `c` を読み戻し、
保護されている。同じ chain ID の signer の `Sender` は `r + 27` を `recoverPlain` に渡し、
違う chain ID の signer は `ErrInvalidChainId` を返す。35 以上のどの `V` でも、
`deriveChainId` の二つの道は同じ値を返す。 -/
theorem EIP155Signer_roundtrip {c : Int} (hc : 1 ≤ c) {sig : List UInt8}
    (hsig : sig.length = 65) (hr : sig.getD 64 0 ≤ 1) :
    (∀ v : Int, 35 ≤ v → deriveChainId v = (v - 35) / 2) ∧
      ∃ tx, (NewEIP155Signer (some c)).SignatureValues sig = some tx ∧
        tx.V = (sig.getD 64 0).toNat + 35 + 2 * c ∧ deriveChainId tx.V = c ∧
        isProtectedV tx.V = true ∧
        (NewEIP155Signer (some c)).Sender ecrecover hash homesteadHash tx =
          recoverPlain ecrecover (hash c) tx.R tx.S ((sig.getD 64 0).toNat + 27) true ∧
        ∀ c', c' ≠ c → (NewEIP155Signer (some c')).Sender ecrecover hash homesteadHash tx =
          .error .ErrInvalidChainId := by
  refine ⟨fun v hv => deriveChainId_of_ge hv, _, SignatureValues_eq (by omega) hsig hr, rfl, ?_⟩
  -- `V` は 35 以上なので、chain ID は `(V - 35) / 2 = c`
  have hchain : deriveChainId ((sig.getD 64 0).toNat + 35 + 2 * c) = c := by
    rw [deriveChainId_of_ge (by omega)]
    have hr' := UInt8.le_iff_toNat_le.mp hr
    simp only [UInt8.reduceToNat] at hr'
    omega
  have hprot : isProtectedV ((sig.getD 64 0).toNat + 35 + 2 * c) = true :=
    isProtectedV_of_gt (by omega)
  refine ⟨hchain, hprot, ?_, fun c' hc' => ?_⟩
  · rw [Sender_of_chainId_eq ecrecover hash homesteadHash hprot hchain]
    simp only [NewEIP155Signer, Option.getD_some]
    congr 1
    omega
  · exact Sender_of_chainId_ne ecrecover hash homesteadHash hprot (by rw [hchain]; exact Ne.symm hc')

end sender

theorem EIP155Signer_roundtrip_one :
    (1 : Int) ≤ 1 ∧ (List.replicate 65 (0 : UInt8)).length = 65 ∧
      (List.replicate 65 (0 : UInt8)).getD 64 0 ≤ 1 ∧
      ((∀ v : Int, 35 ≤ v → deriveChainId v = (v - 35) / 2) ∧
        ∃ tx, (NewEIP155Signer (some 1)).SignatureValues (List.replicate 65 0) = some tx ∧
          tx.V = ((List.replicate 65 (0 : UInt8)).getD 64 0).toNat + 35 + 2 * 1 ∧
          deriveChainId tx.V = 1 ∧ isProtectedV tx.V = true ∧
          (NewEIP155Signer (some 1)).Sender (fun _ _ _ _ => .ok ()) (fun _ => ()) () tx =
            recoverPlain (fun _ _ _ _ => .ok ()) () tx.R tx.S
              (((List.replicate 65 (0 : UInt8)).getD 64 0).toNat + 27) true ∧
          ∀ c', c' ≠ 1 → (NewEIP155Signer (some c')).Sender (fun _ _ _ _ => .ok ()) (fun _ => ())
            () tx = (.error .ErrInvalidChainId : Except SignError Unit)) :=
  ⟨le_refl 1, List.length_replicate, by decide,
    EIP155Signer_roundtrip (fun _ _ _ _ => .ok ()) (fun _ => ()) () (le_refl 1)
      List.length_replicate (by decide)⟩

end Types
