import Bullions.Ethash.Reward
import Mathlib

/-!
# ECIP-1017 の era の計算

`GetBlockEra n L` は `n ≥ 1` で `(1 + ((n - 1) / L) * L) / L` になる。`L ≥ 2` なら最初の 1 は
割り算で消えて `(n - 1) / L` になり、era は block `kL + 1` から `(k + 1)L` までが `k` で、
報酬は `R * 4^k / 5^k` になる。`L = 1` では 1 が消えず、era は `n` になる。Go の注釈の言う
0 から数える era（"Era 1" が 0）とは一つずれ、block 1 から既に減った報酬を払う
（`GetBlockEra_unit_length_off_by_one`）。
-/

namespace Ethash

/-- `n ≥ 1` の block の era：`base` は `1 + ((n - 1) / L) * L`、`d % 1` は 0。 -/
theorem GetBlockEra_pos {n L : Int} (hn : 1 ≤ n) :
    GetBlockEra n L = (1 + (n - 1) / L * L) / L := by
  have hs : ¬n.sign < 1 := by
    rw [Int.sign_eq_one_of_pos (by omega)]
    omega
  have hbase : n - (n - 1) % L = 1 + (n - 1) / L * L := by
    have h := Int.emod_add_mul_ediv (n - 1) L
    linarith [mul_comm L ((n - 1) / L)]
  simp only [GetBlockEra, if_neg hs, hbase, Int.emod_one, Int.sub_zero]

/-- era の番号は `(n - 1) / L` に、`L = 1` のときだけ 1 を足したもの。 -/
theorem GetBlockEra_eq {n L : Int} (hn : 1 ≤ n) (hL : 1 ≤ L) :
    GetBlockEra n L = (n - 1) / L + if L = 1 then 1 else 0 := by
  rw [GetBlockEra_pos hn, Int.add_mul_ediv_right _ _ (by omega)]
  by_cases h1 : L = 1
  · subst h1
    simp only [Int.ediv_one, if_true]
    omega
  · rw [if_neg h1, Int.ediv_eq_zero_of_lt (by omega) (by omega : (1 : Int) < L)]
    simp only [Int.zero_add, Int.add_zero]

theorem GetBlockEra_nonpos {n L : Int} (hn : n < 1) : GetBlockEra n L = 0 := by
  have hs : n.sign < 1 := by
    rcases Int.lt_or_eq_of_le (by omega : n ≤ 0) with hneg | rfl
    · rw [Int.sign_eq_neg_one_of_neg hneg]
      omega
    · decide
  simp only [GetBlockEra, if_pos hs]

/-- era `k` の block：`kL + 1 ≤ n ≤ (k + 1)L` なら `(n - 1) / L = k`。 -/
theorem ediv_eq_of_mem_era {n L : Int} {k : Nat} (hL : 1 ≤ L) (hlo : k * L + 1 ≤ n)
    (hhi : n ≤ (k + 1) * L) : (n - 1) / L = k := by
  have hr : n - 1 = (n - 1 - k * L) + k * L := (Int.sub_add_cancel _ _).symm
  rw [hr, Int.add_mul_ediv_right _ _ (by omega),
    Int.ediv_eq_zero_of_lt (by linarith) (by linarith), Int.zero_add]

theorem GetBlockWinnerRewardByEra_natCast (k : Nat) (blockReward : Int) :
    GetBlockWinnerRewardByEra k blockReward = blockReward * 4 ^ k / 5 ^ k := by
  by_cases hk : k = 0
  · subst hk
    simp [GetBlockWinnerRewardByEra]
  · have hk' : (k : Int) ≠ 0 := by exact_mod_cast hk
    simp only [GetBlockWinnerRewardByEra, if_neg hk', Int.toNat_natCast,
      DisinflationRateQuotient, DisinflationRateDivisor]

/-- uncle ごとの上乗せは同じ額なので、合計は uncle の数の倍。 -/
theorem GetBlockWinnerRewardForUnclesByEra_eq (era : Int) (uncles : List Int) (blockReward : Int) :
    GetBlockWinnerRewardForUnclesByEra era uncles blockReward =
      uncles.length * getEraUncleBlockReward era blockReward := by
  have hfold : ∀ (l : List Int) (r : Int),
      l.foldl (fun r _ => r + getEraUncleBlockReward era blockReward) r =
        r + l.length * getEraUncleBlockReward era blockReward := by
    intro l
    induction l with
    | nil => intro r; simp
    | cons u l ih =>
      intro r
      rw [List.foldl_cons, ih, List.length_cons]
      push_cast
      ring
  rw [GetBlockWinnerRewardForUnclesByEra, hfold, Int.zero_add]

/-- ECIP-1017 の era：負と 0 の block では 0、`n ≥ 1` では `(n - 1) / L` に `L = 1` のときだけ 1 を
足したもの。`L ≥ 2` なら、block `kL + 1` から `(k + 1)L` までの era は `k` で、勝者の報酬は
`R * 4^k / 5^k` と uncle ごとのその 1/32。 -/
theorem GetBlockEra_ecip1017 (L : Nat) (hL : 1 ≤ L) :
    (∀ n : Int, n < 1 → GetBlockEra n L = 0) ∧
    (∀ n : Int, 1 ≤ n → GetBlockEra n L = (n - 1) / L + if L = 1 then 1 else 0) ∧
    (2 ≤ L → ∀ (k : Nat) (n : Int) (uncles : List Int), k * L + 1 ≤ n → n ≤ (k + 1) * L →
      GetBlockEra n L = k ∧
      (ecip1017BlockReward L n uncles).1 =
        FrontierBlockReward * 4 ^ k / 5 ^ k +
          uncles.length * (FrontierBlockReward * 4 ^ k / 5 ^ k / 32)) := by
  have hL' : (1 : Int) ≤ L := by exact_mod_cast hL
  refine ⟨fun n hn => GetBlockEra_nonpos hn, fun n hn => ?_, ?_⟩
  · rw [GetBlockEra_eq hn hL']
    norm_cast
  · intro h2 k n uncles hlo hhi
    have hne : ¬(L : Int) = 1 := by omega
    have hera : GetBlockEra n L = k := by
      rw [GetBlockEra_eq (by nlinarith) hL', if_neg hne, Int.add_zero,
        ediv_eq_of_mem_era hL' hlo hhi]
    refine ⟨hera, ?_⟩
    simp only [ecip1017BlockReward, hera, GetBlockWinnerRewardForUnclesByEra_eq,
      getEraUncleBlockReward, GetBlockWinnerRewardByEra_natCast]

/-- era の長さ 2 では、block 3 と 4 が era 1。 -/
theorem GetBlockEra_ecip1017_two :
    1 ≤ 2 ∧
    ((∀ n : Int, n < 1 → GetBlockEra n (2 : Nat) = 0) ∧
    (∀ n : Int, 1 ≤ n → GetBlockEra n (2 : Nat) = (n - 1) / (2 : Nat) + if 2 = 1 then 1 else 0) ∧
    (2 ≤ 2 → ∀ (k : Nat) (n : Int) (uncles : List Int), k * (2 : Nat) + 1 ≤ n → n ≤ (k + 1) * (2 : Nat) →
      GetBlockEra n (2 : Nat) = k ∧
      (ecip1017BlockReward 2 n uncles).1 =
        FrontierBlockReward * 4 ^ k / 5 ^ k +
          uncles.length * (FrontierBlockReward * 4 ^ k / 5 ^ k / 32))) :=
  ⟨by decide, GetBlockEra_ecip1017 2 (by decide)⟩

/--
era の長さが 1 なら、block 1 の era は 0 から数えた `(1 - 1) / 1 = 0` でなく 1 で、勝者の報酬は
5 ether でなくその 4/5 になる。
-/
theorem GetBlockEra_unit_length_off_by_one :
    GetBlockEra 1 1 = 1 ∧ ((1 : Int) - 1) / 1 = 0 ∧
      (ecip1017BlockReward 1 1 []).1 = 4 * 10 ^ 18 ∧ FrontierBlockReward = 5 * 10 ^ 18 :=
  ⟨by decide, by decide, by decide, rfl⟩

end Ethash
