import Mathlib

/-!
# byte 列の bit の集合（各 byte の上位 bit から）

byte の列 `bs` を、`8 * bs.length` 個の bit の列と見る。`i` 番目の bit は
`bs[i/8] & (1 << (7 - i%8))`。`setBit` はその bit を立てる（`bs[i/8] |= 1 << (7 - i%8)`）。

* `testBit_setBit`：立てた bit だけが変わる。
* `ext`：長さが同じで bit がみな等しい二つの列は等しい。

byte の bit は `UInt8.toNat` の `Nat.testBit` に写して扱う（`and_mask`）。
-/

namespace ByteBits

/-- `1 << (7 - i%8)`：byte の中で `i` 番目の bit。 -/
def mask (i : Nat) : UInt8 := (1 : UInt8) <<< (7 - i % 8).toUInt8

/-- `bs[i/8] & (1 << (7 - i%8)) != 0`。列の外は 0 と読む。 -/
def testBit (bs : List UInt8) (i : Nat) : Bool := bs.getD (i / 8) 0 &&& mask i != 0

/-- `bs[i/8] |= 1 << (7 - i%8)`。 -/
def setBit (bs : List UInt8) (i : Nat) : List UInt8 := bs.modify (i / 8) (· ||| mask i)

theorem toNat_mask (i : Nat) : (mask i).toNat = 2 ^ (7 - i % 8) := by
  have h : (7 - i % 8).toUInt8.toNat = 7 - i % 8 := by
    rw [Nat.toUInt8, UInt8.toNat_ofNat']
    omega
  rw [mask, UInt8.toNat_shiftLeft, h, Nat.mod_eq_of_lt (by omega : 7 - i % 8 < 8),
    show (1 : UInt8).toNat = 1 from rfl, Nat.one_shiftLeft]
  exact Nat.mod_eq_of_lt (Nat.pow_lt_pow_right (by decide) (by omega))

/-- byte と `mask i` の積が 0 でないのは、その byte の `7 - i%8` 番目の bit が立つとき。 -/
theorem and_mask (b : UInt8) (i : Nat) : (b &&& mask i != 0) = b.toNat.testBit (7 - i % 8) := by
  have h : (b &&& mask i != 0) = ((b &&& mask i).toNat != 0) := by
    simp [bne, ← UInt8.toNat_inj]
  rw [h, UInt8.toNat_and, toNat_mask, Nat.and_two_pow]
  cases b.toNat.testBit (7 - i % 8) <;> simp

/-- 二つの `mask` の bit：同じ位置の bit は byte の中の位置が同じもの。 -/
theorem testBit_mask (i j : Nat) : (mask i).toNat.testBit (7 - j % 8) = (i % 8 == j % 8) := by
  rw [toNat_mask, Nat.testBit_two_pow]
  have hi := Nat.mod_lt i (by decide : 8 > 0)
  have hj := Nat.mod_lt j (by decide : 8 > 0)
  by_cases h : i % 8 = j % 8
  · simp [h]
  · have h7 : 7 - i % 8 ≠ 7 - j % 8 := by omega
    simp [h, h7]

@[simp] theorem length_setBit (bs : List UInt8) (i : Nat) : (setBit bs i).length = bs.length := by
  simp [setBit]

/-- 列の外の bit は立たない。 -/
theorem testBit_of_le {bs : List UInt8} {i : Nat} (h : 8 * bs.length ≤ i) :
    testBit bs i = false := by
  rw [testBit, List.getD_eq_default _ _ (by omega)]
  simp

@[simp] theorem testBit_replicate_zero (n i : Nat) : testBit (List.replicate n 0) i = false := by
  simp [testBit]

/-- 立った bit のある列には 0 でない byte がある。 -/
theorem exists_ne_zero_of_testBit {bs : List UInt8} {i : Nat} (h : testBit bs i = true) :
    ∃ x ∈ bs, x ≠ 0 := by
  have hlt : i / 8 < bs.length := by
    by_contra hn
    rw [testBit_of_le (by omega)] at h
    cases h
  refine ⟨bs[i / 8], List.getElem_mem hlt, fun h0 => ?_⟩
  rw [testBit, List.getD_eq_getElem _ _ hlt, h0] at h
  simp at h

/-- 立てた bit だけが変わる。 -/
theorem testBit_setBit {bs : List UInt8} {i : Nat} (hi : i < 8 * bs.length) (j : Nat) :
    testBit (setBit bs i) j = (testBit bs j || i == j) := by
  by_cases hq : j / 8 = i / 8
  · -- 同じ byte：`bs[i/8] | mask i` の bit
    have hlt : i / 8 < bs.length := by omega
    rw [testBit, testBit, setBit, hq, List.getD_eq_getElem?_getD, List.getElem?_modify,
      List.getD_eq_getElem?_getD, List.getElem?_eq_getElem hlt]
    simp only [Option.map_eq_map, Option.map_some, Option.getD_some, if_true, and_mask,
      UInt8.toNat_or, Nat.testBit_or]
    rw [testBit_mask]
    have h8 : (i % 8 == j % 8) = (i == j) := by
      by_cases hij : i = j
      · simp [hij]
      · have : i % 8 ≠ j % 8 := by omega
        simp [hij, this]
    rw [h8]
  · -- 別の byte は変わらない
    have hne : i ≠ j := fun h => hq (by rw [h])
    rw [testBit, testBit, setBit, List.getD_eq_getElem?_getD,
      List.getElem?_modify_ne _ _ (fun h => hq h.symm), ← List.getD_eq_getElem?_getD]
    simp [hne]

/-- 長さが同じで、どの bit も等しい二つの列は等しい。 -/
theorem ext {bs bs' : List UInt8} (hl : bs.length = bs'.length)
    (h : ∀ i < 8 * bs.length, testBit bs i = testBit bs' i) : bs = bs' := by
  apply List.ext_getElem hl
  intro k hk hk'
  apply UInt8.toNat_inj.mp
  apply Nat.eq_of_testBit_eq
  intro t
  by_cases ht : t < 8
  · -- `8k + (7 - t)` 番目の bit
    have e := h (8 * k + (7 - t)) (by omega)
    have hd : (8 * k + (7 - t)) / 8 = k := by omega
    have hm : 7 - (8 * k + (7 - t)) % 8 = t := by omega
    rw [testBit, testBit, hd, and_mask, and_mask, hm, List.getD_eq_getElem _ _ hk,
      List.getD_eq_getElem _ _ hk'] at e
    exact e
  · -- byte の上の bit はどちらも 0
    have h1 : bs[k].toNat < 2 ^ t :=
      Nat.lt_of_lt_of_le bs[k].toNat_lt (Nat.pow_le_pow_right (by decide) (by omega))
    have h2 : bs'[k].toNat < 2 ^ t :=
      Nat.lt_of_lt_of_le bs'[k].toNat_lt (Nat.pow_le_pow_right (by decide) (by omega))
    rw [Nat.testBit_lt_two_pow h1, Nat.testBit_lt_two_pow h2]

end ByteBits
