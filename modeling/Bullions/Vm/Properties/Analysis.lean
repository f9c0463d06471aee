import Bullions.Vm.Analysis
import Mathlib

/-!
# jump 先の解析の正しさ

`codeBitmap` はどの code でも範囲の外に書かず（`none` にならず）、code の中の位置 `p` で
`codeSegment p` が成り立つのは、`p` が線形な読みで命令の始まりであるときに限る。
したがって `validJumpdest d` は、`d` が code の中の JUMPDEST で、命令の始まりであるときに
限って真になる。

証明は外側の loop の不変条件 `BitmapInv` による：`pc` は命令の始まりで、`pc` より前の bit は
命令の始まりでない位置に限って立っていて、`pc` から先の bit はまだどれも立っていない。
PUSH の data が次の命令の始まりを越えないことは、命令の始まりが `nextPc` の軌道をなすこと
（`InstructionStart.nextPc_le`）から出る。
-/

namespace Vm

/-! ## byte の bit -/

/-- byte の bit の検査は `|||` の両側に分かれる。 -/
theorem or_and_mask_eq_zero (b m t : UInt8) :
    (b ||| m) &&& t = 0 ↔ b &&& t = 0 ∧ m &&& t = 0 := by
  have hd : (b ||| m) &&& t = (b &&& t) ||| (m &&& t) := by
    apply UInt8.toBitVec_inj.mp
    simp [BitVec.and_or_distrib_right]
  rw [hd, UInt8.or_eq_zero_iff]

/-- `0x80 >> k` と `0x80 >> j` が重なるのは `k = j` のとき。 -/
theorem bit_and_bit_eq_zero {k j : Nat} (hk : k < 8) (hj : j < 8) :
    ((0x80 : UInt8) >>> k.toUInt8) &&& (0x80 >>> j.toUInt8) = 0 ↔ k ≠ j := by
  have h : ∀ k j : Fin 8,
      ((0x80 : UInt8) >>> k.val.toUInt8) &&& (0x80 >>> j.val.toUInt8) = 0 ↔ k ≠ j := by
    decide
  simpa [Fin.ext_iff] using h ⟨k, hk⟩ ⟨j, hj⟩

/-- `0xFF >> k` は上から `k` 番目より下の bit。 -/
theorem low_and_bit_eq_zero {k j : Nat} (hk : k < 8) (hj : j < 8) :
    ((0xFF : UInt8) >>> k.toUInt8) &&& (0x80 >>> j.toUInt8) = 0 ↔ j < k := by
  have h : ∀ k j : Fin 8,
      ((0xFF : UInt8) >>> k.val.toUInt8) &&& (0x80 >>> j.val.toUInt8) = 0 ↔ j.val < k.val := by
    decide
  exact h ⟨k, hk⟩ ⟨j, hj⟩

/-- `^(0xFF >> k)` は上から `k` 個の bit。 -/
theorem high_and_bit_eq_zero {k j : Nat} (hk : k < 8) (hj : j < 8) :
    (~~~((0xFF : UInt8) >>> k.toUInt8)) &&& (0x80 >>> j.toUInt8) = 0 ↔ k ≤ j := by
  have h : ∀ k j : Fin 8,
      (~~~((0xFF : UInt8) >>> k.val.toUInt8)) &&& (0x80 >>> j.val.toUInt8) = 0 ↔
        k.val ≤ j.val := by
    decide
  exact h ⟨k, hk⟩ ⟨j, hj⟩

/-! ## 書き込み -/

theorem orAt_of_lt {bits : bitvec} {i : Nat} (m : UInt8) (h : i < bits.length) :
    ∃ bits', bits.orAt i m = some bits' ∧ bits'.length = bits.length :=
  ⟨_, dif_pos h, List.length_set⟩

theorem length_orAt {bits bits' : bitvec} {i : Nat} {m : UInt8}
    (h : bits.orAt i m = some bits') : bits'.length = bits.length := by
  unfold bitvec.orAt at h
  split at h
  · cases h
    exact List.length_set
  · cases h

/-- byte `i` に `m` を足した後、bit `q` が立っていないのは、前から立っておらず、`q` が
byte `i` にあれば `m` にもないとき。 -/
theorem codeSegment_orAt {bits bits' : bitvec} {i : Nat} {m : UInt8}
    (h : bits.orAt i m = some bits') (q : Nat) :
    bits'.codeSegment q = true ↔
      bits.codeSegment q = true ∧ (q / 8 = i → m &&& (0x80 >>> (q % 8).toUInt8) = 0) := by
  unfold bitvec.orAt at h
  split at h
  · cases h
    by_cases hq : q / 8 = i
    · subst hq
      simp [bitvec.codeSegment, List.getD_eq_getElem?_getD, or_and_mask_eq_zero, *]
    · simp [bitvec.codeSegment, List.getD_eq_getElem?_getD, List.getElem?_set_ne (Ne.symm hq), hq]
  · cases h

theorem set_of_lt {bits : bitvec} {pos : Nat} (h : pos / 8 < bits.length) :
    ∃ bits', bits.set pos = some bits' ∧ bits'.length = bits.length :=
  orAt_of_lt _ h

theorem length_set {bits bits' : bitvec} {pos : Nat} (h : bits.set pos = some bits') :
    bits'.length = bits.length :=
  length_orAt h

/-- `set pos` は bit `pos` だけを立てる。 -/
theorem codeSegment_set {bits bits' : bitvec} {pos : Nat} (h : bits.set pos = some bits')
    (q : Nat) : bits'.codeSegment q = true ↔ bits.codeSegment q = true ∧ q ≠ pos := by
  rw [codeSegment_orAt h q]
  have hmask : (q / 8 = pos / 8 →
      (0x80 : UInt8) >>> (pos % 8).toUInt8 &&& 0x80 >>> (q % 8).toUInt8 = 0) ↔ q ≠ pos := by
    simp only [bit_and_bit_eq_zero (Nat.mod_lt pos (by omega)) (Nat.mod_lt q (by omega))]
    omega
  rw [hmask]

theorem set8_of_lt {bits : bitvec} {pos : Nat} (h : pos / 8 + 1 < bits.length) :
    ∃ bits', bits.set8 pos = some bits' ∧ bits'.length = bits.length := by
  obtain ⟨b1, h1, hl1⟩ := orAt_of_lt ((0xFF : UInt8) >>> (pos % 8).toUInt8) (by omega : pos / 8 < bits.length)
  obtain ⟨b2, h2, hl2⟩ := orAt_of_lt (~~~((0xFF : UInt8) >>> (pos % 8).toUInt8))
    (by omega : pos / 8 + 1 < b1.length)
  refine ⟨b2, ?_, by omega⟩
  simp only [bitvec.set8, h1, Option.bind_eq_bind, Option.bind_some, h2]

/-- `set8 pos` は bit `pos` から `pos + 7` までを立てる。 -/
theorem codeSegment_set8 {bits bits' : bitvec} {pos : Nat} (h : bits.set8 pos = some bits')
    (q : Nat) :
    bits'.codeSegment q = true ↔ bits.codeSegment q = true ∧ ¬(pos ≤ q ∧ q < pos + 8) := by
  simp only [bitvec.set8, Option.bind_eq_bind, Option.bind_eq_some_iff] at h
  obtain ⟨b1, h1, h2⟩ := h
  have hk : pos % 8 < 8 := Nat.mod_lt pos (by omega)
  have hj : q % 8 < 8 := Nat.mod_lt q (by omega)
  rw [codeSegment_orAt h2 q, codeSegment_orAt h1 q, and_assoc,
    low_and_bit_eq_zero hk hj, high_and_bit_eq_zero hk hj]
  have hrange : ((q / 8 = pos / 8 → q % 8 < pos % 8) ∧ (q / 8 = pos / 8 + 1 → pos % 8 ≤ q % 8)) ↔
      ¬(pos ≤ q ∧ q < pos + 8) := by
    omega
  rw [hrange]

theorem length_set8 {bits bits' : bitvec} {pos : Nat} (h : bits.set8 pos = some bits') :
    bits'.length = bits.length := by
  simp only [bitvec.set8, Option.bind_eq_bind, Option.bind_eq_some_iff] at h
  obtain ⟨b1, h1, h2⟩ := h
  rw [length_orAt h2, length_orAt h1]

/-! ## 内側の loop -/

/-- `set8Loop` は `pc` から `n / 8 * 8` 個の bit を立て、`pc` をそれだけ進める。 -/
theorem set8Loop_spec {bits : bitvec} {pc n : Nat} (h : (pc + n) / 8 < bits.length) :
    ∃ bits', set8Loop bits pc n = some (bits', pc + n / 8 * 8, n % 8) ∧
      bits'.length = bits.length ∧
      ∀ q, bits'.codeSegment q = true ↔
        bits.codeSegment q = true ∧ ¬(pc ≤ q ∧ q < pc + n / 8 * 8) := by
  induction n using Nat.strong_induction_on generalizing bits pc with
  | _ n ih =>
    obtain ⟨m, rfl⟩ | hlt : (∃ m, n = m + 8) ∨ n < 8 := by
      by_cases hn : 8 ≤ n
      · exact .inl ⟨n - 8, by omega⟩
      · exact .inr (by omega)
    · -- 一回 `set8` してから残りの `m` bit について帰納法の仮定を使う
      obtain ⟨b1, h1, hl1⟩ := @set8_of_lt bits pc (by omega)
      obtain ⟨b2, h2, hl2, hseg⟩ := @ih m (by omega) b1 (pc + 8) (by omega)
      refine ⟨b2, ?_, by omega, fun q => ?_⟩
      · simp only [set8Loop, h1, Option.bind_eq_bind, Option.bind_some, h2]
        congr 3 <;> omega
      · rw [hseg q, codeSegment_set8 h1 q, and_assoc]
        have hrange : (¬(pc ≤ q ∧ q < pc + 8) ∧ ¬(pc + 8 ≤ q ∧ q < pc + 8 + m / 8 * 8)) ↔
            ¬(pc ≤ q ∧ q < pc + (m + 8) / 8 * 8) := by
          omega
        rw [hrange]
    · have hloop : set8Loop bits pc n = some (bits, pc, n) := by
        interval_cases n <;> rfl
      refine ⟨bits, ?_, rfl, fun q => ?_⟩
      · rw [hloop, Nat.div_eq_of_lt hlt, Nat.mod_eq_of_lt hlt]
        rfl
      · rw [Nat.div_eq_of_lt hlt]
        simp

/-- `setLoop` は `pc` から `n` 個の bit を立て、`pc` をそれだけ進める。 -/
theorem setLoop_spec {bits : bitvec} {pc n : Nat} (h : (pc + n) / 8 < bits.length) :
    ∃ bits', setLoop bits pc n = some (bits', pc + n) ∧ bits'.length = bits.length ∧
      ∀ q, bits'.codeSegment q = true ↔ bits.codeSegment q = true ∧ ¬(pc ≤ q ∧ q < pc + n) := by
  induction n generalizing bits pc with
  | zero => exact ⟨bits, rfl, rfl, fun q => by simp⟩
  | succ n ih =>
    obtain ⟨b1, h1, hl1⟩ := @set_of_lt bits pc (by omega)
    obtain ⟨b2, h2, hl2, hseg⟩ := @ih b1 (pc + 1) (by omega)
    refine ⟨b2, ?_, by omega, fun q => ?_⟩
    · simp only [setLoop, h1, Option.bind_eq_bind, Option.bind_some, h2]
      congr 2
      omega
    · rw [hseg q, codeSegment_set h1 q, and_assoc]
      have hrange : (q ≠ pc ∧ ¬(pc + 1 ≤ q ∧ q < pc + 1 + n)) ↔ ¬(pc ≤ q ∧ q < pc + (n + 1)) := by
        omega
      rw [hrange]

/-! ## 命令の始まり -/

theorem push_numbits {op : UInt8} (h : (op ≥ PUSH1 && op ≤ PUSH32) = true) :
    (op - PUSH1 + 1).toNat = op.toNat - 95 ∧ op.toNat - 95 ≤ 32 := by
  simp only [Bool.and_eq_true, decide_eq_true_eq] at h
  obtain ⟨h1, h2⟩ := h
  have h1' : 96 ≤ op.toNat := UInt8.le_iff_toNat_le.mp h1
  have h2' : op.toNat ≤ 127 := UInt8.le_iff_toNat_le.mp h2
  rw [UInt8.toNat_add, UInt8.toNat_sub_of_le _ _ h1]
  simp [PUSH1]
  omega

theorem lt_nextPc (code : Bytes) (pc : Nat) : pc < nextPc code pc := by
  unfold nextPc
  dsimp only
  split <;> omega

theorem InstructionStart.exists_iterate {code : Bytes} {p : Nat} (h : InstructionStart code p) :
    ∃ k, (nextPc code)^[k] 0 = p := by
  induction h with
  | zero => exact ⟨0, rfl⟩
  | next _ _ ih =>
    obtain ⟨k, hk⟩ := ih
    exact ⟨k + 1, by rw [Function.iterate_succ_apply', hk]⟩

/-- 命令の始まりは `nextPc` の軌道で、`nextPc` は `pc` を進めるので、二つの始まりの間に
`nextPc` の一歩が入る：PUSH の data の中に命令の始まりはない。 -/
theorem InstructionStart.nextPc_le {code : Bytes} {p q : Nat} (hp : InstructionStart code p)
    (hq : InstructionStart code q) (hlt : p < q) : nextPc code p ≤ q := by
  obtain ⟨i, rfl⟩ := hp.exists_iterate
  obtain ⟨j, rfl⟩ := hq.exists_iterate
  have hmono : StrictMono fun k => (nextPc code)^[k] 0 :=
    strictMono_nat_of_lt_succ fun k => by
      simp only [Function.iterate_succ_apply']
      exact lt_nextPc code _
  have hij : i < j := hmono.lt_iff_lt.mp hlt
  calc nextPc code ((nextPc code)^[i] 0) = (nextPc code)^[i + 1] 0 :=
        (Function.iterate_succ_apply' _ _ _).symm
    _ ≤ (nextPc code)^[j] 0 := hmono.monotone hij

/-! ## 外側の loop -/

/-- 外側の loop の一回：命令 `pc` の PUSH の data の bit を立て、`pc` を次の命令に進める。 -/
theorem codeBitmapLoop_step {code : Bytes} {bits : bitvec} {pc : Nat} (fuel : Nat)
    (hpc : pc < code.length) (hlen : bits.length = code.length / 8 + 1 + 4) :
    ∃ bits', codeBitmapLoop code bits pc (fuel + 1) =
        codeBitmapLoop code bits' (nextPc code pc) fuel ∧
      bits'.length = bits.length ∧
      ∀ q, bits'.codeSegment q = true ↔
        bits.codeSegment q = true ∧ ¬(pc < q ∧ q < nextPc code pc) := by
  by_cases hop : (code.getD pc 0 ≥ PUSH1 && code.getD pc 0 ≤ PUSH32) = true
  · obtain ⟨hnum, hle⟩ := push_numbits hop
    -- PUSH32 が code の最後の byte でも、data は bitvec の終わりの 4 byte に収まる
    obtain ⟨b1, h1, hl1, hseg1⟩ := @set8Loop_spec bits (pc + 1) (code.getD pc 0 - PUSH1 + 1).toNat
      (by omega)
    obtain ⟨b2, h2, hl2, hseg2⟩ := @setLoop_spec b1 (pc + 1 + (code.getD pc 0 - PUSH1 + 1).toNat / 8 * 8)
      ((code.getD pc 0 - PUSH1 + 1).toNat % 8) (by omega)
    have hnext : nextPc code pc = pc + 1 + (code.getD pc 0 - PUSH1 + 1).toNat := by
      simp only [nextPc, hop, if_true]
    refine ⟨b2, ?_, by omega, fun q => ?_⟩
    · simp only [codeBitmapLoop, if_pos hpc, hop, if_true, h1, Option.bind_eq_bind,
        Option.bind_some, h2]
      congr 1
      omega
    · rw [hseg2 q, hseg1 q, and_assoc, hnext]
      have hrange : (¬(pc + 1 ≤ q ∧ q < pc + 1 + (code.getD pc 0 - PUSH1 + 1).toNat / 8 * 8) ∧
          ¬(pc + 1 + (code.getD pc 0 - PUSH1 + 1).toNat / 8 * 8 ≤ q ∧
            q < pc + 1 + (code.getD pc 0 - PUSH1 + 1).toNat / 8 * 8 +
              (code.getD pc 0 - PUSH1 + 1).toNat % 8)) ↔
          ¬(pc < q ∧ q < pc + 1 + (code.getD pc 0 - PUSH1 + 1).toNat) := by
        omega
      rw [hrange]
  · have hnext : nextPc code pc = pc + 1 := by
      simp only [nextPc, hop]
      rfl
    refine ⟨bits, ?_, rfl, fun q => ?_⟩
    · simp only [codeBitmapLoop, if_pos hpc, hop, hnext]
      rfl
    · have hempty : ¬(pc < q ∧ q < nextPc code pc) := by
        rw [hnext]
        omega
      simp [hempty]

/-- `codeBitmapLoop` の不変条件。 -/
structure BitmapInv (code : Bytes) (bits : bitvec) (pc : Nat) : Prop where
  length : bits.length = code.length / 8 + 1 + 4
  start : InstructionStart code pc
  /-- `pc` より前では、命令の始まりの bit だけが立っていない。 -/
  before : ∀ q < pc, bits.codeSegment q = true ↔ InstructionStart code q
  /-- `pc` から先の bit はまだ立っていない。 -/
  after : ∀ q, pc ≤ q → bits.codeSegment q = true

theorem BitmapInv.init (code : Bytes) :
    BitmapInv code (List.replicate (code.length / 8 + 1 + 4) 0) 0 where
  length := List.length_replicate
  start := .zero
  before := fun q hq => absurd hq (Nat.not_lt_zero q)
  after := fun q _ => by
    simp [bitvec.codeSegment, List.getD_eq_getElem?_getD, List.getElem?_replicate]
    split <;> simp

theorem BitmapInv.step {code : Bytes} {bits bits' : bitvec} {pc : Nat} (hinv : BitmapInv code bits pc)
    (hpc : pc < code.length) (hlen : bits'.length = bits.length)
    (hseg : ∀ q, bits'.codeSegment q = true ↔
      bits.codeSegment q = true ∧ ¬(pc < q ∧ q < nextPc code pc)) :
    BitmapInv code bits' (nextPc code pc) where
  length := hlen.trans hinv.length
  start := .next hinv.start hpc
  before := by
    intro q hq
    rw [hseg q]
    rcases Nat.lt_trichotomy q pc with hlt | rfl | hgt
    · have hout : ¬(pc < q ∧ q < nextPc code pc) := by omega
      simp [hout, hinv.before q hlt]
    · simp [hinv.after q (Nat.le_refl q), hinv.start]
    · -- PUSH の data の中は命令の始まりでない
      have hns : ¬InstructionStart code q := fun hq' =>
        absurd (hinv.start.nextPc_le hq' hgt) (by omega)
      simp only [hns, iff_false, not_and]
      intro _ hdata
      exact hdata hgt hq
  after := by
    intro q hq
    have hlt := lt_nextPc code pc
    rw [hseg q]
    exact ⟨hinv.after q (by omega), by omega⟩

/-- run lemma：残りの回数が足りていれば、loop は範囲の外に書かずに終わり、code の中の bit は
命令の始まりを正しく表す。 -/
theorem codeBitmapLoop_spec {code : Bytes} (fuel : Nat) :
    ∀ {bits : bitvec} {pc : Nat}, BitmapInv code bits pc → code.length ≤ pc + fuel →
      ∃ bits', codeBitmapLoop code bits pc fuel = some bits' ∧
        bits'.length = code.length / 8 + 1 + 4 ∧
        ∀ p < code.length, bits'.codeSegment p = true ↔ InstructionStart code p := by
  induction fuel with
  | zero =>
    intro bits pc hinv hfuel
    exact ⟨bits, rfl, hinv.length, fun p hp => hinv.before p (by omega)⟩
  | succ fuel ih =>
    intro bits pc hinv hfuel
    by_cases hpc : pc < code.length
    · obtain ⟨bits', hloop, hlen, hseg⟩ := codeBitmapLoop_step fuel hpc hinv.length
      rw [hloop]
      exact ih (hinv.step hpc hlen hseg) (by have := lt_nextPc code pc; omega)
    · refine ⟨bits, ?_, hinv.length, fun p hp => hinv.before p (by omega)⟩
      simp only [codeBitmapLoop, if_neg hpc]

/-! ## `codeBitmap` と `validJumpdest` -/

/-- `validJumpdest` は code の中の JUMPDEST で止まり、そこで解析の bit を読む。 -/
theorem validJumpdest_of_lt {code : Bytes} {dest : Nat} (hlen : code.length < 2 ^ 64)
    (hd : dest < code.length) :
    validJumpdest code dest =
      if code.getD dest 0 = JUMPDEST then isCode code dest else some false := by
  have hmod : dest % 2 ^ 64 = dest := Nat.mod_eq_of_lt (by omega)
  have hov : ¬2 ^ 64 ≤ dest := by omega
  have hin : ¬code.length ≤ dest := by omega
  simp only [validJumpdest, hmod, hov, hin, decide_false, Bool.or_false, bne_iff_ne, ne_eq,
    Bool.false_eq_true, if_false, ite_not]

/-- code の外への jump は、256 bit のどの値でも偽。 -/
theorem validJumpdest_of_ge {code : Bytes} {dest : Nat} (hd : code.length ≤ dest) :
    validJumpdest code dest = some false := by
  have hcond : (decide (2 ^ 64 ≤ dest) || decide (code.length ≤ dest % 2 ^ 64)) = true := by
    rw [Bool.or_eq_true, decide_eq_true_eq, decide_eq_true_eq]
    by_cases hov : 2 ^ 64 ≤ dest
    · exact .inl hov
    · rw [Nat.mod_eq_of_lt (by omega)]
      exact .inr hd
  simp only [validJumpdest]
  rw [if_pos hcond]

/-- jump 先の解析は範囲の外に書かず、code の中では命令の始まりを正しく表す。したがって
`validJumpdest` は、code の中の JUMPDEST で命令の始まりである位置に限って真を返す。 -/
theorem codeBitmap_exact (code : Bytes) (hlen : code.length < 2 ^ 64) :
    ∃ bits, codeBitmap code = some bits ∧ bits.length = code.length / 8 + 1 + 4 ∧
      (∀ p < code.length, bits.codeSegment p = true ↔ InstructionStart code p) ∧
      ∀ dest, ∃ b, validJumpdest code dest = some b ∧
        (b = true ↔ dest < code.length ∧ code.getD dest 0 = JUMPDEST ∧ InstructionStart code dest) := by
  obtain ⟨bits, hbm, hbits, hseg⟩ :=
    codeBitmapLoop_spec code.length (BitmapInv.init code) (by omega)
  refine ⟨bits, hbm, hbits, hseg, fun dest => ?_⟩
  by_cases hd : dest < code.length
  · rw [validJumpdest_of_lt hlen hd]
    by_cases hj : code.getD dest 0 = JUMPDEST
    · refine ⟨bits.codeSegment dest, ?_, ?_⟩
      · simp only [hj, if_true, isCode]
        rw [show codeBitmap code = some bits from hbm]
        rfl
      · rw [hseg dest hd]
        exact ⟨fun h => ⟨hd, hj, h⟩, fun h => h.2.2⟩
    · refine ⟨false, by rw [if_neg hj], ?_⟩
      simp only [Bool.false_eq_true, false_iff]
      exact fun h => hj h.2.1
  · refine ⟨false, validJumpdest_of_ge (by omega), ?_⟩
    simp only [Bool.false_eq_true, false_iff]
    exact fun h => hd h.1

example : codeBitmap [0x60, 0x5b, 0x5b] = some [0x40, 0, 0, 0, 0] := by decide
example : codeBitmap [0x7f, 0] = some [0x7f, 0xff, 0xff, 0xff, 0x80] := by decide

/-- `PUSH1 JUMPDEST JUMPDEST`：二つ目の JUMPDEST だけが命令の始まり。 -/
theorem codeBitmap_exact_push1 :
    [PUSH1, JUMPDEST, JUMPDEST].length < 2 ^ 64 ∧
      ∃ bits, codeBitmap [PUSH1, JUMPDEST, JUMPDEST] = some bits ∧
        bits.length = [PUSH1, JUMPDEST, JUMPDEST].length / 8 + 1 + 4 ∧
        (∀ p < [PUSH1, JUMPDEST, JUMPDEST].length,
          bits.codeSegment p = true ↔ InstructionStart [PUSH1, JUMPDEST, JUMPDEST] p) ∧
        ∀ dest, ∃ b, validJumpdest [PUSH1, JUMPDEST, JUMPDEST] dest = some b ∧
          (b = true ↔ dest < [PUSH1, JUMPDEST, JUMPDEST].length ∧
            [PUSH1, JUMPDEST, JUMPDEST].getD dest 0 = JUMPDEST ∧
            InstructionStart [PUSH1, JUMPDEST, JUMPDEST] dest) :=
  ⟨by decide, codeBitmap_exact _ (by decide)⟩

end Vm
