import Bullions.Vm.GasTable
import Bullions.Lib.ExceptSpec

/-!
# memory の拡張の gas

`memCost w = 3w + w²/512` は大きさ `w` word の memory に課す gas の総額である。
`Memory.Inv` は、memory の長さが 32 の倍数で `0x1FFFFFFFE0` を超えず、`lastGasCost` が
その長さの総額に等しいことを言う。

* `memoryGasCost_error_iff` — `memoryGasCost` が `ErrGasUintOverflow` を返すのは、ちょうど
  大きさが `0x1FFFFFFFE0` を超えるとき
* `memoryGasCost_fee` — 不変条件の下で、課す gas はちょうど新旧の総額の差で、uint64 の
  引き算は回り込まない
* `Memory.Inv.expand` — `memoryGasCost` の後に `Resize` で広げた memory も不変条件を満たし、
  `lastGasCost` は課した gas だけ増える

gas 関数の側では、memory を広げる gas 関数が成功すれば、書き換えた memory はちょうど
`memoryGasCost(mem, memorySize)` の返したものである（`dynamicGasOf_mem`）。
-/

namespace Vm

/-! ## 総額 `C(w)` -/

/-- 大きさ `w` word の memory の gas の総額 `C(w)`。 -/
def memCost (w : Nat) : Nat := w * MemoryGas + w * w / QuadCoeffDiv

theorem memCost_zero : memCost 0 = 0 := rfl

theorem memCost_mono {w w' : Nat} (h : w ≤ w') : memCost w ≤ memCost w' := by
  unfold memCost
  have hsq : w * w / QuadCoeffDiv ≤ w' * w' / QuadCoeffDiv :=
    Nat.div_le_div_right (Nat.mul_le_mul h h)
  have hlin : w * MemoryGas ≤ w' * MemoryGas := Nat.mul_le_mul_right _ h
  omega

/-- `0x1FFFFFFFE0` byte（`2 ^ 32 - 1` word）までなら、総額は uint64 に収まる。 -/
theorem memCost_lt (h : w ≤ 0x1FFFFFFFE0 / 32) : memCost w < 2 ^ 64 := by
  unfold memCost MemoryGas QuadCoeffDiv
  have hsq : w * w ≤ (0x1FFFFFFFE0 / 32) * (0x1FFFFFFFE0 / 32) := Nat.mul_le_mul h h
  omega

/-! ## uint64 の演算 -/

/-- 借りが出なければ、`sub64` は `Nat` の引き算である。 -/
theorem sub64_of_le {x y : Nat} (hy : y ≤ x) (hx : x < 2 ^ 64) : sub64 x y = x - y := by
  unfold sub64
  omega

/-- 桁あふれしなければ、`SafeMul` は積そのもの。 -/
theorem SafeMul_fst {x y : Nat} (h : (SafeMul x y).2 ≠ true) : (SafeMul x y).1 = x * y := by
  unfold SafeMul at h ⊢
  simp only [ne_eq, decide_eq_true_eq, Nat.not_le] at h
  exact Nat.mod_eq_of_lt h

/-- 大きさが `0x1FFFFFFFE0` 以下なら、`toWordSize` は切り上げの割り算である。 -/
theorem toWordSize_of_le {n : Nat} (hn : n ≤ 0x1FFFFFFFE0) : toWordSize n = (n + 31) / 32 := by
  unfold toWordSize MaxUint64
  rw [if_neg (by omega)]

/-- 32 の倍数の大きさは、word に切り上げても変わらない。 -/
theorem toWordSize_mul {n : Nat} (hn : n ≤ 0x1FFFFFFFE0) (h32 : n % 32 = 0) :
    toWordSize n * 32 = n := by
  rw [toWordSize_of_le hn]
  omega

/-! ## `Memory` -/

namespace Memory

@[simp] theorem New_Len : Memory.New.Len = 0 := rfl

@[simp] theorem New_lastGasCost : Memory.New.lastGasCost = 0 := rfl

@[simp] theorem Resize_lastGasCost (m : Memory) (size : Nat) :
    (m.Resize size).lastGasCost = m.lastGasCost := by
  unfold Resize
  split <;> rfl

theorem Resize_Len (m : Memory) (size : Nat) : (m.Resize size).Len = max m.Len size := by
  unfold Resize
  split
  · simp only [Len, List.length_append, List.length_replicate]
    unfold Len at *
    omega
  · unfold Len at *
    omega

@[simp] theorem Len_with_lastGasCost (m : Memory) (c : Nat) :
    ({ m with lastGasCost := c } : Memory).Len = m.Len := rfl

/-- `Run` の中の memory の不変条件。 -/
structure Inv (m : Memory) : Prop where
  len_mod : m.Len % 32 = 0
  len_le : m.Len ≤ 0x1FFFFFFFE0
  lastGasCost_eq : m.lastGasCost = memCost (m.Len / 32)

theorem inv_New : Memory.New.Inv := ⟨rfl, by decide, rfl⟩

/-- 不変条件は長さと `lastGasCost` だけで決まる。 -/
theorem Inv.of_eq {m m' : Memory} (h : m.Inv) (hl : m'.Len = m.Len)
    (hc : m'.lastGasCost = m.lastGasCost) : m'.Inv :=
  ⟨hl ▸ h.len_mod, hl ▸ h.len_le, by rw [hc, hl]; exact h.lastGasCost_eq⟩

end Memory

/-! ## `memoryGasCost` -/

section memoryGasCost
variable {m : Memory} {n fee : Nat}

@[simp] theorem memoryGasCost_zero (m : Memory) : memoryGasCost m 0 = (m, .ok 0) := rfl

/-- `0x1FFFFFFFE0` までの大きさでは、`memoryGasCost` は word の数 `toWordSize n` の総額に
書き換えて差を課すか、何もしない。 -/
theorem memoryGasCost_of_le (hn0 : 0 < n) (hn : n ≤ 0x1FFFFFFFE0) :
    memoryGasCost m n =
      if m.Len < toWordSize n * 32 then
        ({ m with lastGasCost := memCost (toWordSize n) },
          .ok (sub64 (memCost (toWordSize n)) m.lastGasCost))
      else (m, .ok 0) := by
  unfold memoryGasCost memCost
  rw [if_neg (Nat.pos_iff_ne_zero.mp hn0), if_neg (Nat.not_lt.mpr hn)]

/-- `memoryGasCost` が `ErrGasUintOverflow` を返すのは、ちょうど大きさが `0x1FFFFFFFE0` を
超えるときである。 -/
theorem memoryGasCost_error_iff (m : Memory) (n : Nat) :
    (memoryGasCost m n).2 = .error .ErrGasUintOverflow ↔ 0x1FFFFFFFE0 < n := by
  unfold memoryGasCost
  by_cases h0 : n = 0
  · subst h0
    simp
  · by_cases hn : n > 0x1FFFFFFFE0
    · simp [h0, hn]
    · simp only [h0, hn, if_false, iff_false]
      split <;> simp

theorem memoryGasCost_le_of_ok (h : (memoryGasCost m n).2 = .ok fee) : n ≤ 0x1FFFFFFFE0 := by
  by_contra hn
  have herr := (memoryGasCost_error_iff m n).mpr (Nat.lt_of_not_le hn)
  rw [h] at herr
  cases herr

/-- 不変条件の下で、`memoryGasCost` が課す gas はちょうど新旧の総額の差である。新しい
大きさは、求めた word の数と今の word の数の大きい方で、差は負にならない。 -/
theorem memoryGasCost_fee (hm : m.Inv) (h : (memoryGasCost m n).2 = .ok fee) :
    fee = memCost (max (toWordSize n) (m.Len / 32)) - memCost (m.Len / 32) ∧
      memCost (m.Len / 32) ≤ memCost (max (toWordSize n) (m.Len / 32)) := by
  have hle : memCost (m.Len / 32) ≤ memCost (max (toWordSize n) (m.Len / 32)) :=
    memCost_mono (Nat.le_max_right _ _)
  refine ⟨?_, hle⟩
  have hn := memoryGasCost_le_of_ok h
  rcases Nat.eq_zero_or_pos n with rfl | hn0
  · cases h
    simp [toWordSize, MaxUint64]
  · rw [memoryGasCost_of_le hn0 hn] at h
    have hw : toWordSize n ≤ 0x1FFFFFFFE0 / 32 := by
      rw [toWordSize_of_le hn]
      omega
    have hlen := hm.len_mod
    split at h
    · -- 広げる：新しい word の数の方が大きい
      rename_i hlt
      have hmax : max (toWordSize n) (m.Len / 32) = toWordSize n := by omega
      cases h
      rw [hmax, hm.lastGasCost_eq]
      rw [hmax] at hle
      exact sub64_of_le hle (memCost_lt hw)
    · -- 広げない
      rename_i hge
      have hmax : max (toWordSize n) (m.Len / 32) = m.Len / 32 := by omega
      cases h
      rw [hmax, Nat.sub_self]

/-- `memoryGasCost` で総額を書き換え、`Run` が `Resize` で広げた memory（大きさが 0 なら
広げない）。 -/
def Memory.expand (m : Memory) (ms : Nat) : Memory :=
  if ms > 0 then (memoryGasCost m ms).1.Resize ms else (memoryGasCost m ms).1

/-- 32 の倍数の大きさまで広げた memory は不変条件を満たし、`lastGasCost` は課した gas だけ
増える。 -/
theorem Memory.Inv.expand (hm : m.Inv) (h32 : n % 32 = 0) (h : (memoryGasCost m n).2 = .ok fee) :
    (m.expand n).Inv ∧ (m.expand n).lastGasCost = m.lastGasCost + fee := by
  have hfee := (memoryGasCost_fee hm h).1
  have hn := memoryGasCost_le_of_ok h
  unfold Memory.expand
  rcases Nat.eq_zero_or_pos n with rfl | hn0
  · cases h
    simpa using hm
  · rw [if_pos hn0]
    have hw := toWordSize_mul hn h32
    have hlen := hm.len_mod
    rw [memoryGasCost_of_le hn0 hn] at h ⊢
    split
    · -- 長さは `n` になり、総額は `C(n / 32)` になる
      rename_i hlt
      have hmax : max (toWordSize n) (m.Len / 32) = toWordSize n := by omega
      rw [if_pos hlt] at h
      cases h
      dsimp only
      rw [hmax] at hfee
      have hsize : (Memory.Resize { m with lastGasCost := memCost (toWordSize n) } n).Len = n := by
        rw [Memory.Resize_Len, Memory.Len_with_lastGasCost]
        omega
      refine ⟨⟨by omega, by omega, ?_⟩, ?_⟩
      · rw [Memory.Resize_lastGasCost, hsize]
        show memCost (toWordSize n) = memCost (n / 32)
        congr 1
        omega
      · rw [Memory.Resize_lastGasCost]
        show memCost (toWordSize n) = m.lastGasCost + sub64 (memCost (toWordSize n)) m.lastGasCost
        have hmono := memCost_mono (show m.Len / 32 ≤ toWordSize n by omega)
        rw [hfee, hm.lastGasCost_eq]
        omega
    · -- 今の長さで足りる
      rename_i hge
      rw [if_neg hge] at h
      cases h
      dsimp only
      refine ⟨hm.of_eq ?_ (Memory.Resize_lastGasCost _ _), by simp⟩
      rw [Memory.Resize_Len]
      omega

end memoryGasCost

/-! ## gas 関数と memory -/

/-- `memoryGasCost` を呼ぶ gas 関数。 -/
def GasFunc.usesMemory : GasFunc → Bool
  | .gasExpFrontier | .gasExpEIP158 | .gasSStore | .gasSStoreEIP2200 | .gasSelfdestruct => false
  | _ => true

section dynamicGasOf
variable {env : GasEnv} {contractGas : Nat} {st : Stack} {mem : Memory} {ms cgt : Nat}

theorem callTail_mem (gas : Nat) : (callTail env contractGas st mem gas).mem = mem := by
  unfold callTail
  split <;> rfl

theorem memoryCopierGas_mem (k : Nat) :
    (memoryCopierGas k st mem ms cgt).mem = (memoryGasCost mem ms).1 := by
  unfold memoryCopierGas
  cases memoryGasCost mem ms
  rfl

theorem memoryWordGas_mem (k : Nat) :
    (memoryWordGas k st mem ms cgt).mem = (memoryGasCost mem ms).1 := by
  unfold memoryWordGas
  cases memoryGasCost mem ms
  rfl

theorem pureMemoryGascost_mem : (pureMemoryGascost mem ms cgt).mem = (memoryGasCost mem ms).1 := by
  unfold pureMemoryGascost
  cases memoryGasCost mem ms
  rfl

theorem gasCreate_mem : (gasCreate env contractGas mem ms cgt).mem = (memoryGasCost mem ms).1 := by
  unfold gasCreate
  cases memoryGasCost mem ms with
  | mk m' r =>
    cases r with
    | error e => rfl
    | ok gas =>
      dsimp only
      split
      · rfl
      · split <;> rfl

theorem gasCreate2_mem :
    (gasCreate2 env contractGas st mem ms cgt).mem = (memoryGasCost mem ms).1 := by
  unfold gasCreate2
  cases memoryGasCost mem ms with
  | mk m' r =>
    cases r with
    | error e => rfl
    | ok gas =>
      dsimp only
      split
      · rfl
      · split
        · rfl
        · split
          · rfl
          · split
            · rfl
            · split <;> rfl

theorem gasCall_mem : (gasCall env contractGas st mem ms cgt).mem = (memoryGasCost mem ms).1 := by
  unfold gasCall
  cases memoryGasCost mem ms with
  | mk m' r =>
    cases r with
    | error e => rfl
    | ok gas =>
      dsimp only
      split
      · rfl
      · exact callTail_mem _

theorem gasCallCode_mem :
    (gasCallCode env contractGas st mem ms cgt).mem = (memoryGasCost mem ms).1 := by
  unfold gasCallCode
  cases memoryGasCost mem ms with
  | mk m' r =>
    cases r with
    | error e => rfl
    | ok gas =>
      dsimp only
      split
      · rfl
      · exact callTail_mem _

theorem gasDelegateCall_mem :
    (gasDelegateCall env contractGas st mem ms cgt).mem = (memoryGasCost mem ms).1 := by
  unfold gasDelegateCall
  cases memoryGasCost mem ms with
  | mk m' r =>
    cases r with
    | error e => rfl
    | ok gas => exact callTail_mem _

/-- `makeGasLog` は長さの word が桁あふれすると memory に触れずに誤りを返す。 -/
theorem makeGasLog_mem {n c : Nat} (h : (makeGasLog n st mem ms cgt).result = .ok c) :
    (makeGasLog n st mem ms cgt).mem = (memoryGasCost mem ms).1 := by
  unfold makeGasLog at h ⊢
  dsimp only at h ⊢
  split at h
  · cases h
  · rw [if_neg ‹_›]

/-! 成功した gas 関数の中で、`memoryGasCost` は誤りを返していない。 -/

theorem memoryCopierGas_ok {k c : Nat} (h : (memoryCopierGas k st mem ms cgt).result = .ok c) :
    ∃ fee, (memoryGasCost mem ms).2 = .ok fee := by
  unfold memoryCopierGas at h
  generalize memoryGasCost mem ms = p at h ⊢
  obtain ⟨fee, hfee, -⟩ := ExceptSpec.bind_eq_ok.mp h
  exact ⟨fee, hfee⟩

theorem memoryWordGas_ok {k c : Nat} (h : (memoryWordGas k st mem ms cgt).result = .ok c) :
    ∃ fee, (memoryGasCost mem ms).2 = .ok fee := by
  unfold memoryWordGas at h
  generalize memoryGasCost mem ms = p at h ⊢
  obtain ⟨fee, hfee, -⟩ := ExceptSpec.bind_eq_ok.mp h
  exact ⟨fee, hfee⟩

theorem pureMemoryGascost_ok {c : Nat} (h : (pureMemoryGascost mem ms cgt).result = .ok c) :
    ∃ fee, (memoryGasCost mem ms).2 = .ok fee := ⟨c, h⟩

theorem makeGasLog_ok {n c : Nat} (h : (makeGasLog n st mem ms cgt).result = .ok c) :
    ∃ fee, (memoryGasCost mem ms).2 = .ok fee := by
  unfold makeGasLog at h
  dsimp only at h
  split at h
  · cases h
  · generalize memoryGasCost mem ms = p at h ⊢
    obtain ⟨fee, hfee, -⟩ := ExceptSpec.bind_eq_ok.mp h
    exact ⟨fee, hfee⟩

/-! 呼び出しと作成の gas 関数は、`memoryGasCost` の誤りをそのまま返す。 -/

theorem gasCreate_ok {c : Nat} (h : (gasCreate env contractGas mem ms cgt).result = .ok c) :
    ∃ fee, (memoryGasCost mem ms).2 = .ok fee := by
  unfold gasCreate at h
  generalize memoryGasCost mem ms = p at h ⊢
  obtain ⟨m', r⟩ := p
  cases r with
  | error e => cases h
  | ok fee => exact ⟨fee, rfl⟩

theorem gasCreate2_ok {c : Nat}
    (h : (gasCreate2 env contractGas st mem ms cgt).result = .ok c) :
    ∃ fee, (memoryGasCost mem ms).2 = .ok fee := by
  unfold gasCreate2 at h
  generalize memoryGasCost mem ms = p at h ⊢
  obtain ⟨m', r⟩ := p
  cases r with
  | error e => cases h
  | ok fee => exact ⟨fee, rfl⟩

theorem gasCall_ok {c : Nat} (h : (gasCall env contractGas st mem ms cgt).result = .ok c) :
    ∃ fee, (memoryGasCost mem ms).2 = .ok fee := by
  unfold gasCall at h
  generalize memoryGasCost mem ms = p at h ⊢
  obtain ⟨m', r⟩ := p
  cases r with
  | error e => cases h
  | ok fee => exact ⟨fee, rfl⟩

theorem gasCallCode_ok {c : Nat} (h : (gasCallCode env contractGas st mem ms cgt).result = .ok c) :
    ∃ fee, (memoryGasCost mem ms).2 = .ok fee := by
  unfold gasCallCode at h
  generalize memoryGasCost mem ms = p at h ⊢
  obtain ⟨m', r⟩ := p
  cases r with
  | error e => cases h
  | ok fee => exact ⟨fee, rfl⟩

theorem gasDelegateCall_ok {c : Nat}
    (h : (gasDelegateCall env contractGas st mem ms cgt).result = .ok c) :
    ∃ fee, (memoryGasCost mem ms).2 = .ok fee := by
  unfold gasDelegateCall at h
  generalize memoryGasCost mem ms = p at h ⊢
  obtain ⟨m', r⟩ := p
  cases r with
  | error e => cases h
  | ok fee => exact ⟨fee, rfl⟩

theorem pair_of_mem_ok {r : GasResult} {p : Memory × Except VmError Nat} (hm : r.mem = p.1)
    (hok : ∃ fee, p.2 = .ok fee) : ∃ fee, p = (r.mem, .ok fee) := by
  obtain ⟨fee, hfee⟩ := hok
  exact ⟨fee, Prod.ext hm.symm hfee⟩

/-- memory を広げる gas 関数が成功すれば、書き換えた memory は `memoryGasCost` の返した
ものであり、`memoryGasCost` は誤りを返していない。 -/
theorem dynamicGasOf_mem {g : GasFunc} (hg : g.usesMemory = true) {c : Nat}
    (h : (dynamicGasOf env contractGas st mem ms cgt g).result = .ok c) :
    ∃ fee, memoryGasCost mem ms =
      ((dynamicGasOf env contractGas st mem ms cgt g).mem, .ok fee) := by
  cases g <;> simp only [GasFunc.usesMemory, reduceCtorEq] at hg
  case gasSha3 => exact pair_of_mem_ok (memoryWordGas_mem 1) (memoryWordGas_ok h)
  case gasCallDataCopy => exact pair_of_mem_ok (memoryCopierGas_mem 2) (memoryCopierGas_ok h)
  case gasCodeCopy => exact pair_of_mem_ok (memoryCopierGas_mem 2) (memoryCopierGas_ok h)
  case gasExtCodeCopy => exact pair_of_mem_ok (memoryCopierGas_mem 3) (memoryCopierGas_ok h)
  case gasReturnDataCopy => exact pair_of_mem_ok (memoryCopierGas_mem 2) (memoryCopierGas_ok h)
  case gasMLoad => exact pair_of_mem_ok pureMemoryGascost_mem (pureMemoryGascost_ok h)
  case gasMStore => exact pair_of_mem_ok pureMemoryGascost_mem (pureMemoryGascost_ok h)
  case gasMStore8 => exact pair_of_mem_ok pureMemoryGascost_mem (pureMemoryGascost_ok h)
  case makeGasLog n => exact pair_of_mem_ok (makeGasLog_mem h) (makeGasLog_ok h)
  case gasCreate => exact pair_of_mem_ok gasCreate_mem (gasCreate_ok h)
  case gasCreate2 => exact pair_of_mem_ok gasCreate2_mem (gasCreate2_ok h)
  case gasCall => exact pair_of_mem_ok gasCall_mem (gasCall_ok h)
  case gasCallCode => exact pair_of_mem_ok gasCallCode_mem (gasCallCode_ok h)
  case gasDelegateCall => exact pair_of_mem_ok gasDelegateCall_mem (gasDelegateCall_ok h)
  case gasStaticCall => exact pair_of_mem_ok gasDelegateCall_mem (gasDelegateCall_ok h)
  case gasReturn => exact pair_of_mem_ok pureMemoryGascost_mem (pureMemoryGascost_ok h)
  case gasRevert => exact pair_of_mem_ok pureMemoryGascost_mem (pureMemoryGascost_ok h)

/-- 他の gas 関数は memory に触れない。 -/
theorem dynamicGasOf_mem_of_not {g : GasFunc} (hg : g.usesMemory = false) :
    (dynamicGasOf env contractGas st mem ms cgt g).mem = mem := by
  cases g <;> simp only [GasFunc.usesMemory, reduceCtorEq] at hg <;> rfl

end dynamicGasOf

end Vm
