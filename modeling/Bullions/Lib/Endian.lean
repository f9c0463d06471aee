import Mathlib

/-!
# 固定幅の整数と byte 列（Go の `encoding/binary`）

`binary.LittleEndian` と `binary.BigEndian` の 32 bit と 64 bit の読み書き。書く側は整数を
4（8）byte の列にし、読む側は列の先頭の 4 byte を読む。Go は 4 byte に満たない列を読むと
panic するが、ここでは足りない byte を 0 と読む。使う側はいつも 4 byte 以上の列を読む。

どちらの順でも、書いてから読むと元の値に戻る（`uint32LE_putUint32LE`、
`uint32BE_putUint32BE`）。二つは同じ式、四つの byte を組み直す式に帰着する
（`join_bytes`）。
-/

namespace Endian

/-- `binary.LittleEndian.PutUint32`：下位の byte から 4 byte。 -/
def putUint32LE (v : UInt32) : List UInt8 :=
  [v.toUInt8, (v >>> 8).toUInt8, (v >>> 16).toUInt8, (v >>> 24).toUInt8]

/-- `binary.BigEndian.PutUint32`：上位の byte から 4 byte。 -/
def putUint32BE (v : UInt32) : List UInt8 :=
  [(v >>> 24).toUInt8, (v >>> 16).toUInt8, (v >>> 8).toUInt8, v.toUInt8]

/-- `binary.LittleEndian.PutUint64`。 -/
def putUint64LE (v : UInt64) : List UInt8 :=
  [v.toUInt8, (v >>> 8).toUInt8, (v >>> 16).toUInt8, (v >>> 24).toUInt8,
    (v >>> 32).toUInt8, (v >>> 40).toUInt8, (v >>> 48).toUInt8, (v >>> 56).toUInt8]

/-- `binary.LittleEndian.Uint32`：先頭の 4 byte を下位から読む。 -/
def uint32LE (b : List UInt8) : UInt32 :=
  (b.getD 0 0).toUInt32 ||| (b.getD 1 0).toUInt32 <<< 8 ||| (b.getD 2 0).toUInt32 <<< 16 |||
    (b.getD 3 0).toUInt32 <<< 24

/-- `binary.BigEndian.Uint32`：先頭の 4 byte を上位から読む。 -/
def uint32BE (b : List UInt8) : UInt32 :=
  (b.getD 3 0).toUInt32 ||| (b.getD 2 0).toUInt32 <<< 8 ||| (b.getD 1 0).toUInt32 <<< 16 |||
    (b.getD 0 0).toUInt32 <<< 24

@[simp] theorem length_putUint32LE (v : UInt32) : (putUint32LE v).length = 4 := rfl

@[simp] theorem length_putUint32BE (v : UInt32) : (putUint32BE v).length = 4 := rfl

/-- 四つの byte に分けて組み直すと元の値。bit ごとに、どの byte の bit かで場合を分ける。 -/
theorem join_bytes (v : UInt32) :
    v.toUInt8.toUInt32 ||| (v >>> 8).toUInt8.toUInt32 <<< 8 |||
      (v >>> 16).toUInt8.toUInt32 <<< 16 ||| (v >>> 24).toUInt8.toUInt32 <<< 24 = v := by
  apply UInt32.toBitVec_inj.mp
  apply BitVec.eq_of_getLsbD_eq
  intro i hi
  -- shift の量は `% 32` を通して現れるので、先に数にしておく
  have h8 : UInt32.toBitVec 8 % 32 = 8#32 := rfl
  have h16 : UInt32.toBitVec 16 % 32 = 16#32 := rfl
  have h24 : UInt32.toBitVec 24 % 32 = 24#32 := rfl
  simp only [UInt32.toBitVec_or, UInt32.toBitVec_shiftLeft, UInt8.toBitVec_toUInt32,
    UInt32.toBitVec_toUInt8, UInt32.toBitVec_shiftRight, h8, h16, h24, BitVec.shiftLeft_eq',
    BitVec.ushiftRight_eq', BitVec.getLsbD_or, BitVec.getLsbD_shiftLeft, BitVec.getLsbD_setWidth,
    BitVec.getLsbD_ushiftRight, BitVec.toNat_ofNat]
  obtain h | ⟨h1, h2⟩ | ⟨h1, h2⟩ | ⟨h1, h2⟩ :
      i < 8 ∨ (8 ≤ i ∧ i < 16) ∨ (16 ≤ i ∧ i < 24) ∨ (24 ≤ i ∧ i < 32) := by omega
  · simp [hi, h, show i < 16 by omega, show i < 24 by omega]
  · simp [hi, h2, show ¬ i < 8 by omega, show i - 8 < 8 by omega, Nat.add_sub_cancel' h1,
      show i < 24 by omega, show i - 8 < 32 by omega]
  · simp [hi, show ¬ i < 8 by omega, show ¬ i < 16 by omega, show ¬ i - 8 < 8 by omega,
      show i - 16 < 8 by omega, Nat.add_sub_cancel' h1, show i < 24 by omega,
      show i - 16 < 32 by omega]
  · simp [hi, show ¬ i < 8 by omega, show ¬ i < 16 by omega, show ¬ i < 24 by omega,
      show ¬ i - 8 < 8 by omega, show ¬ i - 16 < 8 by omega, show i - 24 < 8 by omega,
      Nat.add_sub_cancel' h1, show i - 24 < 32 by omega]

theorem uint32LE_putUint32LE (v : UInt32) : uint32LE (putUint32LE v) = v := join_bytes v

theorem uint32BE_putUint32BE (v : UInt32) : uint32BE (putUint32BE v) = v := join_bytes v

/-- 読むのは先頭の 4 byte だけである。 -/
theorem uint32LE_append {b : List UInt8} (hb : 4 ≤ b.length) (c : List UInt8) :
    uint32LE (b ++ c) = uint32LE b := by
  simp only [uint32LE, List.getD_eq_getElem?_getD, List.getElem?_append_left (by omega : 0 < b.length),
    List.getElem?_append_left (by omega : 1 < b.length),
    List.getElem?_append_left (by omega : 2 < b.length),
    List.getElem?_append_left (by omega : 3 < b.length)]

/-- 0 の byte だけの列は 0 と読む。 -/
theorem uint32LE_replicate_zero (k : Nat) : uint32LE (List.replicate k 0) = 0 := by
  simp only [uint32LE, List.getD_eq_getElem?_getD, List.getElem?_getD_replicate_default_eq]
  rfl

end Endian
