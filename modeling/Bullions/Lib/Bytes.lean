import Mathlib

/-!
# byte 列と big-endian の整数

byte 列は `List UInt8` で表す。Go の `[]byte` は長さと中身だけが意味を持つので、
容量や共有は考えない。

自然数を上位の byte から並べた最小の列（先頭が 0 でない列）と、その読み戻し。
長さの header や整数の符号化はこの形を使う。0 は空の列になる。

`beBytes` は `Nat.digits 256` を逆に並べたものなので、性質はそこから引く：読み戻すと元の数
（`beValue_beBytes`）、先頭が 0 でない列は `beBytes` の像（`beBytes_beValue`）、長さが `k`
以下であることは `256 ^ k` 未満であること（`length_beBytes_le_iff`）。
-/

/-- byte 列。 -/
abbrev Bytes := List UInt8

namespace Bytes

/-- 上位の byte から読んだ値。 -/
def beValue (bs : Bytes) : Nat := bs.foldl (fun acc b => acc * 256 + b.toNat) 0

/-- 最小の big-endian 表現。先頭の byte は 0 にならない。 -/
def beBytes (n : Nat) : Bytes := ((Nat.digits 256 n).map UInt8.ofNat).reverse

@[simp] theorem beValue_nil : beValue [] = 0 := rfl

theorem beValue_append_singleton (bs : Bytes) (b : UInt8) :
    beValue (bs ++ [b]) = beValue bs * 256 + b.toNat := by
  simp [beValue, List.foldl_append]

/-- 逆に並べた列の値は、下位の桁から読んだ `Nat.ofDigits`。 -/
theorem beValue_reverse (l : Bytes) : beValue l.reverse = Nat.ofDigits 256 (l.map UInt8.toNat) := by
  induction l with
  | nil => rfl
  | cons b l ih =>
    rw [List.reverse_cons, beValue_append_singleton, ih, List.map_cons, Nat.ofDigits_cons]
    ring

theorem beValue_lt (bs : Bytes) : beValue bs < 256 ^ bs.length := by
  rw [← List.reverse_reverse bs, beValue_reverse, List.length_reverse,
    ← List.length_map (f := UInt8.toNat)]
  exact Nat.ofDigits_lt_base_pow_length (by norm_num) (by simpa using fun a _ => a.toNat_lt)

theorem beValue_beBytes (n : Nat) : beValue (beBytes n) = n := by
  have hdig : ∀ d ∈ Nat.digits 256 n, (UInt8.toNat ∘ UInt8.ofNat) d = d := fun d hd =>
    Nat.mod_eq_of_lt (Nat.digits_lt_base (by norm_num) hd)
  rw [beBytes, beValue_reverse, List.map_map, List.map_congr_left hdig, List.map_id',
    Nat.ofDigits_digits]

/-- 先頭が 0 でない列は、その値の最小の表現である。 -/
theorem beBytes_beValue {bs : Bytes} (h : bs.head? ≠ some 0) : beBytes (beValue bs) = bs := by
  have hlt : ∀ d ∈ bs.reverse.map UInt8.toNat, d < 256 := by
    simpa using fun a _ => a.toNat_lt
  -- 下位から読んだ桁の最後が、列の先頭の byte
  have hlast : ∀ hne : bs.reverse.map UInt8.toNat ≠ [],
      (bs.reverse.map UInt8.toNat).getLast hne ≠ 0 := by
    intro hne
    cases bs with
    | nil => simp at hne
    | cons b rest =>
      simp only [List.head?_cons, ne_eq, Option.some.injEq] at h
      simp only [List.reverse_cons, List.map_append, List.map_cons, List.map_nil]
      intro hb
      exact h (UInt8.toNat_inj.mp (by simpa using hb))
  rw [← List.reverse_reverse bs, beValue_reverse, beBytes,
    Nat.digits_ofDigits 256 (by norm_num) _ hlt hlast, List.map_map]
  have hid : (UInt8.ofNat ∘ UInt8.toNat) = id := funext fun b => UInt8.ofNat_toNat
  rw [hid, List.map_id, List.reverse_reverse]

theorem length_beBytes_le_iff (n k : Nat) : (beBytes n).length ≤ k ↔ n < 256 ^ k := by
  rw [beBytes, List.length_reverse, List.length_map]
  exact Nat.digits_length_le_iff (by norm_num) n

theorem head_beBytes_ne_zero (n : Nat) : (beBytes n).head? ≠ some 0 := by
  rcases Nat.eq_zero_or_pos n with rfl | hn
  · simp [beBytes]
  · have hne := (Nat.digits_ne_nil_iff_ne_zero (b := 256)).mpr hn.ne'
    have hlast := Nat.getLast_digit_ne_zero 256 hn.ne'
    have hlt := Nat.digits_lt_base (b := 256) (by norm_num) (List.getLast_mem hne)
    rw [beBytes, List.head?_reverse, List.getLast?_map, List.getLast?_eq_some_getLast hne]
    simp only [Option.map_some, ne_eq, Option.some.injEq]
    intro h0
    apply hlast
    have := congrArg UInt8.toNat h0
    simpa [Nat.mod_eq_of_lt hlt] using this

/-- tag に小さな数を足しても桁あふれしなければ、値はそのまま足される。 -/
theorem toNat_add_toUInt8 {a : UInt8} {n : Nat} (h : a.toNat + n < 256) :
    (a + n.toUInt8).toNat = a.toNat + n := by
  rw [UInt8.toNat_add]
  simp
  omega

theorem beBytes_ne_nil {n : Nat} (hn : 0 < n) : beBytes n ≠ [] := by
  simp [beBytes, Nat.digits_ne_nil_iff_ne_zero, hn.ne']

/-- 正の数の表現は、`256` で割った商の表現の後に、余りの byte を足したもの。 -/
theorem beBytes_of_pos {n : Nat} (hn : 0 < n) :
    beBytes n = beBytes (n / 256) ++ [(n % 256).toUInt8] := by
  rw [beBytes, Nat.digits_def' (by norm_num) hn, List.map_cons, List.reverse_cons]
  rfl

/-- 一 byte に収まる正の数の表現は、その byte だけ。 -/
theorem beBytes_of_lt {n : Nat} (hn : 0 < n) (h : n < 256) : beBytes n = [n.toUInt8] := by
  rw [beBytes_of_pos hn, Nat.div_eq_of_lt h, Nat.mod_eq_of_lt h]
  simp [beBytes]

/-- 表現の byte 数は、bit 数を 8 で割って切り上げたもの。 -/
theorem length_beBytes (n : Nat) : (beBytes n).length = (n.size + 7) / 8 := by
  have h256 : ∀ k, 256 ^ k = 2 ^ (8 * k) := fun k => by rw [Nat.pow_mul]
  apply Nat.le_antisymm
  · rw [length_beBytes_le_iff, h256]
    calc n < 2 ^ n.size := Nat.lt_size_self n
      _ ≤ 2 ^ (8 * ((n.size + 7) / 8)) := Nat.pow_le_pow_right (by norm_num) (by omega)
  · have h := (length_beBytes_le_iff n (beBytes n).length).mp le_rfl
    rw [h256] at h
    have hs : n.size ≤ 8 * (beBytes n).length := Nat.size_le.mpr h
    omega

end Bytes
