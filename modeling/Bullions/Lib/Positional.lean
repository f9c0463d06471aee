import Mathlib

/-!
# 上の桁から並べた位取りの表現

基数 `b` の桁の列を上の桁から読んだ値 `value b ds`（Horner の形の `foldl`）と、自然数の最小の
表現 `repr b n`（`Nat.digits` を逆に並べたもの。0 は空の列）。性質は `Nat.ofDigits` と
`Nat.digits` から引く：

* `value_append`：列をつないだ値は、前の値を後ろの長さだけ桁上げして足したもの。
* `value_repr`、`repr_value`：先頭が 0 でない桁の列と自然数は、互いに移り合う。
* `length_repr_le_iff`：表現が `k` 桁以下であることは `b ^ k` 未満であること。
-/

namespace Positional

/-- 上の桁から読んだ値。 -/
def value (b : Nat) (ds : List Nat) : Nat := ds.foldl (fun acc d => acc * b + d) 0

/-- `n` の最小の表現。先頭の桁は 0 にならない。 -/
def repr (b n : Nat) : List Nat := (Nat.digits b n).reverse

variable {b : Nat}

@[simp] theorem value_nil : value b [] = 0 := rfl

/-- 途中の値 `acc` から読み進めた値。 -/
theorem foldl_eq (ds : List Nat) (acc : Nat) :
    ds.foldl (fun acc d => acc * b + d) acc = acc * b ^ ds.length + value b ds := by
  induction ds generalizing acc with
  | nil => simp
  | cons d ds ih =>
    have hd : value b (d :: ds) = d * b ^ ds.length + value b ds := by
      show ds.foldl _ (0 * b + d) = _
      rw [ih]
      simp
    rw [List.foldl_cons, ih, hd, List.length_cons, Nat.pow_succ]
    ring

@[simp] theorem value_cons (d : Nat) (ds : List Nat) :
    value b (d :: ds) = d * b ^ ds.length + value b ds := by
  rw [value, List.foldl_cons, foldl_eq]
  simp

theorem value_append (ds es : List Nat) :
    value b (ds ++ es) = value b ds * b ^ es.length + value b es := by
  rw [value, List.foldl_append, foldl_eq]
  rfl

@[simp] theorem value_append_singleton (ds : List Nat) (d : Nat) :
    value b (ds ++ [d]) = value b ds * b + d := by
  simp [value_append]

/-- 逆に並べた列の値は、下の桁から読んだ `Nat.ofDigits`。 -/
theorem value_eq_ofDigits (ds : List Nat) : value b ds = Nat.ofDigits b ds.reverse := by
  induction ds using List.reverseRecOn with
  | nil => rfl
  | append_singleton ds d ih =>
    rw [value_append_singleton, List.reverse_append, List.reverse_singleton, List.singleton_append,
      Nat.ofDigits_cons, ih]
    ring

theorem value_lt (hb : 1 < b) {ds : List Nat} (h : ∀ d ∈ ds, d < b) : value b ds < b ^ ds.length := by
  rw [value_eq_ofDigits, ← List.length_reverse]
  exact Nat.ofDigits_lt_base_pow_length hb (by simpa using h)

theorem value_repr (n : Nat) : value b (repr b n) = n := by
  rw [repr, value_eq_ofDigits, List.reverse_reverse, Nat.ofDigits_digits]

@[simp] theorem repr_zero : repr b 0 = [] := by simp [repr]

theorem lt_of_mem_repr (hb : 1 < b) {n d : Nat} (h : d ∈ repr b n) : d < b :=
  Nat.digits_lt_base hb (List.mem_reverse.mp h)

theorem repr_ne_nil {n : Nat} (hn : 0 < n) : repr b n ≠ [] := by
  simp [repr, Nat.digits_ne_nil_iff_ne_zero, hn.ne']

/-- 正の数の表現の先頭の桁は 0 でない。 -/
theorem head_repr_ne_zero (n : Nat) : (repr b n).head? ≠ some 0 := by
  rcases Nat.eq_zero_or_pos n with rfl | hn
  · simp
  · have hne := (Nat.digits_ne_nil_iff_ne_zero (b := b)).mpr hn.ne'
    rw [repr, List.head?_reverse, List.getLast?_eq_some_getLast hne, Ne, Option.some_inj]
    exact Nat.getLast_digit_ne_zero b hn.ne'

/-- 先頭が 0 でない桁の列は、その値の最小の表現である。 -/
theorem repr_value (hb : 1 < b) {ds : List Nat} (h : ∀ d ∈ ds, d < b) (h0 : ds.head? ≠ some 0) :
    repr b (value b ds) = ds := by
  -- 下から読んだ桁の最後が、列の先頭の桁
  have hlast : ∀ hne : ds.reverse ≠ [], ds.reverse.getLast hne ≠ 0 := by
    intro hne
    have hne' : ds ≠ [] := by simpa using hne
    rw [List.getLast_reverse]
    intro hd
    apply h0
    rw [List.head?_eq_some_head hne', hd]
  rw [repr, value_eq_ofDigits, Nat.digits_ofDigits b hb _ (by simpa using h) hlast,
    List.reverse_reverse]

/-- 一桁に収まる正の数の表現は、その桁だけ。 -/
theorem repr_of_lt {n : Nat} (hn : 0 < n) (h : n < b) : repr b n = [n] := by
  rw [repr, Nat.digits_of_lt b n hn.ne' h]
  rfl

/-- `b` 以上の数の表現は、`b` で割った商の表現の後に、余りの桁を足したもの。 -/
theorem repr_of_le (hb : 1 < b) {n : Nat} (h : b ≤ n) : repr b n = repr b (n / b) ++ [n % b] := by
  rw [repr, Nat.digits_def' hb (by omega), List.reverse_cons]
  rfl

theorem length_repr_le_iff (hb : 1 < b) (n k : Nat) : (repr b n).length ≤ k ↔ n < b ^ k := by
  rw [repr, List.length_reverse]
  exact Nat.digits_length_le_iff hb n

end Positional
