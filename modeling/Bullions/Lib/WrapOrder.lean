import Mathlib

/-!
# 桁あふれする `int64` の引き算の順

Go の `int64` で「`a - b > 0` なら `a` が先」とする比べ方は、引き算が `2 ^ 64` で回るので、
全体では順にならない。基準 `b` からの距離 `(x - b).toInt` が負でない値（`b` から `2 ^ 63`
未満の窓に入る値）の間では、引き算は回らず、比べ方は距離の比べ方に一致する。

* `toInt_sub_of_inWindow`：窓の中の二つの値の差は、距離の差。
* `sub_pos_iff_of_inWindow`：窓の中では `x - y > 0` は `y` の距離が `x` の距離より小さいこと。
* `key b x`：距離の大きい方を小さくする鍵（`OrderDual Int`）。`key b x < key b y` は `x - y > 0`。
-/

namespace WrapOrder

/-- `x` は基準 `b` からの窓に入る：`x - b` が `int64` で負でない。 -/
def InWindow (b x : Int64) : Prop := 0 ≤ (x - b).toInt

variable {b x y : Int64}

/-- 窓の中の二つの値の差は回らない。 -/
theorem toInt_sub_of_inWindow (hx : InWindow b x) (hy : InWindow b y) :
    (x - y).toInt = (x - b).toInt - (y - b).toInt := by
  have hxy : x.toInt - y.toInt = (x.toInt - b.toInt) - (y.toInt - b.toInt) := by omega
  have hxb := Int64.toInt_lt (x - b)
  have hyb := Int64.toInt_lt (y - b)
  rw [Int64.toInt_sub, hxy, Int.sub_bmod, ← Int64.toInt_sub, ← Int64.toInt_sub]
  unfold InWindow at hx hy
  have hm : ((2 ^ 64 : Nat) : Int) = 2 ^ 64 := by rw [Int.natCast_pow]; rfl
  apply Int.bmod_eq_of_le <;> rw [hm] <;> omega

theorem sub_pos_iff_of_inWindow (hx : InWindow b x) (hy : InWindow b y) :
    0 < x - y ↔ (y - b).toInt < (x - b).toInt := by
  rw [Int64.lt_iff_toInt_lt, Int64.toInt_zero, toInt_sub_of_inWindow hx hy]
  omega

/-- 窓の中の順の鍵：基準からの距離の大きい方が小さい。 -/
def key (b x : Int64) : OrderDual Int := OrderDual.toDual (x - b).toInt

theorem key_lt_iff (hx : InWindow b x) (hy : InWindow b y) : key b x < key b y ↔ 0 < x - y := by
  rw [sub_pos_iff_of_inWindow hx hy, key, key, OrderDual.toDual_lt_toDual]

theorem key_le_iff (hx : InWindow b x) (hy : InWindow b y) :
    key b x ≤ key b y ↔ ¬ (0 < y - x) := by
  rw [← not_lt, key_lt_iff hy hx]

end WrapOrder
