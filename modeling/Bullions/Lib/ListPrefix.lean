import Mathlib

/-!
# 共通接頭辞の長さ

二つの列が先頭から何個一致するか。基数木の挿入と削除は、この値で節を分けるか
子へ降りるかを決める。ここでは要素の型を問わずに定義し、木の証明が使う形の
補題だけを置く。

* `commonPrefixLen_le_left` / `commonPrefixLen_le_right` — 両方の長さで抑えられる
* `take_commonPrefixLen` — そこまでは両者が一致する
* `getElem_ne_of_commonPrefixLen` — 両方に続きがあれば、その次の要素は異なる
* `commonPrefixLen_eq_length_iff` — 左の長さに届くのは左が右の接頭辞のときに限る
-/

namespace List

variable {α : Type*} [DecidableEq α]

/-- 先頭から一致する要素の個数。 -/
def commonPrefixLen : List α → List α → Nat
  | a :: as, b :: bs => if a = b then commonPrefixLen as bs + 1 else 0
  | _, _ => 0

@[simp] theorem commonPrefixLen_nil_left (l : List α) : commonPrefixLen [] l = 0 := rfl

@[simp] theorem commonPrefixLen_nil_right (l : List α) : commonPrefixLen l [] = 0 := by
  cases l <;> rfl

theorem commonPrefixLen_cons (a b : α) (as bs : List α) :
    commonPrefixLen (a :: as) (b :: bs) = if a = b then commonPrefixLen as bs + 1 else 0 := rfl

@[simp] theorem commonPrefixLen_cons_self (a : α) (as bs : List α) :
    commonPrefixLen (a :: as) (a :: bs) = commonPrefixLen as bs + 1 := by
  simp [commonPrefixLen_cons]

theorem commonPrefixLen_comm : ∀ (l₁ l₂ : List α), commonPrefixLen l₁ l₂ = commonPrefixLen l₂ l₁
  | [], l => by simp
  | a :: as, [] => rfl
  | a :: as, b :: bs => by
    simp only [commonPrefixLen_cons, commonPrefixLen_comm as bs]
    by_cases h : a = b
    · simp [h]
    · simp [h, Ne.symm h]

theorem commonPrefixLen_le_left : ∀ (l₁ l₂ : List α), commonPrefixLen l₁ l₂ ≤ l₁.length
  | [], _ => by simp
  | _ :: _, [] => by simp
  | a :: as, b :: bs => by
    rw [commonPrefixLen_cons]
    split
    · have := commonPrefixLen_le_left as bs
      simp; omega
    · simp

theorem commonPrefixLen_le_right (l₁ l₂ : List α) : commonPrefixLen l₁ l₂ ≤ l₂.length := by
  rw [commonPrefixLen_comm]
  exact commonPrefixLen_le_left l₂ l₁

/-- 共通接頭辞の長さまでは、両者は同じ列である。 -/
theorem take_commonPrefixLen : ∀ (l₁ l₂ : List α),
    l₁.take (commonPrefixLen l₁ l₂) = l₂.take (commonPrefixLen l₁ l₂)
  | [], _ => by simp
  | _ :: _, [] => by simp
  | a :: as, b :: bs => by
    rw [commonPrefixLen_cons]
    split
    · next h =>
      subst h
      simp [take_commonPrefixLen as bs]
    · simp

/-- 一致が両方の長さより手前で止まったなら、そこで二つの要素は食い違う。 -/
theorem getElem_ne_of_commonPrefixLen : ∀ (l₁ l₂ : List α) (h₁ : commonPrefixLen l₁ l₂ < l₁.length)
    (h₂ : commonPrefixLen l₁ l₂ < l₂.length),
    l₁[commonPrefixLen l₁ l₂] ≠ l₂[commonPrefixLen l₁ l₂]
  | [], _, h₁, _ => by simp at h₁
  | _ :: _, [], _, h₂ => by simp at h₂
  | a :: as, b :: bs, h₁, h₂ => by
    by_cases h : a = b
    · subst h
      simp only [commonPrefixLen_cons_self, length_cons, Nat.add_lt_add_iff_right] at h₁ h₂
      simpa using getElem_ne_of_commonPrefixLen as bs h₁ h₂
    · simp [commonPrefixLen_cons, h]

/-- 共通部分が左の全体に届くのは、左が右の接頭辞のときに限る。 -/
theorem commonPrefixLen_eq_length_iff : ∀ (l₁ l₂ : List α),
    commonPrefixLen l₁ l₂ = l₁.length ↔ l₁ <+: l₂
  | [], l => by simp
  | a :: as, [] => by simp
  | a :: as, b :: bs => by
    by_cases h : a = b
    · subst h
      simp [commonPrefixLen_eq_length_iff as bs]
    · simp [commonPrefixLen_cons, h]

/-- 左が右の接頭辞なら、共通部分は左の全体である。 -/
theorem commonPrefixLen_of_prefix {l₁ l₂ : List α} (h : l₁ <+: l₂) :
    commonPrefixLen l₁ l₂ = l₁.length :=
  (commonPrefixLen_eq_length_iff l₁ l₂).mpr h

/-- 同じ接頭辞を足すと、その長さだけ伸びる。 -/
@[simp] theorem commonPrefixLen_append_left : ∀ (c l₁ l₂ : List α),
    commonPrefixLen (c ++ l₁) (c ++ l₂) = c.length + commonPrefixLen l₁ l₂
  | [], _, _ => by simp
  | x :: c, l₁, l₂ => by
    simp only [cons_append, commonPrefixLen_cons_self, commonPrefixLen_append_left c, length_cons]
    omega

end List
