import Mathlib

/-!
# 列を key とする写像の枝分かれ

key が列である部分写像 `f : List α → Option β` について、値のある key の最長共通接頭辞を、
集合を作らずに二つの述語で述べる。

* `Under f p` — 値のある key はどれも `p` で始まる
* `Splits f p` — `p` の直後で異なる要素に分かれる二つの key に値がある

両方を満たす `p` は一つしかない（`Under.eq_of_splits`）。基数木の正準形では、枝分かれの
節の位置がこの `p` であり、写像から木の形が決まることの要になる。
-/

namespace PrefixMap

variable {α β : Type*}

/-- 値のある key はどれも `p` で始まる。 -/
def Under (f : List α → Option β) (p : List α) : Prop :=
  ∀ r, f r ≠ none → p <+: r

/-- `p` の直後で異なる要素に分かれる二つの key に値がある。 -/
def Splits (f : List α → Option β) (p : List α) : Prop :=
  ∃ i j r s, i ≠ j ∧ f (p ++ i :: r) ≠ none ∧ f (p ++ j :: s) ≠ none

/-- 異なる要素で分かれる二つの列の共通の接頭辞は、分かれる前の部分の接頭辞である。 -/
theorem prefix_of_prefix_cons {q p r s : List α} {i j : α} (h₁ : q <+: p ++ i :: r)
    (h₂ : q <+: p ++ j :: s) (hij : i ≠ j) : q <+: p := by
  by_cases hl : q.length ≤ p.length
  · exact List.prefix_of_prefix_length_le h₁ (List.prefix_append p _) hl
  · -- `q` が分かれ目を越えるなら、`p ++ [i]` と `p ++ [j]` がともに `q` の先頭になる
    have hi : p ++ [i] <+: q :=
      List.prefix_of_prefix_length_le (by simp) h₁ (by simp; omega)
    have hj : p ++ [j] <+: q :=
      List.prefix_of_prefix_length_le (by simp) h₂ (by simp; omega)
    rw [List.prefix_iff_eq_take] at hi hj
    simp only [List.length_append, List.length_singleton] at hi hj
    have h := hi.trans hj.symm
    simp only [List.append_cancel_left_eq, List.cons.injEq, and_true] at h
    exact absurd h hij

/-- 枝分かれの位置より手前でしか、すべての key の接頭辞になれない。 -/
theorem Under.prefix_of_splits {f : List α → Option β} {p q : List α} (hu : Under f q)
    (hs : Splits f p) : q <+: p := by
  obtain ⟨i, j, r, s, hij, hr, hs⟩ := hs
  exact prefix_of_prefix_cons (hu _ hr) (hu _ hs) hij

/-- **枝分かれの位置は一つしかない。** -/
theorem Under.eq_of_splits {f : List α → Option β} {p q : List α} (hu : Under f p)
    (hs : Splits f p) (hu' : Under f q) (hs' : Splits f q) : p = q := by
  have h₁ : p <+: q := hu.prefix_of_splits hs'
  have h₂ : q <+: p := hu'.prefix_of_splits hs
  exact h₁.eq_of_length (Nat.le_antisymm h₁.length_le h₂.length_le)

/-- 枝分かれがあれば、値のある key は二つ以上ある。 -/
theorem Splits.two_keys {f : List α → Option β} {p : List α} (hs : Splits f p) :
    ∃ r₁ r₂, r₁ ≠ r₂ ∧ f r₁ ≠ none ∧ f r₂ ≠ none := by
  obtain ⟨i, j, r, s, hij, hr, hs⟩ := hs
  exact ⟨_, _, by simp [hij], hr, hs⟩

end PrefixMap
