import Mathlib

/-!
# 同じ長さの block に分けた列

長さ `m` の block を並べた列 `L` をつないだ列 `L.flatten` では、位置 `b * m + o`（`o < m`）は
`b` 番目の block の `o` 番目である。block の一つの位置に書くことは、つないだ列のその位置に
書くことである。
-/

namespace Chunked

variable {α : Type} {m : Nat}

/-- どの block も長さ `m`。 -/
def Uniform (m : Nat) (L : List (List α)) : Prop := ∀ l ∈ L, l.length = m

theorem Uniform.cons {l : List α} {L : List (List α)} (h : Uniform m (l :: L)) :
    l.length = m ∧ Uniform m L :=
  ⟨h l List.mem_cons_self, fun l' hl' => h l' (List.mem_cons_of_mem l hl')⟩

theorem Uniform.append {L : List (List α)} (h : Uniform m L) {l : List α} (hl : l.length = m) :
    Uniform m (L ++ [l]) := by
  intro l' hl'
  rcases List.mem_append.mp hl' with h' | h'
  · exact h l' h'
  · rw [List.mem_singleton.mp h', hl]

theorem Uniform.set {L : List (List α)} (h : Uniform m L) (b o : Nat) (x : α) :
    Uniform m (L.set b ((L.getD b []).set o x)) := by
  intro l hl
  rcases List.mem_or_eq_of_mem_set hl with h' | rfl
  · exact h l h'
  · by_cases hb : b < L.length
    · rw [List.length_set, List.getD_eq_getElem?_getD, List.getElem?_eq_getElem hb,
        Option.getD_some]
      exact h _ (List.getElem_mem hb)
    · -- 範囲の外に書いても列は変わらない
      rw [List.set_eq_of_length_le (by omega)] at hl
      exact h _ hl

theorem length_flatten {L : List (List α)} (h : Uniform m L) : L.flatten.length = m * L.length := by
  induction L with
  | nil => simp
  | cons l L ih =>
    obtain ⟨hl, hL⟩ := h.cons
    rw [List.flatten_cons, List.length_append, ih hL, hl, List.length_cons, Nat.mul_succ]
    omega

/-- つないだ列の位置 `b * m + o` は、`b` 番目の block の `o` 番目。 -/
theorem getElem?_flatten {L : List (List α)} (h : Uniform m L) (b : Nat) {o : Nat} (ho : o < m) :
    L.flatten[b * m + o]? = L[b]?.bind (fun l => l[o]?) := by
  induction L generalizing b with
  | nil => simp
  | cons l L ih =>
    obtain ⟨hl, hL⟩ := h.cons
    rw [List.flatten_cons]
    cases b with
    | zero =>
      rw [Nat.zero_mul, Nat.zero_add, List.getElem?_append_left (by omega)]
      rfl
    | succ b =>
      rw [List.getElem?_append_right (by rw [hl, Nat.succ_mul]; omega), hl,
        show (b + 1) * m + o - m = b * m + o by rw [Nat.succ_mul]; omega, ih hL b]
      rfl

/-- `b` 番目の block の `o` 番目に書くことは、つないだ列の `b * m + o` に書くこと。 -/
theorem flatten_set {L : List (List α)} (h : Uniform m L) (b : Nat) {o : Nat} (ho : o < m)
    (x : α) : (L.set b ((L.getD b []).set o x)).flatten = L.flatten.set (b * m + o) x := by
  induction L generalizing b with
  | nil => simp
  | cons l L ih =>
    obtain ⟨hl, hL⟩ := h.cons
    cases b with
    | zero =>
      rw [List.set_cons_zero, List.flatten_cons, List.flatten_cons, Nat.zero_mul, Nat.zero_add,
        List.set_append_left o x (by omega)]
      rfl
    | succ b =>
      rw [List.set_cons_succ, List.flatten_cons, List.flatten_cons,
        List.set_append_right _ x (by rw [hl, Nat.succ_mul]; omega), hl,
        show (b + 1) * m + o - m = b * m + o by rw [Nat.succ_mul]; omega, ← ih hL b]
      rfl

end Chunked
