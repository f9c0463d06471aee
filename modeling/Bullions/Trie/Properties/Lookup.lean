import Bullions.Trie.Spec

set_option linter.dupNamespace false

/-!
# 正準形の木を引く

`tryGet` は正準形の木を終端付きの key で引くとき、読み込みも panic も起こさず
`Node.get` の値を返す（`tryGetStep_get`）。

再帰の途中の node は二種類の位置に現れる。key を使い切った位置（`fullNode` の枠 16、
終端付きの key を持つ `shortNode` の子）には nil か値が、それ以外の位置には nil か
正準形が来る。`Fits` はこの対応を述べる。
-/

namespace Trie

open Node

/-- `rest` で引かれる位置にふさわしい node。 -/
def Fits (n : Node) (rest : Nibbles) : Prop :=
  (rest = [] ∧ (n = .nil ∨ ∃ v, n = .value v)) ∨ (Term rest ∧ RootCanon n)

theorem Fits.of_term {n : Node} {rest : Nibbles} (h : Fits n rest) (hr : Term rest) :
    RootCanon n := by
  rcases h with ⟨rfl, -⟩ | ⟨-, hn⟩
  · exact absurd hr not_term_nil
  · exact hn

theorem Fits.of_nil {n : Node} (h : Fits n []) : n = .nil ∨ ∃ v, n = .value v := by
  rcases h with ⟨-, hn⟩ | ⟨hr, -⟩
  · exact hn
  · exact absurd hr not_term_nil

/-- 空でない key の位置にあるなら、その key は終端付きである。 -/
theorem Fits.term_of_cons {n : Node} {x : Nibble} {xs : Nibbles} (h : Fits n (x :: xs)) :
    Term (x :: xs) := by
  rcases h with ⟨h, -⟩ | ⟨hr, -⟩
  · cases h
  · exact hr

/-! ## 正準形の形から読めること -/

/-- 正準な `shortNode` は葉か延長のどちらかである。 -/
theorem Canon.short_cases {k : Nibbles} {v : Node} (h : Canon (.short k v)) :
    (Term k ∧ ∃ a, v = .value a) ∨
      (k ≠ [] ∧ 16 ∉ k ∧ ∃ cs, v = .full cs ∧ Canon (.full cs)) := by
  cases h with
  | leaf hk => exact Or.inl ⟨hk, _, rfl⟩
  | ext hne hk hc => exact Or.inr ⟨hne, hk, _, rfl, hc⟩

/-- 正準な `fullNode` の子は、その添字の位置にふさわしい。 -/
theorem Canon.fits_child {cs : Fin 17 → Node} (h : Canon (.full cs)) {i : Nibble}
    {r : Nibbles} (hr : Term (i :: r)) : Fits (cs i) r := by
  cases h with
  | full hc hv h2 =>
    rcases term_cons.mp hr with ⟨rfl, rfl⟩ | ⟨hi, hr'⟩
    · exact Or.inl ⟨rfl, hv⟩
    · refine Or.inr ⟨hr', ?_⟩
      by_cases hn : cs i = .nil
      · exact Or.inl hn
      · exact Or.inr (hc i hi hn)

/-- 正準な `shortNode` の key を全部たどった先は、残りの key の位置にふさわしい。 -/
theorem Canon.fits_val {k : Nibbles} {v : Node} (h : Canon (.short k v)) {rest : Nibbles}
    (hr : Term rest) (hp : k <+: rest) : Fits v (rest.drop k.length) := by
  obtain ⟨s, rfl⟩ := hp
  rw [List.drop_left]
  rcases h.short_cases with ⟨hk, a, rfl⟩ | ⟨-, hk, cs, rfl, hc⟩
  · have hs : s = [] := by
      simpa using (hk.eq_of_prefix hr (List.prefix_append k s))
    subst hs
    exact Or.inl ⟨rfl, Or.inr ⟨a, rfl⟩⟩
  · have hs : s ≠ [] := by
      rintro rfl
      exact hk (by simpa using hr.mem)
    exact Or.inr ⟨((term_append hs).mp hr).2, Or.inr hc⟩

/-- 正準形は値の枠の node（nil、値）ではない。 -/
theorem Canon.ne_value {n : Node} (h : Canon n) (a : Bytes) : n ≠ .value a := by
  cases h <;> simp

theorem Canon.ne_nil {n : Node} (h : Canon n) : n ≠ .nil := by
  cases h <;> simp

/-! ## `tryGet` -/

section
variable {db : NodeReader} {again : Node → Nibbles → Nibbles → GetResult}

/--
**正準形の木を引く。** ふさわしい位置にある読み込みの要らない node を引くと、
node は変わらず、値は `Node.get` である。
-/
theorem tryGetStep_get : ∀ (n : Node) (pre rest : Nibbles), Fits n rest → HashFree n →
    tryGetStep db again n pre rest = .ok (n.get rest, n, false)
  | .nil, _, _, _, _ => rfl
  | .value a, pre, rest, hfit, _ => by
    rcases hfit with ⟨rfl, -⟩ | ⟨-, hc⟩
    · rfl
    · rcases hc with h | h
      · cases h
      · exact absurd rfl (h.ne_value a)
  | .short k v, pre, rest, hfit, hfree => by
    rcases hfit with ⟨rfl, h | ⟨a, h⟩⟩ | ⟨hr, h | h⟩
    · cases h
    · cases h
    · cases h
    · simp only [tryGetStep, get_short, List.isPrefixOf_iff_prefix]
      by_cases hp : k <+: rest
      · rw [if_pos hp, if_pos hp,
          tryGetStep_get v (pre ++ k) (rest.drop k.length) (h.fits_val hr hp) hfree]
      · rw [if_neg hp, if_neg hp]
  | .full cs, pre, rest, hfit, hfree => by
    have hr : Term rest := by
      rcases hfit with ⟨rfl, h | ⟨a, h⟩⟩ | ⟨hr, -⟩
      · cases h
      · cases h
      · exact hr
    have hc : Canon (.full cs) := by
      rcases hfit.of_term hr with h | h
      · cases h
      · exact h
    obtain ⟨i, r, rfl⟩ := List.exists_cons_of_ne_nil hr.ne_nil
    simp only [tryGetStep, get_full_cons,
      tryGetStep_get (cs i) (pre ++ [i]) r (hc.fits_child hr) (hfree i)]
  | .hash _, _, _, _, hfree => absurd hfree (by simp [HashFree])

end

/-- fuel を何回にしても、`tryGet` は一段の関数に何かの続きを渡したものである。 -/
theorem tryGet_eq_step (db : NodeReader) (fuel : Nat) :
    ∃ again, tryGet db fuel = tryGetStep db again := by
  cases fuel with
  | zero => exact ⟨_, rfl⟩
  | succ fuel => exact ⟨_, rfl⟩

/-- **`TryGet` は正準形の trie の写像を引く。** root も変わらない。 -/
theorem TryGet_get (t : Trie) (key : Bytes) (hc : RootCanon t.root)
    (hf : HashFree t.root) : t.TryGet key = .ok (t.root.get (keybytesToHex key), t) := by
  obtain ⟨again, he⟩ := tryGet_eq_step t.db (resolveFuel (keybytesToHex key))
  have hfit : Fits t.root (keybytesToHex key) := Or.inr ⟨keybytesToHex_term key, hc⟩
  simp only [Trie.TryGet, he, tryGetStep_get t.root [] _ hfit hf]

end Trie
