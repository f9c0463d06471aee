import Bullions.Trie.Properties.Delete
import Bullions.Lib.PrefixMap

/-!
# 正準形は写像で決まる

同じ値を引く二つの正準形は同じ木である（`Canon.eq_of_get`）。

木の形は写像から読める。

* 値が一つだけなら葉 `shortNode{k, 値}` であり、`k` はその key である
* 二つ以上なら、すべての key に共通し、その直後で key が分かれる位置 `p` が一つだけ
  ある（`PrefixMap.Under.eq_of_splits`）。`p` が空なら `fullNode`、そうでなければ
  `shortNode{p, fullNode}` で、`fullNode` の各子はその添字で始まる key の写像を表す

子についての帰納法で、二つの木は一致する。
-/

namespace Trie

open Node PrefixMap

/-- 葉は自分の key にしか値を持たない。 -/
theorem get_leaf_ne_none {k r : Nibbles} {v : Bytes} (h : (short k (value v)).get r ≠ none) :
    r = k := by
  rw [get_short] at h
  split at h
  · next hp =>
    obtain ⟨s, rfl⟩ := hp
    have hs : s = [] := by
      by_contra hs
      simp [get_value, hs] at h
    simp [hs]
  · exact absurd rfl h

/-- `shortNode` の値はどれも、その key で始まる位置にある。 -/
theorem under_short (k : Nibbles) (v : Node) : Under (short k v).get k := by
  intro r h
  by_contra hk
  exact h (by rw [get_short, if_neg hk])

theorem Canon.splits_full {cs : Fin 17 → Node} (h : Canon (.full cs)) :
    Splits (Node.full cs).get [] := by
  obtain ⟨i, j, r, s, hij, hr, hs⟩ := h.two_heads
  exact ⟨i, j, r, s, hij, by simpa using hr, by simpa using hs⟩

theorem Canon.splits_ext {cs : Fin 17 → Node} (h : Canon (.full cs)) (k : Nibbles) :
    Splits (short k (.full cs)).get k := by
  obtain ⟨i, j, r, s, hij, hr, hs⟩ := h.two_heads
  exact ⟨i, j, r, s, hij, by simpa using hr, by simpa using hs⟩

/-- 値が一つしかない葉の写像には、枝分かれが無い。 -/
theorem Splits.not_leaf {p k : Nibbles} {v : Bytes} (hs : Splits (short k (value v)).get p) :
    False := by
  obtain ⟨r₁, r₂, hne, h₁, h₂⟩ := hs.two_keys
  exact hne ((get_leaf_ne_none h₁).trans (get_leaf_ne_none h₂).symm)

/-- 値を持たない root は空である。 -/
theorem RootCanon.eq_nil {n : Node} (h : RootCanon n) (hn : ∀ r, n.get r = none) : n = .nil := by
  rcases h with rfl | h
  · rfl
  · obtain ⟨r, hr⟩ := h.exists_get
    exact absurd (hn r) hr

/-- 値の枠の node は、空の key で引いた値で決まる。 -/
theorem slot_eq_of_get {a b : Node} (ha : a = .nil ∨ ∃ v, a = .value v)
    (hb : b = .nil ∨ ∃ v, b = .value v) (h : a.get [] = b.get []) : a = b := by
  rcases ha with rfl | ⟨v, rfl⟩ <;> rcases hb with rfl | ⟨w, rfl⟩ <;>
    simp [get_value] at h ⊢
  exact h

/-- 正準な `fullNode` の子は、同じ値を引く正準な子と一致する。 -/
theorem children_eq_of_get {cs cs' : Fin 17 → Node}
    (ih : ∀ i, i ≠ 16 → cs i ≠ .nil → ∀ {b : Node}, RootCanon b → (cs i).get = b.get → cs i = b)
    (hv : cs 16 = .nil ∨ ∃ v, cs 16 = .value v) (hc' : Canon (.full cs'))
    (hf : (Node.full cs).get = (Node.full cs').get) : cs = cs' := by
  cases hc' with
  | full hcs' hv' h2' =>
    funext i
    have hi : (cs i).get = (cs' i).get := funext fun r => congrFun hf (i :: r)
    by_cases h16 : i = 16
    · subst h16
      exact slot_eq_of_get hv hv' (congrFun hi [])
    · have hroot' : RootCanon (cs' i) := by
        by_cases hn : cs' i = .nil
        · exact Or.inl hn
        · exact Or.inr (hcs' i h16 hn)
      by_cases hn : cs i = .nil
      · rw [hn]
        refine (hroot'.eq_nil fun r => ?_).symm
        rw [← congrFun hi r, hn, get_nil]
      · exact ih i h16 hn hroot' hi

/--
**正準形は写像で決まる。** 同じ値を引く正準形と root に置ける node は同じ木である。
帰納法は `a` の正準形の導出について、各段で `b` の形を場合に分ける。
-/
theorem Canon.eq_of_get {a : Node} (ha : Canon a) :
    ∀ {b : Node}, RootCanon b → a.get = b.get → a = b := by
  induction ha with
  | @leaf k v hk =>
    intro b hb hf
    have hk' : b.get k = some v := by
      rw [← hf]
      simpa [get_value] using get_short_append k (value v) []
    rcases hb with rfl | hb
    · simp at hk'
    · cases hb with
      | @leaf k' v' hk'' =>
        obtain rfl : k = k' := get_leaf_ne_none (v := v') (by rw [hk']; simp)
        have : v' = v := by simpa [get_short, get_value] using hk'
        rw [this]
      | ext hne' hk'' hc' => exact (Splits.not_leaf (hf ▸ hc'.splits_ext _)).elim
      | full hcs' hv' h2' => exact (Splits.not_leaf (hf ▸ (Canon.full hcs' hv' h2').splits_full)).elim
  | @ext k cs hne hk hc ih =>
    intro b hb hf
    have hs : Splits (short k (.full cs)).get k := hc.splits_ext k
    have hu : Under (short k (.full cs)).get k := under_short k _
    rcases hb with rfl | hb
    · obtain ⟨r, hr⟩ := (Canon.ext hne hk hc).exists_get
      exact absurd (congrFun hf r) hr
    · rw [hf] at hs hu
      cases hb with
      | leaf hk'' => exact (Splits.not_leaf hs).elim
      | @ext k' cs' hne' hk'' hc' =>
        -- 枝分かれの位置が一致するので key が一致し、その下の `fullNode` を比べる
        obtain rfl : k = k' := hu.eq_of_splits hs (under_short k' _) (hc'.splits_ext k')
        have hfull : (Node.full cs).get = (Node.full cs').get :=
          funext fun r => by simpa using congrFun hf (k ++ r)
        rw [ih (Or.inr hc') hfull]
      | full hcs' hv' h2' =>
        have := hu.eq_of_splits hs (fun _ _ => List.nil_prefix)
          (Canon.full hcs' hv' h2').splits_full
        exact absurd this hne
  | @full cs hc hv h2 ih =>
    intro b hb hf
    have hs : Splits (Node.full cs).get [] := (Canon.full hc hv h2).splits_full
    rcases hb with rfl | hb
    · obtain ⟨r, hr⟩ := (Canon.full hc hv h2).exists_get
      exact absurd (congrFun hf r) hr
    · rw [hf] at hs
      cases hb with
      | leaf hk'' => exact (Splits.not_leaf hs).elim
      | @ext k' cs' hne' hk'' hc' =>
        have := (under_short k' _).prefix_of_splits hs
        exact absurd (List.prefix_nil.mp this) hne'
      | full hcs' hv' h2' =>
        rw [children_eq_of_get (fun i hi hn _ hb' hf' => ih i hi hn hb' hf') hv
          (Canon.full hcs' hv' h2') hf]

/-- root に置ける二つの node は、同じ値を引くなら同じ木である。 -/
theorem RootCanon.eq_of_get {a b : Node} (ha : RootCanon a) (hb : RootCanon b)
    (hf : a.get = b.get) : a = b := by
  rcases ha with rfl | ha
  · exact (hb.eq_nil fun r => by rw [← hf, get_nil]).symm
  · exact ha.eq_of_get hb hf

end Trie
