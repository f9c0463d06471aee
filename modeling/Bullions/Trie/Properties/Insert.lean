import Bullions.Trie.Properties.Lookup

/-!
# 挿入は正準形を保ち、一つの key だけを書き換える

`insertStep_inserted`：ふさわしい位置にある読み込みの要らない node に `valueNode` を
入れると、読み込みも panic も起こらず、結果はまたその位置にふさわしく、写像は
入れた key だけが変わる（`Inserted`）。

場合は四つある。

* key を使い切った — 値の枠に値を置く
* `shortNode` の key を全部たどれる — 子へ降りる
* `shortNode` の key と途中で食い違う — その位置に子が二つの `fullNode` を立てる
  （`splitBranch`）。終端付きの key どうしなので、食い違う位置はどちらの key の中にもある
* `fullNode` — 次の nibble の子へ降りる
-/

namespace Trie

open Node

/-! ## 子の数 -/

/-- nil でない子を書き込んでも、nil でない子は減らない。 -/
theorem occupied_le_update (cs : Fin 17 → Node) (i : Nibble) {n : Node} (hn : n ≠ .nil) :
    occupied cs ≤ occupied (Function.update cs i n) := by
  apply Finset.card_le_card
  intro j hj
  simp only [Finset.mem_filter, Finset.mem_univ, true_and] at hj ⊢
  by_cases hji : j = i
  · subst hji
    simp only [Function.update_self]
    cases n <;> simp_all
  · rwa [Function.update_of_ne hji]

/-- 子を二つだけ持つ `fullNode`。 -/
def twoChildren (a : Nibble) (x : Node) (b : Nibble) (y : Node) : Fin 17 → Node :=
  Function.update (Function.update (fun _ => .nil) a x) b y

theorem twoChildren_apply (a : Nibble) (x : Node) (b : Nibble) (y : Node) (j : Nibble) :
    twoChildren a x b y j = if j = b then y else if j = a then x else .nil := by
  simp only [twoChildren, Function.update_apply]

theorem occupied_twoChildren {a b : Nibble} (hab : a ≠ b) {x y : Node} (hx : x ≠ .nil)
    (hy : y ≠ .nil) : occupied (twoChildren a x b y) = 2 := by
  have hs : Finset.univ.filter (fun j => (twoChildren a x b y j).isNil = false) = {a, b} := by
    ext j
    simp only [Finset.mem_filter, Finset.mem_univ, true_and, Finset.mem_insert,
      Finset.mem_singleton, twoChildren_apply]
    by_cases hjb : j = b
    · subst hjb
      simp only [if_true, hab.symm, false_or, iff_true]
      cases y <;> simp_all
    · by_cases hja : j = a
      · subst hja
        simp only [hjb, if_false, if_true, true_or, iff_true]
        cases x <;> simp_all
      · simp [hja, hjb]
  rw [occupied, hs, Finset.card_pair hab]

/-! ## `nil` への挿入 -/

/-- `nil` への挿入は再帰しない。`insertNil` はその結果である。 -/
theorem insertStep_nil {db : NodeReader} {again : Node → Nibbles → Nibbles → Node → InsertResult}
    (pre key : Nibbles) (value : Node) :
    insertStep db again .nil pre key value = .ok (true, insertNil key value) := by
  cases key <;> rfl

theorem get_insertNil (k : Nibbles) (x : Node) (r : Nibbles) :
    (insertNil k x).get r = if k <+: r then x.get (r.drop k.length) else none := by
  cases k with
  | nil => simp [insertNil]
  | cons a k => rfl

theorem insertNil_ne_nil (k : Nibbles) {x : Node} (hx : x ≠ .nil) : insertNil k x ≠ .nil := by
  cases k with
  | nil => exact hx
  | cons a k => simp [insertNil]

theorem hashFree_insertNil (k : Nibbles) {x : Node} (hx : HashFree x) :
    HashFree (insertNil k x) := by
  cases k with
  | nil => exact hx
  | cons a k => exact hx

/-- 値を終端付きの key で引けるのは、その key ちょうどのときだけである。 -/
theorem get_value_drop {k r : Nibbles} (v : Bytes) :
    (if k <+: r then (value v).get (r.drop k.length) else none) =
      if r = k then some v else none := by
  by_cases hp : k <+: r
  · obtain ⟨s, rfl⟩ := hp
    simp [get_value]
  · rw [if_neg hp, if_neg (by rintro rfl; exact hp (List.prefix_refl r))]

/-! ## 食い違う位置での枝分かれ -/

/-- 共通の接頭辞は、節の key と引く key の両方から落とせる。 -/
theorem get_short_append_append (p k : Nibbles) (x : Node) (s : Nibbles) :
    (short (p ++ k) x).get (p ++ s) = (short k x).get s := by
  simp only [get_short, List.prefix_append_right_inj, List.length_append,
    List.drop_length_add_append]

/--
`shortNode{p ++ kc :: krest, x}` に `p ++ nc :: nrest` の値 `y` を入れたときに立つ枝を、
共通部分 `p` の下で引く。`nc :: nrest` の側は `y` を、そうでなければ元の節を引く。
-/
theorem get_split {p krest nrest : Nibbles} {kc nc : Nibble} (hne : kc ≠ nc) (x y : Node)
    (r : Nibbles) :
    (short p (full (twoChildren kc (insertNil krest x) nc (insertNil nrest y)))).get r =
      if p ++ nc :: nrest <+: r then y.get (r.drop (p ++ nc :: nrest).length)
      else (short (p ++ kc :: krest) x).get r := by
  by_cases hp : p <+: r
  · obtain ⟨s, rfl⟩ := hp
    rw [get_short_append, get_short_append_append]
    simp only [List.prefix_append_right_inj, List.length_append, List.drop_length_add_append]
    cases s with
    | nil => simp [get_short]
    | cons i s =>
      simp only [get_full_cons, twoChildren_apply, get_short, List.cons_prefix_cons,
        List.length_cons, List.drop_succ_cons]
      by_cases hi : i = nc
      · subst hi
        simp [get_insertNil, hne]
      · by_cases hik : i = kc
        · subst hik
          simp [hi, Ne.symm hi, get_insertNil]
        · simp [hi, hik, Ne.symm hi, Ne.symm hik]
  · have h1 : ¬ p ++ nc :: nrest <+: r := fun h => hp ((List.prefix_append _ _).trans h)
    have h2 : ¬ p ++ kc :: krest <+: r := fun h => hp ((List.prefix_append _ _).trans h)
    simp [get_short, hp, h1, h2]

/-- `insertNil` は、key が空でも `shortNode` と同じ値を引く。 -/
theorem get_insertNil_eq_short (k : Nibbles) (x : Node) (r : Nibbles) :
    (insertNil k x).get r = (short k x).get r := by
  rw [get_insertNil, get_short]

/-! ## 子の差し替え -/

/-- 正準な `fullNode` の子の条件は、ふさわしい子への差し替えで保たれる。 -/
theorem children_update {cs : Fin 17 → Node}
    (hcs : ∀ j : Fin 17, j ≠ 16 → cs j ≠ .nil → Canon (cs j))
    (hv : cs 16 = .nil ∨ ∃ a, cs 16 = .value a) {i : Nibble} {r : Nibbles} (hkey : Term (i :: r))
    {nn : Node} (hfit : Fits nn r) :
    (∀ j : Fin 17, j ≠ 16 → Function.update cs i nn j ≠ .nil →
        Canon (Function.update cs i nn j)) ∧
      (Function.update cs i nn 16 = .nil ∨ ∃ a, Function.update cs i nn 16 = .value a) := by
  constructor
  · intro j hj hn
    by_cases hji : j = i
    · subst hji
      rw [Function.update_self] at hn ⊢
      rcases term_cons.mp hkey with ⟨h, -⟩ | ⟨-, hr⟩
      · exact absurd h hj
      · rcases hfit.of_term hr with h | h
        · exact absurd h hn
        · exact h
    · rw [Function.update_of_ne hji] at hn ⊢
      exact hcs j hj hn
  · by_cases h16 : (16 : Nibble) = i
    · subst h16
      rw [Function.update_self]
      rcases term_cons.mp hkey with ⟨-, rfl⟩ | ⟨h, -⟩
      · exact hfit.of_nil
      · exact absurd rfl h
    · rw [Function.update_of_ne h16]
      exact hv

theorem hashFree_update {cs : Fin 17 → Node} (hfree : HashFree (.full cs)) {i : Nibble}
    {nn : Node} (hn : HashFree nn) : HashFree (.full (Function.update cs i nn)) := by
  intro j
  by_cases hji : j = i
  · subst hji
    rw [Function.update_self]
    exact hn
  · rw [Function.update_of_ne hji]
    exact hfree j

/-- 子を一つ差し替えた `fullNode` の写像は、その子の下で変わった key だけが変わる。 -/
theorem get_full_update {cs : Fin 17 → Node} {i : Nibble} {r : Nibbles} {nn : Node}
    {o : Option Bytes} (h : ∀ t, nn.get t = if t = r then o else (cs i).get t) (r' : Nibbles) :
    (full (Function.update cs i nn)).get r' = if r' = i :: r then o else (full cs).get r' := by
  cases r' with
  | nil => simp
  | cons j t =>
    simp only [get_full_cons, List.cons.injEq]
    by_cases hji : j = i
    · subst hji
      rw [Function.update_self, h]
      simp
    · rw [Function.update_of_ne hji]
      simp [hji]

/-! ## 挿入の結果 -/

/-- 値 `v` を `key` に入れて、`(d, n')` が返ったときに成り立つこと。 -/
structure Inserted (n : Node) (key : Nibbles) (v : Bytes) (d : Bool) (n' : Node) : Prop where
  /-- dirty でなければ元の node がそのまま返る。 -/
  clean : d = false → n' = n
  fits : Fits n' key
  ne_nil : n' ≠ .nil
  hashFree : HashFree n'
  /-- `fullNode` に入れた結果は `fullNode` である。 -/
  full_of_full : ∀ cs, n = .full cs → ∃ cs', n' = .full cs'
  /-- 写像は `key` だけが変わる。 -/
  get_eq : ∀ r, n'.get r = if r = key then some v else n.get r

section
variable {v : Bytes}

/-- key を使い切った位置（nil か値）に値を置く。 -/
theorem inserted_value {n : Node} (hfit : Fits n []) {d : Bool}
    (hd : d = false → Node.value v = n) : Inserted n [] v d (.value v) where
  clean := hd
  fits := Or.inl ⟨rfl, Or.inr ⟨v, rfl⟩⟩
  ne_nil := by simp
  hashFree := trivial
  full_of_full := by
    intro cs hcs
    rcases hfit.of_nil with h | ⟨a, h⟩ <;> rw [h] at hcs <;> cases hcs
  get_eq := by
    intro r
    rcases hfit.of_nil with rfl | ⟨a, rfl⟩
    · simp [get_value]
    · by_cases hr : r = [] <;> simp [get_value, hr]

/-- 空の位置に終端付きの key の葉を作る。 -/
theorem inserted_leaf {key : Nibbles} (hkey : Term key) :
    Inserted .nil key v true (.short key (.value v)) where
  clean := by simp
  fits := Or.inr ⟨hkey, Or.inr (Canon.leaf hkey)⟩
  ne_nil := by simp
  hashFree := trivial
  full_of_full := by simp
  get_eq := by
    intro r
    rw [get_short, get_value_drop, get_nil]

/-- `shortNode` の key を全部たどれたなら、子への挿入がそのまま全体の挿入になる。 -/
theorem inserted_short_match {k : Nibbles} {sv : Node} (hc : Canon (.short k sv))
    {key : Nibbles} (hkey : Term key) (hp : k <+: key) {d : Bool} {nn : Node}
    (hrec : Inserted sv (key.drop k.length) v d nn) :
    Inserted (.short k sv) key v d (.short k nn) where
  clean := fun hd => by rw [hrec.clean hd]
  fits := by
    refine Or.inr ⟨hkey, Or.inr ?_⟩
    rcases hc.short_cases with ⟨hk, a, rfl⟩ | ⟨hne, hk, cs, rfl, -⟩
    · -- 葉：key はちょうど節の key で、子は値の枠に入った値である
      have hdrop : key.drop k.length = [] := by
        rw [← hk.eq_of_prefix hkey hp, List.drop_length]
      have hfit := hrec.fits
      rw [hdrop] at hfit
      rcases hfit.of_nil with h | ⟨b, rfl⟩
      · exact absurd h hrec.ne_nil
      · exact Canon.leaf hk
    · -- 延長：`fullNode` への挿入は `fullNode` を返し、それは正準形である
      obtain ⟨cs', rfl⟩ := hrec.full_of_full cs rfl
      obtain ⟨s, rfl⟩ := hp
      have hs : s ≠ [] := by
        rintro rfl
        exact hk (by simpa using hkey.mem)
      have hfit := hrec.fits
      rw [List.drop_left] at hfit
      rcases hfit.of_term ((term_append hs).mp hkey).2 with h | h
      · cases h
      · exact Canon.ext hne hk h
  ne_nil := by simp
  hashFree := hrec.hashFree
  full_of_full := by simp
  get_eq := by
    intro r
    obtain ⟨s, rfl⟩ := hp
    rw [get_short, get_short]
    by_cases hr : k <+: r
    · obtain ⟨t, rfl⟩ := hr
      simp only [List.prefix_append, if_true, List.drop_left, hrec.get_eq,
        List.append_cancel_left_eq]
    · have hne : r ≠ k ++ s := by rintro rfl; exact hr (List.prefix_append k s)
      simp [hr, hne]

/--
`shortNode` の key と食い違った。共通部分 `p` の後で節の key は `kc`、入れる key は `nc` に
分かれ、その位置に二つの子を持つ `fullNode` が立つ。`p` が空なら `fullNode` そのもの、
そうでなければ `shortNode{p, fullNode}` である（`insertNil p`）。
-/
theorem inserted_split {p kt nt : Nibbles} {kc nc : Nibble} {sv : Node}
    (hc : Canon (.short (p ++ kc :: kt) sv)) (hsf : HashFree sv) (hkey : Term (p ++ nc :: nt))
    (hne : kc ≠ nc) :
    Inserted (.short (p ++ kc :: kt) sv) (p ++ nc :: nt) v true
      (insertNil p (.full (twoChildren kc (insertNil kt sv) nc (insertNil nt (.value v))))) := by
  have hterm := (term_append (List.cons_ne_nil nc nt)).mp hkey
  have hsv : sv ≠ .nil := by
    rcases hc.short_cases with ⟨-, a, rfl⟩ | ⟨-, -, cs, rfl, -⟩ <;> simp
  -- 入れる側の子：終端なら値そのもの、そうでなければ葉
  have hnew : (nc = 16 ∧ insertNil nt (.value v) = .value v) ∨
      (nc ≠ 16 ∧ Canon (insertNil nt (.value v))) := by
    rcases term_cons.mp hterm.2 with ⟨h, rfl⟩ | ⟨h, hnt⟩
    · exact Or.inl ⟨h, rfl⟩
    · obtain ⟨a, t, rfl⟩ := List.exists_cons_of_ne_nil hnt.ne_nil
      exact Or.inr ⟨h, Canon.leaf hnt⟩
  -- 元の側の子：節が葉なら値か葉、延長なら `fullNode` か延長
  have hold : (kc = 16 ∧ ∃ a, insertNil kt sv = .value a) ∨
      (kc ≠ 16 ∧ Canon (insertNil kt sv)) := by
    rcases hc.short_cases with ⟨hk, a, rfl⟩ | ⟨-, hk, cs, rfl, hcs⟩
    · rcases term_cons.mp ((term_append (List.cons_ne_nil kc kt)).mp hk).2 with
        ⟨h, rfl⟩ | ⟨h, hkt⟩
      · exact Or.inl ⟨h, a, rfl⟩
      · obtain ⟨b, t, rfl⟩ := List.exists_cons_of_ne_nil hkt.ne_nil
        exact Or.inr ⟨h, Canon.leaf hkt⟩
    · have hkc : kc ≠ 16 := fun h => hk (by simp [h])
      refine Or.inr ⟨hkc, ?_⟩
      cases kt with
      | nil => exact hcs
      | cons b t =>
        refine Canon.ext (List.cons_ne_nil b t) (fun h => hk ?_) hcs
        simp [h]
  have hbranch : Canon (.full (twoChildren kc (insertNil kt sv) nc (insertNil nt (.value v)))) := by
    refine Canon.full ?_ ?_ ?_
    · intro i hi hn
      rw [twoChildren_apply] at hn ⊢
      by_cases hinc : i = nc
      · subst hinc
        rcases hnew with ⟨h, -⟩ | ⟨-, h⟩
        · exact absurd h hi
        · simpa using h
      · by_cases hikc : i = kc
        · subst hikc
          rcases hold with ⟨h, -⟩ | ⟨-, h⟩
          · exact absurd h hi
          · simpa [hinc] using h
        · simp [hinc, hikc] at hn
    · rw [twoChildren_apply]
      by_cases h16 : (16 : Nibble) = nc
      · rcases hnew with ⟨-, h⟩ | ⟨h, -⟩
        · exact Or.inr ⟨v, by simp [h16, h]⟩
        · exact absurd h16.symm h
      · by_cases h16' : (16 : Nibble) = kc
        · subst h16'
          rcases hold with ⟨-, a, h⟩ | ⟨h, -⟩
          · exact Or.inr ⟨a, by simp [h16, h]⟩
          · exact absurd rfl h
        · exact Or.inl (by simp [h16, h16'])
    · rw [occupied_twoChildren hne (insertNil_ne_nil kt hsv) (insertNil_ne_nil nt (by simp))]
  refine ⟨by simp, Or.inr ⟨hkey, Or.inr ?_⟩, ?_, ?_, by simp, ?_⟩
  · cases p with
    | nil => exact hbranch
    | cons a p => exact Canon.ext (List.cons_ne_nil a p) hterm.1 hbranch
  · exact insertNil_ne_nil p (by simp)
  · refine hashFree_insertNil p ?_
    intro i
    rw [twoChildren_apply]
    split
    · exact hashFree_insertNil nt trivial
    · split
      · exact hashFree_insertNil kt hsf
      · trivial
  · intro r
    rw [get_insertNil_eq_short, get_split hne]
    by_cases hr : p ++ nc :: nt <+: r
    · obtain ⟨w, rfl⟩ := hr
      rw [if_pos (List.prefix_append _ _), List.drop_left, get_value]
      by_cases hw : w = []
      · subst hw
        simp
      · -- `key` を真に伸ばした key は、`kc` の側の節とも食い違う
        have hno : ¬ p ++ kc :: kt <+: p ++ nc :: nt ++ w := by
          rintro ⟨u, hu⟩
          simp only [List.append_assoc, List.cons_append, List.append_cancel_left_eq,
            List.cons.injEq] at hu
          exact hne hu.1
        rw [get_short, if_neg hno]
        simp [hw]
    · have he : r ≠ p ++ nc :: nt := by rintro rfl; exact hr (List.prefix_refl _)
      simp [hr, he]

/-- `fullNode` の子への挿入は、その添字の枠を差し替えた `fullNode` への挿入になる。 -/
theorem inserted_full {cs : Fin 17 → Node} (hc : Canon (.full cs)) (hfree : HashFree (.full cs))
    {i : Nibble} {r : Nibbles} (hkey : Term (i :: r)) {d : Bool} {nn : Node}
    (hrec : Inserted (cs i) r v d nn) :
    Inserted (.full cs) (i :: r) v d (.full (Function.update cs i nn)) where
  clean := fun hd => by rw [hrec.clean hd, Function.update_eq_self]
  fits := by
    refine Or.inr ⟨hkey, Or.inr ?_⟩
    cases hc with
    | full hcs hv h2 =>
      obtain ⟨hcs', hv'⟩ := children_update hcs hv hkey hrec.fits
      exact Canon.full hcs' hv' (h2.trans (occupied_le_update cs i hrec.ne_nil))
  ne_nil := by simp
  hashFree := hashFree_update hfree hrec.hashFree
  full_of_full := fun _ _ => ⟨_, rfl⟩
  get_eq := get_full_update hrec.get_eq

/-- 節の key と食い違う挿入では、食い違う位置がどちらの key の中にもある。 -/
theorem split_at_prefixLen {k key : Nibbles} {sv : Node} (hc : Canon (.short k sv))
    (hkey : Term key) (hm : prefixLen key k ≠ k.length) :
    ∃ p kc kt nc nt, k = p ++ kc :: kt ∧ key = p ++ nc :: nt ∧ kc ≠ nc ∧
      p = key.take (prefixLen key k) ∧ k.drop (prefixLen key k) = kc :: kt ∧
      key.drop (prefixLen key k) = nc :: nt := by
  have hk : prefixLen key k < k.length :=
    lt_of_le_of_ne (List.commonPrefixLen_le_right key k) hm
  have hkey' : prefixLen key k < key.length := by
    refine lt_of_le_of_ne (List.commonPrefixLen_le_left key k) ?_
    intro he
    -- そうでなければ key が節の key の接頭辞になるが、終端付きの key ではそれは起きない
    have hp : key <+: k := (List.commonPrefixLen_eq_length_iff key k).mp he
    rcases hc.short_cases with ⟨hkt, -⟩ | ⟨-, h16, -⟩
    · obtain rfl := hkey.eq_of_prefix hkt hp
      exact hm he
    · exact h16 (hp.subset hkey.mem)
  have htake : key.take (prefixLen key k) = k.take (prefixLen key k) :=
    List.take_commonPrefixLen key k
  refine ⟨key.take (prefixLen key k), k[prefixLen key k], k.drop (prefixLen key k + 1),
    key[prefixLen key k], key.drop (prefixLen key k + 1), ?_, ?_, ?_, rfl,
    List.drop_eq_getElem_cons hk, List.drop_eq_getElem_cons hkey'⟩
  · rw [htake, ← List.drop_eq_getElem_cons hk, List.take_append_drop]
  · rw [← List.drop_eq_getElem_cons hkey', List.take_append_drop]
  · exact (List.getElem_ne_of_commonPrefixLen key k hkey' hk).symm

end

section
variable {db : NodeReader} {again : Node → Nibbles → Nibbles → Node → InsertResult}

/--
**挿入の仕様。** ふさわしい位置にある読み込みの要らない node に値 `v` を入れると、
読み込みも panic も起きずに `Inserted` を満たす結果が返る。
-/
theorem insertStep_inserted (v : Bytes) : ∀ (n : Node) (pre key : Nibbles), Fits n key →
    HashFree n → ∃ d n', insertStep db again n pre key (.value v) = .ok (d, n') ∧
      Inserted n key v d n'
  | n, pre, [], hfit, _ => by
    rcases hfit.of_nil with rfl | ⟨a, rfl⟩
    · exact ⟨true, _, insertStep_nil pre [] _, inserted_value hfit (by simp)⟩
    · refine ⟨a != v, _, rfl, inserted_value hfit ?_⟩
      intro h
      rw [bne_eq_false_iff_eq.mp h]
  | .nil, pre, x :: xs, hfit, _ =>
    ⟨true, _, insertStep_nil pre _ _, inserted_leaf (hfit.term_of_cons)⟩
  | .value a, pre, x :: xs, hfit, _ => by
    rcases hfit.of_term hfit.term_of_cons with h | h
    · cases h
    · exact absurd rfl (h.ne_value a)
  | .hash _, _, _ :: _, _, hfree => absurd hfree (by simp [HashFree])
  | .short k sv, pre, x :: xs, hfit, hfree => by
    have hkey : Term (x :: xs) := hfit.term_of_cons
    have hc : Canon (.short k sv) := by
      rcases hfit.of_term hkey with h | h
      · cases h
      · exact h
    by_cases hm : prefixLen (x :: xs) k = k.length
    · -- 節の key を全部たどれる：子へ降りる
      have hp : k <+: x :: xs := by
        rw [← List.commonPrefixLen_eq_length_iff, List.commonPrefixLen_comm]
        exact hm
      obtain ⟨d, nn, hrun, hins⟩ := insertStep_inserted v sv (pre ++ k) ((x :: xs).drop k.length)
        (hc.fits_val hkey hp) hfree
      refine ⟨d, .short k nn, ?_, inserted_short_match hc hkey hp hins⟩
      have htake : (x :: xs).take k.length = k := by
        obtain ⟨s, hs⟩ := hp
        rw [← hs, List.take_left]
      simp only [insertStep, hm, if_true, htake, hrun]
      cases d
      · rw [hins.clean rfl]
      · rfl
    · -- 途中で食い違う：その位置に `fullNode` を立てる
      obtain ⟨p, kc, kt, nc, nt, rfl, hkey', hne, hp, hdk, hdkey⟩ := split_at_prefixLen hc hkey hm
      have hlen : p.length = prefixLen (x :: xs) (p ++ kc :: kt) := by
        have hle : prefixLen (x :: xs) (p ++ kc :: kt) ≤ (x :: xs).length :=
          List.commonPrefixLen_le_left _ _
        have h := congrArg List.length hp
        rw [List.length_take] at h
        omega
      have hres : insertStep db again (.short (p ++ kc :: kt) sv) pre (x :: xs) (.value v) =
          .ok (true, insertNil p (.full (twoChildren kc (insertNil kt sv) nc
            (insertNil nt (.value v))))) := by
        simp only [insertStep, hm, if_false, hdk, hdkey, ← hp]
        cases p with
        | nil => simp at hlen; simp [← hlen, insertNil, twoChildren]
        | cons a p => simp at hlen; simp [← hlen, insertNil, twoChildren]
      refine ⟨true, _, hres, ?_⟩
      rw [hkey']
      exact inserted_split hc hfree (hkey' ▸ hkey) hne
  | .full cs, pre, x :: xs, hfit, hfree => by
    have hkey : Term (x :: xs) := hfit.term_of_cons
    have hc : Canon (.full cs) := by
      rcases hfit.of_term hkey with h | h
      · cases h
      · exact h
    obtain ⟨d, nn, hrun, hins⟩ := insertStep_inserted v (cs x) (pre ++ [x]) xs
      (hc.fits_child hkey) (hfree x)
    refine ⟨d, _, ?_, inserted_full hc hfree hkey hins⟩
    simp only [insertStep, hrun]
    cases d
    · rw [hins.clean rfl, Function.update_eq_self]
    · rfl

end

/-- fuel を何回にしても、`insert` は一段の関数に何かの続きを渡したものである。 -/
theorem insert_eq_step (db : NodeReader) (fuel : Nat) :
    ∃ again, insert db fuel = insertStep db again := by
  cases fuel with
  | zero => exact ⟨_, rfl⟩
  | succ fuel => exact ⟨_, rfl⟩

end Trie
