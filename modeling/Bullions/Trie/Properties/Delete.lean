import Bullions.Trie.Properties.Insert

/-!
# 削除は正準形を保ち、一つの key だけを消す

`deleteStep_deleted`：ふさわしい位置にある読み込みの要らない node から key を消すと、
読み込みも panic も起こらず、結果はまたその位置にふさわしく、写像は消した key だけが
変わる（`Deleted`）。

`delete` には二つの前提が隠れている。

* `shortNode` の下で子を消した結果は nil にならない（Go のコメント「Child can never be
  nil here」）。正準な `fullNode` は異なる二つの key に値を持つので、一つ消しても
  一つ残る（`Canon.two_entries`）
* `fullNode` から子を消した後、子が一つも残らないことはない。同じ理由による

残った子が一つなら `shortNode` に縮める。その子が `shortNode` なら key をつなぐ。
どちらも引いた結果は変わらない（`get_full_single`、`get_short_append_key`）。
-/

namespace Trie

open Node

/-! ## 正準形は値を持つ -/

/-- 正準形の node はどこかの key に値を持つ。 -/
theorem Canon.exists_get {n : Node} (h : Canon n) : ∃ r, n.get r ≠ none := by
  induction h with
  | @leaf k v hk => exact ⟨k, by simp [get_short, get_value]⟩
  | ext hne hk hc ih =>
    obtain ⟨r, hr⟩ := ih
    exact ⟨_ ++ r, by rwa [get_short_append]⟩
  | @full cs hc hv h2 ih =>
    have hpos : 0 < occupied cs := by omega
    obtain ⟨i, hi⟩ := Finset.card_pos.mp hpos
    simp only [Finset.mem_filter, Finset.mem_univ, true_and] at hi
    have hi' : cs i ≠ .nil := fun h => by simp [h] at hi
    by_cases h16 : i = 16
    · subst h16
      rcases hv with h | ⟨a, h⟩
      · exact absurd h hi'
      · exact ⟨[16], by simp [h, get_value]⟩
    · obtain ⟨r, hr⟩ := ih i h16 hi'
      exact ⟨i :: r, by simpa using hr⟩

/-- 正準な `fullNode` の nil でない子は、どこかの key に値を持つ。 -/
theorem Canon.child_get {cs : Fin 17 → Node} (h : Canon (.full cs)) {i : Nibble}
    (hi : cs i ≠ .nil) : ∃ r, (cs i).get r ≠ none := by
  cases h with
  | full hc hv h2 =>
    by_cases h16 : i = 16
    · subst h16
      rcases hv with h | ⟨a, h⟩
      · exact absurd h hi
      · exact ⟨[], by simp [h, get_value]⟩
    · exact (hc i h16 hi).exists_get

/-- 正準な `fullNode` は、異なる二つの添字の子の下に値を持つ。 -/
theorem Canon.two_heads {cs : Fin 17 → Node} (h : Canon (.full cs)) :
    ∃ i j r s, i ≠ j ∧ (cs i).get r ≠ none ∧ (cs j).get s ≠ none := by
  have h2 : 1 < occupied cs := by cases h; omega
  obtain ⟨i, hi, j, hj, hij⟩ := Finset.one_lt_card.mp h2
  simp only [Finset.mem_filter, Finset.mem_univ, true_and] at hi hj
  obtain ⟨r, hr⟩ := h.child_get (i := i) (fun h => by simp [h] at hi)
  obtain ⟨s, hs⟩ := h.child_get (i := j) (fun h => by simp [h] at hj)
  exact ⟨i, j, r, s, hij, hr, hs⟩

/-- 正準な `fullNode` は異なる二つの key に値を持つ。 -/
theorem Canon.two_entries {cs : Fin 17 → Node} (h : Canon (.full cs)) :
    ∃ r₁ r₂, r₁ ≠ r₂ ∧ (Node.full cs).get r₁ ≠ none ∧ (Node.full cs).get r₂ ≠ none := by
  obtain ⟨i, j, r, s, hij, hr, hs⟩ := h.two_heads
  exact ⟨i :: r, j :: s, by simp [hij], by simpa using hr, by simpa using hs⟩

/-! ## 残った子を数える -/

/-- 残りを数える走査の一歩。 -/
def remainingStep (cs : Fin 17 → Node) (pos : Remaining) (i : Nibble) : Remaining :=
  if (cs i).isNil then pos else
    match pos with
    | .empty => .one i
    | _ => .many

/-- 走査の途中の状態に、nil でない子の列を足したもの。 -/
def addOccupied : Remaining → Nibbles → Remaining
  | pos, [] => pos
  | .empty, [p] => .one p
  | .empty, _ :: _ :: _ => .many
  | .one _, _ :: _ => .many
  | .many, _ => .many

theorem foldl_remainingStep (cs : Fin 17 → Node) : ∀ (l : Nibbles) (pos : Remaining),
    l.foldl (remainingStep cs) pos = addOccupied pos (l.filter (fun i => !(cs i).isNil))
  | [], pos => by cases pos <;> rfl
  | i :: l, pos => by
    rw [List.foldl_cons, foldl_remainingStep cs l, List.filter_cons]
    generalize l.filter (fun i => !(cs i).isNil) = l'
    cases hi : (cs i).isNil
    -- 子 `i` が nil でなければ、列の先頭に `i` が加わる
    · cases pos <;> cases l' <;> simp [remainingStep, hi, addOccupied]
    · simp [remainingStep, hi]

/-- `remaining` は nil でない子の列だけで決まる。 -/
theorem remaining_eq (cs : Fin 17 → Node) :
    remaining cs = addOccupied .empty ((List.finRange 17).filter (fun i => !(cs i).isNil)) :=
  foldl_remainingStep cs _ _

/-- nil でない子の個数は、その列の長さである。 -/
theorem occupied_eq_length (cs : Fin 17 → Node) :
    occupied cs = ((List.finRange 17).filter (fun i => !(cs i).isNil)).length := by
  have hs : Finset.univ.filter (fun i => (cs i).isNil = false) =
      ((List.finRange 17).filter (fun i => !(cs i).isNil)).toFinset := by
    ext j
    simp
  rw [occupied, hs, List.toFinset_card_of_nodup ((List.nodup_finRange 17).filter _)]

theorem mem_occupied_list {cs : Fin 17 → Node} {j : Nibble} :
    j ∈ (List.finRange 17).filter (fun i => !(cs i).isNil) ↔ cs j ≠ .nil := by
  rw [List.mem_filter]
  cases cs j <;> simp

/-- 残りが一つなら、その子だけが nil でない。 -/
theorem remaining_one {cs : Fin 17 → Node} {p : Nibble} (h : remaining cs = .one p) :
    cs p ≠ .nil ∧ ∀ j, j ≠ p → cs j = .nil := by
  rw [remaining_eq] at h
  match hl : (List.finRange 17).filter (fun i => !(cs i).isNil), h with
  | [q], h =>
    cases h
    refine ⟨mem_occupied_list.mp (by simp [hl]), fun j hj => ?_⟩
    by_contra hn
    have := mem_occupied_list.mpr hn
    rw [hl] at this
    simp at this
    exact hj this

theorem remaining_empty {cs : Fin 17 → Node} (h : remaining cs = .empty) : ∀ j, cs j = .nil := by
  intro j
  by_contra hn
  have hj := mem_occupied_list.mpr hn
  rw [remaining_eq] at h
  generalize (List.finRange 17).filter (fun i => !(cs i).isNil) = l at h hj
  rcases l with _ | ⟨a, _ | ⟨b, l⟩⟩
  · simp at hj
  · simp [addOccupied] at h
  · simp [addOccupied] at h

theorem remaining_many {cs : Fin 17 → Node} (h : remaining cs = .many) : 2 ≤ occupied cs := by
  rw [remaining_eq] at h
  rw [occupied_eq_length]
  match hl : (List.finRange 17).filter (fun i => !(cs i).isNil), h with
  | _ :: _ :: _, _ => simp

/-! ## 縮めても引く値は変わらない -/

/-- 子が `p` の一つだけの `fullNode` は、`shortNode{[p], 子}` と同じ値を引く。 -/
theorem get_full_single {cs : Fin 17 → Node} {p : Nibble} (h : ∀ j, j ≠ p → cs j = .nil)
    (r : Nibbles) : (Node.full cs).get r = (short [p] (cs p)).get r := by
  cases r with
  | nil => simp [get_short]
  | cons j r =>
    by_cases hj : j = p
    · subst hj
      simp [get_short]
    · simp [get_short, h j hj, Ne.symm hj]

/-- key をつないだ `shortNode` は、二段の `shortNode` と同じ値を引く。 -/
theorem get_short_append_key (k ck : Nibbles) (x : Node) (r : Nibbles) :
    (short (k ++ ck) x).get r = (short k (short ck x)).get r := by
  by_cases hk : k <+: r
  · obtain ⟨s, rfl⟩ := hk
    rw [get_short_append, get_short_append_append]
  · have : ¬ k ++ ck <+: r := fun h => hk ((List.prefix_append _ _).trans h)
    simp [get_short, hk, this]

/-! ## 組み立て直し -/

/-- `shortNode` の下で子を消した後の組み立て。子が `shortNode` なら key をつなぐ。 -/
def joinShort (k : Nibbles) : Node → Node
  | .short ck cv => .short (k ++ ck) cv
  | child => .short k child

/--
`fullNode` から子を消した後の組み立て（読み込みの要らない木の上で）。子が一つだけ
残ったら `shortNode` に縮め、その子が `shortNode` なら nibble を key の先に付ける。
-/
def collapseFull (cs : Fin 17 → Node) : Node :=
  match remaining cs with
  | .one p =>
    if p ≠ 16 then
      match cs p with
      | .short ck cv => .short (p :: ck) cv
      | _ => .short [p] (cs p)
    else .short [p] (cs p)
  | _ => .full cs

theorem get_joinShort (k : Nibbles) (c : Node) (r : Nibbles) :
    (joinShort k c).get r = (short k c).get r := by
  cases c with
  | short ck cv => exact get_short_append_key k ck cv r
  | _ => rfl

theorem get_collapseFull (cs : Fin 17 → Node) (r : Nibbles) :
    (collapseFull cs).get r = (Node.full cs).get r := by
  unfold collapseFull
  split
  · next p hp =>
    have hsingle := (remaining_one hp).2
    rw [get_full_single hsingle]
    split
    · split
      · next ck cv h =>
        rw [h]
        exact get_short_append_key [p] ck cv r
      · rfl
    · rfl
  · rfl

theorem hashFree_joinShort (k : Nibbles) {c : Node} (h : HashFree c) : HashFree (joinShort k c) := by
  cases c with
  | short ck cv => exact h
  | _ => exact h

theorem hashFree_collapseFull {cs : Fin 17 → Node} (h : HashFree (.full cs)) :
    HashFree (collapseFull cs) := by
  unfold collapseFull
  split
  · next p _ =>
    have hp : HashFree (cs p) := h p
    split
    · split
      · next ck cv he => rw [he] at hp; exact hp
      · exact hp
    · exact hp
  · exact h

/-- 終端を含まない key を前に付けても正準な `shortNode` のままである。 -/
theorem Canon.short_append {k : Nibbles} (hk : 16 ∉ k) {ck : Nibbles} {cv : Node}
    (h : Canon (.short ck cv)) : Canon (.short (k ++ ck) cv) := by
  cases h with
  | leaf hck => exact Canon.leaf ((term_append hck.ne_nil).mpr ⟨hk, hck⟩)
  | ext hne hck hc => exact Canon.ext (by simp [hne]) (by simp [hk, hck]) hc

/-- 正準な `shortNode` か `fullNode` の上に、終端を含まない空でない key を付ける。 -/
theorem canon_joinShort {k : Nibbles} (hne : k ≠ []) (hk : 16 ∉ k) {c : Node} (hc : Canon c) :
    Canon (joinShort k c) := by
  cases hc with
  | leaf hck => exact Canon.short_append hk (Canon.leaf hck)
  | ext hne' hck hc' => exact Canon.short_append hk (Canon.ext hne' hck hc')
  | full hcs hv h2 => exact Canon.ext hne hk (Canon.full hcs hv h2)

/-- 子の条件を満たし、子が一つ以上残っていれば、縮めた結果は正準形である。 -/
theorem canon_collapseFull {cs : Fin 17 → Node}
    (hcs : ∀ j : Fin 17, j ≠ 16 → cs j ≠ .nil → Canon (cs j))
    (hv : cs 16 = .nil ∨ ∃ a, cs 16 = .value a) (hne : remaining cs ≠ .empty) :
    Canon (collapseFull cs) := by
  unfold collapseFull
  split
  · next p hp =>
    have hpn := (remaining_one hp).1
    by_cases h16 : p = 16
    · -- 残ったのが値の枠なら、終端だけの key の葉になる
      subst h16
      rw [if_neg (by simp)]
      rcases hv with h | ⟨a, h⟩
      · exact absurd h hpn
      · rw [h]
        exact Canon.leaf (term_cons.mpr (Or.inl ⟨rfl, rfl⟩))
    · rw [if_pos h16]
      have hc := hcs p h16 hpn
      have hp16 : (16 : Nibble) ∉ [p] := by simp [Ne.symm h16]
      split
      · next ck cv he =>
        rw [he] at hc
        exact Canon.short_append hp16 hc
      · next hns =>
        generalize cs p = c at hc hns ⊢
        cases hc with
        | leaf => exact absurd rfl (hns _ _)
        | ext => exact absurd rfl (hns _ _)
        | full hcs' hv' h2' => exact Canon.ext (by simp) hp16 (Canon.full hcs' hv' h2')
  · next hno =>
    refine Canon.full hcs hv (remaining_many ?_)
    cases h : remaining cs with
    | empty => exact absurd h hne
    | one p => exact absurd h (hno p)
    | many => rfl

/-! ## 削除の結果 -/

/-- `key` を消して `(d, n')` が返ったときに成り立つこと。 -/
structure Deleted (n : Node) (key : Nibbles) (d : Bool) (n' : Node) : Prop where
  /-- dirty でなければ元の node がそのまま返る。 -/
  clean : d = false → n' = n
  fits : Fits n' key
  hashFree : HashFree n'
  /-- 写像は `key` だけが消える。 -/
  get_eq : ∀ r, n'.get r = if r = key then none else n.get r

/-- 値の無い key を消しても、何も変わらない。 -/
theorem deleted_clean {n : Node} {key : Nibbles} (hfit : Fits n key) (hfree : HashFree n)
    (hget : n.get key = none) : Deleted n key false n where
  clean := fun _ => rfl
  fits := hfit
  hashFree := hfree
  get_eq := by
    intro r
    by_cases hr : r = key
    · rw [if_pos hr, hr, hget]
    · rw [if_neg hr]

/-- dirty でない削除では、消した key にもともと値が無かった。 -/
theorem Deleted.get_none {n n' : Node} {key : Nibbles} (h : Deleted n key false n') :
    n.get key = none := by
  have := h.get_eq key
  rwa [h.clean rfl, if_pos rfl] at this

/-- 値の枠の値を消す。 -/
theorem deleted_value (a : Bytes) : Deleted (.value a) [] true .nil where
  clean := by simp
  fits := Or.inl ⟨rfl, Or.inl rfl⟩
  hashFree := trivial
  get_eq := by
    intro r
    by_cases hr : r = [] <;> simp [get_value, hr]

/-- 正準な `shortNode` の key そのものを消すと、節ごと消える。 -/
theorem deleted_whole {k : Nibbles} {sv : Node} (hc : Canon (.short k sv)) (hkey : Term k) :
    Deleted (.short k sv) k true .nil where
  clean := by simp
  fits := Or.inr ⟨hkey, Or.inl rfl⟩
  hashFree := trivial
  get_eq := by
    intro r
    rcases hc.short_cases with ⟨-, a, rfl⟩ | ⟨-, hk, -⟩
    · rw [get_short, get_value_drop]
      split <;> rfl
    · exact absurd hkey.mem hk

/-- 正準な `fullNode` から一つ消した結果は、また正準形である。 -/
theorem Deleted.canon_of_full {cs : Fin 17 → Node} (hc : Canon (.full cs)) {key : Nibbles}
    (hkey : Term key) {d : Bool} {n' : Node} (h : Deleted (.full cs) key d n') : Canon n' := by
  obtain ⟨r₁, r₂, hne, h₁, h₂⟩ := hc.two_entries
  -- 二つの値のうち、消した key でない方が残る
  have hkeep : ∃ r, n'.get r ≠ none := by
    by_cases hr : r₁ = key
    · exact ⟨r₂, by rwa [h.get_eq, if_neg (fun h => hne (hr.trans h.symm))]⟩
    · exact ⟨r₁, by rwa [h.get_eq, if_neg hr]⟩
  rcases h.fits.of_term hkey with rfl | h'
  · obtain ⟨r, hr⟩ := hkeep
    exact absurd (get_nil r) hr
  · exact h'

/-- 正準な `shortNode` の key の先を消すと、子を消した結果の上に節を組み立て直す。 -/
theorem deleted_short {k s : Nibbles} {sv : Node} (hc : Canon (.short k sv))
    (hkey : Term (k ++ s)) (hs : s ≠ []) {child : Node} (hrec : Deleted sv s true child) :
    Deleted (.short k sv) (k ++ s) true (joinShort k child) where
  clean := by simp
  fits := by
    refine Or.inr ⟨hkey, Or.inr ?_⟩
    rcases hc.short_cases with ⟨hk, -⟩ | ⟨hne, hk, cs, rfl, hcs⟩
    · exact absurd (hk.eq_of_prefix hkey (List.prefix_append k s)) (by simp [hs])
    · exact canon_joinShort hne hk (hrec.canon_of_full hcs ((term_append hs).mp hkey).2)
  hashFree := hashFree_joinShort k hrec.hashFree
  get_eq := by
    intro r
    rw [get_joinShort, get_short, get_short]
    by_cases hr : k <+: r
    · obtain ⟨t, rfl⟩ := hr
      simp only [List.prefix_append, if_true, List.drop_left, hrec.get_eq,
        List.append_cancel_left_eq]
    · have hne : r ≠ k ++ s := by rintro rfl; exact hr (List.prefix_append k s)
      simp [hr, hne]

/-- 正準な `fullNode` の子から消すと、子を差し替えて縮めた結果になる。 -/
theorem deleted_full {cs : Fin 17 → Node} (hc : Canon (.full cs)) (hfree : HashFree (.full cs))
    {i : Nibble} {r : Nibbles} (hkey : Term (i :: r)) {nn : Node}
    (hrec : Deleted (cs i) r true nn) :
    Deleted (.full cs) (i :: r) true (collapseFull (Function.update cs i nn)) := by
  have hget : ∀ r', (Node.full (Function.update cs i nn)).get r' =
      if r' = i :: r then none else (Node.full cs).get r' := get_full_update hrec.get_eq
  -- 縮める前の `fullNode` も一つ消した写像を表すので、子は一つ以上残る
  have hne : remaining (Function.update cs i nn) ≠ .empty := by
    intro he
    obtain ⟨r₁, r₂, hne, h₁, h₂⟩ := hc.two_entries
    have hnil : ∀ r', (Node.full (Function.update cs i nn)).get r' = none := by
      intro r'
      cases r' with
      | nil => rfl
      | cons j t => rw [get_full_cons, remaining_empty he j, get_nil]
    by_cases hr : r₁ = i :: r
    · exact h₂ (by rw [← hnil r₂, hget, if_neg (fun h => hne (hr.trans h.symm))])
    · exact h₁ (by rw [← hnil r₁, hget, if_neg hr])
  refine ⟨by simp, Or.inr ⟨hkey, Or.inr ?_⟩, hashFree_collapseFull (hashFree_update hfree
    hrec.hashFree), fun r' => by rw [get_collapseFull, hget]⟩
  cases hc with
  | full hcs hv h2 =>
    obtain ⟨hcs', hv'⟩ := children_update hcs hv hkey hrec.fits
    exact canon_collapseFull hcs' hv' hne

/-! ## `deleteStep` -/

/-- 読み込みの要らない node の `resolve` は何もしない。 -/
theorem resolve_hashFree (db : NodeReader) {n : Node} (h : HashFree n) (pre : Nibbles) :
    resolve db n pre = .ok n := by
  cases n with
  | hash => exact h.elim
  | _ => rfl

/-- 節の key が引く key の接頭辞でなければ、一致する長さは節の key より短い。 -/
theorem prefixLen_lt_iff {key k : Nibbles} : prefixLen key k < k.length ↔ ¬ k <+: key := by
  rw [← List.commonPrefixLen_eq_length_iff, List.commonPrefixLen_comm]
  have := List.commonPrefixLen_le_right key k
  exact ⟨Nat.ne_of_lt, fun h => lt_of_le_of_ne this h⟩

section
variable {db : NodeReader} {again : Node → Nibbles → Nibbles → InsertResult}

/-- 子から消して dirty なら、`fullNode` は子を差し替えて縮めた結果になる。 -/
theorem deleteStep_full_dirty {cs : Fin 17 → Node} (hfree : HashFree (.full cs)) {pre : Nibbles}
    {i : Nibble} {r : Nibbles} {nn : Node} (hn : HashFree nn)
    (hrun : deleteStep db again (cs i) (pre ++ [i]) r = .ok (true, nn)) :
    deleteStep db again (.full cs) pre (i :: r) =
      .ok (true, collapseFull (Function.update cs i nn)) := by
  have hf := hashFree_update hfree hn (i := i)
  simp only [deleteStep, hrun, collapseFull]
  rcases h : remaining (Function.update cs i nn) with _ | p | _
  · rfl
  · by_cases hp : p = 16
    · simp [hp]
    · simp only [ne_eq, hp, not_false_eq_true, if_true, resolve_hashFree db (hf p)]
      generalize Function.update cs i nn p = c
      cases c <;> rfl
  · rfl

/--
**削除の仕様。** ふさわしい位置にある読み込みの要らない node から `key` を消すと、
読み込みも panic も起きずに `Deleted` を満たす結果が返る。
-/
theorem deleteStep_deleted : ∀ (n : Node) (pre key : Nibbles), Fits n key → HashFree n →
    ∃ d n', deleteStep db again n pre key = .ok (d, n') ∧ Deleted n key d n'
  | .nil, _, key, hfit, _ => ⟨false, .nil, rfl, deleted_clean hfit trivial (get_nil key)⟩
  | .value a, _, key, hfit, _ => by
    rcases hfit with ⟨rfl, -⟩ | ⟨-, h | h⟩
    · exact ⟨true, .nil, rfl, deleted_value a⟩
    · cases h
    · exact absurd rfl (h.ne_value a)
  | .hash _, _, _, _, hfree => absurd hfree (by simp [HashFree])
  | .short k sv, pre, key, hfit, hfree => by
    obtain ⟨hkey, hc⟩ : Term key ∧ Canon (.short k sv) := by
      rcases hfit with ⟨-, h | ⟨a, h⟩⟩ | ⟨hkey, h | h⟩
      · cases h
      · cases h
      · cases h
      · exact ⟨hkey, h⟩
    by_cases hp : k <+: key
    · obtain ⟨s, rfl⟩ := hp
      have hm : prefixLen (k ++ s) k = k.length := by
        rw [prefixLen, List.commonPrefixLen_comm]
        exact List.commonPrefixLen_of_prefix (List.prefix_append k s)
      by_cases hs : s = []
      · -- 節の key そのもの：節ごと消す
        subst hs
        rw [List.append_nil] at hm hkey ⊢
        refine ⟨true, .nil, ?_, deleted_whole hc hkey⟩
        simp only [deleteStep, hm, lt_irrefl, if_false, if_true]
      · -- 節の key の先：子から消して組み立て直す
        have hfit' : Fits sv s := by
          simpa using hc.fits_val hkey (List.prefix_append k s)
        obtain ⟨d, child, hrun, hdel⟩ := deleteStep_deleted sv (pre ++ k) s hfit' hfree
        cases d
        · refine ⟨false, _, ?_, deleted_clean hfit hfree (by simpa using hdel.get_none)⟩
          simp [deleteStep, hm, hs, hrun]
        · refine ⟨true, joinShort k child, ?_, deleted_short hc hkey hs hdel⟩
          simp only [deleteStep, hm, lt_irrefl, if_false, List.length_append, List.take_left,
            List.drop_left, hrun]
          rw [if_neg (by simpa using hs)]
          cases child <;> rfl
    · -- 節の key と食い違う：何も消さない
      have hm : prefixLen key k < k.length := prefixLen_lt_iff.mpr hp
      refine ⟨false, _, by simp [deleteStep, hm], deleted_clean hfit hfree ?_⟩
      rw [get_short, if_neg hp]
  | .full cs, pre, key, hfit, hfree => by
    obtain ⟨hkey, hc⟩ : Term key ∧ Canon (.full cs) := by
      rcases hfit with ⟨-, h | ⟨a, h⟩⟩ | ⟨hkey, h | h⟩
      · cases h
      · cases h
      · cases h
      · exact ⟨hkey, h⟩
    obtain ⟨i, r, rfl⟩ := List.exists_cons_of_ne_nil hkey.ne_nil
    obtain ⟨d, nn, hrun, hdel⟩ :=
      deleteStep_deleted (cs i) (pre ++ [i]) r (hc.fits_child hkey) (hfree i)
    cases d
    · refine ⟨false, _, by simp [deleteStep, hrun], deleted_clean hfit hfree ?_⟩
      rw [get_full_cons]
      exact hdel.get_none
    · exact ⟨true, _, deleteStep_full_dirty hfree hdel.hashFree hrun,
        deleted_full hc hfree hkey hdel⟩

end

/-- fuel を何回にしても、`delete` は一段の関数に何かの続きを渡したものである。 -/
theorem delete_eq_step (db : NodeReader) (fuel : Nat) :
    ∃ again, delete db fuel = deleteStep db again := by
  cases fuel with
  | zero => exact ⟨_, rfl⟩
  | succ fuel => exact ⟨_, rfl⟩

end Trie
