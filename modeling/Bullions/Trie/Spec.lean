import Bullions.Trie.Trie

/-!
# trie が何を表すか

実装から離れた三つの定義を置く。

* `Term` — 終端付きの key。`keybytesToHex` の値はすべてこの形であり、どの key も
  他の key の真の接頭辞にならない
* `Node.get` — node が表す写像。HEX の key から値への部分関数である
* `Canon` — 正準形。`insert` と `delete` が保ち、`delete` の「ここで子は nil に
  なりえない」という前提を支える形

`ShapeOk` は正準形を一つの node について述べたもので、`Canon` から従う。
-/

namespace Trie

/-! ## 終端付きの key -/

/-- 16 を含まない nibble の列に、終端 16 を一つ付けたもの。 -/
def Term (k : Nibbles) : Prop := ∃ ns : Nibbles, 16 ∉ ns ∧ k = ns ++ [16]

theorem not_term_nil : ¬ Term [] := by
  rintro ⟨ns, -, h⟩
  simp at h

theorem Term.ne_nil {k : Nibbles} (h : Term k) : k ≠ [] := by
  rintro rfl
  exact not_term_nil h

theorem Term.mem {k : Nibbles} (h : Term k) : (16 : Nibble) ∈ k := by
  obtain ⟨ns, -, rfl⟩ := h
  simp

/-- 先頭の nibble で分ける：終端そのものか、終端でない nibble に終端付きの key が続くか。 -/
theorem term_cons {i : Nibble} {r : Nibbles} :
    Term (i :: r) ↔ (i = 16 ∧ r = []) ∨ (i ≠ 16 ∧ Term r) := by
  constructor
  · rintro ⟨ns, hns, h⟩
    cases ns with
    | nil =>
      simp only [List.nil_append, List.cons.injEq] at h
      exact Or.inl h
    | cons a ns =>
      simp only [List.cons_append, List.cons.injEq] at h
      obtain ⟨rfl, rfl⟩ := h
      simp only [List.mem_cons, not_or] at hns
      exact Or.inr ⟨Ne.symm hns.1, ns, hns.2, rfl⟩
  · rintro (⟨rfl, rfl⟩ | ⟨hi, ns, hns, rfl⟩)
    · exact ⟨[], by simp, rfl⟩
    · refine ⟨i :: ns, ?_, rfl⟩
      simp only [List.mem_cons, not_or]
      exact ⟨Ne.symm hi, hns⟩

/-- 空でない後ろ半分が終端付きなら、前半分は終端を含まない。 -/
theorem term_append {a b : Nibbles} (hb : b ≠ []) : Term (a ++ b) ↔ 16 ∉ a ∧ Term b := by
  induction a with
  | nil => simp
  | cons x a ih =>
    rw [List.cons_append, term_cons, ih]
    constructor
    · rintro (⟨-, h⟩ | ⟨hx, ha, hb'⟩)
      · simp at h; exact absurd h.2 hb
      · exact ⟨by simp [Ne.symm hx, ha], hb'⟩
    · rintro ⟨ha, hb'⟩
      simp only [List.mem_cons, not_or] at ha
      exact Or.inr ⟨Ne.symm ha.1, ha.2, hb'⟩

/-- 終端付きの key は、別の終端付きの key の真の接頭辞にならない。 -/
theorem Term.eq_of_prefix {k r : Nibbles} (hk : Term k) (hr : Term r) (h : k <+: r) :
    k = r := by
  obtain ⟨s, rfl⟩ := h
  cases s with
  | nil => simp
  | cons x s =>
    exact absurd hk.mem ((term_append (List.cons_ne_nil x s)).mp hr).1

theorem hiNibble_ne (b : UInt8) : hiNibble b ≠ 16 := by
  have := b.toNat_lt
  intro h
  have hv := congrArg Fin.val h
  simp [hiNibble] at hv
  omega

theorem loNibble_ne (b : UInt8) : loNibble b ≠ 16 := by
  intro h
  have hv := congrArg Fin.val h
  simp [loNibble] at hv
  omega

/-- `keybytesToHex` の値は終端付きである。 -/
theorem keybytesToHex_term (str : Bytes) : Term (keybytesToHex str) := by
  refine ⟨_, ?_, rfl⟩
  simp only [List.mem_flatMap, List.mem_cons, List.not_mem_nil, or_false, not_exists, not_and]
  intro b _ h
  rcases h with h | h
  · exact hiNibble_ne b h.symm
  · exact loNibble_ne b h.symm

/-- 上下の nibble から byte が決まる。 -/
theorem byte_eq_of_nibbles {a b : UInt8} (hh : hiNibble a = hiNibble b)
    (hl : loNibble a = loNibble b) : a = b := by
  have h1 := congrArg Fin.val hh
  have h2 := congrArg Fin.val hl
  simp only [hiNibble, loNibble] at h1 h2
  apply UInt8.toNat_inj.mp
  omega

/-- 異なる key は異なる HEX の key になる。 -/
theorem keybytesToHex_injective : Function.Injective keybytesToHex := by
  intro a b h
  have h' := List.append_cancel_right h
  clear h
  induction a generalizing b with
  | nil =>
    cases b with
    | nil => rfl
    | cons y b => simp at h'
  | cons x a ih =>
    cases b with
    | nil => simp at h'
    | cons y b =>
      simp only [List.flatMap_cons, List.cons_append, List.nil_append, List.cons.injEq] at h'
      obtain ⟨hh, hl, hr⟩ := h'
      rw [byte_eq_of_nibbles hh hl, ih hr]

/-! ## node が表す写像 -/

namespace Node

/--
node を HEX の key で引いた値。`valueNode` は key を使い切った所にだけ値を持つ。
`hashNode` は何も表さない（読み込んでいない部分は写像に入れない）。
-/
def get : Node → Nibbles → Option Bytes
  | nil, _ => none
  | full _, [] => none
  | full cs, i :: r => get (cs i) r
  | short k v, r => if k <+: r then get v (r.drop k.length) else none
  | hash _, _ => none
  | value v, r => if r = [] then some v else none

@[simp] theorem get_nil (r : Nibbles) : get nil r = none := rfl
@[simp] theorem get_full_nil (cs : Fin 17 → Node) : get (full cs) [] = none := rfl
@[simp] theorem get_full_cons (cs : Fin 17 → Node) (i : Nibble) (r : Nibbles) :
    get (full cs) (i :: r) = get (cs i) r := rfl
theorem get_short (k : Nibbles) (v : Node) (r : Nibbles) :
    get (short k v) r = if k <+: r then get v (r.drop k.length) else none := rfl
@[simp] theorem get_hash (h : Bytes) (r : Nibbles) : get (hash h) r = none := rfl
theorem get_value (v : Bytes) (r : Nibbles) :
    get (value v) r = if r = [] then some v else none := rfl

/-- `shortNode` を key の前に付けた位置で引くと、子を引いたことになる。 -/
@[simp] theorem get_short_append (k : Nibbles) (v : Node) (r : Nibbles) :
    get (short k v) (k ++ r) = get v r := by
  simp [get_short]

/-- 値の枠にある node：nil か `valueNode`。 -/
def isValue : Node → Bool
  | value _ => true
  | _ => false

/-- `shortNode` か。 -/
def isShort : Node → Bool
  | short _ _ => true
  | _ => false

/-- 木のすべての node で `P` が成り立つ。 -/
def Everywhere (P : Node → Prop) : Node → Prop
  | nil => P nil
  | full cs => P (full cs) ∧ ∀ i, Everywhere P (cs i)
  | short k v => P (short k v) ∧ Everywhere P v
  | hash h => P (hash h)
  | value v => P (value v)

end Node

/-! ## 正準形 -/

/--
正準形。`shortNode` は空でない key を持ち、key が終端付きなら値を、そうでなければ
正準な `fullNode` を指す。`fullNode` の 0〜15 の子は nil か正準形、16 の枠は nil か値で、
nil でない枠が二つ以上ある。
-/
inductive Canon : Node → Prop
  | leaf {k : Nibbles} {v : Bytes} (hk : Term k) : Canon (.short k (.value v))
  | ext {k : Nibbles} {cs : Fin 17 → Node} (hne : k ≠ []) (hk : 16 ∉ k)
      (hc : Canon (.full cs)) : Canon (.short k (.full cs))
  | full {cs : Fin 17 → Node} (hc : ∀ i : Fin 17, i ≠ 16 → cs i ≠ .nil → Canon (cs i))
      (hv : cs 16 = .nil ∨ ∃ v, cs 16 = .value v) (h2 : 2 ≤ occupied cs) : Canon (.full cs)

/-- root に置ける node：空か正準形。 -/
def RootCanon (n : Node) : Prop := n = .nil ∨ Canon n

/--
主張の言う形を一つの node について述べたもの。`shortNode` の key は空でなく、
子が `valueNode` であるのは key が終端で終わるときに限り、そうでなければ子は
`shortNode` でない。`fullNode` には nil でない枠が二つ以上ある。
-/
def ShapeOk : Node → Prop
  | .short k v => k ≠ [] ∧ v.isValue = hasTerm k ∧ (hasTerm k = false → v.isShort = false)
  | .full cs => 2 ≤ occupied cs
  | _ => True

theorem hasTerm_of_term {k : Nibbles} (h : Term k) : hasTerm k = true := by
  obtain ⟨ns, -, rfl⟩ := h
  simp [hasTerm]

theorem hasTerm_of_not_mem {k : Nibbles} (h : (16 : Nibble) ∉ k) : hasTerm k = false := by
  cases hl : k.getLast? with
  | none => simp [hasTerm, hl]
  | some a =>
    have ha : a ∈ k := List.mem_of_getLast? hl
    have hne : a ≠ 16 := fun he => h (he ▸ ha)
    simp [hasTerm, hl, hne]

/-- 正準形の木では、どの node も `ShapeOk` である。 -/
theorem Canon.everywhere_shapeOk {n : Node} (h : Canon n) : n.Everywhere ShapeOk := by
  induction h with
  | leaf hk =>
    exact ⟨⟨hk.ne_nil, by simp [Node.isValue, hasTerm_of_term hk], by simp [hasTerm_of_term hk]⟩,
      trivial⟩
  | ext hne hk hc ih =>
    exact ⟨⟨hne, by simp [Node.isValue, hasTerm_of_not_mem hk], fun _ => rfl⟩, ih⟩
  | @full cs hc hv h2 ih =>
    refine ⟨h2, fun i => ?_⟩
    by_cases hn : cs i = .nil
    · rw [hn]
      trivial
    · by_cases h16 : i = 16
      · -- 値の枠は nil か値で、そこには何も求めない
        subst h16
        rcases hv with h | ⟨a, h⟩
        · exact absurd h hn
        · rw [h]
          trivial
      · exact ih i h16 hn

theorem RootCanon.everywhere_shapeOk {n : Node} (h : RootCanon n) : n.Everywhere ShapeOk := by
  rcases h with rfl | h
  · trivial
  · exact h.everywhere_shapeOk

end Trie
