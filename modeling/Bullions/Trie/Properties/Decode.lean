import Bullions.Trie.Decode
import Bullions.Trie.Hasher
import Bullions.Trie.Spec
import Bullions.Trie.Properties.Encoding
import Bullions.Rlp.Properties.Int

/-!
# 潰した node の符号の読み戻し

hasher が潰した node（`collapsed`）の符号を `decodeNode` で読むと、その node に戻る
（`decodeNode_collapsed`）。ただし二つの点で、潰した node の値そのものとは違う：

* key は COMPACT から HEX に戻る（`compactToHex_hexToCompact`）
* `hashFullNodeChildren` が 0〜15 の nil の子に置く `nilValueNode` は空の文字列と書かれ、
  `decodeRef` は nil と読む（`restoreNil`）。分岐の値の枠の空の値も nil と読まれるので、そこは
  空でないとする（`ValueSlotOk`。trie の `Update` は空の値を削除として扱う）

hasher は Go では `node` を返し、ここの `hasherHash` は符号の値 `Rlp.Item` を返す。潰した node を
node のまま書いたもの（`hashed`、`collapsed`）と、それを `rlp.Encode` が書く値（`nodeItem`）を
置き、`hasherHash_eq_toHash` で `hasherHash` とつなぐ。読み戻しは正準形（`Canon`）の木について、
木の形に沿った帰納法で示す。埋め込まれた子の符号は親の符号より短いので、燃料は足りる。
-/

namespace Trie

open Rlp

/-! ## 潰した node -/

/-- `nilValueNode = valueNode(nil)`。 -/
def nilValueNode : Node := .value []

/-- `nilValueNode` か。 -/
def Node.isNilValue : Node → Bool
  | .value [] => true
  | _ => false

/-- 分岐の値の枠は空の値でない（空の値は nil と読まれる）。 -/
def ValueSlotOk : Node → Prop
  | .full cs => cs 16 ≠ .value []
  | _ => True

/-- key を COMPACT にして `rlp.Encode` が書く値。nil の子は `EncodeRLP` が空の文字列にする。 -/
def nodeItem : Node → Item
  | .short k v => .list [.str (hexToCompact k), nodeItem v]
  | .full cs => .list (List.ofFn fun i => if (cs i).isNil then .str [] else nodeItem (cs i))
  | n => n.rawItem

section
variable (keccak : Bytes → Bytes)

/-- `shortnodeToHash` / `fullnodeToHash` を node で：小さければ潰した node、そうでなければ hash。 -/
def toHashNode (collapsed : Node) (force : Bool) : Node :=
  if force = false ∧ (encode (nodeItem collapsed)).length < 32 then collapsed
  else .hash (keccak (encode (nodeItem collapsed)))

/-- `hasher.hash(n, force)` の一つ目の戻り値を、key を HEX のままにした node で。 -/
def hashed (force : Bool) : Node → Node
  | .short k v => toHashNode keccak (.short k (if v.isBranch then hashed false v else v)) force
  | .full cs => toHashNode keccak (.full fun i =>
      if i.val < 16 then (if (cs i).isNil then nilValueNode else hashed false (cs i)) else cs i) force
  | n => n

/-- `hashShortNodeChildren` / `hashFullNodeChildren` の `collapsed`（key は HEX のまま）。 -/
def collapsed : Node → Node
  | .short k v => .short k (if v.isBranch then hashed keccak false v else v)
  | .full cs => .full fun i =>
      if i.val < 16 then (if (cs i).isNil then nilValueNode else hashed keccak false (cs i)) else cs i
  | n => n

end

/-- 読み戻した node：0〜15 の `nilValueNode` は nil になる。 -/
def restoreNil : Node → Node
  | .short k v => .short k (restoreNil v)
  | .full cs => .full fun i => if i.val < 16 ∧ (cs i).isNilValue = true then .nil else restoreNil (cs i)
  | n => n

/-- 0〜15 の子の参照として読んだ node。 -/
def readRef (r : Node) : Node := if r.isNilValue then .nil else restoreNil r

/-- 潰した分岐の `i` 番目の子。 -/
def collapsedChild (keccak : Bytes → Bytes) (cs : Fin 17 → Node) (i : Fin 17) : Node :=
  if i.val < 16 then (if (cs i).isNil then nilValueNode else hashed keccak false (cs i)) else cs i

section
variable {keccak : Bytes → Bytes}

theorem hashed_branch {n : Node} (h : n.isBranch = true) (force : Bool) :
    hashed keccak force n = toHashNode keccak (collapsed keccak n) force := by
  cases n with
  | short k v => rfl
  | full cs => rfl
  | _ => cases h

theorem isNil_hashed (force : Bool) (n : Node) : (hashed keccak force n).isNil = n.isNil := by
  cases n with
  | short k v =>
    rw [hashed, toHashNode]
    split_ifs <;> rfl
  | full cs =>
    rw [hashed, toHashNode]
    split_ifs <;> rfl
  | _ => rfl

theorem nodeItem_toHashNode (c : Node) (force : Bool) :
    nodeItem (toHashNode keccak c force) = toHash keccak (nodeItem c) force := by
  unfold toHashNode toHash
  split_ifs <;> rfl

/-- 正準形の木では、node で書いた hasher は `hasherHash` の書く値を書く。 -/
theorem nodeItem_hashed {n : Node} (hn : Canon n) (force : Bool) :
    nodeItem (hashed keccak force n) = hasherHash keccak force n := by
  induction hn generalizing force with
  | leaf hk =>
    rw [hashed, nodeItem_toHashNode, hasherHash]
    rfl
  | ext hne hk hc ih =>
    rw [hashed, nodeItem_toHashNode, hasherHash]
    simp only [Node.isBranch, if_true]
    rw [nodeItem, ih]
  | @full cs hc hv h2 ih =>
    rw [hashed, nodeItem_toHashNode, hasherHash, nodeItem]
    congr 3
    funext i
    by_cases hi : i.val < 16
    · -- 0〜15：nil は `nilValueNode`（空の文字列）、ほかは潰した子
      simp only [hi, if_true]
      by_cases hn : (cs i).isNil = true
      · simp only [hn, if_true]
        rfl
      · have hi16 : i ≠ 16 := fun h => by subst h; simp at hi
        have hne : cs i ≠ .nil := fun h => hn (by rw [h]; rfl)
        simp only [hn, if_false, isNil_hashed, Bool.false_eq_true]
        exact ih i hi16 hne false
    · -- 値の枠：nil か値で、どちらもそのまま
      have h16 : i = 16 := Fin.ext (by omega)
      subst h16
      simp only [hi, if_false]
      rcases hv with h | ⟨v, h⟩ <;> rw [h] <;> rfl

/-- hasher の一つ目の戻り値は、潰した node の符号の hash か、潰した node そのもの。 -/
theorem hasherHash_eq_toHash {n : Node} (hn : Canon n) (force : Bool) :
    hasherHash keccak force n = toHash keccak (nodeItem (collapsed keccak n)) force := by
  have hb : n.isBranch = true := by cases hn <;> rfl
  rw [← nodeItem_hashed hn, hashed_branch hb, nodeItem_toHashNode]

end

/-! ## 符号の長さ -/

theorem length_enc_lt_of_mem {xs : List Item} {x : Item} (h : x ∈ xs) :
    x.enc.length < (Item.list xs).enc.length := by
  have h1 := Item.length_enc_le_of_mem h
  have h2 := List.length_pos_of_ne_nil (header_ne_nil 0xC0 0xF7 (Item.encList xs).length)
  rw [Item.enc_list, List.length_append]
  omega

theorem encList_append (xs ys : List Item) :
    Item.encList (xs ++ ys) = Item.encList xs ++ Item.encList ys := by
  simp [Item.encList_eq_flatten]

theorem encList_singleton (x : Item) : Item.encList [x] = x.enc := by
  simp [Item.encList_eq_flatten]

/-! ## 参照の読み -/

section
variable {keccak : Bytes → Bytes}

/-- 空の文字列は nil と読む。 -/
theorem decodeRef_nilValue (dec : Bytes → Except DecodeError Node) (rest : Bytes) :
    decodeRef dec ((nodeItem nilValueNode).enc ++ rest) = .ok (.nil, rest) := by
  rw [decodeRef, show nodeItem nilValueNode = .str [] from rfl,
    Split_enc_str rest (by simp) (by simp)]
  rfl

theorem isNilValue_hashed {c : Node} (hc : c.isBranch = true) :
    (hashed keccak false c).isNilValue = false := by
  rw [hashed_branch hc, toHashNode]
  split_ifs
  · cases c <;> first | rfl | cases hc
  · rfl

/--
潰した子の参照は、埋め込まれていればその子として、そうでなければ `hashNode` として読む。
埋め込まれた子の読みは燃料 `f` で足りるとする。
-/
theorem decodeRef_hashed (hk : ∀ b, (keccak b).length = 32) {c : Node} (hc : c.isBranch = true)
    {f : Nat} (hf : (nodeItem (hashed keccak false c)).enc.length < f)
    (ih : ∀ rest, (nodeItem (collapsed keccak c)).enc.length < 32 →
      (nodeItem (collapsed keccak c)).enc.length < f →
      decodeNodeFuel f ((nodeItem (collapsed keccak c)).enc ++ rest) =
        .ok (restoreNil (collapsed keccak c)))
    (rest : Bytes) :
    decodeRef (decodeNodeFuel f) ((nodeItem (hashed keccak false c)).enc ++ rest) =
      .ok (restoreNil (hashed keccak false c), rest) := by
  by_cases hs : (encode (nodeItem (collapsed keccak c))).length < 32
  · -- 埋め込まれた子：列の符号で、32 byte より短い
    have he : hashed keccak false c = collapsed keccak c := by
      rw [hashed_branch hc, toHashNode, if_pos ⟨rfl, hs⟩]
    rw [encode_eq_enc] at hs
    rw [he] at hf ⊢
    obtain ⟨xs, hxs⟩ : ∃ xs, nodeItem (collapsed keccak c) = .list xs := by
      cases c with
      | short k v => exact ⟨_, rfl⟩
      | full cs => exact ⟨_, rfl⟩
      | _ => cases hc
    have hl : (Item.encList xs).length < 2 ^ 64 := by
      have := length_le_enc_list xs
      rw [hxs] at hs
      omega
    rw [decodeRef, hxs, Split_enc_list xs rest hl]
    simp only [if_true, List.length_append, Nat.add_sub_cancel, hashLen]
    rw [← hxs]
    rw [if_neg (by omega), ih rest hs hf]
  · -- 大きい子：32 byte の `hashNode`
    have he : hashed keccak false c = .hash (keccak (encode (nodeItem (collapsed keccak c)))) := by
      rw [hashed_branch hc, toHashNode, if_neg (fun h => hs h.2)]
    rw [he]
    show decodeRef _ ((Item.str (keccak _)).enc ++ rest) = _
    rw [decodeRef, Split_enc_str rest (by rw [hk]; norm_num) (by rw [hk]; norm_num)]
    simp [hk]
    rfl

/-- 16 個の子の参照を順に読む。 -/
theorem decodeChildren_refs (dec : Bytes → Except DecodeError Node) :
    ∀ (rs : List Node) (i : Nat) (rest : Bytes),
      (∀ r ∈ rs, ∀ rest, decodeRef dec ((nodeItem r).enc ++ rest) = .ok (readRef r, rest)) →
      decodeChildren dec rs.length i (Item.encList (rs.map nodeItem) ++ rest) =
        .ok (rs.map readRef, rest)
  | [], _, _, _ => rfl
  | r :: rs, i, rest, h => by
    rw [List.length_cons, decodeChildren, List.map_cons, Item.encList, List.append_assoc,
      h r List.mem_cons_self]
    simp only
    rw [decodeChildren_refs dec rs (i + 1) rest (fun r' hr' => h r' (List.mem_cons_of_mem r hr'))]
    rfl

end

/-! ## node の読み -/

theorem Term.hexKey {k : Nibbles} (h : Term k) : HexKey k := by
  obtain ⟨ns, hns, rfl⟩ := h
  refine ⟨ns, fun x hx => ?_, Or.inr rfl⟩
  have hx16 : x.val ≠ 16 := fun h16 => hns (by rwa [show x = 16 from Fin.ext h16] at hx)
  have := x.isLt
  omega

theorem hexKey_of_not_mem {k : Nibbles} (h : (16 : Nibble) ∉ k) : HexKey k := by
  refine ⟨k, fun x hx => ?_, Or.inl rfl⟩
  have hx16 : x.val ≠ 16 := fun h16 => h (by rwa [show x = 16 from Fin.ext h16] at hx)
  have := x.isLt
  omega

theorem Canon.isBranch {n : Node} (h : Canon n) : n.isBranch = true := by
  cases h <;> rfl

/-- 列の符号は、要素の数で `decodeShort` か `decodeFull` に回る。 -/
theorem decodeNodeFuel_list (f : Nat) (xs : List Item) (rest : Bytes)
    (h64 : (Item.list xs).enc.length < 2 ^ 64) :
    decodeNodeFuel (f + 1) ((Item.list xs).enc ++ rest) =
      if xs.length = 2 then wrap (decodeShort (decodeNodeFuel f) (Item.encList xs)) "short"
      else if xs.length = 17 then wrap (decodeFull (decodeNodeFuel f) (Item.encList xs)) "full"
      else .error (.invalidListElements xs.length) := by
  have hne : ((Item.list xs).enc ++ rest).length ≠ 0 := by
    simp [Item.enc_ne_nil]
  rw [decodeNodeFuel, if_neg hne,
    SplitList_enc_list xs rest (Nat.lt_of_le_of_lt (length_le_enc_list xs) h64)]
  simp only [CountValues_encList xs (fun x hx => Nat.lt_trans (length_enc_lt_of_mem hx) h64)]

section
variable {keccak : Bytes → Bytes}

/-- 葉：key を戻し、値を読む。 -/
theorem decodeNodeFuel_leaf {k : Nibbles} (hk : Term k) (v : Bytes) (f : Nat) (rest : Bytes)
    (h64 : (nodeItem (.short k (.value v))).enc.length < 2 ^ 64) :
    decodeNodeFuel (f + 1) ((nodeItem (.short k (.value v))).enc ++ rest) =
      .ok (.short k (.value v)) := by
  rw [show nodeItem (.short k (.value v)) = .list [.str (hexToCompact k), .str v] from rfl] at h64 ⊢
  have hk64 : (hexToCompact k).length < 2 ^ 64 :=
    Nat.lt_of_le_of_lt (length_le_enc_str _) (Nat.lt_trans (length_enc_lt_of_mem (by simp)) h64)
  have hv64 : v.length < 2 ^ 64 :=
    Nat.lt_of_le_of_lt (length_le_enc_str _) (Nat.lt_trans (length_enc_lt_of_mem (by simp)) h64)
  have hval := SplitString_enc_str v [] hv64
  rw [List.append_nil] at hval
  have h2 : [Item.str (hexToCompact k), Item.str v].length = 2 := rfl
  rw [decodeNodeFuel_list f _ rest h64, if_pos h2, decodeShort, Item.encList,
    SplitString_enc_str _ _ hk64]
  simp only
  rw [compactToHex_hexToCompact hk.hexKey, if_pos (hasTerm_of_term hk), encList_singleton, hval]
  rfl

/-- 拡張：key を戻し、潰した子の参照を読む。 -/
theorem decodeNodeFuel_ext (hkc : ∀ b, (keccak b).length = 32) {k : Nibbles}
    (hk : (16 : Nibble) ∉ k) {c : Node} (hc : c.isBranch = true)
    (ih : ∀ f rest, (nodeItem (collapsed keccak c)).enc.length < 2 ^ 64 →
      (nodeItem (collapsed keccak c)).enc.length < f →
      decodeNodeFuel f ((nodeItem (collapsed keccak c)).enc ++ rest) =
        .ok (restoreNil (collapsed keccak c)))
    (f : Nat) (rest : Bytes) (h64 : (nodeItem (collapsed keccak (.short k c))).enc.length < 2 ^ 64)
    (hf : (nodeItem (collapsed keccak (.short k c))).enc.length < f + 1) :
    decodeNodeFuel (f + 1) ((nodeItem (collapsed keccak (.short k c))).enc ++ rest) =
      .ok (restoreNil (collapsed keccak (.short k c))) := by
  have hcol : collapsed keccak (.short k c) = .short k (hashed keccak false c) := by
    simp [collapsed, hc]
  have hitem : nodeItem (.short k (hashed keccak false c)) =
      .list [.str (hexToCompact k), nodeItem (hashed keccak false c)] := rfl
  rw [hcol, hitem] at h64 hf ⊢
  have hk64 : (hexToCompact k).length < 2 ^ 64 :=
    Nat.lt_of_le_of_lt (length_le_enc_str _) (Nat.lt_trans (length_enc_lt_of_mem (by simp)) h64)
  -- 子の参照の符号は親の符号より短いので、一つ減らした燃料で足りる
  have hr : (nodeItem (hashed keccak false c)).enc.length < f := by
    have hmem : nodeItem (hashed keccak false c) ∈
        [Item.str (hexToCompact k), nodeItem (hashed keccak false c)] := by simp
    have := length_enc_lt_of_mem hmem
    omega
  have href := decodeRef_hashed hkc hc hr (fun rest hs hfc => ih f rest (by omega) hfc) []
  rw [List.append_nil] at href
  have h2 : [Item.str (hexToCompact k), nodeItem (hashed keccak false c)].length = 2 := rfl
  rw [decodeNodeFuel_list f _ rest h64, if_pos h2, decodeShort, Item.encList,
    SplitString_enc_str _ _ hk64]
  simp only
  rw [compactToHex_hexToCompact (hexKey_of_not_mem hk), if_neg (by simp [hasTerm_of_not_mem hk]),
    encList_singleton, href]
  rfl

/-! ## 分岐の読み -/

theorem collapsed_full (cs : Fin 17 → Node) :
    collapsed keccak (.full cs) = .full (collapsedChild keccak cs) := rfl

theorem isNil_collapsedChild (cs : Fin 17 → Node) {i : Fin 17} (hi : i.val < 16) :
    (collapsedChild keccak cs i).isNil = false := by
  rw [collapsedChild, if_pos hi]
  split_ifs with hn
  · rfl
  · rw [isNil_hashed]
    simpa using hn

/-- 潰した分岐の符号：0〜15 の子の符号の後に、値の枠の文字列 `s`。 -/
theorem nodeItem_collapsed_full (cs : Fin 17 → Node) {s : Bytes}
    (hs : (cs 16 = .nil ∧ s = []) ∨ cs 16 = .value s) :
    nodeItem (collapsed keccak (.full cs)) =
      .list ((List.ofFn fun j : Fin 16 => collapsedChild keccak cs j.castSucc).map nodeItem ++
        [.str s]) := by
  rw [collapsed_full, nodeItem, List.ofFn_succ_last, List.map_ofFn]
  congr 3
  · funext j
    have hj : (j.castSucc : Fin 17).val < 16 := by simp
    simp [isNil_collapsedChild cs hj]
  · -- 値の枠は潰されない
    have h16 : collapsedChild keccak cs (Fin.last 16) = cs 16 := rfl
    rw [h16]
    rcases hs with ⟨h, rfl⟩ | h <;> rw [h] <;> rfl

/-- 分岐：16 個の子の参照を読み、値の枠は空でない値だけを値とする。 -/
theorem decodeNodeFuel_full (hkc : ∀ b, (keccak b).length = 32) {cs : Fin 17 → Node}
    (hc : ∀ i : Fin 17, i ≠ 16 → cs i ≠ .nil → (cs i).isBranch = true)
    {s : Bytes} (hs : (cs 16 = .nil ∧ s = []) ∨ (s ≠ [] ∧ cs 16 = .value s))
    (ih : ∀ i : Fin 17, i ≠ 16 → cs i ≠ .nil → ∀ f rest,
      (nodeItem (collapsed keccak (cs i))).enc.length < 2 ^ 64 →
      (nodeItem (collapsed keccak (cs i))).enc.length < f →
      decodeNodeFuel f ((nodeItem (collapsed keccak (cs i))).enc ++ rest) =
        .ok (restoreNil (collapsed keccak (cs i))))
    (f : Nat) (rest : Bytes) (h64 : (nodeItem (collapsed keccak (.full cs))).enc.length < 2 ^ 64)
    (hf : (nodeItem (collapsed keccak (.full cs))).enc.length < f + 1) :
    decodeNodeFuel (f + 1) ((nodeItem (collapsed keccak (.full cs))).enc ++ rest) =
      .ok (restoreNil (collapsed keccak (.full cs))) := by
  have hitem := @nodeItem_collapsed_full keccak cs s (hs.imp id (fun h => h.2))
  rw [hitem] at h64 hf ⊢
  set rs := List.ofFn fun j : Fin 16 => collapsedChild keccak cs j.castSucc with hrs
  have hlen : (rs.map nodeItem ++ [Item.str s]).length = 17 := by simp [rs]
  have hrs16 : rs.length = 16 := by simp [rs]
  -- 子の符号はどれも親の符号より短い
  have hlt : ∀ r ∈ rs, (nodeItem r).enc.length < f := by
    intro r hr
    have hmem : nodeItem r ∈ rs.map nodeItem ++ [Item.str s] :=
      List.mem_append_left _ (List.mem_map_of_mem hr)
    have := length_enc_lt_of_mem hmem
    omega
  have hrefs : ∀ r ∈ rs, ∀ rest, decodeRef (decodeNodeFuel f) ((nodeItem r).enc ++ rest) =
      .ok (readRef r, rest) := by
    intro r hr rest'
    have hfr := hlt r hr
    obtain ⟨j, rfl⟩ := List.mem_ofFn.mp hr
    have hj : (j.castSucc : Fin 17).val < 16 := by simp
    have hj16 : j.castSucc ≠ (16 : Fin 17) := fun h => by simp [h] at hj
    rw [collapsedChild, if_pos hj] at hfr ⊢
    by_cases hn : (cs j.castSucc).isNil = true
    · -- nil の子は `nilValueNode`
      rw [if_pos hn, decodeRef_nilValue]
      rfl
    · -- ほかの子は潰した子の参照
      have hne : cs j.castSucc ≠ .nil := fun h => hn (by rw [h]; rfl)
      have hb := hc _ hj16 hne
      rw [if_neg hn] at hfr ⊢
      rw [decodeRef_hashed hkc hb hfr (fun rest hs hf => ih _ hj16 hne f rest (by omega) hf),
        readRef, isNilValue_hashed hb]
      rfl
  have hs64 : s.length < 2 ^ 64 :=
    Nat.lt_of_le_of_lt (length_le_enc_str _)
      (Nat.lt_trans (length_enc_lt_of_mem (List.mem_append_right _ (List.mem_singleton_self _))) h64)
  have hval := SplitString_enc_str s [] hs64
  rw [List.append_nil] at hval
  have hch := decodeChildren_refs (decodeNodeFuel f) rs 0 (Item.str s).enc hrefs
  rw [hrs16] at hch
  rw [decodeNodeFuel_list f _ rest h64, if_neg (by omega), if_pos hlen, decodeFull, encList_append,
    encList_singleton, hch]
  simp only
  rw [hval, collapsed_full, restoreNil]
  simp only [wrap]
  congr 2
  funext i
  by_cases hi : i.val < 16
  · -- 0〜15：読んだ参照
    have hget : (rs.map readRef).getD i.val .nil = readRef (collapsedChild keccak cs i) := by
      rw [List.getD_eq_getElem?_getD, List.getElem?_map, List.getElem?_ofFn, dif_pos hi]
      rfl
    simp only [hi, if_true, true_and, hget, readRef]
  · -- 値の枠
    have h16 : i = 16 := Fin.ext (by omega)
    subst h16
    have hc16 : collapsedChild keccak cs 16 = cs 16 := rfl
    simp only [hi, if_false, false_and, hc16]
    rcases hs with ⟨h, rfl⟩ | ⟨hne, h⟩
    · simp [h, restoreNil]
    · simp [h, restoreNil, List.length_pos_iff, hne]

/--
正準形の木を潰した node の符号は、燃料が符号の長さより多ければ、nil を戻した node と読める。
帰納法は `Canon` の形に沿う。埋め込まれた子は、一つ減らした燃料で読む。
-/
theorem decodeNodeFuel_collapsed (hkc : ∀ b, (keccak b).length = 32) {n : Node} (hn : Canon n)
    (hv : n.Everywhere ValueSlotOk) (f : Nat) (rest : Bytes)
    (h64 : (nodeItem (collapsed keccak n)).enc.length < 2 ^ 64)
    (hf : (nodeItem (collapsed keccak n)).enc.length < f) :
    decodeNodeFuel f ((nodeItem (collapsed keccak n)).enc ++ rest) =
      .ok (restoreNil (collapsed keccak n)) := by
  induction hn generalizing f rest with
  | leaf hk =>
    obtain ⟨f, rfl⟩ : ∃ f', f = f' + 1 := ⟨f - 1, by omega⟩
    exact decodeNodeFuel_leaf hk _ f rest h64
  | ext hne hk hc ih =>
    obtain ⟨f, rfl⟩ : ∃ f', f = f' + 1 := ⟨f - 1, by omega⟩
    exact decodeNodeFuel_ext hkc hk hc.isBranch (fun f rest => ih hv.2 f rest) f rest h64 hf
  | @full cs hc hv16 h2 ih =>
    obtain ⟨f, rfl⟩ : ∃ f', f = f' + 1 := ⟨f - 1, by omega⟩
    -- 値の枠の文字列：nil なら空、値ならその値
    obtain ⟨s, hs⟩ : ∃ s, (cs 16 = .nil ∧ s = []) ∨ (s ≠ [] ∧ cs 16 = .value s) := by
      rcases hv16 with h | ⟨v, h⟩
      · exact ⟨[], Or.inl ⟨h, rfl⟩⟩
      · have hne : v ≠ [] := fun hv0 => hv.1 (by rw [h, hv0])
        exact ⟨v, Or.inr ⟨hne, h⟩⟩
    exact decodeNodeFuel_full hkc (fun i hi hne => (hc i hi hne).isBranch) hs
      (fun i hi hne f rest => ih i hi hne (hv.2 i) f rest) f rest h64 hf

/-- `decodeNode` は、潰した node の `rlp.Encode` の符号を、nil を戻した node と読む。 -/
theorem decodeNode_collapsed (hkc : ∀ b, (keccak b).length = 32) {n : Node} (hn : Canon n)
    (hv : n.Everywhere ValueSlotOk) (h64 : (encode (nodeItem (collapsed keccak n))).length < 2 ^ 64) :
    decodeNode (encode (nodeItem (collapsed keccak n))) = .ok (restoreNil (collapsed keccak n)) := by
  rw [encode_eq_enc] at h64 ⊢
  have h := decodeNodeFuel_collapsed hkc hn hv _ [] h64 (Nat.lt_succ_self _)
  rw [List.append_nil] at h
  exact h

end

/-! ## hasher の書く node の読み戻し -/

/--
hasher が正準形の木から作る潰した node（key は HEX のまま、埋め込む子は 32 byte 未満の符号、
ほかの子は 32 byte の `hashNode`）について：

* hasher の一つ目の戻り値は、潰した node の符号の hash か、潰した node そのもの
* その符号を `decodeNode` で読むと、key を `compactToHex` で HEX に戻した潰した node になる。
  ただし 0〜15 の `nilValueNode` は nil と読まれる（`restoreNil`）
-/
theorem collapsed_node_decode_roundtrip {keccak : Bytes → Bytes}
    (hkc : ∀ b, (keccak b).length = 32) {n : Node} (hn : Canon n)
    (hv : n.Everywhere ValueSlotOk) (h64 : (encode (nodeItem (collapsed keccak n))).length < 2 ^ 64) :
    (∀ force, hasherHash keccak force n = toHash keccak (nodeItem (collapsed keccak n)) force) ∧
    decodeNode (encode (nodeItem (collapsed keccak n))) = .ok (restoreNil (collapsed keccak n)) :=
  ⟨hasherHash_eq_toHash hn, decodeNode_collapsed hkc hn hv h64⟩

/-- 32 byte の 0 を返す hash。 -/
def zeroKeccak : Bytes → Bytes := fun _ => List.replicate 32 0

theorem length_zeroKeccak (b : Bytes) : (zeroKeccak b).length = 32 := List.length_replicate

/-- key `[16]`、値 `0x01` の葉。 -/
def leaf01 : Node := .short [16] (.value [0x01])

theorem canon_leaf01 : Canon leaf01 := Canon.leaf ⟨[], by simp, rfl⟩

theorem collapsed_node_decode_roundtrip_leaf :
    decodeNode (encode (nodeItem (collapsed zeroKeccak leaf01))) =
      .ok (restoreNil (collapsed zeroKeccak leaf01)) :=
  (collapsed_node_decode_roundtrip length_zeroKeccak canon_leaf01 ⟨trivial, trivial⟩
    (by rw [encode_eq_enc]; decide)).2

/-- 0 と 1 に葉を持ち、ほかの子が nil の分岐。 -/
def branch01 : Node := .full fun i => if i.val = 0 ∨ i.val = 1 then leaf01 else .nil

theorem canon_branch01 : Canon branch01 := by
  refine Canon.full (fun i hi hne => ?_) (Or.inl rfl) (by decide)
  by_cases h : i.val = 0 ∨ i.val = 1
  · rw [if_pos h]
    exact canon_leaf01
  · rw [if_neg h] at hne
    exact absurd rfl hne

/-- 潰した分岐の 2 番目の子は `nilValueNode` で、読み戻すと nil になるので、元の node と違う。 -/
theorem decodeNode_nilValueNode_reads_nil :
    decodeNode (encode (nodeItem (collapsed zeroKeccak branch01))) ≠
      .ok (collapsed zeroKeccak branch01) := by
  have hv : branch01.Everywhere ValueSlotOk := by
    refine ⟨by simp [ValueSlotOk], fun i => ?_⟩
    dsimp only
    split_ifs <;> trivial
  rw [decodeNode_collapsed length_zeroKeccak canon_branch01 hv
    (by rw [encode_eq_enc]; decide)]
  intro h
  have h2 := congrArg (fun m => match m with | .ok (.full cs) => cs 2 | _ => .nil) h
  simp [collapsed, restoreNil, branch01, nilValueNode, Node.isNilValue] at h2

end Trie
