import Bullions.Trie.StackTrie
import Bullions.Trie.Properties.Encoding
import Bullions.Trie.Properties.Insert
import Bullions.Trie.Properties.Run

/-!
# StackTrie と Trie の root hash

`extNode` を hash するとき、StackTrie は子の `val` を `[][]byte{key, child.val}` の二つ目と
して書く。子の符号が 32 byte 未満で `val` が符号そのもののときも byte 列として書くので、
埋め込むべき node が文字列に包まれる。同じ関数の `branchNode` の場合は、そういう子を
`rawNode` としてそのまま書いている。

key `0x00`、`0x01` では root が `extNode{[0], branchNode}` になり、`branchNode` の符号は
22 byte である。StackTrie が Keccak にかける root の符号は 25 byte、Trie のものは 24 byte
で、二つの root hash は Keccak の衝突がない限り異なる。

計算は Keccak を引数のまま進める。途中の node はどれも 32 byte 未満なので Keccak を
通らず（`StackTrie.finish_small`、`toHash_small`）、最後の root だけが Keccak にかかる。
-/

namespace Trie

open StackTrie

/--
葉の hash。`hexToCompactInPlace` は終端を付けた key の領域の先頭に `hexToCompact` の符号を
書くので、葉は `shortNode` と同じく compact の key で符号になる。
-/
theorem hash_leafNode (keccak : Bytes → Bytes) {v : Bytes} {k : Nibbles} {ko : Nat}
    {cs : Fin 16 → StackTrie} (hk : ∀ x ∈ k, x.val < 16) :
    StackTrie.hash keccak (.mk .leafNode v k ko cs) =
      .ok (finish keccak ko (Rlp.encode (.list [.str (hexToCompact (k ++ [16])), .str v])) []) := by
  obtain ⟨buf, h1, h2⟩ := @hexToCompactInPlace_spec (k ++ [16]) ⟨k, hk, Or.inr rfl⟩ (by simp)
  simp only [StackTrie.hash, h1, h2]

/-- 食い違う入力：key `0x00` と `0x01` に値 `0x01` と `0x02` を順に入れる。 -/
def extBugInput : List (Bytes × Bytes) := [([0x00], [0x01]), ([0x01], [0x02])]

/-- `extBugInput` を入れた Trie の root の下の `fullNode` の子。 -/
def extBugBranch : Fin 17 → Node :=
  twoChildren 0 (.short [16] (.value [1])) 1 (.short [16] (.value [2]))

/-- その `fullNode` を潰した値：二つの葉を埋め込み、残りの 15 の枠は空の byte 列。 -/
def extBugBranchItem : Rlp.Item :=
  .list [.list [.str [0x20], .str [1]], .list [.str [0x20], .str [2]], .str [], .str [], .str [],
    .str [], .str [], .str [], .str [], .str [], .str [], .str [], .str [], .str [], .str [], .str [],
    .str []]

/-! 途中の node の hash。どれも 32 byte 未満で、Keccak を通らない。 -/

theorem extBug_leaf₁ (keccak : Bytes → Bytes) :
    StackTrie.hash keccak (newLeaf 2 ([0, 0] : Nibbles) [1]) =
      .ok (.mk .hashedNode [194, 32, 1] [] 2 noChildren, []) := by
  rw [newLeaf, hash_leafNode keccak (by simp), finish_small keccak [] (by decide)]
  rfl

/-- 二つ目の葉を子に持つ `branchNode`：子の 0 は hash 済み、1 は葉。 -/
theorem extBug_branch (keccak : Bytes → Bytes) :
    StackTrie.hash keccak (.mk .branchNode [] [] 1
        (setChild (setChild noChildren 0 (.mk .hashedNode [194, 32, 1] [] 2 noChildren)) 1
          (newLeaf 2 [0, 1] [2]))) =
      .ok (.mk .hashedNode [213, 194, 32, 1, 194, 32, 2, 128, 128, 128, 128, 128, 128, 128, 128,
        128, 128, 128, 128, 128, 128, 128] [] 1 noChildren, []) := rfl

/-- root の `extNode`：22 byte の `branchNode` の符号を byte 列として書き、25 byte になる。 -/
theorem extBug_root (keccak : Bytes → Bytes) :
    StackTrie.Hash keccak (.mk .extNode [] [0] 0 (setChild noChildren 0 (.mk .branchNode [] [] 1
        (setChild (setChild noChildren 0 (.mk .hashedNode [194, 32, 1] [] 2 noChildren)) 1
          (newLeaf 2 [0, 1] [2]))))) =
      .ok (bytesToHash (keccak [216, 16, 150, 213, 194, 32, 1, 194, 32, 2, 128, 128, 128, 128, 128,
        128, 128, 128, 128, 128, 128, 128, 128, 128, 128]), []) := by
  rw [StackTrie.Hash, StackTrie.hash, setChild, Function.update_self, extBug_branch]
  rfl

/-- 一つ目の key は空の root に葉を置く。 -/
theorem extBug_update₁ (keccak : Bytes → Bytes) :
    StackTrie.TryUpdate keccak (fresh 0) [0x00] [0x01] =
      .ok (.mk .leafNode [1] [0, 0] 0 noChildren, []) := rfl

/-- 二つ目の key で葉が割れ、先の葉は hash されて `branchNode` の子になる。 -/
theorem extBug_update₂ (keccak : Bytes → Bytes) :
    StackTrie.TryUpdate keccak (.mk .leafNode [1] [0, 0] 0 noChildren) [0x01] [0x02] =
      .ok (.mk .extNode [] [0] 0 (setChild noChildren 0 (.mk .branchNode [] [] 1
        (setChild (setChild noChildren 0 (.mk .hashedNode [194, 32, 1] [] 2 noChildren)) 1
          (newLeaf 2 [0, 1] [2])))), []) := by
  change splitLeaf keccak [1] [0, 0] 0 noChildren 1 [0, 1] [2] = _
  simp only [splitLeaf, Nat.reduceAdd, extBug_leaf₁]
  rfl

theorem extBug_stackTrie (keccak : Bytes → Bytes) :
    ((StackTrie.updateAll keccak (StackTrie.fresh 0) extBugInput).bind fun (st, _) =>
      StackTrie.Hash keccak st).map Prod.fst =
      .ok (bytesToHash (keccak [216, 16, 150, 213, 194, 32, 1, 194, 32, 2, 128, 128, 128, 128, 128,
        128, 128, 128, 128, 128, 128, 128, 128, 128, 128])) := by
  rw [extBugInput, updateAll_cons_ok keccak (extBug_update₁ keccak),
    updateAll_cons_ok keccak (extBug_update₂ keccak)]
  simp only [updateAll, Except.map, Except.bind, extBug_root]

/--
`extBugInput` を入れた StackTrie と Trie は、異なる byte 列を Keccak にかけて root hash を
作る。Keccak が何であっても、StackTrie の root hash は 25 byte の列の、Trie の root hash
は 24 byte の列の Keccak である。
-/
theorem stackTrie_ext_child_as_string :
    ∃ a b : Bytes, a.length = 25 ∧ b.length = 24 ∧
      (∀ keccak : Bytes → Bytes,
        ((StackTrie.updateAll keccak (StackTrie.fresh 0) extBugInput).bind fun (st, _) =>
          StackTrie.Hash keccak st).map Prod.fst = .ok (bytesToHash (keccak a))) ∧
      (∀ keccak : Bytes → Bytes,
        (runOps (Trie.empty fun _ => none) (extBugInput.map fun (k, v) => .update k v)).bind
          (Trie.Hash keccak) = .ok (bytesToHash (keccak b))) := by
  refine ⟨[216, 16, 150, 213, 194, 32, 1, 194, 32, 2, 128, 128, 128, 128, 128, 128, 128, 128, 128,
      128, 128, 128, 128, 128, 128],
    [215, 16, 213, 194, 32, 1, 194, 32, 2, 128, 128, 128, 128, 128, 128, 128, 128, 128, 128, 128,
      128, 128, 128, 128], rfl, rfl, fun keccak => ?_, fun keccak => ?_⟩
  · -- StackTrie：葉を一つ入れ、二つ目で葉が `extNode{[0], branchNode}` に割れる
    exact extBug_stackTrie keccak
  · -- Trie：root は `shortNode{[0], fullNode}` で、その下の葉と `fullNode` は埋め込まれる
    have hrun : runOps (Trie.empty fun _ => none) (extBugInput.map fun (k, v) => .update k v) =
        .ok ⟨fun _ => none, .short [0] (.full extBugBranch)⟩ := rfl
    have h₁ : hasherHash keccak false (.short [16] (.value [1])) = .list [.str [0x20], .str [1]] :=
      @toHash_small keccak (.list [.str [0x20], .str [1]]) (by decide)
    have h₂ : hasherHash keccak false (.short [16] (.value [2])) = .list [.str [0x20], .str [2]] :=
      @toHash_small keccak (.list [.str [0x20], .str [2]]) (by decide)
    have hfull : hasherHash keccak false (.full extBugBranch) = extBugBranchItem := by
      simp only [extBugBranch, hasherHash, List.ofFn_succ, List.ofFn_zero, twoChildren_apply]
      -- 添字を比べて、0 と 1 の枠に葉、残りに空の byte 列を置く
      simp only [Fin.isValue, Fin.zero_eq_one_iff, Nat.reduceAdd, OfNat.ofNat_ne_one, ↓reduceIte,
        Node.isNil_short, Bool.false_eq_true, Fin.coe_ofNat_eq_mod, Nat.zero_mod, Nat.ofNat_pos,
        Fin.succ_zero_eq_one, Nat.one_mod, Nat.one_lt_ofNat, Fin.succ_one_eq_two, Fin.reduceEq,
        Node.isNil_nil, Fin.reduceSucc]
      rw [h₁, h₂]
      exact @toHash_small keccak extBugBranchItem (by decide)
    have htop : hasherHash keccak true (.short [0] (.full extBugBranch)) =
        toHash keccak (.list [.str (hexToCompact [0]), hasherHash keccak false (.full extBugBranch)])
          true := by
      rw [hasherHash.eq_1]
      simp only [Node.isBranch, if_true]
    have henc : Rlp.encode (.list [.str (hexToCompact [0]), extBugBranchItem]) =
        [215, 16, 213, 194, 32, 1, 194, 32, 2, 128, 128, 128, 128, 128, 128, 128, 128, 128, 128,
          128, 128, 128, 128, 128] := by decide +kernel
    rw [hrun]
    show (hashRoot keccak (.short [0] (.full extBugBranch))).map bytesToHash = _
    simp only [hashRoot, htop, hfull, toHash_force, henc]
    rfl

end Trie
