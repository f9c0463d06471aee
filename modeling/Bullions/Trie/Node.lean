import Bullions.Trie.Encoding

/-!
# trie の node（`trie/node.go`）

Go の `node` interface は `*fullNode`、`*shortNode`、`hashNode`、`valueNode` の四つと、
interface の `nil` をとる。ここでは五つの構成子に分ける。

* `fullNode` の 17 個の子は `Fin 17 → Node` で持つ。添字 16 は値の枠である
* `nodeFlag`（hash の cache と dirty の印）は持たない。cache は `hasher` の計算結果を
  覚えておくだけのもので、`TryUpdate` / `TryDelete` が作る node ではいつも空である
  （`newFlag()`）
* `valueNode(nil)`（`nilValueNode`）は `value []` で、`nil` とは別の値である
-/

namespace Trie

/-- trie の node。 -/
inductive Node where
  /-- interface の `nil`。空の部分木。 -/
  | nil
  /-- `fullNode`。nibble ごとの 16 個の子と、添字 16 の値の枠。 -/
  | full (children : Fin 17 → Node)
  /-- `shortNode`。HEX の key の断片と、その先の node。 -/
  | short (key : Nibbles) (val : Node)
  /-- `hashNode`。まだ読み込んでいない（あるいは潰した）子への参照。 -/
  | hash (h : Bytes)
  /-- `valueNode`。葉の値。 -/
  | value (v : Bytes)

namespace Node

/-- interface の `nil` か。 -/
def isNil : Node → Bool
  | nil => true
  | _ => false

@[simp] theorem isNil_nil : isNil nil = true := rfl
@[simp] theorem isNil_full (cs : Fin 17 → Node) : isNil (full cs) = false := rfl
@[simp] theorem isNil_short (k : Nibbles) (v : Node) : isNil (short k v) = false := rfl
@[simp] theorem isNil_hash (h : Bytes) : isNil (hash h) = false := rfl
@[simp] theorem isNil_value (v : Bytes) : isNil (value v) = false := rfl

theorem isNil_iff {n : Node} : n.isNil = true ↔ n = nil := by
  cases n <;> simp

/-- `hashNode` を一つも含まない。読み込み（`resolveHash`）の起こらない木である。 -/
def HashFree : Node → Prop
  | nil => True
  | full cs => ∀ i, HashFree (cs i)
  | short _ v => HashFree v
  | hash _ => False
  | value _ => True

end Node

/-- `fullNode` の子のうち nil でないものの個数。 -/
def occupied (cs : Fin 17 → Node) : Nat :=
  (Finset.univ.filter (fun i => (cs i).isNil = false)).card

/--
trie の操作が返す失敗。

* `missingNode` — `MissingNodeError`。`hashNode` を database が持っていない
* `panic` — Go では panic になる経路（範囲外の添字、`invalid node`）
* `unresolved` — 読み込みが尽きない。Go では止まらない（循環した database）
-/
inductive TrieError where
  | missingNode (nodeHash : Bytes) (path : Nibbles)
  | panic
  | unresolved
  deriving DecidableEq, Repr

/-- `t.db.node(hash)`。database が hash から node を引く。無ければ `none`。 -/
abbrev NodeReader := Bytes → Option Node

end Trie
