import Bullions.Trie.Trie
import Bullions.Rlp.Encode

set_option linter.dupNamespace false

/-!
# node の hash（`trie/hasher.go`、`trie/node.go`）

`hasher.hash(n, force)` は子から順に node を「潰す」。`shortNode` の key を COMPACT に
直し、子の `fullNode` と `shortNode` を潰した結果に置き換え、RLP で符号化する。符号化が
32 byte 未満で `force` でなければ、潰した node をそのまま返して親に埋め込ませ、そうで
なければ符号化の Keccak を `hashNode` として返す。

ここでは潰した node を、`rlp.Encode` が書く値（`Rlp.Item`）として直接表す。Keccak は
引数 `keccak` にする。

* `fullNode` の子のうち、潰すのは 0〜15 だけである（`hashFullNodeChildren`）。16 の枠は
  そのまま符号化される
* nil の子は `EncodeRLP` が `nilValueNode`（空の byte 列）に置き換える
* `shortNode` の子が nil なら、`rlp` は nil の interface を空の列（0xC0）と書く
* hash の cache（`nodeFlag.hash`）は持たない。`TryUpdate` / `TryDelete` の作る node では
  空であり、そうでない node でも cache は同じ計算の結果である
-/

namespace Trie

open Rlp

namespace Node

/-- 潰して置き換える子：`fullNode` と `shortNode`。 -/
def isBranch : Node → Bool
  | full _ => true
  | short _ _ => true
  | _ => false

/--
潰さずに `rlp.Encode` に渡したときに書かれる値。`shortNode` は `[Key, Val]`（`flags` は
書かない）、`fullNode` は `EncodeRLP` の 17 個の子。
-/
def rawItem : Node → Item
  | nil => .list []
  | full cs => .list (List.ofFn fun i => if (cs i).isNil then .str [] else rawItem (cs i))
  | short k v => .list [.str (k.map Nibble.toByte), rawItem v]
  | hash h => .str h
  | value v => .str v

end Node

section
variable (keccak : Bytes → Bytes)

/--
`shortnodeToHash` / `fullnodeToHash`。潰した node の符号化が 32 byte 未満で `force` で
なければ潰した node のまま、そうでなければ `hashData`（符号化の Keccak）。
-/
def toHash (collapsed : Item) (force : Bool) : Item :=
  if force = false ∧ (encode collapsed).length < 32 then collapsed
  else .str (keccak (encode collapsed))

theorem toHash_force (it : Item) : toHash keccak it true = .str (keccak (encode it)) := by
  simp [toHash]

theorem toHash_small {it : Item} (h : (encode it).length < 32) : toHash keccak it false = it := by
  simp [toHash, h]

/-- `hasher.hash(n, force)` の一つ目の戻り値（`hashed`）。 -/
def hasherHash (force : Bool) : Node → Item
  | .short k v =>
    -- `hashShortNodeChildren`：子が `fullNode` か `shortNode` のときだけ潰す
    toHash keccak (.list [.str (hexToCompact k),
      if v.isBranch then hasherHash false v else v.rawItem]) force
  | .full cs =>
    -- `hashFullNodeChildren` は 0〜15 の子を潰す。16 の枠はそのまま
    toHash keccak (.list (List.ofFn fun i : Fin 17 =>
      if (cs i).isNil then .str []
      else if i.val < 16 then hasherHash false (cs i) else (cs i).rawItem)) force
  | n => n.rawItem

/-- `emptyRoot`：空の trie の root hash。 -/
def emptyRoot : Bytes :=
  [0x56, 0xe8, 0x1f, 0x17, 0x1b, 0xcc, 0x55, 0xa6, 0xff, 0x83, 0x45, 0xe6, 0x92, 0xc0, 0xf8, 0x6e,
    0x5b, 0x48, 0xe0, 0x1b, 0x99, 0x6c, 0xad, 0xc0, 0x01, 0x62, 0x2f, 0xb5, 0xe3, 0x63, 0xb4, 0x21]

/-- `common.BytesToHash`：左を切り落とすか、左に 0 を詰めて 32 byte にする。 -/
def bytesToHash (b : Bytes) : Bytes :=
  List.replicate (32 - b.length) 0 ++ b.drop (b.length - 32)

/--
`hashRoot` の一つ目の戻り値。空なら `emptyRoot`、そうでなければ `force` で潰した結果。
`Hash` はこれを `hashNode` と見なすので、root が `fullNode` でも `shortNode` でも
`hashNode` でもなければ（`valueNode`）、型の表明が panic する。
-/
def hashRoot : Node → Except TrieError Bytes
  | .nil => .ok emptyRoot
  | .value _ => .error .panic
  | .hash h => .ok h
  | n =>
    match hasherHash keccak true n with
    | .str h => .ok h
    | .list _ => .error .panic

/-- `Trie.Hash`。 -/
def Hash (t : Trie) : Except TrieError Bytes :=
  (hashRoot keccak t.root).map bytesToHash

end

end Trie
