import Bullions.Trie.Hasher

set_option linter.dupNamespace false

/-!
# StackTrie（`trie/stacktrie.go`）

key が増える順に来ることを前提に、右へ進んだら左の部分木をすぐ hash して捨てる trie。
node は自分の種類（`nodeType`）、葉の値か hash 済みの符号（`val`）、担当する key の断片
（`key`）、その断片の全体の key の中での位置（`keyOffset`）、16 個の子を持つ。

Go は node をその場で書き換える。ここでは書き換えた後の node を返す。hash 済みの node を
database に書く `db.Put(hash, 符号)` は、書いた順の列（`Writes`）として返す。`db` が nil
なら Go は書かないが、列はそのときも同じ計算の結果である。pool からの取り出しと返却は、
`Reset` した node を作ることと、何もしないことになる。

Go が panic する所（範囲外の添字、nil の参照、既にある key、hash 済みの node への挿入）
は `StackError` を返す。
-/

namespace Trie

/-- `nodeType` の値。 -/
inductive NodeType where
  | emptyNode
  | branchNode
  | extNode
  | leafNode
  | hashedNode
  deriving DecidableEq, Repr

/-- `StackTrie` への参照。`nil` は Go の nil ポインタ。 -/
inductive StackTrie where
  | nil
  | mk (nodeType : NodeType) (val : Bytes) (key : Nibbles) (keyOffset : Nat)
      (children : Fin 16 → StackTrie)

/-- StackTrie の panic。 -/
inductive StackError where
  /-- 範囲外の添字。 -/
  | indexOutOfRange
  /-- nil の参照。 -/
  | nilPointer
  /-- "Trying to insert into existing key" -/
  | existingKey
  /-- "trying to insert into hash" -/
  | insertIntoHash
  /-- "deletion not supported" -/
  | deletionNotSupported
  deriving DecidableEq, Repr

/-- database への書き込み `(hash, 符号)` の列。 -/
abbrev Writes := List (Bytes × Bytes)

namespace StackTrie

/-- 子の無い状態。 -/
def noChildren : Fin 16 → StackTrie := fun _ => .nil

/-- `stackTrieFromPool` / `NewStackTrie`：`Reset` した node。 -/
def fresh (keyOffset : Nat) : StackTrie := .mk .emptyNode [] [] keyOffset noChildren

/-- `newLeaf(ko, key, val)`。 -/
def newLeaf (ko : Nat) (key : Nibbles) (val : Bytes) : StackTrie :=
  .mk .leafNode val (key.drop ko) ko noChildren

/-- `newExt(ko, key, child)`。 -/
def newExt (ko : Nat) (key : Nibbles) (child : StackTrie) : StackTrie :=
  .mk .extNode [] (key.drop ko) ko (Function.update noChildren 0 child)

/-- nil の参照か。 -/
def isNil : StackTrie → Bool
  | nil => true
  | _ => false

/-- `nodeType`。nil なら参照が panic する。 -/
def nodeType? : StackTrie → Option NodeType
  | nil => none
  | mk t _ _ _ _ => some t

/-- `val`。 -/
def val : StackTrie → Bytes
  | nil => []
  | mk _ v _ _ _ => v

/-- `getDiffIndex` のループ：自分の断片と、全体の key の `keyOffset` から先を比べる。 -/
def diffIndex : Nibbles → Nibbles → Except StackError Nat
  | [], _ => .ok 0
  | _ :: _, [] => .error .indexOutOfRange
  | a :: as, b :: bs => if a = b then (diffIndex as bs).map (· + 1) else .ok 0

/-- `getDiffIndex`。 -/
def getDiffIndex (stKey : Nibbles) (keyOffset : Nat) (key : Nibbles) : Except StackError Nat :=
  diffIndex stKey (key.drop keyOffset)

/-- 子の添字として読む nibble。16 は `[16]*StackTrie` の範囲外である。 -/
def childIndex (n : Nibble) : Except StackError (Fin 16) :=
  if h : n.val < 16 then .ok ⟨n.val, h⟩ else .error .indexOutOfRange

/-- key の `i` 番目の nibble を子の添字として読む。 -/
def keyIndex (key : Nibbles) (i : Nat) : Except StackError (Fin 16) :=
  match key[i]? with
  | some n => childIndex n
  | none => .error .indexOutOfRange

/-- 潰した子の参照：`rawNode`（32 byte 未満の符号）、`hashNode`、`nilValueNode`。 -/
inductive ChildRef where
  | raw (b : Bytes)
  | hashNode (b : Bytes)
  | nilValue

/-- `[17]node` の要素を `rlp.Encode` が書く：`rawNode` はそのまま、他は byte 列。 -/
def writeRef (w : Rlp.EncBuf) : ChildRef → Rlp.EncBuf
  | .raw b => w.append b
  | .hashNode b => w.encodeString b
  | .nilValue => w.encodeString []

/-- `rlp.Encode(&h.tmp, nodes)`：`[17]node` を列として書く。 -/
def encodeRefs (refs : List ChildRef) : Bytes :=
  let (w, lh) := Rlp.EncBuf.empty.list
  ((refs.foldl writeRef w).listEnd lh).toWriter.flatten

section
variable (keccak : Bytes → Bytes)

/--
hash の後始末。符号が 32 byte 未満なら `val` は符号そのもの、そうでなければ Keccak で、
そのときだけ database に書く。`key` は空になり、子は返される。
-/
def finish (keyOffset : Nat) (enc : Bytes) (ws : Writes) : StackTrie × Writes :=
  if enc.length < 32 then (.mk .hashedNode enc [] keyOffset noChildren, ws)
  else (.mk .hashedNode (keccak enc) [] keyOffset noChildren, ws ++ [(keccak enc, enc)])

theorem finish_small {ko : Nat} {enc : Bytes} (ws : Writes) (h : enc.length < 32) :
    finish keccak ko enc ws = (.mk .hashedNode enc [] ko noChildren, ws) := by
  simp [finish, h]

/-- `branchNode` の子を順に潰す。nil の子は `nilValueNode`。 -/
def hashChildren (hs : Fin 16 → Except StackError (StackTrie × Writes))
    (cs : Fin 16 → StackTrie) : Except StackError (List ChildRef × Writes) :=
  (List.finRange 16).foldlM (fun (acc : List ChildRef × Writes) i =>
    match cs i with
    | .nil => .ok (acc.1 ++ [.nilValue], acc.2)
    | _ => do
      let (c, ws) ← hs i
      let ref := if c.val.length < 32 then ChildRef.raw c.val else .hashNode c.val
      .ok (acc.1 ++ [ref], acc.2 ++ ws)) ([], [])

/-- `hash()`。 -/
def hash : StackTrie → Except StackError (StackTrie × Writes)
  | nil => .error .nilPointer
  | mk .hashedNode v k ko cs => .ok (.mk .hashedNode v k ko cs, [])
  | mk .branchNode _ _ ko cs => do
    let (refs, ws) ← hashChildren (fun i => hash (cs i)) cs
    .ok (finish keccak ko (encodeRefs (refs ++ [.nilValue])) ws)
  | mk .extNode _ k ko cs => do
    let (c, ws) ← hash (cs 0)
    -- 子の符号は、32 byte 未満でも byte 列として書かれる
    .ok (finish keccak ko (Rlp.encode (.list [.str (hexToCompact k), .str c.val])) ws)
  | mk .leafNode v k ko _ =>
    -- `st.key = append(st.key, byte(16))` の領域で `hexToCompactInPlace` し、先頭 `sz` byte を使う
    match hexToCompactInPlace ((k ++ [16]).map Nibble.toByte) with
    | none => .error .indexOutOfRange
    | some (key, sz) =>
      .ok (finish keccak ko (Rlp.encode (.list [.str (key.take sz), .str v])) [])
  | mk .emptyNode _ _ ko _ => .ok (.mk .hashedNode emptyRoot [] ko noChildren, [])

/-- 挿入する子より左で最も近い nil でない子の添字。 -/
def elder (cs : Fin 16 → StackTrie) (idx : Fin 16) : Option (Fin 16) :=
  ((List.finRange 16).filter (fun i => i < idx ∧ (cs i).isNil = false)).getLast?

/--
`branchNode` の挿入の前半（"Unresolve elder siblings"）。左で最も近い子がまだ hash
されていなければ hash する。
-/
def hashElder (cs : Fin 16 → StackTrie) (idx : Fin 16) :
    Except StackError ((Fin 16 → StackTrie) × Writes) :=
  match elder cs idx with
  | none => .ok (cs, [])
  | some i =>
    if (cs i).nodeType? = some .hashedNode then .ok (cs, [])
    else do
      let (c, ws) ← hash keccak (cs i)
      .ok (Function.update cs i c, ws)

/-- 子を一つ差し替える。 -/
def setChild (cs : Fin 16 → StackTrie) (i : Fin 16) (c : StackTrie) : Fin 16 → StackTrie :=
  Function.update cs i c

/--
`extNode` の断片が key と `d`（< 断片の長さ）で食い違ったときの分割。元の側は、食い違いが
断片の最後の nibble でなければ残りの断片の `extNode`、最後なら元の子で、すぐ hash する。
`d = 0` なら自分が `branchNode` になり、そうでなければ断片を `d` で切って子に
`branchNode` を置く。
-/
def splitExt (k : Nibbles) (ko : Nat) (cs : Fin 16 → StackTrie) (d : Nat) (key : Nibbles)
    (value : Bytes) : Except StackError (StackTrie × Writes) := do
  let n := if d < k.length - 1 then newExt (d + 1) k (cs 0) else cs 0
  let (n, ws) ← hash keccak n
  let o := newLeaf (ko + d + 1) key value
  let origIdx ← keyIndex k d
  let newIdx ← keyIndex key (d + ko)
  if d = 0 then
    let cs := setChild (setChild (setChild cs 0 .nil) origIdx n) newIdx o
    .ok (.mk .branchNode [] (k.take d) ko cs, ws)
  else
    let p := setChild (setChild noChildren origIdx n) newIdx o
    .ok (.mk .extNode [] (k.take d) ko (setChild cs 0 (.mk .branchNode [] [] (ko + d) p)), ws)

/--
`leafNode` の断片が key と `d` で食い違ったときの分割。元の値の葉は作ってすぐ hash する。
`d = 0` なら自分が `branchNode` になり、そうでなければ `extNode` になって子に
`branchNode` を置く。
-/
def splitLeaf (v : Bytes) (k : Nibbles) (ko : Nat) (cs : Fin 16 → StackTrie) (d : Nat)
    (key : Nibbles) (value : Bytes) : Except StackError (StackTrie × Writes) := do
  let origIdx ← keyIndex k d
  let (orig, ws) ← hash keccak (newLeaf (d + 1) k v)
  let newIdx ← keyIndex key (d + ko)
  if d = 0 then
    let cs := setChild (setChild (setChild cs 0 .nil) origIdx orig) newIdx
      (newLeaf (ko + 1) key value)
    .ok (.mk .branchNode [] (k.take d) ko cs, ws)
  else
    let p := setChild (setChild noChildren origIdx orig) newIdx (newLeaf (ko + d + 1) key value)
    .ok (.mk .extNode [] (k.take d) ko (setChild cs 0 (.mk .branchNode [] [] (ko + d) p)), ws)

/-- `insert(key, value)`。 -/
def insert : StackTrie → Nibbles → Bytes → Except StackError (StackTrie × Writes)
  | nil, _, _ => .error .nilPointer
  | mk .branchNode v k ko cs, key, value => do
    let idx ← keyIndex key ko
    let (cs', ws) ← hashElder keccak cs idx
    -- 新しい子は `keyOffset + 1` の空の node で、そこへの挿入は葉を作る
    if (cs idx).isNil then
      .ok (.mk .branchNode v k ko (setChild cs' idx (newLeaf (ko + 1) key value)), ws)
    else do
      let (c', ws') ← insert (cs idx) key value
      .ok (.mk .branchNode v k ko (setChild cs' idx c'), ws ++ ws')
  | mk .extNode v k ko cs, key, value => do
    let d ← getDiffIndex k ko key
    if d = k.length then
      let (c', ws) ← insert (cs 0) key value
      .ok (.mk .extNode v k ko (setChild cs 0 c'), ws)
    else splitExt keccak k ko cs d key value
  | mk .leafNode v k ko cs, key, value => do
    let d ← getDiffIndex k ko key
    if k.length ≤ d then .error .existingKey
    else splitLeaf keccak v k ko cs d key value
  | mk .emptyNode _ _ ko cs, key, value => .ok (.mk .leafNode value (key.drop ko) ko cs, [])
  | mk .hashedNode _ _ _ _, _, _ => .error .insertIntoHash

/-- `TryUpdate(key, value)`。key の終端は落として渡す。 -/
def TryUpdate (st : StackTrie) (key value : Bytes) : Except StackError (StackTrie × Writes) :=
  if value.length = 0 then .error .deletionNotSupported
  else insert keccak st (keybytesToHex key).dropLast value

/-- `(key, value)` の組を順に `TryUpdate` する。database への書き込みは順に並べる。 -/
def updateAll (st : StackTrie) : List (Bytes × Bytes) → Except StackError (StackTrie × Writes)
  | [] => .ok (st, [])
  | (key, value) :: kvs => do
    let (st, ws) ← TryUpdate keccak st key value
    let (st, ws') ← updateAll st kvs
    .ok (st, ws ++ ws')

/-- 一つ目の `TryUpdate` が成功すれば、残りはその結果から続き、書き込みは前に足される。 -/
theorem updateAll_cons_ok {st st' : StackTrie} {key value : Bytes} {ws : Writes}
    (h : TryUpdate keccak st key value = .ok (st', ws)) (kvs : List (Bytes × Bytes)) :
    updateAll keccak st ((key, value) :: kvs) =
      (updateAll keccak st' kvs).map fun (s, ws') => (s, ws ++ ws') := by
  simp only [updateAll, h]
  show (updateAll keccak st' kvs >>= fun x => .ok (x.1, ws ++ x.2)) = _
  cases updateAll keccak st' kvs <;> rfl

/--
`Hash()`。hash した `val` が 32 byte でなければ（root の符号が短くて埋め込みの形のまま
なら）、それを Keccak にかける。
-/
def Hash (st : StackTrie) : Except StackError (Bytes × Writes) := do
  let (st, ws) ← hash keccak st
  if st.val.length ≠ 32 then .ok (bytesToHash (keccak st.val), ws)
  else .ok (bytesToHash st.val, ws)

end

end StackTrie

end Trie
