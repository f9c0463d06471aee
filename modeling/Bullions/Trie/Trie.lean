import Bullions.Trie.Node

/-!
# Merkle Patricia Trie の読み書き（`trie/trie.go`）

`tryGet`、`insert`、`delete` と、その外側の `TryGet`、`TryUpdate`、`TryDelete`。

## 読み込みと fuel

三つの関数は `hashNode` に当たると database から node を読み込み（`resolveHash`）、
読み込んだ node の上で同じ key のまま再帰する。読み込みの連鎖が終わらない database
（`hashNode` が自分自身に戻る）では Go は止まらない。そこで各関数を「一段」
（`...Step`、node の構造で再帰し、読み込んだ先だけを引数の `again` に任せる）と、
それを fuel 回重ねたものに分ける。fuel が尽きたら `TrieError.unresolved` を返す。

正しく書かれた database では、二度の読み込みの間に key が少なくとも一 nibble
進む（読み込んだ `shortNode` の key は空でなく、`fullNode` は一つ進む）。外側の関数は
key の長さより一つ多い fuel を渡すので、そういう database の上では Go と同じ結果になる。

## Go の位置の表し方

Go は key 全体と位置 `pos` を持ち回る。ここでは `key[:pos]`（`pre`）と `key[pos:]` を
別々に持つ。`pre` は `MissingNodeError` の path にだけ使われる。
-/

namespace Trie

/-- `resolveHash`。 -/
def resolveHash (db : NodeReader) (n : Bytes) (pre : Nibbles) : Except TrieError Node :=
  match db n with
  | some node => .ok node
  | none => .error (.missingNode n pre)

/-- `resolve`。`hashNode` なら読み込み、それ以外はそのまま返す。 -/
def resolve (db : NodeReader) (n : Node) (pre : Nibbles) : Except TrieError Node :=
  match n with
  | .hash h => resolveHash db h pre
  | n => .ok n

/-! ## `tryGet` -/

/-- `tryGet` の返すもの：`(value, newnode, didResolve)`。 -/
abbrev GetResult := Except TrieError (Option Bytes × Node × Bool)

/--
`tryGet` の一段。読み込みが起きた経路の node だけを複製して差し替える。

`fullNode` に key の尽きた状態で来ると Go の `key[pos]` は範囲外で panic する。
-/
def tryGetStep (db : NodeReader) (again : Node → Nibbles → Nibbles → GetResult) :
    Node → Nibbles → Nibbles → GetResult
  | .nil, _, _ => .ok (none, .nil, false)
  | .value v, _, _ => .ok (some v, .value v, false)
  | .short k v, pre, rest =>
    if k.isPrefixOf rest then
      match tryGetStep db again v (pre ++ k) (rest.drop k.length) with
      | .ok (value, newnode, true) => .ok (value, .short k newnode, true)
      | .ok (value, _, false) => .ok (value, .short k v, false)
      | .error e => .error e
    else .ok (none, .short k v, false)
  | .full cs, pre, rest =>
    match rest with
    | [] => .error .panic
    | i :: r =>
      match tryGetStep db again (cs i) (pre ++ [i]) r with
      | .ok (value, newnode, true) => .ok (value, .full (Function.update cs i newnode), true)
      | .ok (value, _, false) => .ok (value, .full cs, false)
      | .error e => .error e
  | .hash h, pre, rest =>
    match resolveHash db h pre with
    | .error e => .error e
    | .ok child =>
      match again child pre rest with
      | .ok (value, newnode, _) => .ok (value, newnode, true)
      | .error e => .error e

/-- `tryGet`。読み込みを `fuel` 回まで許す。 -/
def tryGet (db : NodeReader) : Nat → Node → Nibbles → Nibbles → GetResult
  | 0 => tryGetStep db (fun _ _ _ => .error .unresolved)
  | fuel + 1 => tryGetStep db (tryGet db fuel)

/-! ## `insert` -/

/-- `insert` と `delete` の返すもの：`(dirty, node)`。 -/
abbrev InsertResult := Except TrieError (Bool × Node)

/--
`t.insert(nil, _, key, value)` の結果の node。`nil` への挿入は再帰せずに終わる：
key が空なら value そのもの、そうでなければ `shortNode{key, value}` である。
-/
def insertNil (key : Nibbles) (value : Node) : Node :=
  match key with
  | [] => value
  | _ :: _ => .short key value

/--
`insert` の一段。

* key が尽きたら値を置く。元が同じ値の `valueNode` なら dirty にしない
* `shortNode` の key を全部たどれたら子へ降りる。途中で食い違えば、その位置に
  `fullNode` を立てて二つに分け、共通部分が残れば `shortNode` で前に付ける
* `fullNode` は次の nibble の子へ降りる
-/
def insertStep (db : NodeReader) (again : Node → Nibbles → Nibbles → Node → InsertResult) :
    Node → Nibbles → Nibbles → Node → InsertResult
  | n, _, [], value =>
    match n with
    | .value v =>
      match value with
      | .value w => .ok (v != w, value)
      -- `value.(valueNode)` の型表明が外れる
      | _ => .error .panic
    | _ => .ok (true, value)
  | .short k v, pre, key@(_ :: _), value =>
    let matchlen := prefixLen key k
    if matchlen = k.length then
      match insertStep db again v (pre ++ key.take matchlen) (key.drop matchlen) value with
      | .ok (true, nn) => .ok (true, .short k nn)
      | .ok (false, _) => .ok (false, .short k v)
      | .error e => .error e
    else
      match k.drop matchlen, key.drop matchlen with
      | kc :: krest, nc :: nrest =>
        let branch : Fin 17 → Node :=
          Function.update (Function.update (fun _ => .nil) kc (insertNil krest v)) nc
            (insertNil nrest value)
        if matchlen = 0 then .ok (true, .full branch)
        else .ok (true, .short (key.take matchlen) (.full branch))
      -- `key[matchlen]` が範囲外（key が節の key の真の接頭辞）
      | _, _ => .error .panic
  | .full cs, pre, i :: r, value =>
    match insertStep db again (cs i) (pre ++ [i]) r value with
    | .ok (true, nn) => .ok (true, .full (Function.update cs i nn))
    | .ok (false, _) => .ok (false, .full cs)
    | .error e => .error e
  | .nil, _, key, value => .ok (true, .short key value)
  | .hash h, pre, key, value =>
    match resolveHash db h pre with
    | .error e => .error e
    | .ok rn =>
      match again rn pre key value with
      | .ok (true, nn) => .ok (true, nn)
      | .ok (false, _) => .ok (false, rn)
      | .error e => .error e
  -- key が残っているのに `valueNode` に着いた（`invalid node`）
  | .value _, _, _ :: _, _ => .error .panic

/-- `insert`。読み込みを `fuel` 回まで許す。 -/
def insert (db : NodeReader) : Nat → Node → Nibbles → Nibbles → Node → InsertResult
  | 0 => insertStep db (fun _ _ _ _ => .error .unresolved)
  | fuel + 1 => insertStep db (insert db fuel)

/-! ## `delete` -/

/-- 削除の後の `fullNode` に残った子の位置（Go の `pos`：`-1`、その添字、`-2`）。 -/
inductive Remaining where
  | empty
  | one (i : Fin 17)
  | many
  deriving DecidableEq, Repr

/--
残った子を数える走査。Go は二つ目を見つけた所で `break` するが、その後に何を
見ても `-2` のままなので、最後まで回しても同じである。
-/
def remaining (cs : Fin 17 → Node) : Remaining :=
  (List.finRange 17).foldl
    (fun pos i => if (cs i).isNil then pos else
      match pos with
      | .empty => .one i
      | _ => .many)
    .empty

/--
`delete` の一段。削除した後に木を最小の形へ戻す。

* `shortNode` の下で子が `shortNode` になったら key をつなげて一つにする
* `fullNode` の子が一つだけになったら `shortNode` に縮める。残った子が（読み込んでみて）
  `shortNode` なら、その添字を key の前に付けて一つにする
-/
def deleteStep (db : NodeReader) (again : Node → Nibbles → Nibbles → InsertResult) :
    Node → Nibbles → Nibbles → InsertResult
  | .short k v, pre, key =>
    let matchlen := prefixLen key k
    if matchlen < k.length then .ok (false, .short k v)
    else if matchlen = key.length then .ok (true, .nil)
    else
      match deleteStep db again v (pre ++ key.take k.length) (key.drop k.length) with
      | .ok (true, child) =>
        match child with
        | .short ck cv => .ok (true, .short (k ++ ck) cv)
        | child => .ok (true, .short k child)
      | .ok (false, _) => .ok (false, .short k v)
      | .error e => .error e
  | .full cs, pre, key =>
    match key with
    | [] => .error .panic
    | i :: r =>
      match deleteStep db again (cs i) (pre ++ [i]) r with
      | .ok (true, nn) =>
        let cs' := Function.update cs i nn
        match remaining cs' with
        | .one p =>
          if p ≠ 16 then
            match resolve db (cs' p) pre with
            | .error e => .error e
            | .ok (.short ck cv) => .ok (true, .short (p :: ck) cv)
            | .ok _ => .ok (true, .short [p] (cs' p))
          else .ok (true, .short [p] (cs' p))
        | _ => .ok (true, .full cs')
      | .ok (false, _) => .ok (false, .full cs)
      | .error e => .error e
  | .value _, _, _ => .ok (true, .nil)
  | .nil, _, _ => .ok (false, .nil)
  | .hash h, pre, key =>
    match resolveHash db h pre with
    | .error e => .error e
    | .ok rn =>
      match again rn pre key with
      | .ok (true, nn) => .ok (true, nn)
      | .ok (false, _) => .ok (false, rn)
      | .error e => .error e

/-- `delete`。読み込みを `fuel` 回まで許す。 -/
def delete (db : NodeReader) : Nat → Node → Nibbles → Nibbles → InsertResult
  | 0 => deleteStep db (fun _ _ _ => .error .unresolved)
  | fuel + 1 => deleteStep db (delete db fuel)

end Trie

/-! ## `Trie` -/

/-- `Trie`。`db` は `hashNode` を読み込むときだけ使う。 -/
structure Trie where
  db : Trie.NodeReader
  root : Trie.Node

namespace Trie

/-- 読み込みの回数の上限。key の長さより一つ多い。 -/
def resolveFuel (k : Nibbles) : Nat := k.length + 1

/-- 空の trie（`New(common.Hash{}, db)`、あるいは零値）。 -/
def empty (db : NodeReader) : Trie := ⟨db, .nil⟩

/-- `TryGet`。読み込みが起きたときだけ root を差し替える。 -/
def TryGet (t : Trie) (key : Bytes) : Except TrieError (Option Bytes × Trie) :=
  let k := keybytesToHex key
  match tryGet t.db (resolveFuel k) t.root [] k with
  | .ok (value, newroot, true) => .ok (value, { t with root := newroot })
  | .ok (value, _, false) => .ok (value, t)
  | .error e => .error e

/-- `TryUpdate`。値が空なら削除である。失敗したときは root を変えない。 -/
def TryUpdate (t : Trie) (key value : Bytes) : Except TrieError Trie :=
  let k := keybytesToHex key
  if value.length ≠ 0 then
    match insert t.db (resolveFuel k) t.root [] k (.value value) with
    | .ok (_, n) => .ok { t with root := n }
    | .error e => .error e
  else
    match delete t.db (resolveFuel k) t.root [] k with
    | .ok (_, n) => .ok { t with root := n }
    | .error e => .error e

/-- `TryDelete`。 -/
def TryDelete (t : Trie) (key : Bytes) : Except TrieError Trie :=
  let k := keybytesToHex key
  match delete t.db (resolveFuel k) t.root [] k with
  | .ok (_, n) => .ok { t with root := n }
  | .error e => .error e

end Trie
