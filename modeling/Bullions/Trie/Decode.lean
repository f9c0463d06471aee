import Bullions.Trie.Node
import Bullions.Rlp.Raw

/-!
# node の RLP からの読み戻し（`trie/node.go`）

`decodeNode(hash, buf)` は database から読んだ node の符号を node に戻す。先頭の列の要素が
2 個なら `shortNode`、17 個なら `fullNode`。`shortNode` の key は COMPACT から HEX に戻し、
終端付きなら値を、そうでなければ子への参照（`decodeRef`）を読む。参照は、埋め込まれた
node（符号が 32 byte 以下の列）、空の文字列（nil）、32 byte の文字列（`hashNode`）のどれか。

* `hash` 引数は読んだ node の cache の印（`nodeFlag.hash`）にしか使わないので持たない
* Go の誤りは `fmt.Errorf` の文と `decodeError`（誤りと、子への道）。文の形は構成子で表す
* 埋め込まれた node を読むための `decodeNode` の再帰は燃料で書く。燃料は入力の長さより
  一つ多く、入れ子の一段ごとに入力は一 byte 以上短くなる
-/

namespace Trie

open Rlp

/-- `decodeNode` の誤り。 -/
inductive DecodeError where
  /-- `io.ErrUnexpectedEOF`。 -/
  | unexpectedEOF
  /-- `"decode error: %v"`。 -/
  | decode (err : Rlp.Error)
  /-- `"invalid number of list elements: %v"`。 -/
  | invalidListElements (count : Nat)
  /-- `rlp` の誤りをそのまま返したもの。 -/
  | rlp (err : Rlp.Error)
  /-- `"invalid value node: %v"`。 -/
  | invalidValueNode (err : Rlp.Error)
  /-- `"oversized embedded node (size is %d bytes, want size < %d)"`。 -/
  | oversizedEmbedded (size : Nat)
  /-- `"invalid RLP string size %d (want 0 or 32)"`。 -/
  | invalidStringSize (size : Nat)
  /-- `*decodeError`：元の誤りと、子への道（内側から）。 -/
  | decodeError (what : DecodeError) (stack : List String)
  /-- 燃料切れ。 -/
  | outOfFuel
  deriving DecidableEq, Repr

/-- `hashLen = len(common.Hash{})`。 -/
def hashLen : Nat := 32

/-- `wrapError(err, ctx)`：`decodeError` なら道に `ctx` を足し、そうでなければ包む。 -/
def wrapError : DecodeError → String → DecodeError
  | .decodeError what stack, ctx => .decodeError what (stack ++ [ctx])
  | err, ctx => .decodeError err [ctx]

/-- 失敗したときだけ `wrapError` を通す（`wrapError(nil, ctx)` は nil）。 -/
def wrap {α : Type} (x : Except DecodeError α) (ctx : String) : Except DecodeError α :=
  match x with
  | .error err => .error (wrapError err ctx)
  | .ok a => .ok a

section
-- `dec`：埋め込まれた node を読む `decodeNode(nil, ·)`
variable (dec : Bytes → Except DecodeError Node)

/-- `decodeRef(buf)`：子への参照と、その後の残り。 -/
def decodeRef (buf : Bytes) : Except DecodeError (Node × Bytes) :=
  match Split buf with
  | .error err => .error (.rlp err)
  | .ok (kind, val, rest) =>
    if kind = .List then
      -- 埋め込まれた node。符号は hash より大きくてはならない
      let size := buf.length - rest.length
      if size > hashLen then .error (.oversizedEmbedded size)
      else
        match dec buf with
        | .error err => .error err
        | .ok n => .ok (n, rest)
    else if kind = .String ∧ val.length = 0 then .ok (.nil, rest)
    else if kind = .String ∧ val.length = 32 then .ok (.hash val, rest)
    else .error (.invalidStringSize val.length)

/-- `decodeShort(hash, elems)`。 -/
def decodeShort (elems : Bytes) : Except DecodeError Node :=
  match SplitString elems with
  | .error err => .error (.rlp err)
  | .ok (kbuf, rest) =>
    let key := compactToHex kbuf
    if hasTerm key then
      -- 値の node
      match SplitString rest with
      | .error err => .error (.invalidValueNode err)
      | .ok (val, _) => .ok (.short key (.value val))
    else
      match decodeRef dec rest with
      | .error err => .error (wrapError err "val")
      | .ok (r, _) => .ok (.short key r)

/-- `decodeFull` の loop（`for i := 0; i < 16; i++`）：`count` 個の子を `i` 番目から。 -/
def decodeChildren : Nat → Nat → Bytes → Except DecodeError (List Node × Bytes)
  | 0, _, elems => .ok ([], elems)
  | count + 1, i, elems =>
    match decodeRef dec elems with
    | .error err => .error (wrapError err ("[" ++ toString i ++ "]"))
    | .ok (cld, rest) =>
      match decodeChildren count (i + 1) rest with
      | .error err => .error err
      | .ok (cs, rest') => .ok (cld :: cs, rest')

/-- `decodeFull(hash, elems)`。値の枠は、空でない文字列のときだけ `valueNode`。 -/
def decodeFull (elems : Bytes) : Except DecodeError Node :=
  match decodeChildren dec 16 0 elems with
  | .error err => .error err
  | .ok (children, elems) =>
    match SplitString elems with
    | .error err => .error (.rlp err)
    | .ok (val, _) =>
      .ok (.full fun i => if i.val < 16 then children.getD i.val .nil
        else if val.length > 0 then .value val else .nil)

end

/-- `decodeNode` の本体。埋め込まれた node は燃料を一つ減らして読む。 -/
def decodeNodeFuel : Nat → Bytes → Except DecodeError Node
  | 0, _ => .error .outOfFuel
  | fuel + 1, buf =>
    if buf.length = 0 then .error .unexpectedEOF
    else
      match SplitList buf with
      | .error err => .error (.decode err)
      | .ok (elems, _) =>
        -- `c, _ := rlp.CountValues(elems)`：誤りなら 0
        let c := match CountValues elems with
          | .ok c => c
          | .error _ => 0
        if c = 2 then wrap (decodeShort (decodeNodeFuel fuel) elems) "short"
        else if c = 17 then wrap (decodeFull (decodeNodeFuel fuel) elems) "full"
        else .error (.invalidListElements c)

/-- `decodeNode(hash, buf)`。 -/
def decodeNode (buf : Bytes) : Except DecodeError Node := decodeNodeFuel (buf.length + 1) buf

end Trie
