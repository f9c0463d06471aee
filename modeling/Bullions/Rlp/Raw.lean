import Bullions.Rlp.Decode
import Bullions.Rlp.Encode

/-!
# byte 列の上の RLP（`rlp/raw.go`）と `Stream.Raw`

`raw.go` は `Stream` を使わず、byte 列を直接切り分ける。`readKind` は先頭の値の種類と、
見出しの byte 数（`tagsize`）と中身の byte 数（`contentsize`）を返す。一 byte の値では
見出しは無く、中身はその byte である。長い形の長さは `readSize` が読む。`Stream.readKind` と
`Stream.readUint` とは別に書かれていて、最短の形の確かめも自前で持つ。

Go の関数は誤りのときにも `b` を返すが、どの呼び手も誤りを見たら使わないので、ここでは
誤りだけを返す。`uint64` の大きさは `Nat` で表す。見出しの長さは 8 byte までなので
64 bit に収まる。

`Stream.Raw` は `decode.go` の method で、値を見出しごと読む。見出しは `Kind()` が読んで
しまっているので、中身を読んでから見出しを付け直す（`puthead`）。
-/

namespace Rlp

/-- `readSize(b, slen)`。呼び手の渡す `slen` は 1 から 8 で、Go の場合分けはどれも先頭の
`slen` byte を big-endian で読む。 -/
def readSize (b : Bytes) (slen : Nat) : Except Error Nat :=
  if slen > b.length then .error .ErrUnexpectedEOF
  else
    let s := Bytes.beValue (b.take slen)
    -- 56 未満（別に長さを書くべきでない）と、先頭が 0 の長さは退ける
    if s < 56 ∨ b.headD 0 = 0 then .error .ErrCanonSize
    else .ok s

/-- `readKind(buf)`：種類、`tagsize`、`contentsize`。 -/
def readKind (buf : Bytes) : Except Error (Kind × Nat × Nat) :=
  match buf with
  | [] => .error .ErrUnexpectedEOF
  | b :: rest => do
    let (k, tagsize, contentsize) ← (
      if b < 0x80 then pure (.Byte, 0, 1)
      else if b < 0xB8 then
        let contentsize := (b - 0x80).toNat
        -- 一 byte で書けた値の文字列は退ける
        if contentsize = 1 ∧ buf.length > 1 ∧ buf.getD 1 0 < 128 then .error .ErrCanonSize
        else pure (.String, 1, contentsize)
      else if b < 0xC0 then do
        let contentsize ← readSize rest (b - 0xB7).toNat
        pure (.String, (b - 0xB7).toNat + 1, contentsize)
      else if b < 0xF8 then pure (.List, 1, (b - 0xC0).toNat)
      else do
        let contentsize ← readSize rest (b - 0xF7).toNat
        pure (.List, (b - 0xF7).toNat + 1, contentsize) : Except Error (Kind × Nat × Nat))
    -- 入力より大きい値は退ける
    if contentsize > buf.length - tagsize then .error .ErrValueTooLarge
    else pure (k, tagsize, contentsize)

/-- `Split(b)`：先頭の値の種類、中身、その後の残り。 -/
def Split (b : Bytes) : Except Error (Kind × Bytes × Bytes) := do
  let (k, ts, cs) ← readKind b
  pure (k, (b.drop ts).take cs, b.drop (ts + cs))

/-- `SplitString(b)`。 -/
def SplitString (b : Bytes) : Except Error (Bytes × Bytes) := do
  let (k, content, rest) ← Split b
  if k = .List then .error .ErrExpectedString
  else pure (content, rest)

/-- `SplitList(b)`。 -/
def SplitList (b : Bytes) : Except Error (Bytes × Bytes) := do
  let (k, content, rest) ← Split b
  if k ≠ .List then .error .ErrExpectedList
  else pure (content, rest)

/-- `SplitUint64(b)`。先頭の文字列を整数に読む。 -/
def SplitUint64 (b : Bytes) : Except Error (UInt64 × Bytes) := do
  let (content, rest) ← SplitString b
  match content with
  | [] => pure (0, rest)
  | [c] => if c = 0 then .error .ErrCanonInt else pure (c.toUInt64, rest)
  | content =>
    if content.length > 8 then .error .errUintOverflow
    else
      -- 長さを読むのと同じ確かめなので、`readSize` の誤りはどれも `ErrCanonInt` に直す
      match readSize content content.length with
      | .error _ => .error .ErrCanonInt
      | .ok x => pure (x.toUInt64, rest)

/-- `CountValues` の loop。燃料は回る回数の上限で、`CountValues` は入力の長さより一つ多い
燃料を与える（一回ごとに一 byte 以上進む）。 -/
def countValuesLoop : Nat → Nat → Bytes → Except Error Nat
  | 0, _, _ => .error .outOfFuel
  | fuel + 1, i, b =>
    if b.length > 0 then do
      let (_, tagsize, size) ← readKind b
      countValuesLoop fuel (i + 1) (b.drop (tagsize + size))
    else pure i

/-- `CountValues(b)`：`b` に並んだ値の数。 -/
def CountValues (b : Bytes) : Except Error Nat := countValuesLoop (b.length + 1) 0 b

/-- `RawValue`：符号のままの値。 -/
abbrev RawValue := Bytes

/-- `Raw`。一 byte の値はその byte。ほかは中身を読んでから見出しを付け直す。 -/
def Stream.Raw : StreamM RawValue := do
  let (kind, size) ← Stream.Kind
  if kind = .Byte then
    modify fun s => { s with kind := none }
    pure [(← get).byteval]
  else
    let content ← Stream.readFull size
    if kind = .String then pure (puthead 0x80 0xB7 size ++ content)
    else pure (puthead 0xC0 0xF7 size ++ content)

end Rlp
