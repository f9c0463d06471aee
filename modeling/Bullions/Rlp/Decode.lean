import Bullions.Rlp.Item

/-!
# RLP の復号（`rlp/decode.go`）

`Stream` は、入力（`bytes.Reader`）のまだ読んでいない部分、読んでよい残りの byte 数
（`remaining`、`limited` のときだけ見る）、先読みした次の値の種類と大きさ、読みかけの列の
位置の積み上げ（`stack`）を持つ。列の中で読んだ byte は一番内側の列の `pos` に数え、列を
閉じる（`ListEnd`）と親の `pos` にその列の中身の大きさを足す。

`Stream` の method は状態を書き換えながら誤りを返しうるので、`EStateM Error Stream` で
書く。誤りを返しても、それまでの書き換えは残る（Go と同じ）。

Go の `kind`・`size`・`kinderr` の三つは、`kind : Option (Except Error (Kind × Nat))` に
まとめる。`none` が `kind = -1`（次の `Kind()` で読み直す）である。誤りの後に残る
`kind` と `size` は、どの呼び手も誤りを見たら読まないので持たない。

`DecodeBytes` で `interface{}` に読むときの復号器は `decodeInterface` で、列は
`decodeListSlice` が `decodeSliceElems` で `EOL` が返るまで要素を読む。Go では入れ子も
要素の繰り返しも、読むたびに入力が短くなることで止まる。ここでは燃料で止め、
`DecodeBytes` は入力の長さより一つ多い燃料を与える。それで燃料が切れないことは
`Rlp/Properties/Decode.lean` で示す。
-/

namespace Rlp

/-- `Kind`。 -/
inductive Kind where
  | Byte
  | String
  | List
  deriving DecidableEq, Repr

/-- 復号の誤り。`decode.go` の誤りの変数、`io` の二つ、`wrapStreamError` の作る
`*decodeError`（型は名前で持つ）。`outOfFuel` だけは模型のもの。 -/
inductive Error where
  | EOL
  | ErrExpectedString
  | ErrExpectedList
  | ErrCanonInt
  | ErrCanonSize
  | ErrElemTooLarge
  | ErrValueTooLarge
  | ErrMoreThanOneValue
  | errNotInList
  | errNotAtEOL
  | errUintOverflow
  /-- `io.EOF`。 -/
  | EOF
  /-- `io.ErrUnexpectedEOF`。 -/
  | ErrUnexpectedEOF
  /-- `*decodeError`。 -/
  | decodeError (msg : String) (typ : String) (ctx : List String)
  /-- 燃料切れ。 -/
  | outOfFuel
  deriving DecidableEq, Repr

/-- `wrapStreamError`。`Stream` の誤りを、読もうとした型の名前を付けた誤りにする。 -/
def wrapStreamError (err : Error) (typ : String) : Error :=
  match err with
  | .ErrCanonInt => .decodeError "non-canonical integer (leading zero bytes)" typ []
  | .ErrCanonSize => .decodeError "non-canonical size information" typ []
  | .ErrExpectedList => .decodeError "expected input list" typ []
  | .ErrExpectedString => .decodeError "expected input string or byte" typ []
  | .errUintOverflow => .decodeError "input string too long" typ []
  | .errNotAtEOL => .decodeError "input list has too many elements" typ []
  | err => err

/-- `addErrorContext`。`*decodeError` にだけ文脈を足す。 -/
def addErrorContext (err : Error) (ctx : String) : Error :=
  match err with
  | .decodeError msg typ c => .decodeError msg typ (c ++ [ctx])
  | err => err

/-- `ifsliceType`（`[]interface{}`）の名前。 -/
def ifsliceType : String := "[]interface \x7b\x7d"

/-- `listpos`。 -/
structure ListPos where
  /-- 列の中で読んだ byte 数。 -/
  pos : Nat
  /-- 列の中身の大きさ。 -/
  size : Nat
  deriving DecidableEq, Repr

/-- `Stream`。`uintbuf` は作業用の領域なので持たない。 -/
structure Stream where
  /-- `r`：`bytes.Reader` のまだ読んでいない部分。 -/
  r : Bytes
  /-- `remaining`。 -/
  remaining : Nat
  /-- `limited`。 -/
  limited : Bool
  /-- `kind`・`size`・`kinderr`。`none` は `kind = -1`。 -/
  kind : Option (Except Error (Kind × Nat))
  /-- `byteval`。 -/
  byteval : UInt8
  /-- `stack`。先頭が一番内側の列。 -/
  stack : List ListPos

/-- `Stream` の上の手続き。 -/
abbrev StreamM := EStateM Error Stream

/-- `v, err := x()`：誤りも値として受け取る。 -/
def attempt {α : Type} (x : StreamM α) : StreamM (Except Error α) :=
  tryCatch (Except.ok <$> x) fun err => pure (.error err)

/-- `Reset`。読み手は `bytes.Reader` なので、`inputLimit` が 0 でも残りの長さが上限になる。 -/
def Stream.Reset (r : Bytes) (inputLimit : Nat) : Stream where
  r := r
  remaining := if inputLimit > 0 then inputLimit else r.length
  limited := true
  kind := none
  byteval := 0
  stack := []

/-- `willRead`。`n` byte 読む前に、一番内側の列と入力の残りからはみ出さないかを見て、
数える。 -/
def Stream.willRead (n : Nat) : StreamM Unit := do
  modify fun s => { s with kind := none }
  match (← get).stack with
  | tos :: rest =>
    if n > tos.size - tos.pos then throw .ErrElemTooLarge
    modify fun s => { s with stack := { tos with pos := tos.pos + n } :: rest }
  | [] => pure ()
  let s ← get
  if s.limited then
    if n > s.remaining then throw .ErrValueTooLarge
    set { s with remaining := s.remaining - n }

/-- `readByte`。 -/
def Stream.readByte : StreamM UInt8 := do
  Stream.willRead 1
  let s ← get
  match s.r with
  | b :: rest =>
    set { s with r := rest }
    pure b
  | [] => throw .ErrUnexpectedEOF

/-- `readFull`。`n` byte 読む。足りなければ読めるだけ読んで `io.ErrUnexpectedEOF`。 -/
def Stream.readFull (n : Nat) : StreamM Bytes := do
  Stream.willRead n
  let s ← get
  set { s with r := s.r.drop n }
  if s.r.length < n then throw .ErrUnexpectedEOF
  pure (s.r.take n)

/-- `readUint`。`size` byte の big-endian の整数を読む。二 byte 以上なら、先頭が 0 の
ものは退ける。呼び手の渡す `size` は 8 以下である。 -/
def Stream.readUint : Nat → StreamM Nat
  | 0 => do
    modify fun s => { s with kind := none }
    pure 0
  | 1 => do
    let b ← Stream.readByte
    pure b.toNat
  | size + 2 => do
    let buf ← Stream.readFull (size + 2)
    if buf.head? = some 0 then throw .ErrCanonSize
    pure (Bytes.beValue buf)

/-- `readKind`。値の先頭の byte（長い形なら続く長さも）を読み、種類と大きさを返す。 -/
def Stream.readKind : StreamM (Kind × Nat) := do
  let b ← tryCatch Stream.readByte fun err => do
    -- 一番外では、入力の終わりを io.EOF にする（呼び手はそれで読み終わりを知る）
    if (← get).stack.isEmpty then
      match err with
      | .ErrUnexpectedEOF => throw .EOF
      | .ErrValueTooLarge => throw .EOF
      | err => throw err
    else throw err
  modify fun s => { s with byteval := 0 }
  if b < 0x80 then
    -- 0x00..0x7F：その byte 自身が値
    modify fun s => { s with byteval := b }
    pure (.Byte, 0)
  else if b < 0xB8 then
    -- 0x80..0xB7：55 byte までの文字列
    pure (.String, (b - 0x80).toNat)
  else if b < 0xC0 then
    -- 0xB8..0xBF：長さを書く byte 数が続く文字列。短い形で書けた長さは退ける
    let size ← Stream.readUint (b - 0xB7).toNat
    if size < 56 then throw .ErrCanonSize
    pure (.String, size)
  else if b < 0xF8 then
    pure (.List, (b - 0xC0).toNat)
  else
    let size ← Stream.readUint (b - 0xF7).toNat
    if size < 56 then throw .ErrCanonSize
    pure (.List, size)

/-- `Kind`。読み直すときは、一番内側の列の終わりなら `EOL`。読んだ値の大きさが、一番外
では入力の残りに、列の中では列の残りに収まるかを見る。結果（誤りも）は次の呼び出しまで
覚えておく。 -/
def Stream.Kind : StreamM (Rlp.Kind × Nat) := do
  let s ← get
  match s.kind with
  | some (.ok v) => pure v
  | some (.error err) => throw err
  | none =>
    match s.stack with
    | tos :: _ => if tos.pos = tos.size then throw .EOL
    | [] => pure ()
    let res ← attempt Stream.readKind
    let s ← get
    let res := res.bind fun (kind, size) =>
      match s.stack with
      | [] => if s.limited && size > s.remaining then .error .ErrValueTooLarge else .ok (kind, size)
      | tos :: _ => if size > tos.size - tos.pos then .error .ErrElemTooLarge else .ok (kind, size)
    set { s with kind := some res }
    match res with
    | .ok v => pure v
    | .error err => throw err

/-- `Bytes`。文字列を読む。一 byte の文字列で 0x80 未満のもの（一 byte で書けた値）は
退ける。 -/
def Stream.Bytes : StreamM Bytes := do
  let (kind, size) ← Stream.Kind
  match kind with
  | .Byte =>
    modify fun s => { s with kind := none }
    pure [(← get).byteval]
  | .String =>
    let b ← Stream.readFull size
    if size = 1 ∧ b.headD 0 < 128 then throw .ErrCanonSize
    pure b
  | .List => throw .ErrExpectedString

/-- `uint(maxbits)`。`maxbits / 8` byte までの文字列を整数に読む。一 byte の 0、先頭が 0 の
文字列、一 byte で書けた値の文字列は退ける。 -/
def Stream.uint (maxbits : Nat) : StreamM UInt64 := do
  let (kind, size) ← Stream.Kind
  match kind with
  | .Byte =>
    if (← get).byteval = 0 then throw .ErrCanonInt
    modify fun s => { s with kind := none }
    pure (← get).byteval.toUInt64
  | .String =>
    if size > maxbits / 8 then throw .errUintOverflow
    -- 長さを読んでいるのではないので、`readUint` の `ErrCanonSize` は `ErrCanonInt` に直す
    let v ← tryCatch (Stream.readUint size) fun err =>
      throw (if err = .ErrCanonSize then .ErrCanonInt else err)
    if size > 0 ∧ v < 128 then throw .ErrCanonSize
    pure v.toUInt64
  | .List => throw .ErrExpectedString

/-- `Uint`。 -/
def Stream.Uint : StreamM UInt64 := Stream.uint 64

/-- `*big.Int` の型の名前。 -/
def bigIntType : String := "*big.Int"

/-- `decodeBigInt`。読んだ値を返す。先頭が 0 の文字列は退ける。 -/
def decodeBigInt : StreamM Int := do
  let b ← tryCatch Stream.Bytes fun err => throw (wrapStreamError err bigIntType)
  if b.length > 0 ∧ b.headD 0 = 0 then throw (wrapStreamError .ErrCanonInt bigIntType)
  pure (Bytes.beValue b)

/-- `List`。列に入る。 -/
def Stream.List : StreamM Nat := do
  let (kind, size) ← Stream.Kind
  if kind ≠ .List then throw .ErrExpectedList
  modify fun s => { s with stack := ⟨0, size⟩ :: s.stack, kind := none }
  pure size

/-- `ListEnd`。列の終わりで、列から出る。 -/
def Stream.ListEnd : StreamM Unit := do
  let s ← get
  match s.stack with
  | [] => throw .errNotInList
  | tos :: rest =>
    if tos.pos ≠ tos.size then throw .errNotAtEOL
    -- 親の列には、閉じた列の中身の大きさを足す
    let rest := match rest with
      | parent :: up => { parent with pos := parent.pos + tos.size } :: up
      | [] => []
    set { s with stack := rest, kind := none }

/-- `decodeSliceElems`。`EOL` が返るまで要素を読む。燃料は試す要素の数の上限。 -/
def decodeSliceElems {α : Type} (elemdec : StreamM α) : Nat → List α → StreamM (List α)
  | 0, _ => throw .outOfFuel
  | fuel + 1, acc => do
    match ← attempt elemdec with
    | .error .EOL => pure acc
    | .error err => throw (addErrorContext err ("[" ++ toString acc.length ++ "]"))
    | .ok x => decodeSliceElems elemdec fuel (acc ++ [x])

/-- `decodeListSlice`。 -/
def decodeListSlice {α : Type} (elemdec : StreamM α) (fuel : Nat) : StreamM (List α) := do
  let size ← tryCatch Stream.List fun err => throw (wrapStreamError err ifsliceType)
  if size = 0 then
    Stream.ListEnd
    pure []
  else
    let xs ← decodeSliceElems elemdec fuel []
    Stream.ListEnd
    pure xs

/-- `decodeInterface`。列なら `[]interface{}`、そうでなければ `[]byte` に読む。燃料は
入れ子の深さと、各段で試す要素の数の上限。 -/
def decodeInterface : Nat → StreamM Item
  | 0 => throw .outOfFuel
  | fuel + 1 => do
    let (kind, _) ← Stream.Kind
    if kind = .List then
      let slice ← decodeListSlice (decodeInterface fuel) fuel
      pure (.list slice)
    else
      let b ← Stream.Bytes
      pure (.str b)

/-- `Stream.Decode` を `interface{}` を指す pointer に使ったもの。文脈の付いた
`*decodeError` には、読もうとした型の名前を足す。 -/
def Stream.Decode (fuel : Nat) : StreamM Item :=
  tryCatch (decodeInterface fuel) fun err =>
    match err with
    | .decodeError msg typ ctx =>
      if ctx.length > 0 then throw (.decodeError msg typ (ctx ++ ["(interface \x7b\x7d)"]))
      else throw err
    | err => throw err

/-- `DecodeBytes` で `interface{}` に読む。読み終えて入力が残れば、値が二つ以上ある。 -/
def DecodeBytes (b : Bytes) : Except Error Item :=
  match (Stream.Decode (b.length + 1)).run (Stream.Reset b b.length) with
  | .error err _ => .error err
  | .ok val s => if s.r.length > 0 then .error .ErrMoreThanOneValue else .ok val

end Rlp
