import Bullions.Rlp.Item

/-!
# `encbuf`（`rlp/encode.go`）

`encbuf` は列の見出しをその場で書かない。`str` には見出し以外のすべてを書き、列ごとに
`listhead{offset, size}` を `lheads` に積む。

* `list()` は見出しを積み、`size` にはその時点の `lhsize`（それまでに確定した見出しの
  byte 数の和）を仮に入れる
* `listEnd(index)` は、全体の大きさ `size()` から `offset` と仮の `size` を引いて中身の
  大きさを求め、見出しの byte 数を `lhsize` に足す
* `toBytes` / `toWriter` は、`str` の切れ目ごとに見出しを差し込みながら書き出す

`interface{}` に入った値の符号化（`writeInterface`）は、`[]byte` なら `writeBytes`、
`[]interface{}` なら `makeSliceWriter` の書き手になる。`Item` の上ではそれが
`writeItem` である。

`sizebuf` と `bufvalue` は作業用の領域なので持たない。`int` と `uint64` の長さは `Nat` で
表す。`putint` と `intsize` は、`uint64` の範囲では Go の場合分けと同じ値になる。
-/

namespace Rlp

/-- `intsize`。`i` を書くのに要る最少の byte 数。0 でも 1。 -/
def intsize (i : Nat) : Nat :=
  if i < 256 then 1 else intsize (i / 256) + 1

/-- `putint`。`i` を big-endian で、最少の byte 数で書く。 -/
def putint (i : Nat) : Bytes :=
  if i < 256 then [i.toUInt8] else putint (i / 256) ++ [(i % 256).toUInt8]

/-- `headsize`。 -/
def headsize (size : Nat) : Nat :=
  if size < 56 then 1 else 1 + intsize size

/-- `puthead`。書いた見出しを返す。 -/
def puthead (smalltag largetag : UInt8) (size : Nat) : Bytes :=
  if size < 56 then [smalltag + size.toUInt8]
  else (largetag + (intsize size).toUInt8) :: putint size

/-- `listhead`。 -/
structure ListHead where
  /-- 見出しを差し込む `str` の位置。 -/
  offset : Nat
  /-- 中身の大きさ（`listEnd` までは、`list()` の時点の `lhsize`）。 -/
  size : Nat
  deriving DecidableEq, Repr

/-- `listhead.encode`。 -/
def ListHead.encode (head : ListHead) : Bytes :=
  puthead 0xC0 0xF7 head.size

/-- `encbuf`。 -/
structure EncBuf where
  /-- 見出し以外のすべて。 -/
  str : Bytes
  /-- 列の見出し。 -/
  lheads : List ListHead
  /-- 確定した見出しの byte 数の和。 -/
  lhsize : Nat
  deriving DecidableEq, Repr

namespace EncBuf

/-- `reset` した（あるいは新しい）`encbuf`。 -/
def empty : EncBuf := ⟨[], [], 0⟩

/-- `size()`。 -/
def size (w : EncBuf) : Nat := w.str.length + w.lhsize

/-- `str` に byte 列を足す。 -/
def append (w : EncBuf) (b : Bytes) : EncBuf := { w with str := w.str ++ b }

/-- `encodeStringHeader`。 -/
def encodeStringHeader (w : EncBuf) (size : Nat) : EncBuf :=
  if size < 56 then w.append [0x80 + size.toUInt8]
  else w.append ((0xB7 + (intsize size).toUInt8) :: putint size)

/-- `encodeString`。0x7F 以下の一 byte は見出しを付けない。 -/
def encodeString (w : EncBuf) : Bytes → EncBuf
  | [b] => if b ≤ 0x7F then w.append [b] else (w.encodeStringHeader 1).append [b]
  | b => (w.encodeStringHeader b.length).append b

/-- `encodeUint`。0 は空の文字列、128 未満はその byte だけ、ほかは最少の byte 数の文字列。 -/
def encodeUint (w : EncBuf) (i : UInt64) : EncBuf :=
  if i = 0 then w.append [0x80]
  else if i < 128 then w.append [i.toUInt8]
  else w.append ((0x80 + (intsize i.toNat).toUInt8) :: putint i.toNat)

/-- `writeBigInt` の内側の loop。語 `d` を下位の byte から、`index` の一つ手前に書いていく。
`j` は残りの回数で、`index` が 0 になれば止まる。 -/
def copyWord : Nat → Nat → Bytes × Nat → Bytes × Nat
  | 0, _, st => st
  | j + 1, d, (buf, index) =>
    if index > 0 then copyWord j (d / 256) (buf.set (index - 1) (d % 256).toUInt8, index - 1)
    else (buf, index)

/-- `writeBigInt(i, w)`。`wordBytes` は `big.Word` の byte 数（64 bit の機械で 8、32 bit で 4）。
`i.Bits()` は絶対値を `2 ^ (8 * wordBytes)` 進で下位の語から並べたもの、`BitLen()` は絶対値の
bit 数、`Uint64()` は絶対値の下位 64 bit である。 -/
def writeBigInt (wordBytes : Nat) (i : Int) (w : EncBuf) : Except String EncBuf :=
  if i < 0 then .error "rlp: cannot encode negative *big.Int"
  else
    let bitlen := i.natAbs.size
    if bitlen ≤ 64 then .ok (w.encodeUint i.natAbs.toUInt64)
    else
      -- `((bitlen + 7) & -8) >> 3`：bit 数を byte 数に切り上げる
      let length := (bitlen + 7) / 8
      let w := w.encodeStringHeader length
      -- 0 で埋めた `length` byte に、下位の語から後ろ向きに書く
      let (buf, _) := (Nat.digits (2 ^ (8 * wordBytes)) i.natAbs).foldl
        (fun st d => copyWord wordBytes d st) (List.replicate length 0, length)
      .ok (w.append buf)

/-- `list()`。見出しを積み、その添字を返す。 -/
def list (w : EncBuf) : EncBuf × Nat :=
  ({ w with lheads := w.lheads ++ [⟨w.str.length, w.lhsize⟩] }, w.lheads.length)

/--
`listEnd(index)`。`index` は `list()` の返した値なので範囲内にある（範囲外なら Go は
panic する。ここでは何もしない）。
-/
def listEnd (w : EncBuf) (index : Nat) : EncBuf :=
  match w.lheads[index]? with
  | none => w
  | some lh =>
    let size := w.size - lh.offset - lh.size
    { w with
      lheads := w.lheads.set index { lh with size := size }
      lhsize := if size < 56 then w.lhsize + 1 else w.lhsize + (1 + intsize size) }

mutual

/-- `writeInterface`：`[]byte` は `writeBytes`、`[]interface{}` は列の書き手。 -/
def writeItem : EncBuf → Item → EncBuf
  | w, .str b => w.encodeString b
  | w, .list xs =>
    let (w', lh) := w.list
    (writeItems w' xs).listEnd lh

/-- 列の要素を順に書く。 -/
def writeItems : EncBuf → List Item → EncBuf
  | w, [] => w
  | w, x :: xs => writeItems (writeItem w x) xs

end

/-- `toBytes` の一歩：前の見出しから `head` までの `str` と、`head` の見出しを書く。 -/
def toBytesStep (w : EncBuf) (acc : Bytes × Nat) (head : ListHead) : Bytes × Nat :=
  let (out, strpos) := acc
  let chunk := (w.str.drop strpos).take (head.offset - strpos)
  (out ++ chunk ++ head.encode, strpos + chunk.length)

/-- `toBytes`。 -/
def toBytes (w : EncBuf) : Bytes :=
  let (out, strpos) := w.lheads.foldl w.toBytesStep ([], 0)
  out ++ w.str.drop strpos

/-- `toWriter` の一歩。書く中身が無ければ `Write` を呼ばない。 -/
def toWriterStep (w : EncBuf) (acc : List Bytes × Nat) (head : ListHead) : List Bytes × Nat :=
  let (writes, strpos) := acc
  let (writes, strpos) :=
    if head.offset - strpos > 0 then
      let chunk := (w.str.drop strpos).take (head.offset - strpos)
      (writes ++ [chunk], strpos + chunk.length)
    else (writes, strpos)
  (writes ++ [head.encode], strpos)

/-- `toWriter`。失敗しない writer に渡したときの `Write` の引数の列。 -/
def toWriter (w : EncBuf) : List Bytes :=
  let (writes, strpos) := w.lheads.foldl w.toWriterStep ([], 0)
  if strpos < w.str.length then writes ++ [w.str.drop strpos] else writes

end EncBuf

/-! ## `encReader` -/

/-- `EncodeToReader` の返す `encReader`。`buf` が nil になったら EOF。 -/
structure EncReader where
  /-- 読んでいる `encbuf`。 -/
  buf : Option EncBuf
  /-- 次に読む見出しの添字。 -/
  lhpos : Nat
  /-- `str` の中の読んだ位置。 -/
  strpos : Nat
  /-- 読み残した断片。 -/
  piece : Option Bytes

namespace EncReader

/--
`next()`：次に読む断片と、そのときの状態。`none` は EOF。見出しの前の文字列は
`str[strpos:head.offset]` で、範囲外なら Go は panic する（`encbuf` の作る見出しでは
起きない）。
-/
def next (r : EncReader) : Option Bytes × EncReader :=
  match r.buf, r.piece with
  | none, _ => (none, r)
  | some _, some p => (some p, r)
  | some buf, none =>
    match buf.lheads[r.lhpos]? with
    | some head =>
      if head.offset - r.strpos > 0 then
        (some ((buf.str.drop r.strpos).take (head.offset - r.strpos)),
          { r with strpos := r.strpos + (head.offset - r.strpos) })
      else (some head.encode, { r with lhpos := r.lhpos + 1 })
    | none =>
      if r.strpos < buf.str.length then
        (some (buf.str.drop r.strpos), { r with strpos := buf.str.length })
      else (none, r)

/--
`Read` の繰り返しが終わるまでに `next` が進む量の上限。断片を読み残していれば 1、
見出しごとに 2（前の文字列と見出し）、最後の文字列に 1。
-/
def pending (r : EncReader) : Nat :=
  match r.buf with
  | none => 0
  | some buf =>
    2 * (buf.lheads.length - r.lhpos) + (if r.piece.isSome then 1 else 0) +
      (if r.strpos < ((buf.lheads[r.lhpos]?).map ListHead.offset).getD buf.str.length then 1 else 0)

/-- 断片を返した `next` の後、読み残しを捨てた状態は `pending` が減っている。 -/
theorem pending_next_lt {r r' : EncReader} {p : Bytes} (h : r.next = (some p, r')) :
    ({ r' with piece := none } : EncReader).pending < r.pending := by
  rcases r with ⟨_ | buf, lhpos, strpos, _ | piece⟩
  · simp [next] at h
  · simp [next] at h
  · cases hh : buf.lheads[lhpos]? with
    | none =>
      have hlen : buf.lheads.length ≤ lhpos := List.getElem?_eq_none_iff.mp hh
      by_cases hs : strpos < buf.str.length
      · simp only [next, hh, if_pos hs, Prod.mk.injEq] at h
        obtain ⟨-, rfl⟩ := h
        simp [pending, hh, hs]
      · simp [next, hh, hs] at h
    | some head =>
      have hlt : lhpos < buf.lheads.length := (List.getElem?_eq_some_iff.mp hh).1
      by_cases hs : head.offset - strpos > 0
      · -- 見出しの前の文字列を返し、`strpos` が見出しの位置まで進む
        simp only [next, hh, if_pos hs, Prod.mk.injEq] at h
        obtain ⟨-, rfl⟩ := h
        simp only [pending, hh, Option.isSome_none, Option.map_some, Option.getD_some]
        split_ifs <;> omega
      · -- 見出しを返し、次の見出しへ
        simp only [next, hh, if_neg hs, Prod.mk.injEq] at h
        obtain ⟨-, rfl⟩ := h
        simp only [pending, hh, Option.isSome_none, Option.map_some, Option.getD_some]
        split_ifs <;> omega
  · simp only [next, Prod.mk.injEq] at h
    obtain ⟨-, rfl⟩ := h
    simp [pending]

/--
`Read(b)`（`b` の長さが `cap`）の繰り返し。`n` はここまでに `b` に写した byte。断片が
`b` に収まり切らなければ残りを `piece` に取っておいて返り、`next` が EOF なら `buf` を
捨てて EOF を返す。戻り値は、写した byte、EOF か、後の状態。
-/
def readLoop (r : EncReader) (cap : Nat) (n : Bytes) : Bytes × Bool × EncReader :=
  match _hnext : r.next with
  | (none, r') => (n, true, { r' with buf := none, piece := none })
  | (some p, r') =>
    let nn := min (cap - n.length) p.length
    if nn < p.length then (n ++ p.take nn, false, { r' with piece := some (p.drop nn) })
    else readLoop { r' with piece := none } cap (n ++ p)
termination_by r.pending
decreasing_by exact pending_next_lt _hnext

/-- `Read(b)`。 -/
def Read (r : EncReader) (cap : Nat) : Bytes × Bool × EncReader := r.readLoop cap []

end EncReader

/-- `EncodeToReader`：大きさと reader。 -/
def encodeToReader (it : Item) : Nat × EncReader :=
  let eb := EncBuf.empty.writeItem it
  (eb.size, ⟨some eb, 0, 0, none⟩)

/-- `EncodeToBytes`。 -/
def encodeToBytes (it : Item) : Bytes :=
  (EncBuf.empty.writeItem it).toBytes

/-- `Encode(w, val)`：`toWriter` で書かれた byte の全体。 -/
def encode (it : Item) : Bytes :=
  (EncBuf.empty.writeItem it).toWriter.flatten

end Rlp
