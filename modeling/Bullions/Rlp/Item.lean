import Bullions.Lib.Bytes

/-!
# RLP の値と、その素直な符号化

RLP の値は byte 列か、値の有限列である。`DecodeBytes` で `interface{}` に読むと、
それぞれ `[]byte` と `[]interface{}` になる。

`Item.enc` は符号化を再帰で書いたもの：

* 0x7F 以下の一 byte は、その byte だけ
* 他の byte 列は、見出し（0x80、長さが 56 以上なら 0xB7 と長さの byte 数）の後に中身
* 列は、中身を符号化して並べたものに見出し（0xC0、0xF7）を付ける

`encbuf` はこれを、列の見出しを後から差し込む形で計算する（`Rlp/Encode.lean`）。
-/

namespace Rlp

/-- RLP の値。 -/
inductive Item where
  | str (b : Bytes)
  | list (xs : List Item)
  deriving Repr

/-- 長さ `size` の見出し。56 未満なら一 byte、そうでなければ長さの byte 数を足した tag と、
長さの big-endian 表現。 -/
def header (smalltag largetag : UInt8) (size : Nat) : Bytes :=
  if size < 56 then [smalltag + size.toUInt8]
  else (largetag + (Bytes.beBytes size).length.toUInt8) :: Bytes.beBytes size

mutual

/-- 値の符号化。 -/
def Item.enc : Item → Bytes
  | .str [b] => if b ≤ 0x7F then [b] else header 0x80 0xB7 1 ++ [b]
  | .str b => header 0x80 0xB7 b.length ++ b
  | .list xs => header 0xC0 0xF7 (Item.encList xs).length ++ Item.encList xs

/-- 列の中身：各値の符号化を並べたもの。 -/
def Item.encList : List Item → Bytes
  | [] => []
  | x :: xs => x.enc ++ Item.encList xs

end

end Rlp
