import Bullions.Lib.Bytes
import Bullions.Lib.ListPrefix

/-!
# trie の key の三つの符号化（`trie/encoding.go`）

* **KEYBYTES** — 外から渡される key そのもの
* **HEX** — 一 nibble を一 byte に置き、値を持つ節へ向かう key には終端 `16` を後ろに付ける
* **COMPACT** — Yellow Paper の hex prefix 符号。先頭 byte の上位 nibble が
  「奇数長か」「終端付きか」の印を持つ

HEX の各要素は `keybytesToHex` と `compactToHex` からしか作られず、値はいつも 16 以下である。
そこで nibble を `Fin 17` で表す。`fullNode` の 17 個の子を引く添字にそのまま使え、
Go の `Children[key[0]]` が範囲外になる場合は型が締め出す。
-/

namespace Trie

/-- HEX 符号の一桁。`16` が終端である。 -/
abbrev Nibble := Fin 17

/-- 終端の印 `16` を `Nibble` の値として書くための、`17 ≠ 0`。 -/
instance neZero_seventeen : NeZero (17 : Nat) := ⟨by decide⟩

/-- HEX 符号の key。 -/
abbrev Nibbles := List Nibble

/-- byte の上位 nibble（`b / 16`）。 -/
def hiNibble (b : UInt8) : Nibble := ⟨b.toNat / 16, by have := b.toNat_lt; omega⟩

/-- byte の下位 nibble（`b % 16`）。 -/
def loNibble (b : UInt8) : Nibble := ⟨b.toNat % 16, by omega⟩

/-- nibble を byte として読む。 -/
def Nibble.toByte (x : Nibble) : UInt8 := UInt8.ofNat x.val

/-- `keybytesToHex`。各 byte を二つの nibble に分け、終端 `16` を付ける。 -/
def keybytesToHex (str : Bytes) : Nibbles :=
  str.flatMap (fun b => [hiNibble b, loNibble b]) ++ [16]

/-- `hasTerm`。最後の nibble が終端か。 -/
def hasTerm (s : Nibbles) : Bool := s.getLast? == some 16

/--
`decodeNibbles`。nibble を二つずつ一つの byte に詰める（`nibbles[ni]<<4 | nibbles[ni+1]`）。

呼び出し側（`hexToCompact`、`hexToKeybytes`）は偶数長だけを渡す。
-/
def decodeNibbles : Nibbles → Bytes
  | a :: b :: rest => ((a.toByte <<< 4) ||| b.toByte) :: decodeNibbles rest
  | _ => []

/--
`hexToKeybytes`。終端を落としてから二つずつ詰める。奇数長は Go では panic なので `none`。
-/
def hexToKeybytes (hex : Nibbles) : Option Bytes :=
  let hex := if hasTerm hex then hex.dropLast else hex
  if hex.length % 2 ≠ 0 then none else some (decodeNibbles hex)

/--
`hexToCompact`。先頭 byte は `terminator << 5` に、奇数長なら `1 << 4` と最初の nibble を
重ねたもの。残りは偶数長なので二つずつ詰める。
-/
def hexToCompact (hex : Nibbles) : Bytes :=
  let terminator : UInt8 := if hasTerm hex then 1 else 0
  let hex := if hasTerm hex then hex.dropLast else hex
  if hex.length % 2 = 1 then
    match hex with
    | h :: t => ((terminator <<< 5) ||| ((1 : UInt8) <<< 4) ||| h.toByte) :: decodeNibbles t
    | [] => [terminator <<< 5]
  else
    (terminator <<< 5) :: decodeNibbles hex

/--
`compactToHex`。全体を HEX に開き、印の nibble が 2 未満（終端の印が無い）なら終端を落とし、
偶奇の印に応じて先頭の一つか二つを捨てる。
-/
def compactToHex (compact : Bytes) : Nibbles :=
  match compact with
  | [] => []
  | c :: cs =>
    let base := keybytesToHex (c :: cs)
    let flag := (hiNibble c).val
    let base := if flag < 2 then base.dropLast else base
    base.drop (2 - flag % 2)

/--
`hexToCompactInPlace` の loop：`for ; ni < hexLen; bi, ni = bi+1, ni+2`。右辺の二つの nibble を
読んでから `hex[bi]` に書く。回る数は `hexLen` を超えないので、`fuel` には `hexLen` を渡す。
-/
def hexToCompactInPlaceLoop (hexLen : Nat) : Nat → Bytes → Nat → Nat → Bytes
  | 0, hex, _, _ => hex
  | fuel + 1, hex, bi, ni =>
    if ni < hexLen then
      hexToCompactInPlaceLoop hexLen fuel
        (hex.set bi ((hex.getD ni 0 <<< 4) ||| hex.getD (ni + 1) 0)) (bi + 1) (ni + 2)
    else hex

/--
`hexToCompactInPlace(hex)`。nibble を一つずつ置いた byte の領域に compact の符号を上書きし、
その長さ `binLen` を返す。最後の `hex[0] = firstByte` は空の領域では範囲の外で、Go は panic
する（`none`）。
-/
def hexToCompactInPlace (hex : Bytes) : Option (Bytes × Nat) :=
  let terminated := decide (hex.length > 0) && hex.getLast? == some 16
  let firstByte : UInt8 := if terminated then (1 : UInt8) <<< 5 else 0
  let hexLen := if terminated then hex.length - 1 else hex.length
  let binLen := hexLen / 2 + 1
  let odd := hexLen % 2 == 1
  let firstByte := if odd then firstByte ||| ((1 : UInt8) <<< 4) ||| hex.getD 0 0 else firstByte
  let ni := if odd then 1 else 0
  let hex := hexToCompactInPlaceLoop hexLen hexLen hex 1 ni
  match hex with
  | [] => none
  | _ :: _ => some (hex.set 0 firstByte, binLen)

/-- `prefixLen`。二つの key が先頭から一致する長さ。 -/
def prefixLen (a b : Nibbles) : Nat := List.commonPrefixLen a b

end Trie
