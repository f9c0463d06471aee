import Bullions.Lib.Bytes

/-!
# `0x` の付いた 16 進の数（`common/hexutil/hexutil.go`）

JSON-RPC で数を運ぶ形。`"0x"` か `"0X"` の後に、先頭が 0 でない（0 は `"0"`）16 進の数字。

* `DecodeBig`：`checkNumber` の後、64 桁までの数字を右から `bigWordNibbles` 桁ずつ
  `big.Word` に組み、`big.Int.SetBits` で数にする。`bigWordNibbles` は `big.Word` の bit 数の
  1/4（64 bit の機械で 16、32 bit で 8）で、`init` が決める。ここでは引数にする。
* `EncodeBig`：`fmt.Sprintf("%#x", bigint)`（0 は `"0x0"`）。
* `DecodeUint64`、`EncodeUint64`：`strconv.ParseUint(raw, 16, 64)` と
  `strconv.AppendUint(enc, i, 16)`。

文字列は byte の列とする。標準 library の `strconv` と `math/big` の 16 進の数字は、どちらも
小文字の表 `digits` で下の桁から一つずつ書くので、`formatBits` 一つで写す。
-/

namespace Hexutil

/-- `hexutil` の誤り（`decError` の値）。文言の `msg` は、どの関数も読まないので写さない。 -/
inductive HexError where
  | ErrEmptyString
  | ErrSyntax
  | ErrMissingPrefix
  | ErrEmptyNumber
  | ErrLeadingZero
  | ErrUint64Range
  | ErrBig256Range
deriving DecidableEq, Repr

/-- `strconv.NumError` の `Err`。 -/
inductive NumError where
  | ErrRange
  | ErrSyntax
deriving DecidableEq, Repr

/-- `mapError`。 -/
def mapError : NumError → HexError
  | .ErrRange => .ErrUint64Range
  | .ErrSyntax => .ErrSyntax

/-- `has0xPrefix(input)`：`'0'` の後に `'x'` か `'X'`。 -/
def has0xPrefix (input : Bytes) : Bool :=
  match input with
  | c0 :: c1 :: _ => c0 == 0x30 && (c1 == 0x78 || c1 == 0x58)
  | _ => false

/-- `checkNumber(input)`：`0x` の後の数字の列。 -/
def checkNumber (input : Bytes) : Except HexError Bytes :=
  if input.length = 0 then .error .ErrEmptyString
  else if !has0xPrefix input then .error .ErrMissingPrefix
  else
    let input := input.drop 2
    if input.length = 0 then .error .ErrEmptyNumber
    else if input.length > 1 ∧ input.head? = some 0x30 then .error .ErrLeadingZero
    else .ok input

/-- `decodeNibble(in)`。`badNibble` は `none`。 -/
def decodeNibble (c : UInt8) : Option Nat :=
  if c ≥ 0x30 ∧ c ≤ 0x39 then some (c.toNat - 0x30)
  else if c ≥ 0x41 ∧ c ≤ 0x46 then some (c.toNat - 0x41 + 10)
  else if c ≥ 0x61 ∧ c ≤ 0x66 then some (c.toNat - 0x61 + 10)
  else none

section
-- `bigWordNibbles`：`big.Word` 一つの 16 進の桁数
variable (bigWordNibbles : Nat)

/--
`for ri := start; ri < end; ri++`：`raw[start:end]` を上の桁から `words[i] = words[i]*16 + nib`。
一つの word に入るのは `bigWordNibbles` 桁までなので、`big.Word` は桁あふれしない。
-/
def decodeWord : Bytes → Nat → Except HexError Nat
  | [], word => .ok word
  | c :: cs, word =>
    match decodeNibble c with
    | none => .error .ErrSyntax
    | some nib => decodeWord cs (word * 16 + nib)

/--
`for i := range words`：`count` 個の word を下から。`endPos` は Go の `end`。`start` が負に
なるところは Go が 0 にするので、`Nat` の引き算そのもの。
-/
def decodeWords (raw : Bytes) : Nat → Nat → Except HexError (List Nat)
  | 0, _ => .ok []
  | count + 1, endPos => do
    let start := endPos - bigWordNibbles
    let word ← decodeWord ((raw.take endPos).drop start) 0
    let words ← decodeWords raw count start
    .ok (word :: words)

/-- `new(big.Int).SetBits(words)`：下の word から、基数 `2 ^ _W`（`_W = 4 * bigWordNibbles`）。 -/
def setBits (words : List Nat) : Nat :=
  words.foldr (fun word acc => word + 2 ^ (4 * bigWordNibbles) * acc) 0

/-- `DecodeBig(input)`：256 bit までの数。 -/
def DecodeBig (input : Bytes) : Except HexError Int := do
  let raw ← checkNumber input
  if raw.length > 64 then .error .ErrBig256Range
  else
    let words ← decodeWords bigWordNibbles raw (raw.length / bigWordNibbles + 1) raw.length
    .ok (setBits bigWordNibbles words : Int)

end

/-- `strconv` と `math/big` の数字の表 `"0123456789abcdefghijklmnopqrstuvwxyz"`。 -/
def digits : Bytes :=
  [0x30, 0x31, 0x32, 0x33, 0x34, 0x35, 0x36, 0x37, 0x38, 0x39,
   0x61, 0x62, 0x63, 0x64, 0x65, 0x66, 0x67, 0x68, 0x69, 0x6a, 0x6b, 0x6c, 0x6d,
   0x6e, 0x6f, 0x70, 0x71, 0x72, 0x73, 0x74, 0x75, 0x76, 0x77, 0x78, 0x79, 0x7a]

/--
`strconv.formatBits(dst, u, 16, false, true)` の 2 の冪の基数の loop：`u >= 16` のあいだ
下の桁 `digits[u & 15]` を前に書き足して `u >>= 4`、最後に `digits[u]`。
-/
def formatBits (u : Nat) : Bytes :=
  if u < 16 then [digits.getD u 0]
  else formatBits (u >>> 4) ++ [digits.getD (u &&& 15) 0]
termination_by u
decreasing_by
  rw [Nat.shiftRight_eq_div_pow]
  omega

/--
`EncodeBig(bigint)`：`BitLen` が 0 なら `"0x0"`、そうでなければ `fmt` の `%#x`（負なら `-` の後に
`0x` と絶対値の数字）。
-/
def EncodeBig (bigint : Int) : Bytes :=
  let nbits := bigint.natAbs.size
  if nbits = 0 then [0x30, 0x78, 0x30]
  else (if bigint < 0 then [0x2d] else []) ++ [0x30, 0x78] ++ formatBits bigint.natAbs

/-- `EncodeUint64(i)`：`"0x"` の後に `strconv.AppendUint(enc, i, 16)`。 -/
def EncodeUint64 (i : UInt64) : Bytes := [0x30, 0x78] ++ formatBits i.toNat

/-- `strconv` の `lower(c) = c | ('x' - 'X')`。 -/
def lower (c : UInt8) : UInt8 := c ||| 0x20

/-- `ParseUint` の一つの byte の値：`'0'..'9'` か、`lower(c)` が `'a'..'z'`。 -/
def digitValue (c : UInt8) : Option Nat :=
  if 0x30 ≤ c ∧ c ≤ 0x39 then some (c.toNat - 0x30)
  else if 0x61 ≤ lower c ∧ lower c ≤ 0x7a then some ((lower c).toNat - 0x61 + 10)
  else none

/-- `maxUint64 / 16 + 1`：16 倍すると 64 bit を超える最小の数。 -/
def cutoff : Nat := (2 ^ 64 - 1) / 16 + 1

/-- `maxVal = 1 << 64 - 1`。 -/
def maxVal : Nat := 2 ^ 64 - 1

/--
`ParseUint` の loop（base 16、bitSize 64）。`n < cutoff` なので `n * 16 + d` は `uint64` に収まり、
Go の `n1 < n`（足し算の桁あふれ）は起きない。
-/
def parseUintLoop : Bytes → Nat → Except NumError Nat
  | [], n => .ok n
  | c :: cs, n =>
    match digitValue c with
    | none => .error .ErrSyntax
    | some d =>
      if d ≥ 16 then .error .ErrSyntax
      else if n ≥ cutoff then .error .ErrRange
      else
        let n1 := n * 16 + d
        if n1 > maxVal then .error .ErrRange
        else parseUintLoop cs n1

/-- `strconv.ParseUint(s, 16, 64)`。 -/
def ParseUint (s : Bytes) : Except NumError Nat :=
  if s.length = 0 then .error .ErrSyntax else parseUintLoop s 0

/-- `DecodeUint64(input)`。 -/
def DecodeUint64 (input : Bytes) : Except HexError UInt64 := do
  let raw ← checkNumber input
  match ParseUint raw with
  | .ok dec => .ok dec.toUInt64
  | .error err => .error (mapError err)

end Hexutil
