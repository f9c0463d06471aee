import Bullions.Lib.Bytes
import Bullions.Vm.Operation

/-!
# jump 先の解析（`core/vm/analysis.go`、`core/vm/contract.go`）

`codeBitmap` は code の各 byte に一 bit を割り当て、PUSH の data の byte の bit を立てる。
bit `pos` は byte `pos / 8` の上の桁から `pos % 8` 番目。`set8` は揃っていない位置から
8 bit を二つの byte にまたがって立てる。

Go の slice の範囲の外への書き込みは panic するので、書き込みは `Option` を返し、
範囲の外なら `none` にする。

`isCode` が使う解析の cache（`c.analysis` と `jumpdests[CodeHash]`）はどれも
`codeBitmap(c.Code)` なので、ここでは毎回 `codeBitmap` を計算する。
-/

namespace Vm

/-- `PUSH32`。 -/
def PUSH32 : OpCode := 0x7f

/-- `bitvec`：code の byte ごとに一 bit。立っている bit は PUSH の data。 -/
abbrev bitvec := List UInt8

/-- `(*bits)[i] |= m`。範囲の外なら panic。 -/
def bitvec.orAt (bits : bitvec) (i : Nat) (m : UInt8) : Option bitvec :=
  if h : i < bits.length then some (bits.set i (bits[i] ||| m)) else none

/-- `bitvec.set`：bit `pos` を立てる。 -/
def bitvec.set (bits : bitvec) (pos : Nat) : Option bitvec :=
  bits.orAt (pos / 8) (0x80 >>> (pos % 8).toUInt8)

/-- `bitvec.set8`：bit `pos` から 8 bit を立てる。二つ目の byte には、一つ目に入らなかった
上の桁を立てる（`^` は byte の補数）。 -/
def bitvec.set8 (bits : bitvec) (pos : Nat) : Option bitvec := do
  let bits ← bits.orAt (pos / 8) (0xFF >>> (pos % 8).toUInt8)
  bits.orAt (pos / 8 + 1) (~~~(0xFF >>> (pos % 8).toUInt8))

/-- `bitvec.codeSegment`：bit `pos` が立っていなければ命令の byte。 -/
def bitvec.codeSegment (bits : bitvec) (pos : Nat) : Bool :=
  (bits.getD (pos / 8) 0 &&& (0x80 >>> (pos % 8).toUInt8)) == 0

/-- `codeBitmap` の一つ目の内側の loop：`numbits ≥ 8` の間、`set8` して 8 進む。
返すのは bitvec、`pc`、残りの `numbits`。 -/
def set8Loop (bits : bitvec) (pc : Nat) : Nat → Option (bitvec × Nat × Nat)
  | numbits + 8 => do
    let bits ← bits.set8 pc
    set8Loop bits (pc + 8) numbits
  | numbits => some (bits, pc, numbits)

/-- `codeBitmap` の二つ目の内側の loop：残りの bit を一つずつ立てる。 -/
def setLoop (bits : bitvec) (pc : Nat) : Nat → Option (bitvec × Nat)
  | 0 => some (bits, pc)
  | numbits + 1 => do
    let bits ← bits.set pc
    setLoop bits (pc + 1) numbits

/-- `codeBitmap` の外側の loop。`fuel` は回る回数の上限で、一回ごとに `pc` が進むので
`code.length` で足りる。 -/
def codeBitmapLoop (code : Bytes) (bits : bitvec) (pc : Nat) : Nat → Option bitvec
  | 0 => some bits
  | fuel + 1 =>
    if pc < code.length then
      let op := code.getD pc 0
      if op ≥ PUSH1 && op ≤ PUSH32 then do
        let numbits := (op - PUSH1 + 1).toNat
        let (bits, pc, numbits) ← set8Loop bits (pc + 1) numbits
        let (bits, pc) ← setLoop bits pc numbits
        codeBitmapLoop code bits pc fuel
      else codeBitmapLoop code bits (pc + 1) fuel
    else some bits

/-- `codeBitmap`。bitvec は必要より 4 byte 長く、code が `PUSH32` で終わっても書ける。 -/
def codeBitmap (code : Bytes) : Option bitvec :=
  codeBitmapLoop code (List.replicate (code.length / 8 + 1 + 4) 0) 0 code.length

/-- `Contract.isCode`。 -/
def isCode (code : Bytes) (udest : Nat) : Option Bool :=
  (codeBitmap code).map (·.codeSegment udest)

/-- `Contract.validJumpdest`：`dest` は 256 bit の値。 -/
def validJumpdest (code : Bytes) (dest : Nat) : Option Bool :=
  let udest := dest % 2 ^ 64
  let overflow := decide (2 ^ 64 ≤ dest)
  if overflow || decide (code.length ≤ udest) then some false
  -- jump 先は JUMPDEST に限る
  else if code.getD udest 0 != JUMPDEST then some false
  else isCode code udest

/-! ## 線形な読み

命令の列としての code の読み方：`PUSHn` の後は `1 + n` 進み、ほかは 1 進む。PUSH の data が
code の終わりを越えてもよい。 -/

/-- 命令 `pc` の次の命令の位置。 -/
def nextPc (code : Bytes) (pc : Nat) : Nat :=
  let op := code.getD pc 0
  if op ≥ PUSH1 && op ≤ PUSH32 then pc + 1 + (op - PUSH1 + 1).toNat else pc + 1

/-- 線形な読みで命令が始まる位置。 -/
inductive InstructionStart (code : Bytes) : Nat → Prop where
  | zero : InstructionStart code 0
  | next {pc : Nat} : InstructionStart code pc → pc < code.length →
      InstructionStart code (nextPc code pc)

end Vm
