import Bullions.Lib.Bytes
import Bullions.Lib.ByteBits

/-!
# 疎な byte 列の圧縮（`common/bitutil/compress.go`）

0 の多い byte 列 `data` を、0 でない byte の位置の bitset と、0 でない byte の列に分ける。
bitset も同じ方法で圧縮するので、長さ `n` の列の圧縮は長さ `(n+7)/8` の列の圧縮を呼ぶ。
全部が 0 の列は空に、長さ 1 の列はそのままになる。伸張は元の長さ `target` を知っていて、
同じ再帰を逆にたどる。

伸張の誤りは Go の四つの error と、実行時の panic 二つ：`make([]byte, target)` の `target` が
負のときと、範囲の外の添字。添字は Go の `bounds check` と同じく、範囲の外なら
`panicIndex` を返すように写す。

`target` は Go の `int` で、`Int` とする。
-/

namespace Bitutil

open ByteBits

/-- 伸張の誤り。 -/
inductive DecodeError where
  | errMissingData
  | errUnreferencedData
  | errExceededTarget
  | errZeroContent
  /-- `make([]byte, target)` の長さが負 -/
  | panicMakeSlice
  /-- 範囲の外の添字 -/
  | panicIndex
deriving DecidableEq, Repr

/--
`bitsetEncodeBytes` の loop（`for i, b := range data`）：0 でない byte を集め、その位置の bit を
立てる。`i` は `data` の中の位置。
-/
def encodeLoop : Nat → Bytes → Bytes × Bytes → Bytes × Bytes
  | _, [], acc => acc
  | i, b :: rest, (nonZeroBitset, nonZeroBytes) =>
    encodeLoop (i + 1) rest
      (if b ≠ 0 then (setBit nonZeroBitset i, nonZeroBytes ++ [b])
      else (nonZeroBitset, nonZeroBytes))

theorem length_encodeLoop_fst : ∀ (i : Nat) (l : Bytes) (acc : Bytes × Bytes),
    (encodeLoop i l acc).1.length = acc.1.length
  | _, [], _ => rfl
  | i, b :: rest, (bs, nz) => by
    rw [encodeLoop, length_encodeLoop_fst]
    split <;> simp

/-- `bitsetEncodeBytes(data)`。 -/
def bitsetEncodeBytes : Bytes → Bytes
  | [] => []
  | [b] => if b = 0 then [] else [b]
  | a :: b :: rest =>
    let r := encodeLoop 0 (a :: b :: rest)
      (List.replicate (((a :: b :: rest).length + 7) / 8) 0, [])
    if r.2.length = 0 then [] else bitsetEncodeBytes r.1 ++ r.2
termination_by data => data.length
decreasing_by
  rw [length_encodeLoop_fst, List.length_replicate]
  simp only [List.length_cons]
  omega

/-- `CompressBytes(data)`：短くならなければ元の写し。 -/
def CompressBytes (data : Bytes) : Bytes :=
  let out := bitsetEncodeBytes data
  if out.length < data.length then out else data

/--
`bitsetDecodePartialBytes` の loop（`for i := 0; i < 8*len(nonZeroBitset); i++`）：立った bit
の位置に、入力の次の byte を置く。
-/
def decodeLoop (data nonZeroBitset : Bytes) :
    List Nat → Bytes × Nat → Except DecodeError (Bytes × Nat)
  | [], acc => .ok acc
  | i :: is, (decomp, ptr) =>
    match nonZeroBitset[i / 8]? with
    | none => .error .panicIndex
    | some w =>
      if w &&& mask i != 0 then
        if h : ptr ≥ data.length then .error .errMissingData
        else if i ≥ decomp.length then .error .errExceededTarget
        else if data[ptr] = 0 then .error .errZeroContent
        else decodeLoop data nonZeroBitset is (decomp.set i data[ptr], ptr + 1)
      else decodeLoop data nonZeroBitset is (decomp, ptr)

/--
`bitsetDecodePartialBytes(data, target)`：伸張した列と、使った入力の長さ。`target` が 2 以上なら、
まず bitset を長さ `(target+7)/8` で伸張する。
-/
def bitsetDecodePartialBytes (data : Bytes) (target : Int) : Except DecodeError (Bytes × Nat) :=
  if target = 0 then .ok ([], 0)
  else if target < 0 then .error .panicMakeSlice
  else
    let decomp := List.replicate target.toNat 0
    match data with
    | [] => .ok (decomp, 0)
    | d0 :: _ =>
      if target = 1 then
        -- `decomp[0] = data[0]`
        if d0 ≠ 0 then .ok (decomp.set 0 d0, 1) else .ok (decomp.set 0 d0, 0)
      else do
        let (nonZeroBitset, ptr) ← bitsetDecodePartialBytes data ((target + 7) / 8)
        decodeLoop data nonZeroBitset (List.range (8 * nonZeroBitset.length)) (decomp, ptr)
termination_by target.toNat
decreasing_by omega

/-- `bitsetDecodeBytes(data, target)`：入力を使い切らなければ誤り。 -/
def bitsetDecodeBytes (data : Bytes) (target : Int) : Except DecodeError Bytes := do
  let (out, size) ← bitsetDecodePartialBytes data target
  if size ≠ data.length then .error .errUnreferencedData else .ok out

/-- `DecompressBytes(data, target)`：長さが `target` の入力は圧縮されていない。 -/
def DecompressBytes (data : Bytes) (target : Int) : Except DecodeError Bytes :=
  if (data.length : Int) > target then .error .errExceededTarget
  else if (data.length : Int) = target then .ok data
  else bitsetDecodeBytes data target

end Bitutil
