import Bullions.Lib.HeapIface

set_option linter.dupNamespace false

/-!
# 優先度付きの queue（`common/prque/sstack.go`、`common/prque/prque.go`）

`Prque` は `container/heap` の heap を `sstack` の上に置く。`sstack` は `*item` の列を
`blockSize` 個ずつの block に分けて持ち、先頭の `size` 個が使われている。`active` は今書いている
block、`offset` はその中の次の位置で、`capacity` は block の数の `blockSize` 倍。

* 値は型 `V`（Go の `interface{}`）。
* `SetIndexCallback` は、使う側の状態 `W` を書き換える関数とする。nil は `none`。
* Go の `s.active` は、いつも `s.blocks` の一つと同じ配列を指す（`newSstack`、`Push`、`Pop` が
  そう置く）。ここでは `active` をその block の添字で持つ。
* Go の panic（範囲の外の添字、nil の `*item` の参照）は `Panic`。
* `sstack.Pop` は `heap.Pop` と `heap.Remove` からだけ、`Swap(·, Len()-1)` の後に呼ばれる。空の
  sstack ではその `Swap` が `-1` で panic するので、空の sstack の `Pop` は走らない。ここでは
  そこも panic とする。
-/

namespace Prque

/-- `blockSize`。 -/
def blockSize : Nat := 4096

/-- `item`：値と優先度。 -/
structure Item (V : Type) where
  value : V
  priority : Int64

/-- Go の panic。 -/
inductive Panic where
  /-- 範囲の外の添字。 -/
  | indexOutOfRange
  /-- nil の `*item` の参照。 -/
  | nilDereference
  deriving DecidableEq, Repr

/-- `SetIndexCallback`：値とその位置を、使う側の状態 `W` に知らせる。 -/
abbrev SetIndexCallback (V W : Type) := V → Int → W → W

/-- `sstack`。`active` は `s.active` が指す block の添字。 -/
structure Sstack (V W : Type) where
  setIndex : Option (SetIndexCallback V W)
  size : Nat
  capacity : Nat
  offset : Nat
  blocks : List (List (Option (Item V)))
  active : Nat

variable {V W : Type}

/-- `newSstack(setIndex)`。 -/
def newSstack (setIndex : Option (SetIndexCallback V W)) : Sstack V W where
  setIndex := setIndex
  size := 0
  capacity := blockSize
  offset := 0
  blocks := [List.replicate blockSize none]
  active := 0

namespace Sstack

/-- `s.blocks[b][o]`。 -/
def slot (s : Sstack V W) (b o : Nat) : Except Panic (Option (Item V)) :=
  match s.blocks[b]? with
  | none => .error .indexOutOfRange
  | some blk =>
    match blk[o]? with
    | none => .error .indexOutOfRange
    | some x => .ok x

/-- `s.blocks[b][o] = x`。 -/
def setSlot (s : Sstack V W) (b o : Nat) (x : Option (Item V)) : Except Panic (Sstack V W) :=
  match s.blocks[b]? with
  | none => .error .indexOutOfRange
  | some blk =>
    if o < blk.length then .ok { s with blocks := s.blocks.set b (blk.set o x) }
    else .error .indexOutOfRange

/--
位置 `i` の slot `s.blocks[i/blockSize][i%blockSize]`。Go の割り算は 0 の方へ切り捨てるので、
負の `i` ではどちらかの添字が負になって panic する。
-/
def get (s : Sstack V W) (i : Int) : Except Panic (Option (Item V)) :=
  if i < 0 then .error .indexOutOfRange
  else s.slot (i.toNat / blockSize) (i.toNat % blockSize)

/-- 位置 `i` の slot に書く。 -/
def set (s : Sstack V W) (i : Int) (x : Option (Item V)) : Except Panic (Sstack V W) :=
  if i < 0 then .error .indexOutOfRange
  else s.setSlot (i.toNat / blockSize) (i.toNat % blockSize) x

/-- `setIndex` があれば呼ぶ。 -/
def report (s : Sstack V W) (v : V) (i : Int) (w : W) : W :=
  match s.setIndex with
  | some f => f v i w
  | none => w

/-- `s.Push(data)`。今の block が埋まっていれば、次の block に移る。 -/
def Push (s : Sstack V W) (w : W) (data : Item V) : Except Panic (Sstack V W × W) := do
  let s ← (if s.size = s.capacity then
      -- block を一つ足して、そこに書く
      pure { s with
        blocks := s.blocks ++ [List.replicate blockSize none]
        active := s.blocks.length
        capacity := s.capacity + blockSize
        offset := 0 }
    else if s.offset = blockSize then
      -- 次の block はもうある（`Pop` で前の block に戻ったあと）
      if s.size / blockSize < s.blocks.length then
        pure { s with active := s.size / blockSize, offset := 0 }
      else .error .indexOutOfRange
    else pure s)
  let w := s.report data.value s.size w
  let s ← s.setSlot s.active s.offset (some data)
  pure ({ s with offset := s.offset + 1, size := s.size + 1 }, w)

/-- `s.Pop()`。block の先頭から外すと、前の block に戻る。 -/
def Pop (s : Sstack V W) (w : W) : Except Panic (Sstack V W × W × Option (Item V)) :=
  if s.size = 0 then .error .indexOutOfRange
  else do
    let size := s.size - 1
    let (offset, active) ← (if s.offset = 0 then
        if size / blockSize < s.blocks.length then pure (blockSize - 1, size / blockSize)
        else .error .indexOutOfRange
      else pure (s.offset - 1, s.active))
    let res ← s.slot active offset
    let s ← s.setSlot active offset none
    let w ← (match s.setIndex, res with
      | some f, some it => pure (f it.value (-1) w)
      | some _, none => .error .nilDereference
      | none, _ => pure w)
    pure ({ s with size := size, offset := offset, active := active }, w, res)

/-- `s.Len()`。 -/
def Len (s : Sstack V W) : Nat := s.size

/-- `s.Less(i, j)`：`priority` の差が正。差は `int64` で回る。 -/
def Less (s : Sstack V W) (i j : Int) : Except Panic Bool := do
  let a ← s.get i
  let b ← s.get j
  match a, b with
  | some a, some b => pure (decide (a.priority - b.priority > 0))
  | _, _ => .error .nilDereference

/-- `s.Swap(i, j)`：入れ替えて、`setIndex` に二つの新しい位置を知らせる。 -/
def Swap (s : Sstack V W) (w : W) (i j : Int) : Except Panic (Sstack V W × W) := do
  let a ← s.get j
  let b ← s.get i
  -- `setIndex(a.value, i)` と `setIndex(b.value, j)`：nil の `*item` の `value` は panic
  let w ← (match s.setIndex, a, b with
    | some f, some a, some b => pure (f b.value j (f a.value i w))
    | some _, _, _ => .error .nilDereference
    | none, _, _ => pure w)
  let s ← s.set i a
  let s ← s.set j b
  pure (s, w)

/-- `s.Reset()`。 -/
def Reset (s : Sstack V W) : Sstack V W := newSstack s.setIndex

/-- `heap.Interface` としての `*sstack`。使う側の状態と組にする。 -/
def iface : HeapIface.Iface (Sstack V W × W) (Item V) (Option (Item V)) Panic where
  Len p := p.1.Len
  Less p i j := p.1.Less i j
  Swap p i j := p.1.Swap p.2 i j
  Push p x := p.1.Push p.2 x
  Pop p := do
    let (s, w, r) ← p.1.Pop p.2
    pure ((s, w), r)

end Sstack

/-- `Prque`。 -/
structure Prque (V W : Type) where
  cont : Sstack V W

/-- `New(setIndex)`。 -/
def New (setIndex : Option (SetIndexCallback V W)) : Prque V W := ⟨newSstack setIndex⟩

namespace Prque

/-- `p.Push(data, priority)`。 -/
def Push (p : Prque V W) (w : W) (data : V) (priority : Int64) : Except Panic (Prque V W × W) := do
  let (s, w) ← HeapIface.Push Sstack.iface (p.cont, w) ⟨data, priority⟩
  pure (⟨s⟩, w)

/-- `p.Peek()`：`blocks[0][0]`。 -/
def Peek (p : Prque V W) : Except Panic (V × Int64) := do
  let it ← p.cont.slot 0 0
  match it with
  | some it => pure (it.value, it.priority)
  | none => .error .nilDereference

/-- `p.Pop()`。`heap.Pop` の返す `*item` の値と優先度。 -/
def Pop (p : Prque V W) (w : W) : Except Panic (Prque V W × W × V × Int64) := do
  let ((s, w), res) ← HeapIface.Pop Sstack.iface (p.cont, w)
  match res with
  | some it => pure (⟨s⟩, w, it.value, it.priority)
  | none => .error .nilDereference

/-- `p.PopItem()`。 -/
def PopItem (p : Prque V W) (w : W) : Except Panic (Prque V W × W × V) := do
  let ((s, w), res) ← HeapIface.Pop Sstack.iface (p.cont, w)
  match res with
  | some it => pure (⟨s⟩, w, it.value)
  | none => .error .nilDereference

/-- `p.Remove(i)`。負の `i` では何もせず nil。返すのは `heap.Remove` の `*item`。 -/
def Remove (p : Prque V W) (w : W) (i : Int) : Except Panic (Prque V W × W × Option (Item V)) :=
  if i < 0 then .ok (p, w, none)
  else do
    let ((s, w), res) ← HeapIface.Remove Sstack.iface (p.cont, w) i.toNat
    pure (⟨s⟩, w, res)

/-- `p.Empty()`。 -/
def Empty (p : Prque V W) : Bool := p.cont.Len == 0

/-- `p.Size()`。 -/
def Size (p : Prque V W) : Nat := p.cont.Len

/-- `p.Reset()`。 -/
def Reset (p : Prque V W) : Prque V W := New p.cont.setIndex

end Prque

end Prque
