import Bullions.Prque.Prque
import Mathlib

/-!
# 遅延評価の優先度付き queue（`common/prque/lazyqueue.go`）

`LazyQueue` は item を二つの `sstack` の heap（`queue[0]`、`queue[1]`）に、優先度の上からの見積もり
（`maxPriority(data, maxUntil)`）で並べて持つ。`Push` はいつも `queue[1]` に入れ、`refresh` は
`queue[0]` の item をすべて見積もり直して `queue[1]` に移し、二つを入れ替える。`MultiPop` は
見積もりの大きい順に取り出し、今の優先度（`priority(data, now)`）で `popQueue` に並べ直して渡す。

`setIndex` には仮想の位置を知らせる：`queue` の位置 `i` を、`setIndex0` は `2i`、`setIndex1` は
`2i + 1` にする。`Remove(index)` は `queue[index&1^indexOffset]` の位置 `index>>1` を外す。

* 時刻 `mclock.AbsTime` と `time.Duration` は `int64`（`Int64`）。`clock.Now()` は引数 `now`。
* 使う側の状態は `W`。`setIndex` はそれを書き換え、`priority`、`maxPriority` はそれを読む。
  `LazyQueue` の `setIndex` は nil でないもの（nil なら `setIndex0` の呼び出しで panic する）。
* `Update` の負の添字では `Push(nil)` になり、`maxPriority` が nil を読む。この repository の
  callback はどれも nil で panic するので、ここでは panic とする。
* 止まらないことは `Fault.diverge`。

## ループ

* `refresh` と `MultiPop` の終わりの `for ….Len() != 0 { q.Push(heap.Pop(…)) }`（`pushAllFrom`）は、
  一回ごとに元の `sstack` の `size` が一つ減るので、`size` 回で止まる。
* `Refresh` の `for now - lastRefresh2 >= period*2` は、二回目の後は `lastRefresh2 = now` なので、
  三回目の条件 `0 >= period*2` がその後ずっと続く。そこで三回目の条件が真なら止まらない
  （`refreshWhile 3`）。
* `MultiPop` の外のループは一回ごとに二つの `queue` から一つ `popQueue` に移し、内のループは
  一回ごとに `popQueue` から一つ外す。callback は `queue` に触らない（`Push` を呼ばない）。
-/

namespace Prque

/-- `mclock.AbsTime`：ナノ秒の `int64`。 -/
abbrev AbsTime := Int64

/-- `LazyQueue` の失敗：Go の panic か、止まらないループ。 -/
inductive Fault where
  | panic (p : Panic)
  | diverge
  deriving DecidableEq, Repr

/-- `LazyQueue`。`queue` は `(q.queue[0], q.queue[1])`。 -/
structure LazyQueue (V W : Type) where
  queue : Sstack V W × Sstack V W
  popQueue : Sstack V W
  period : Int64
  maxUntil : AbsTime
  indexOffset : Int
  setIndex : SetIndexCallback V W
  priority : V → AbsTime → W → Int64
  maxPriority : V → AbsTime → W → Int64
  lastRefresh1 : AbsTime
  lastRefresh2 : AbsTime

variable {V W : Type}

/-- `setIndex0`：`queue` の位置 `i` を仮想の位置 `2i` にする。`-1` はそのまま。 -/
def setIndex0 (setIndex : SetIndexCallback V W) : SetIndexCallback V W := fun data index w =>
  if index = -1 then setIndex data (-1) w else setIndex data (index + index) w

/-- `setIndex1`：`queue` の位置 `i` を仮想の位置 `2i + 1` にする。 -/
def setIndex1 (setIndex : SetIndexCallback V W) : SetIndexCallback V W := fun data index w =>
  setIndex data (index + index + 1) w

/-- heap の操作の panic を `Fault` にする。 -/
def liftPanic {α : Type} (x : Except Panic α) : Except Fault α := x.mapError Fault.panic

namespace LazyQueue

/-- `q.queue[k]`。 -/
def queueAt (q : LazyQueue V W) (k : Int) : Except Fault (Sstack V W) :=
  if k = 0 then .ok q.queue.1
  else if k = 1 then .ok q.queue.2
  else .error (.panic .indexOutOfRange)

/-- `q.queue[k]` を `s` にする。 -/
def setQueueAt (q : LazyQueue V W) (k : Int) (s : Sstack V W) : Except Fault (LazyQueue V W) :=
  if k = 0 then .ok { q with queue := (s, q.queue.2) }
  else if k = 1 then .ok { q with queue := (q.queue.1, s) }
  else .error (.panic .indexOutOfRange)

/-- `s.blocks[0][0]` の `*item`。nil なら参照で panic。 -/
def root (s : Sstack V W) : Except Fault (Item V) := do
  let it ← liftPanic (s.slot 0 0)
  match it with
  | some it => pure it
  | none => .error (.panic .nilDereference)

/-- `q.Reset()`：二つの `sstack` を作り直す。`indexOffset` は変えない。 -/
def Reset (q : LazyQueue V W) : LazyQueue V W :=
  { q with queue := (newSstack (some (setIndex0 q.setIndex)), newSstack (some (setIndex1 q.setIndex))) }

/-- `q.Push(data)`：`maxUntil` までの見積もりで `queue[1]` に入れる。 -/
def Push (q : LazyQueue V W) (w : W) (data : V) : Except Fault (LazyQueue V W × W) := do
  let (s, w) ← liftPanic
    (HeapIface.Push Sstack.iface (q.queue.2, w) ⟨data, q.maxPriority data q.maxUntil w⟩)
  pure ({ q with queue := (q.queue.1, s) }, w)

/-- `pushAllFrom` の元の `sstack`：`fromPop` なら `popQueue`、でなければ `queue[0]`。 -/
def source (fromPop : Bool) (q : LazyQueue V W) : Sstack V W :=
  if fromPop then q.popQueue else q.queue.1

/-- 元の `sstack` を `s` に取り替える。 -/
def withSource (fromPop : Bool) (q : LazyQueue V W) (s : Sstack V W) : LazyQueue V W :=
  if fromPop then { q with popQueue := s } else { q with queue := (s, q.queue.2) }

/--
`for src.Len() != 0 { q.Push(heap.Pop(src).(*item).value) }`。`fromPop` が偽なら `src` は
`queue[0]`（`refresh`）、真なら `popQueue`（`MultiPop`）。fuel は `src` の `size`。
-/
def pushAllFrom (fromPop : Bool) : Nat → LazyQueue V W → W → Except Fault (LazyQueue V W × W)
  | fuel, q, w =>
    if (q.source fromPop).Len ≠ 0 then
      match fuel with
      | 0 => .error .diverge
      | fuel + 1 => do
        let ((src, w), res) ← liftPanic (HeapIface.Pop Sstack.iface (q.source fromPop, w))
        match res with
        | some it => do
          let (q, w) ← (q.withSource fromPop src).Push w it.value
          pushAllFrom fromPop fuel q w
        | none => .error (.panic .nilDereference)
    else pure (q, w)

/-- `q.refresh(now)`：`queue[0]` を見積もり直して `queue[1]` に移し、二つを入れ替える。 -/
def refresh (q : LazyQueue V W) (w : W) (now : AbsTime) : Except Fault (LazyQueue V W × W) := do
  let q := { q with maxUntil := now + q.period }
  let (q, w) ← pushAllFrom false q.queue.1.size q w
  pure ({ q with
    queue := (q.queue.2, q.queue.1)
    indexOffset := 1 - q.indexOffset
    maxUntil := q.maxUntil + q.period }, w)

/-- `for time.Duration(now-q.lastRefresh2) >= q.period*2 { … }`。fuel を使い切れば止まらない。 -/
def refreshWhile : Nat → LazyQueue V W → W → AbsTime → Except Fault (LazyQueue V W × W)
  | fuel, q, w, now =>
    if now - q.lastRefresh2 ≥ q.period * 2 then
      match fuel with
      | 0 => .error .diverge
      | fuel + 1 => do
        let (q, w) ← q.refresh w now
        refreshWhile fuel { q with lastRefresh2 := q.lastRefresh1, lastRefresh1 := now } w now
    else pure (q, w)

/-- `q.Refresh()`：三回目の条件が真なら、その後ずっと真で止まらない。 -/
def Refresh (q : LazyQueue V W) (w : W) (now : AbsTime) : Except Fault (LazyQueue V W × W) :=
  refreshWhile 3 q w now

/-- `q.Remove(index)`：負なら nil。`queue[index&1^indexOffset]` の位置 `index>>1` を外す。 -/
def Remove (q : LazyQueue V W) (w : W) (index : Int) : Except Fault (LazyQueue V W × W × Option V) :=
  if index < 0 then .ok (q, w, none)
  else do
    let k := Int.xor (Int.land index 1) q.indexOffset
    let s ← q.queueAt k
    let ((s, w), res) ← liftPanic (HeapIface.Remove Sstack.iface (s, w) (index >>> (1 : Nat)).toNat)
    match res with
    | some it => do
      let q ← q.setQueueAt k s
      pure (q, w, some it.value)
    | none => .error (.panic .nilDereference)

/-- `q.Update(index)`：外して、見積もり直して入れる。外したものが nil なら panic。 -/
def Update (q : LazyQueue V W) (w : W) (index : Int) : Except Fault (LazyQueue V W × W) := do
  let (q, w, r) ← q.Remove w index
  match r with
  | some data => q.Push w data
  | none => .error (.panic .nilDereference)

/-- `q.peekIndex()`：見積もりの最も大きい item のある `queue`、どちらも空なら `-1`。 -/
def peekIndex (q : LazyQueue V W) : Except Fault Int :=
  if q.queue.1.Len ≠ 0 then
    if q.queue.2.Len ≠ 0 then do
      let a ← root q.queue.2
      let b ← root q.queue.1
      pure (if a.priority > b.priority then 1 else 0)
    else pure 0
  else if q.queue.2.Len ≠ 0 then pure 1
  else pure (-1)

/--
内のループの条件の後半 `nextIndex == -1 || q.queue[nextIndex].blocks[0][0].priority <
q.popQueue.blocks[0][0].priority`：`popQueue` の根が次の `queue` の根の見積もりより大きい。
-/
def deliverCond (q : LazyQueue V W) (nextIndex : Int) : Except Fault Bool :=
  if nextIndex = -1 then pure true
  else do
    let s ← q.queueAt nextIndex
    let a ← root s
    let b ← root q.popQueue
    pure (decide (a.priority < b.priority))

section MultiPop

variable {C : Type} (now : AbsTime) (callback : V → Int64 → W × C → (W × C) × Bool)

/--
`MultiPop` の内のループ：`popQueue` の根が次の `queue` の根より大きい間、callback に渡す。
返す `Bool` は、callback が false を返して `MultiPop` が終わったこと。fuel は `popQueue` の
`size`。
-/
def deliverLoop : Nat → LazyQueue V W → W × C → Int →
    Except Fault (LazyQueue V W × (W × C) × Int × Bool)
  | fuel, q, wc, nextIndex =>
    if q.popQueue.Len ≠ 0 then do
      let go ← q.deliverCond nextIndex
      if go then
        match fuel with
        | 0 => .error .diverge
        | fuel + 1 => do
          let ((pq, w), res) ← liftPanic (HeapIface.Pop Sstack.iface (q.popQueue, wc.1))
          let q := { q with popQueue := pq }
          match res with
          | some i =>
            let (wc, cont) := callback i.value i.priority (w, wc.2)
            if !cont then do
              -- 残りを見積もり直して `queue[1]` に戻し、`MultiPop` を終える
              let (q, w) ← pushAllFrom true q.popQueue.size q wc.1
              pure (q, (w, wc.2), nextIndex, true)
            else do
              let nextIndex ← q.peekIndex
              deliverLoop fuel q wc nextIndex
          | none => .error (.panic .nilDereference)
      else pure (q, wc, nextIndex, false)
    else pure (q, wc, nextIndex, false)

/-- `MultiPop` の外のループ。fuel は二つの `queue` の item の数。 -/
def multiPopLoop : Nat → LazyQueue V W → W × C → Int → Except Fault (LazyQueue V W × (W × C))
  | fuel, q, wc, nextIndex =>
    if nextIndex ≠ -1 then
      match fuel with
      | 0 => .error .diverge
      | fuel + 1 => do
        let s ← q.queueAt nextIndex
        let ((s, w), res) ← liftPanic (HeapIface.Pop Sstack.iface (s, wc.1))
        let q ← q.setQueueAt nextIndex s
        match res with
        | some it => do
          let data := it.value
          let (pq, w) ← liftPanic
            (HeapIface.Push Sstack.iface (q.popQueue, w) ⟨data, q.priority data now w⟩)
          let q := { q with popQueue := pq }
          let nextIndex ← q.peekIndex
          let (q, wc, nextIndex, stopped) ←
            deliverLoop callback (q.popQueue.size + 1) q (w, wc.2) nextIndex
          if stopped then pure (q, wc) else multiPopLoop fuel q wc nextIndex
        | none => .error (.panic .nilDereference)
    else pure (q, wc)

/-- `q.MultiPop(callback)`。 -/
def MultiPop (q : LazyQueue V W) (wc : W × C) : Except Fault (LazyQueue V W × (W × C)) := do
  let nextIndex ← q.peekIndex
  multiPopLoop now callback (q.queue.1.size + q.queue.2.size) q wc nextIndex

end MultiPop

/-- `q.Pop()`：今の優先度の最も大きい item と優先度。空なら `(nil, 0)`（`none`）。 -/
def Pop (q : LazyQueue V W) (w : W) (now : AbsTime) :
    Except Fault (LazyQueue V W × W × Option (V × Int64)) := do
  let (q, (w, res)) ← q.MultiPop now (fun data priority wc => ((wc.1, some (data, priority)), false))
    (w, none)
  pure (q, w, res)

/-- `q.PopItem()`。 -/
def PopItem (q : LazyQueue V W) (w : W) (now : AbsTime) :
    Except Fault (LazyQueue V W × W × Option V) := do
  let (q, w, res) ← q.Pop w now
  pure (q, w, res.map Prod.fst)

/-- `q.Empty()`。 -/
def Empty (q : LazyQueue V W) : Bool := q.queue.1.Len == 0 && q.queue.2.Len == 0

/-- `q.Size()`。 -/
def Size (q : LazyQueue V W) : Nat := q.queue.1.Len + q.queue.2.Len

end LazyQueue

/--
`NewLazyQueue(setIndex, priority, maxPriority, clock, refreshPeriod)`：`Reset` の後に一度
`refresh` する（`indexOffset` は `1` になる）。
-/
def NewLazyQueue (setIndex : SetIndexCallback V W) (priority maxPriority : V → AbsTime → W → Int64)
    (now : AbsTime) (refreshPeriod : Int64) (w : W) : Except Fault (LazyQueue V W × W) :=
  let q : LazyQueue V W := {
    queue := (newSstack none, newSstack none)
    popQueue := newSstack none
    period := refreshPeriod
    maxUntil := 0
    indexOffset := 0
    setIndex := setIndex
    priority := priority
    maxPriority := maxPriority
    lastRefresh1 := now
    lastRefresh2 := now }
  q.Reset.refresh w now

end Prque
