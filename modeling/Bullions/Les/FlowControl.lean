import Bullions.Lib.GoMap

/-!
# LES の server 側の流量制御：`ClientNode`（`les/flowcontrol/control.go`）

server は client ごとに `ClientNode` を持つ。buffer の値 `bufValue` は時間とともに
`MinRecharge` の速さで `BufLimit` まで戻り、要求を受けると `maxCost` だけ減る。
parameter の変更 `UpdateParams` は、`MinRecharge` が増えるならすぐに、減るなら
`DecParamDelay` だけ遅らせて `updateSchedule` に積み、`update(now)` が時刻の来たものから
当てる。

`ClientManager`（`manager.go`）は node の `params`・`bufValue` と、自分のための
`cmNodeFields`（`corrBufValue`・`rcLastIntValue`）に書く。そのうち node に書く部分
（`updateNodeRc`・`updateBuffer`・`updateParams`・`connect`）は写す。manager 全体の
recharge の積分値 `cm.rcLastIntValue` は、各呼び出しの時の値 `rc` として外から与える
（`updateRecharge(now)` を済ませた後の値）。manager の合計（`sumRecharge`・
`totalConnected`・容量）と recharge の queue、`accepted` が返す priority は写さない。

時刻 `mclock.AbsTime` は ns の `Int`。`uint64` の値は `Nat`、`int64` の値は `Int` に置き、Go が
桁あふれさせる所はそのまま写す：`uint64` の演算は `% 2 ^ 64`、`int64` への変換と `int64` の演算は
`toInt64`（2^64 を法として `[-2^63, 2^63)` に写す）、`int64` から `uint64` へは `toUint64`。
Go の `int64` の割り算は 0 に向かって丸めるので `Int.tdiv`。
-/

namespace FlowControl

/-- `fcTimeConst = time.Millisecond`（ns）。 -/
def fcTimeConst : Nat := 1000000

/-- `DecParamDelay = time.Second * 2`（ns）。 -/
def DecParamDelay : Int := 2000000000

/-- `FixedPointMultiplier`。 -/
def FixedPointMultiplier : Int := 1000000

/--
Go の `int64(x)` と `int64` の演算の結果：下の 64 bit を 2 の補数として読む。2^64 を法とした
`[-2^63, 2^63)` の代表である（`Int.bmod x (2 ^ 64)` と同じ値）。
-/
def toInt64 (x : Int) : Int := if 2 ^ 63 ≤ x % 2 ^ 64 then x % 2 ^ 64 - 2 ^ 64 else x % 2 ^ 64

/-- Go の `uint64(x)`：2^64 を法とした `[0, 2^64)` の代表。 -/
def toUint64 (x : Int) : Nat := (x % 2 ^ 64).toNat

/-- `ServerParams`。 -/
structure ServerParams where
  BufLimit : Nat
  MinRecharge : Nat
deriving DecidableEq, Repr

/-- `scheduledUpdate`：遅らせた parameter の変更。 -/
structure ScheduledUpdate where
  time : Int
  params : ServerParams
deriving DecidableEq, Repr

/--
`ClientNode`。`lock`・`cm`・`log` と、manager の queue の位置 `queueIndex`・
`rcFullIntValue` は持たない。
-/
structure ClientNode where
  params : ServerParams
  bufValue : Int
  lastTime : Int
  updateSchedule : List ScheduledUpdate
  sumCost : Nat
  accepted : GoMap Nat Nat
  connected : Bool
  corrBufValue : Int
  rcLastIntValue : Int

section
-- `rc`：呼び出しの時の manager の `cm.rcLastIntValue`
variable (rc : Int)

/--
`ClientManager.updateNodeRc(node, bvc, params, now)` のうち node に書く部分。満ちていなかった
`corrBufValue` に前回からの recharge を足して抑え、`bvc` と `BufLimit` の増分を足して新しい
`BufLimit` で抑え、`params` を入れる。
-/
def updateNodeRc (node : ClientNode) (bvc : Int) (params : ServerParams) : ClientNode :=
  let wasFull := decide (node.corrBufValue = toInt64 node.params.BufLimit)
  let corr := if wasFull then node.corrBufValue
    else
      let corr := toInt64 (node.corrBufValue +
        (toInt64 (toInt64 (rc - node.rcLastIntValue) * toInt64 node.params.MinRecharge)).tdiv
          FixedPointMultiplier)
      if corr > toInt64 node.params.BufLimit then toInt64 node.params.BufLimit else corr
  let rcLast := if wasFull then node.rcLastIntValue else rc
  let corr := toInt64 (corr + bvc)
  -- `int64(params.BufLimit - node.params.BufLimit)`：`uint64` の引き算が回り込む
  let diff := toInt64 ((params.BufLimit : Int) - node.params.BufLimit)
  let corr := if diff > 0 then toInt64 (corr + diff) else corr
  let isFull := decide (corr ≥ toInt64 params.BufLimit)
  let corr := if isFull then toInt64 params.BufLimit else corr
  -- `if !isFull { …; node.rcLastIntValue = cm.rcLastIntValue; … }`
  let rcLast := if isFull then rcLast else rc
  { node with corrBufValue := corr, params := params, rcLastIntValue := rcLast }

/-- `ClientManager.updateBuffer(node, add, now)`：直した値が大きければ `bufValue` に写す。 -/
def updateBuffer (node : ClientNode) (add : Int) : ClientNode :=
  let node := updateNodeRc rc node add node.params
  if node.corrBufValue > node.bufValue then { node with bufValue := node.corrBufValue } else node

/-- `ClientNode.recalcBV(now)`。 -/
def recalcBV (node : ClientNode) (now : Int) : ClientNode :=
  -- `uint64(now - node.lastTime)`：`int64` の引き算の回り込みも 2^64 を法とするので一つにまとまる
  let dt : Nat := if now < node.lastTime then 0 else toUint64 (now - node.lastTime)
  let bv := toInt64 (node.bufValue +
    toInt64 (node.params.MinRecharge * dt % 2 ^ 64 / fcTimeConst : Nat))
  let bv := if bv > toInt64 node.params.BufLimit then toInt64 node.params.BufLimit else bv
  { node with bufValue := bv, lastTime := now }

/--
`ClientNode.updateParams(params, now)`。`BufLimit` の増分を `bufValue` に足すか、減ったなら
抑え、`cm.updateParams` が `params` を入れる。
-/
def updateParams (node : ClientNode) (params : ServerParams) : ClientNode :=
  let diff := toInt64 ((params.BufLimit : Int) - node.params.BufLimit)
  let bv := if diff > 0 then toInt64 (node.bufValue + diff)
    else if node.bufValue > toInt64 params.BufLimit then toInt64 params.BufLimit
    else node.bufValue
  updateNodeRc rc { node with bufValue := bv } 0 params

/--
`update(now)` の loop：`updateSchedule[0].time <= now` のあいだ、その時刻まで recharge して
その parameter を当て、先頭を落とす。一回りで一つ落ちるので、`fuel` は列の長さで足りる。
-/
def updateLoop (now : Int) : Nat → ClientNode → ClientNode
  | 0, node => node
  | fuel + 1, node =>
    match node.updateSchedule with
    | s :: rest =>
      if s.time ≤ now then
        updateLoop now fuel { updateParams rc (recalcBV node s.time) s.params with
          updateSchedule := rest }
      else node
    | [] => node

/-- `ClientNode.update(now)`。 -/
def update (node : ClientNode) (now : Int) : ClientNode :=
  recalcBV (updateLoop rc now node.updateSchedule.length node) now

/--
`ClientNode.UpdateParams(params)`。`MinRecharge` が減るときは、積まれた変更のうち最初の
`params.MinRecharge >= s.params.MinRecharge` の所で列を切る。Go の `s` は range が写した
要素なので、`s.params = params` は列の要素を変えない：列は切られるだけである。そういう
要素が無ければ `DecParamDelay` 後の変更として積む。
-/
def UpdateParams (node : ClientNode) (now : Int) (params : ServerParams) : ClientNode :=
  let node := update rc node now
  if params.MinRecharge ≥ node.params.MinRecharge then
    updateParams rc { node with updateSchedule := [] } params
  else
    match node.updateSchedule.findIdx?
        (fun s => decide (params.MinRecharge ≥ s.params.MinRecharge)) with
    | some i => { node with updateSchedule := node.updateSchedule.take (i + 1) }
    | none =>
      { node with
        updateSchedule := node.updateSchedule ++ [⟨toInt64 (now + DecParamDelay), params⟩] }

/--
`ClientNode.AcceptRequest(reqID, index, maxCost)`：受けたか、足りない量。受けたら `maxCost` を
引き、`cm.accepted` が `corrBufValue` からも引く。
-/
def AcceptRequest (node : ClientNode) (now : Int) (index maxCost : Nat) :
    ClientNode × Bool × Nat :=
  let node := update rc node now
  -- `int64(maxCost)` は `maxCost ≥ 2^63` で負になり、その要求は受けられる
  if toInt64 maxCost > node.bufValue then (node, false, toUint64 (maxCost - node.bufValue))
  else
    let node := { node with
      bufValue := toInt64 (node.bufValue - toInt64 maxCost)
      sumCost := (node.sumCost + maxCost) % 2 ^ 64 }
    let node := { node with accepted := node.accepted.insert index node.sumCost }
    (updateNodeRc rc node (toInt64 (-toInt64 maxCost)) node.params, true, 0)

/--
`ClientNode.RequestProcessed(reqID, index, maxCost, realCost)`。`cm.processed` は `realCost` を
`maxCost` で抑えて差を buffer に戻す。返すのは、受けた後の費用を足し戻した buffer の値。
-/
def RequestProcessed (node : ClientNode) (now : Int) (index maxCost realCost : Nat) :
    ClientNode × Nat :=
  let node := update rc node now
  let realCost := if realCost > maxCost then maxCost else realCost
  let node := updateBuffer rc node (toInt64 (maxCost - realCost : Nat))
  let bv := toInt64 (node.bufValue +
    toInt64 ((node.sumCost : Int) - (node.accepted.lookup index).getD 0))
  ({ node with accepted := node.accepted.erase index }, if bv < 0 then 0 else toUint64 bv)

/-- `ClientNode.OneTimeCost(cost)`。 -/
def OneTimeCost (node : ClientNode) (now : Int) (cost : Nat) : ClientNode :=
  let node := update rc node now
  let node := { node with bufValue := toInt64 (node.bufValue - toInt64 cost) }
  updateBuffer rc node (toInt64 (-toInt64 cost))

/-- `ClientNode.BufferStatus()`：buffer の値（負なら 0）と `BufLimit`。 -/
def BufferStatus (node : ClientNode) (now : Int) : ClientNode × Nat × Nat :=
  if !node.connected then (node, 0, 0)
  else
    let node := update rc node now
    let node := updateBuffer rc node 0
    (node, if node.bufValue < 0 then 0 else toUint64 node.bufValue, node.params.BufLimit)

/-- `NewClientNode(cm, params)`：満ちた buffer。`cm.connect` が `corrBufValue` を満たす。 -/
def NewClientNode (params : ServerParams) (now : Int) : ClientNode where
  params := params
  bufValue := toInt64 params.BufLimit
  lastTime := now
  updateSchedule := []
  sumCost := 0
  accepted := ∅
  connected := true
  corrBufValue := toInt64 params.BufLimit
  rcLastIntValue := rc

end

/-- `ClientNode.Disconnect()`。 -/
def Disconnect (node : ClientNode) : ClientNode := { node with connected := false }

/-- node の公開の method の呼び出し。 -/
inductive ClientCall where
  | UpdateParams (params : ServerParams)
  | AcceptRequest (index maxCost : Nat)
  | RequestProcessed (index maxCost realCost : Nat)
  | OneTimeCost (cost : Nat)
  | BufferStatus
  | Disconnect

/-- 時刻 `now` に、manager の積分値が `rc` のときの一つの呼び出し。 -/
structure ClientEvent where
  now : Int
  rc : Int
  call : ClientCall

/-- 呼び出しの後の node（返す値は捨てる）。 -/
def ClientEvent.apply (e : ClientEvent) (node : ClientNode) : ClientNode :=
  match e.call with
  | .UpdateParams p => UpdateParams e.rc node e.now p
  | .AcceptRequest index maxCost => (AcceptRequest e.rc node e.now index maxCost).1
  | .RequestProcessed index maxCost realCost =>
    (RequestProcessed e.rc node e.now index maxCost realCost).1
  | .OneTimeCost cost => OneTimeCost e.rc node e.now cost
  | .BufferStatus => (BufferStatus e.rc node e.now).1
  | .Disconnect => Disconnect node

/-- 呼び出しを順に。 -/
def ClientNode.run (node : ClientNode) (es : List ClientEvent) : ClientNode :=
  es.foldl (fun node e => e.apply node) node

end FlowControl
