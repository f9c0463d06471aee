import Bullions.Lib.RWMutex

/-!
# `TxPool` の入口が `pool.mu` の下でする読み書き（`core/tx_pool.go`）

`TxPool` の公開の method と、背景の reorg loop が走らせる `runReorg` を、`pool.mu` の操作と、
`pool.mu` が守る五つの場所（`pending`・`queue`・`beats`・`pendingNonces`・`priced`）の読み書きの
列に写す。値は持たない。道を決める条件（取引が既にあるか、どの list に入っているか、…）は
`…Path` の引数として外から与え、どの道の列も表せるようにする。

一つの文が場所に触れるごとに一つの読み書きを数える：map を引くのと list の method で変えない
ものは読み、map に入れる・消すのと list を変える method は書き。`txNoncer.get` は無ければ入れる
ので書き、`txSortedMap.Flatten` は cache を作るので書きである。`pool.all`（`txLookup`）は
自前の lock を持つので数えない。

`runReorg` の lock の内で呼ばれる `reset`・`promoteExecutables`・`demoteUnexecutables`・
`truncatePending`・`truncateQueue` は、どれも lock の内の読み書きの列として引数に取る。
-/

namespace Core

open RWMutex

/-- `pool.mu` が守る場所。 -/
inductive PoolField where
  | pending
  | queue
  | beats
  | pendingNonces
  | priced
deriving DecidableEq, Repr

abbrev PoolAccess := Access PoolField

abbrev PoolOp := Op PoolField

/-- `enqueueTx` の道。 -/
structure EnqueuePath where
  /-- `pool.queue[from] == nil` -/
  queueNil : Bool
  /-- `pool.queue[from].Add` が入れた -/
  inserted : Bool
  /-- 入れ替えた取引がある（`old != nil`） -/
  replaced : Bool
  /-- `pool.all.Get(hash) == nil` -/
  unknown : Bool
  /-- `pool.beats[from]` が無い -/
  noBeat : Bool
deriving DecidableEq, Repr

/-- `enqueueTx(hash, tx)`。 -/
def enqueueTx (p : EnqueuePath) : List PoolAccess :=
  .read .queue :: (if p.queueNil then [.write .queue] else []) ++
  if p.inserted then
    .write .queue ::
      ((if p.replaced then [.write .priced] else []) ++
      (if p.unknown then [.write .priced] else []) ++
      .read .beats :: (if p.noBeat then [.write .beats] else []))
  else [.read .queue]

/-- `removeTx` の道。 -/
structure RemovePath where
  /-- `pool.all.Get(hash) != nil` -/
  known : Bool
  /-- `pool.pending[addr] != nil` -/
  inPending : Bool
  /-- `pending.Remove(tx)` が消した -/
  removedPending : Bool
  /-- その後 `pending.Empty()` -/
  pendingEmpty : Bool
  /-- 後ろに回す取引ごとの `enqueueTx` の道 -/
  invalids : List EnqueuePath
  /-- `pool.queue[addr] != nil` -/
  inQueue : Bool
  /-- `future.Remove(tx)` が消した -/
  removedQueue : Bool
  /-- その後 `future.Empty()` -/
  queueEmpty : Bool
deriving DecidableEq, Repr

/-- `removeTx(hash, outofbound)`。 -/
def removeTx (outofbound : Bool) (p : RemovePath) : List PoolAccess :=
  if p.known then
    (if outofbound then [.write .priced] else []) ++
    .read .pending ::
    if p.inPending ∧ p.removedPending then
      -- 待ちの list から消し、後ろの取引を queue に回し、nonce を下げる
      .write .pending :: .read .pending :: (if p.pendingEmpty then [.write .pending] else []) ++
        p.invalids.flatMap enqueueTx ++ [.write .pendingNonces]
    else
      (if p.inPending then [.read .pending] else []) ++
      .read .queue ::
      if p.inQueue then
        (if p.removedQueue then [.write .queue] else [.read .queue]) ++
        .read .queue :: (if p.queueEmpty then [.write .queue, .write .beats] else [])
      else []
  else []

/-- `add` の道。 -/
structure AddPath where
  /-- `pool.all.Get(hash) != nil` -/
  known : Bool
  /-- `validateTx` が通した -/
  valid : Bool
  /-- `pool.all.Count()` が `GlobalSlots + GlobalQueue` 以上 -/
  full : Bool
  /-- `pool.priced.Underpriced(tx, pool.locals)` -/
  underpriced : Bool
  /-- `pool.priced.Discard` が落とした取引ごとの `removeTx` の道 -/
  drops : List RemovePath
  /-- `pool.pending[from]` があり `Overlaps(tx)` -/
  pendingOverlap : Bool
  /-- 待ちの list の `Add` が入れた -/
  pendingInserted : Bool
  /-- 待ちの list で入れ替えた取引がある -/
  pendingReplaced : Bool
  /-- queue に入れるときの `enqueueTx` の道 -/
  enqueue : EnqueuePath
deriving DecidableEq, Repr

/-- `add(tx, local)`。`validateTx` は守られた場所に触れない。 -/
def add (isLocal : Bool) (p : AddPath) : List PoolAccess :=
  if p.known ∨ ¬ p.valid then []
  else
    -- 満杯のとき、local でなければ `priced.Underpriced` が古い値を heap から捨てる
    let check : List PoolAccess := if p.full ∧ ¬ isLocal then [.write .priced] else []
    if p.full ∧ ¬ isLocal ∧ p.underpriced then check
    else
      check ++
      (if p.full then .write .priced :: p.drops.flatMap (removeTx false) else []) ++
      .read .pending ::
      if p.pendingOverlap then
        if p.pendingInserted then
          .write .pending :: (if p.pendingReplaced then [.write .priced] else []) ++
            [.write .priced, .write .beats]
        else [.read .pending]
      else enqueueTx p.enqueue

/-- `addTxs(txs, local, sync)`。`news` は lock の前の篩（既知の取引と署名の悪い取引を除く）が
残した取引の道。何も残らなければ lock を取らずに返る。 -/
def addTxs (news : List AddPath) (isLocal : Bool) : List PoolOp :=
  if news = [] then []
  else .lock :: ((news.flatMap (add isLocal)).map .acc ++ [.unlock])

/-- `runReorg` の道：lock の内で呼ぶ関数がする読み書きと、数の引数。 -/
structure ReorgPath where
  /-- `reset != nil` のとき、`pool.reset` がする読み書き -/
  reset : Option (List PoolAccess)
  /-- `events` の account の数 -/
  events : Nat
  /-- `pool.promoteExecutables(promoteAddrs)` がする読み書き -/
  promote : List PoolAccess
  /-- `pool.demoteUnexecutables()` がする読み書き -/
  demote : List PoolAccess
  /-- `pool.truncatePending()` がする読み書き -/
  truncatePending : List PoolAccess
  /-- `pool.truncateQueue()` がする読み書き -/
  truncateQueue : List PoolAccess
  /-- 最後の loop が回る `pool.pending` の account の数 -/
  pendingAccounts : Nat
deriving DecidableEq, Repr

/-- `runReorg` の lock の内。 -/
def runReorgLocked (p : ReorgPath) : List PoolAccess :=
  (match p.reset with
    | some r =>
      -- `events[addr].Forward(pool.pendingNonces.get(addr))` と、`pool.queue` を回す loop
      r ++ List.replicate p.events (.write .pendingNonces) ++ [.read .queue]
    | none => []) ++
  p.promote ++ (if p.reset.isSome then p.demote else []) ++
  p.truncatePending ++ p.truncateQueue ++
  -- `for addr, list := range pool.pending { pool.pendingNonces.set(addr, list.LastElement()…) }`：
  -- `LastElement` は `flatten` で list の cache を作るので書き
  .read .pending ::
    (List.replicate p.pendingAccounts [.write .pending, .write .pendingNonces]).flatten

/-- `runReorg(done, reset, dirtyAccounts, events)`。lock の前後は守られた場所に触れない。 -/
def runReorg (p : ReorgPath) : List PoolOp :=
  .lock :: ((runReorgLocked p).map .acc ++ [.unlock])

/-- RPC と protocol の handler から呼ばれる `TxPool` の method と、背景の `runReorg`。 -/
inductive Call where
  /-- `AddLocals(txs)`：`local` は `!pool.config.NoLocals`。`AddLocal` は一つの場合。 -/
  | AddLocals (noLocals : Bool) (news : List AddPath)
  /-- `AddRemotes(txs)`。`AddRemote` は一つの場合。 -/
  | AddRemotes (news : List AddPath)
  /-- `RemoveTx(hash)` -/
  | RemoveTx (p : RemovePath)
  /-- `Pending()`：`pool.pending` の account の数 -/
  | Pending (pendingAccounts : Nat)
  /-- `Content()` -/
  | Content (pendingAccounts queuedAccounts : Nat)
  /-- `Stats()` -/
  | Stats (pendingAccounts queuedAccounts : Nat)
  /-- `SetGasPrice(price)`：`pool.priced.Cap` が落とした取引ごとの `removeTx` の道 -/
  | SetGasPrice (drops : List RemovePath)
  /-- `Get(hash)` -/
  | Get
  /-- `Has(hash)` -/
  | Has
  /-- 背景の reorg loop の `runReorg` -/
  | runReorg (p : ReorgPath)
deriving DecidableEq, Repr

/-- `RemoveTx(hash)`：`pool.Get(hash)` の後、lock を取らずに `removeTx(hash, true)`。 -/
def RemoveTx (p : RemovePath) : List PoolOp := (removeTx true p).map .acc

/-- `Pending()`：各 list の `Flatten()` は cache を作る。 -/
def Pending (pendingAccounts : Nat) : List PoolOp :=
  .lock :: ((.read .pending :: List.replicate pendingAccounts (.write .pending) :
    List PoolAccess).map .acc ++ [.unlock])

/-- `Content()`。 -/
def Content (pendingAccounts queuedAccounts : Nat) : List PoolOp :=
  .lock :: ((.read .pending :: List.replicate pendingAccounts (.write .pending) ++
    .read .queue :: List.replicate queuedAccounts (.write .queue) : List PoolAccess).map .acc ++
    [.unlock])

/-- `Stats()`：共有の lock の下で各 list の `Len()` を読む。 -/
def Stats (pendingAccounts queuedAccounts : Nat) : List PoolOp :=
  .rLock :: ((.pending :: List.replicate pendingAccounts .pending ++
    .queue :: List.replicate queuedAccounts .queue : List PoolField).map (fun l => .acc (.read l)) ++
    [.rUnlock])

/-- `SetGasPrice(price)`：`pool.priced.Cap` の後、落とした取引を `removeTx(hash, false)`。 -/
def SetGasPrice (drops : List RemovePath) : List PoolOp :=
  .lock :: ((.write .priced :: drops.flatMap (removeTx false) : List PoolAccess).map .acc ++
    [.unlock])

/-- method の列。`Get` と `Has` は `pool.all` だけを読む。 -/
def Call.ops : Call → List PoolOp
  | .AddLocals noLocals news => addTxs news !noLocals
  | .AddRemotes news => addTxs news false
  | .RemoveTx p => Core.RemoveTx p
  | .Pending n => Core.Pending n
  | .Content n m => Core.Content n m
  | .Stats n m => Core.Stats n m
  | .SetGasPrice drops => Core.SetGasPrice drops
  | .Get => []
  | .Has => []
  | .runReorg p => Core.runReorg p

/-- 一つの goroutine が順に呼ぶ method の列。 -/
def goroutine (calls : List Call) : List PoolOp := calls.flatMap Call.ops

/-- goroutine の並びの初めの状態。 -/
def poolInit (gs : List (List Call)) : Conf PoolField := Conf.init (gs.map goroutine)

end Core
