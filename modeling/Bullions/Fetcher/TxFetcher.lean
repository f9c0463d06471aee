import Bullions.Lib.GoMap

/-!
# 取引の hash を集める fetcher（`eth/fetcher/tx_fetcher.go`）

`TxFetcher.loop` は一つの goroutine で、知らせ（`notify`）、待ち時間の切れ（`waitTrigger`）、
要求の時間切れ（`timeoutTrigger`）、取引の到着（`cleanup`）、peer の切断（`drop`）を一つずつ
処理する。hash は三つの段を通る：

1. `waitlist`／`waittime`／`waitslots`：知らされたばかりで、broadcast で届くのを待つ
2. `announced`／`announces`：待ち時間が切れ、どこかの peer に要求されるのを待つ
3. `fetching`／`requests`／`alternates`：ある peer に要求している

ここでは loop の一回を、処理した時刻 `now`（ns）と出来事を受けて新しい状態を返す関数
`loop` で表す。`panic` は `.error` で、その文言を返す。timer と metrics と、goroutine で
走る `fetchTxs` は状態を変えないので持たない。`fetchTxs` の失敗は後の `drop` として届く。

Go の map の `range` の順は決まっていないので、`GoMap` の列の順をその一つとして使う。
-/

namespace Fetcher

/-- `maxTxAnnounces`：一つの peer が短い間に知らせてよい取引の数。 -/
def maxTxAnnounces : Nat := 4096

/-- `maxTxRetrievals`：一つの要求で取りに行く取引の数。 -/
def maxTxRetrievals : Nat := 256

/-- `txArriveTimeout`：500 ms。 -/
def txArriveTimeout : Nat := 500000000

/-- `txGatherSlack`：100 ms。 -/
def txGatherSlack : Nat := 100000000

/-- `txFetchTimeout`：5 s。 -/
def txFetchTimeout : Nat := 5000000000

/-- `txRequest`：ある peer への要求。 -/
structure txRequest (Hash : Type) where
  hashes : List Hash
  /-- ほかから届いた hash（もう要求し直さない）。 -/
  stolen : GoSet Hash
  time : Nat
  deriving DecidableEq

/-- `TxFetcher` の loop の状態。 -/
structure TxFetcher (Peer Hash : Type) where
  waitlist : GoMap Hash (GoSet Peer)
  waittime : GoMap Hash Nat
  waitslots : GoMap Peer (GoSet Hash)
  announces : GoMap Peer (GoSet Hash)
  announced : GoMap Hash (GoSet Peer)
  fetching : GoMap Hash Peer
  requests : GoMap Peer (txRequest Hash)
  alternates : GoMap Hash (GoSet Peer)

/-- loop が受ける出来事。 -/
inductive TxEvent (Peer Hash : Type) where
  | notify (origin : Peer) (hashes : List Hash)
  | waitTrigger
  | timeoutTrigger
  | cleanup (origin : Peer) (hashes : List Hash) (direct : Bool)
  | drop (peer : Peer)

variable {Peer Hash : Type} [DecidableEq Peer] [DecidableEq Hash]

/-- `NewTxFetcher`：どの map も空。 -/
def NewTxFetcher : TxFetcher Peer Hash := ⟨∅, ∅, ∅, ∅, ∅, ∅, ∅, ∅⟩

/-! ## `scheduleFetches` -/

/-- `scheduleFetches` の `forEachHash`：`announces[peer]` の hash を順に見て、まだ取りに
行っていないものを `peer` に割り当て、`maxTxRetrievals` 個で止まる。 -/
def allocateHashes (peer : Peer) :
    List Hash → List Hash → TxFetcher Peer Hash → Except String (TxFetcher Peer Hash × List Hash)
  | [], hashes, f => .ok (f, hashes)
  | hash :: rest, hashes, f =>
    if (f.fetching.lookup hash).isNone then
      let f := { f with fetching := f.fetching.insert hash peer }
      if (f.alternates.lookup hash).isSome then
        .error "alternate tracker already contains fetching item"
      else
        -- 要求が失敗したときの取り先を残す
        let f := { f with alternates := f.alternates.insert hash (f.announced.get hash),
                          announced := f.announced.erase hash }
        let hashes := hashes ++ [hash]
        if hashes.length ≥ maxTxRetrievals then .ok (f, hashes)
        else allocateHashes peer rest hashes f
    else allocateHashes peer rest hashes f

/-- `scheduleFetches` の `forEachPeer` の本体：要求の無い peer に取りに行く。 -/
def schedulePeer (now : Nat) (f : TxFetcher Peer Hash) (peer : Peer) :
    Except String (TxFetcher Peer Hash) :=
  if (f.requests.lookup peer).isSome then .ok f
  else if (f.announces.get peer).len = 0 then .ok f
  else do
    let (f, hashes) ← allocateHashes peer (f.announces.get peer).toList [] f
    if hashes.length > 0 then .ok { f with requests := f.requests.insert peer ⟨hashes, none, now⟩ }
    else .ok f

/-- `scheduleFetches`：`whitelist` が nil なら `announces` のすべての peer。 -/
def scheduleFetches (now : Nat) (whitelist : Option (List Peer)) (f : TxFetcher Peer Hash) :
    Except String (TxFetcher Peer Hash) :=
  let actives := whitelist.getD f.announces.keys
  if actives.length = 0 then .ok f
  else actives.foldlM (schedulePeer now) f

/-! ## 知らせ -/

/-- `notify` の loop の本体：hash を、それがいる段で `origin` に結び付ける。どこにも無ければ
待ち行列に入れる。 -/
def announceHash (origin : Peer) (now : Nat) (f : TxFetcher Peer Hash) (hash : Hash) :
    TxFetcher Peer Hash :=
  -- 取りに行っている最中なら、失敗したときの取り先に足す
  if (f.alternates.get hash).isSome then
    { f with alternates := f.alternates.addTo hash origin,
             announces := f.announces.addTo origin hash }
  else if (f.announced.get hash).isSome then
    { f with announced := f.announced.addTo hash origin,
             announces := f.announces.addTo origin hash }
  else if (f.waitlist.get hash).isSome then
    { f with waitlist := f.waitlist.addTo hash origin,
             waitslots := f.waitslots.addTo origin hash }
  else
    { f with waitlist := f.waitlist.insert hash (some [origin]),
             waittime := f.waittime.insert hash now,
             waitslots := f.waitslots.addTo origin hash }

/-- loop の `notify` の場合。知らせが多すぎれば一部を捨てる。 -/
def notify (origin : Peer) (hashes : List Hash) (now : Nat) (f : TxFetcher Peer Hash) :
    Except String (TxFetcher Peer Hash) :=
  let used := (f.waitslots.get origin).len + (f.announces.get origin).len
  if used ≥ maxTxAnnounces then .ok f
  else
    let want := used + hashes.length
    let hashes := if want > maxTxAnnounces then hashes.take (want - maxTxAnnounces) else hashes
    let oldPeer := (f.announces.lookup origin).isSome
    let f := hashes.foldl (announceHash origin now) f
    -- 新しい peer がすでに列にある hash を知らせたなら、取りに行く
    if !oldPeer && (f.announces.get origin).len > 0 then scheduleFetches now (some [origin]) f
    else .ok f

/-! ## 待ち時間の切れ -/

/-- `waitTrigger` の loop の本体：待ち時間の切れた hash を、要求を待つ列に移す。 -/
def expireWait (f : TxFetcher Peer Hash) (actives : List Peer) (hash : Hash) :
    Except String (TxFetcher Peer Hash × List Peer) :=
  if (f.announced.get hash).isSome then .error "announce tracker already contains waitlist item"
  else
    let peers := (f.waitlist.get hash).toList
    let f := { f with announced := f.announced.insert hash (f.waitlist.get hash) }
    let f := peers.foldl (fun f peer =>
      { f with announces := f.announces.addTo peer hash,
               waitslots := f.waitslots.deletePrune peer hash }) f
    let actives := peers.foldl (fun a p => if p ∈ a then a else a ++ [p]) actives
    .ok ({ f with waittime := f.waittime.erase hash, waitlist := f.waitlist.erase hash }, actives)

/-- loop の `waitTrigger` の場合。 -/
def waitTrigger (now : Nat) (f : TxFetcher Peer Hash) : Except String (TxFetcher Peer Hash) := do
  let (f, actives) ← f.waittime.entries.foldlM (fun (fa : TxFetcher Peer Hash × List Peer) e =>
    if now - e.2 + txGatherSlack > txArriveTimeout then expireWait fa.1 fa.2 e.1
    else .ok fa) (f, [])
  if actives.length > 0 then scheduleFetches now (some actives) f else .ok f

/-! ## 要求の時間切れ -/

/-- `timeoutTrigger` の loop の本体：時間切れの要求の hash を、要求を待つ列に戻す。 -/
def rescheduleTimedOut (peer : Peer) (stolen : GoSet Hash) (f : TxFetcher Peer Hash)
    (hash : Hash) : Except String (TxFetcher Peer Hash) :=
  -- ほかから届いた hash は戻さない
  if stolen.mem hash then .ok f
  else if (f.announced.lookup hash).isSome then
    .error "announced tracker already contains alternate item"
  else
    let announced := match f.alternates.get hash with
      | some alts => f.announced.insert hash (some alts)
      | none => f.announced
    .ok { f with announced := GoMap.deletePrune announced hash peer,
                 announces := f.announces.deleteFrom peer hash,
                 alternates := f.alternates.erase hash,
                 fetching := f.fetching.erase hash }

/-- `timeoutTrigger` の要求ごとの本体。時間切れの要求は残すが、hash は空にする。 -/
def timeoutRequest (now : Nat) (f : TxFetcher Peer Hash) (peer : Peer) (req : txRequest Hash) :
    Except String (TxFetcher Peer Hash) :=
  if now - req.time + txGatherSlack > txFetchTimeout then do
    let f ← req.hashes.foldlM (rescheduleTimedOut peer req.stolen) f
    let f := if (f.announces.get peer).len = 0 then { f with announces := f.announces.erase peer }
      else f
    .ok { f with requests := f.requests.replace peer { req with hashes := [] } }
  else .ok f

/-- loop の `timeoutTrigger` の場合。 -/
def timeoutTrigger (now : Nat) (f : TxFetcher Peer Hash) : Except String (TxFetcher Peer Hash) := do
  let f ← f.requests.entries.foldlM (fun f e => timeoutRequest now f e.1 e.2) f
  scheduleFetches now none f

/-! ## 取引の到着 -/

/-- `cleanup` の loop の本体：届いた hash をどの段からも消す。別の peer への要求で取りに
行っていたなら、その要求に stolen と記す。 -/
def cleanupHash (origin : Peer) (direct : Bool) (f : TxFetcher Peer Hash) (hash : Hash) :
    Except String (TxFetcher Peer Hash) :=
  if (f.waitlist.lookup hash).isSome then
    let waitslots := f.waitslots.keys.foldl (fun m peer => GoMap.deletePrune m peer hash) f.waitslots
    .ok { f with waitslots := waitslots, waitlist := f.waitlist.erase hash,
                 waittime := f.waittime.erase hash }
  else
    let announces := f.announces.keys.foldl (fun m peer => GoMap.deletePrune m peer hash) f.announces
    let f := { f with announces := announces, announced := f.announced.erase hash,
                      alternates := f.alternates.erase hash }
    match f.fetching.lookup hash with
    | some o =>
      if o ≠ origin ∨ direct = false then
        match f.requests.lookup o with
        | none => .error "invalid memory address or nil pointer dereference"
        | some req =>
          let stolen := (req.stolen.getD []).insert hash
          .ok { f with requests := f.requests.replace o { req with stolen := some stolen },
                       fetching := f.fetching.erase hash }
      else .ok { f with fetching := f.fetching.erase hash }
    | none => .ok { f with fetching := f.fetching.erase hash }

/-- 要求の中で最後に届いた hash の位置。一つも届いていなければ要求の長さ。 -/
def cutoffOf (delivered hashes : List Hash) : Nat :=
  hashes.zipIdx.foldl (fun c e => if e.1 ∈ delivered then e.2 else c) hashes.length

/-- 直接の返事の後、届かなかった hash を要求を待つ列に戻す。`cutoff` より前の hash は、
この peer が持っていないとみて取り先から外す。 -/
def rescheduleUndelivered (origin : Peer) (req : txRequest Hash) (delivered : List Hash)
    (cutoff : Nat) (f : TxFetcher Peer Hash) (e : Hash × Nat) :
    Except String (TxFetcher Peer Hash) :=
  let hash := e.1
  if req.stolen.mem hash then .ok f
  else do
    let f ← if hash ∉ delivered then do
        let f := if e.2 < cutoff then
            { f with alternates := f.alternates.deleteFrom hash origin,
                     announces := f.announces.deletePrune origin hash }
          else f
        if (f.alternates.get hash).len > 0 then
          if (f.announced.lookup hash).isSome then
            .error "announced tracker already contains alternate item"
          else .ok { f with announced := f.announced.insert hash (f.alternates.get hash) }
        else .ok f
      else .ok f
    .ok { f with alternates := f.alternates.erase hash, fetching := f.fetching.erase hash }

/-- loop の `cleanup` の場合。 -/
def cleanup (origin : Peer) (hashes : List Hash) (direct : Bool) (now : Nat)
    (f : TxFetcher Peer Hash) : Except String (TxFetcher Peer Hash) := do
  let f ← hashes.foldlM (cleanupHash origin direct) f
  if direct then
    match f.requests.lookup origin with
    | none => .ok f
    | some req =>
      let f := { f with requests := f.requests.erase origin }
      let cutoff := cutoffOf hashes req.hashes
      let f ← req.hashes.zipIdx.foldlM (rescheduleUndelivered origin req hashes cutoff) f
      scheduleFetches now none f
  else .ok f

/-! ## peer の切断 -/

/-- `drop` の、待ち行列からの片付け。 -/
def dropWaiting (peer : Peer) (f : TxFetcher Peer Hash) : TxFetcher Peer Hash :=
  if (f.waitslots.lookup peer).isSome then
    let f := (f.waitslots.get peer).toList.foldl (fun f hash =>
      let waitlist := f.waitlist.deleteFrom hash peer
      if (GoMap.get waitlist hash).len = 0 then
        { f with waitlist := waitlist.erase hash, waittime := f.waittime.erase hash }
      else { f with waitlist := waitlist }) f
    { f with waitslots := f.waitslots.erase peer }
  else f

/-- `drop` の、要求の片付け：届いていない hash は、ほかの取り先があれば列に戻す。 -/
def dropRequest (peer : Peer) (req : txRequest Hash) (f : TxFetcher Peer Hash) :
    TxFetcher Peer Hash :=
  let f := req.hashes.foldl (fun f hash =>
    if req.stolen.mem hash then f
    else
      let alternates := f.alternates.deleteFrom hash peer
      let f := if (GoMap.get alternates hash).len = 0 then { f with alternates := alternates.erase hash }
        else { f with announced := f.announced.insert hash (GoMap.get alternates hash),
                      alternates := alternates.erase hash }
      { f with fetching := f.fetching.erase hash }) f
  { f with requests := f.requests.erase peer }

/-- `drop` の、知らせの片付け。 -/
def dropAnnounces (peer : Peer) (f : TxFetcher Peer Hash) : TxFetcher Peer Hash :=
  if (f.announces.lookup peer).isSome then
    let announced := (f.announces.get peer).toList.foldl (fun m hash => GoMap.deletePrune m hash peer)
      f.announced
    { f with announced := announced, announces := f.announces.erase peer }
  else f

/-- loop の `drop` の場合。 -/
def drop (peer : Peer) (now : Nat) (f : TxFetcher Peer Hash) : Except String (TxFetcher Peer Hash) :=
  let f := dropWaiting peer f
  let request := f.requests.lookup peer
  let f := match request with
    | some req => dropRequest peer req f
    | none => f
  let f := dropAnnounces peer f
  -- 要求を取り消したなら、ほかの peer に取りに行く
  if request.isSome then scheduleFetches now none f else .ok f

/-! ## loop -/

/-- `TxFetcher.loop` の一回：時刻 `now` に出来事を一つ処理する。 -/
def loop (f : TxFetcher Peer Hash) (now : Nat) : TxEvent Peer Hash → Except String (TxFetcher Peer Hash)
  | .notify origin hashes => notify origin hashes now f
  | .waitTrigger => waitTrigger now f
  | .timeoutTrigger => timeoutTrigger now f
  | .cleanup origin hashes direct => cleanup origin hashes direct now f
  | .drop peer => drop peer now f

/-- 時刻つきの出来事の列を順に処理する。 -/
def run (f : TxFetcher Peer Hash) (evs : List (Nat × TxEvent Peer Hash)) :
    Except String (TxFetcher Peer Hash) :=
  evs.foldlM (fun f e => loop f e.1 e.2) f

end Fetcher
