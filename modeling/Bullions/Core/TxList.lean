import Bullions.Lib.GoHeap
import Bullions.Lib.GoMap

/-!
# 一つの account の取引の列（`core/tx_list.go`）

`txSortedMap` は nonce から取引への map `items` に、nonce の heap `index`（`nonceHeap`）と、
nonce の順に並べた取引の cache `cache` を添える。`cache` の `none` は Go の nil の slice。
`txList` はそれに、値段と gas の上限の目安 `costcap`・`gascap` と、nonce を連続に保つかの
`strict` を添える。

取引は `tx_list.go` が読むものだけを持つ：nonce（`uint64`）、値段、gas の上限、送る額。
`Cost()` は `値段 × gas + 額`。`nonceHeap` の値は `Nat` で持つ（どれもある取引の nonce なので
`2^64` 未満）。`m.items[nonce]` は無ければ nil なので、それを積む slice は `Option` の列。

map を回す順は `GoMap` の列の順、`sort.Sort` は nonce の順の `mergeSort`（nonce は重複しない
ので、並べ方によらず結果は一つ）。loop は heap が短くなることで止まる。
-/

namespace Core

/-- 取引のうち `tx_list.go` が読むもの。 -/
structure Transaction where
  AccountNonce : UInt64
  Price : Nat
  GasLimit : Nat
  Amount : Nat
deriving DecidableEq, Repr

/-- `tx.Nonce()` -/
def Transaction.Nonce (tx : Transaction) : Nat := tx.AccountNonce.toNat

/-- `tx.Gas()` -/
def Transaction.Gas (tx : Transaction) : Nat := tx.GasLimit

/-- `tx.GasPrice()` -/
def Transaction.GasPrice (tx : Transaction) : Nat := tx.Price

/-- `tx.Cost()`：`Price * GasLimit + Amount`。 -/
def Transaction.Cost (tx : Transaction) : Nat := tx.Price * tx.GasLimit + tx.Amount

/-- `txSortedMap`。 -/
structure TxSortedMap where
  items : GoMap Nat Transaction
  index : List Nat
  cache : Option (List Transaction)

/-- `newTxSortedMap()` -/
def newTxSortedMap : TxSortedMap := ⟨∅, [], none⟩

namespace TxSortedMap

/-- `Get(nonce)` -/
def Get (m : TxSortedMap) (nonce : Nat) : Option Transaction := m.items.lookup nonce

/-- `Put(tx)`：新しい nonce なら heap に積む。cache は捨てる。 -/
def Put (m : TxSortedMap) (tx : Transaction) : TxSortedMap :=
  let index := if m.items.lookup tx.Nonce = none then GoHeap.push m.index tx.Nonce else m.index
  { items := m.items.insert tx.Nonce tx, index := index, cache := none }

/-- `Forward` の loop：heap の最小が `threshold` より小さい間、pop して map から消す。 -/
def forwardLoop (threshold : Nat) (items : GoMap Nat Transaction) (index : List Nat)
    (removed : List (Option Transaction)) :
    GoMap Nat Transaction × List Nat × List (Option Transaction) :=
  match index with
  | [] => (items, index, removed)
  | top :: rest =>
    if top < threshold then
      forwardLoop threshold (items.erase (GoHeap.pop (top :: rest)).2) (GoHeap.pop (top :: rest)).1
        (removed ++ [items.lookup (GoHeap.pop (top :: rest)).2])
    else (items, index, removed)
termination_by index.length
decreasing_by simp

/-- `Forward(threshold)`：nonce が `threshold` より小さい取引を消して返す。cache は前を削る。 -/
def Forward (m : TxSortedMap) (threshold : Nat) : TxSortedMap × List (Option Transaction) :=
  let r := forwardLoop threshold m.items m.index []
  ({ items := r.1, index := r.2.1, cache := m.cache.map (·.drop r.2.2.length) }, r.2.2)

/-- `filter` の loop：map を回し、`filter` に合う取引を積んで消す。 -/
def filterLoop (filter : Transaction → Bool) :
    List (Sigma fun _ : Nat => Transaction) → GoMap Nat Transaction → List Transaction →
      GoMap Nat Transaction × List Transaction
  | [], items, removed => (items, removed)
  | ⟨nonce, tx⟩ :: rest, items, removed =>
    if filter tx then filterLoop filter rest (items.erase nonce) (removed ++ [tx])
    else filterLoop filter rest items removed

/-- `filter(filter)`：heap は直さない。何か消えたら cache を捨てる。 -/
def filter (m : TxSortedMap) (f : Transaction → Bool) : TxSortedMap × List Transaction :=
  let r := filterLoop f m.items.entries m.items []
  ({ items := r.1, index := m.index, cache := if r.2 = [] then m.cache else none }, r.2)

/-- `reheap()`：map の nonce を集め直して `heap.Init`。 -/
def reheap (m : TxSortedMap) : TxSortedMap :=
  { items := m.items, index := GoHeap.init m.items.keys, cache := none }

/-- `Filter(filter)`：何か消えたら heap を作り直す。 -/
def Filter (m : TxSortedMap) (f : Transaction → Bool) : TxSortedMap × List Transaction :=
  let r := m.filter f
  (if r.2 = [] then r.1 else r.1.reheap, r.2)

/-- `Cap` の loop：並べた nonce の `size - 1` 番目を落とし、`size` を一つ減らす。 -/
def capLoop (sorted : List Nat) (threshold : Nat) :
    Nat → GoMap Nat Transaction → List (Option Transaction) →
      GoMap Nat Transaction × List (Option Transaction)
  | 0, items, drops => (items, drops)
  | size + 1, items, drops =>
    if size + 1 > threshold then
      capLoop sorted threshold size (items.erase (sorted.getD size 0))
        (drops ++ [items.lookup (sorted.getD size 0)])
    else (items, drops)

/-- `Cap(threshold)`：数が `threshold` を超えれば、nonce の大きい方から落とす。`sort.Sort` で
heap を並べ、落とした後の先頭 `threshold` 個で `heap.Init`。cache は後ろを削る。 -/
def Cap (m : TxSortedMap) (threshold : Nat) : TxSortedMap × List (Option Transaction) :=
  if m.items.keys.length ≤ threshold then (m, [])
  else
    let sorted := m.index.mergeSort (· ≤ ·)
    let r := capLoop sorted threshold m.items.keys.length m.items []
    ({ items := r.1, index := GoHeap.init (sorted.take threshold),
       cache := m.cache.map fun c => c.take (c.length - r.2.length) }, r.2)

/-- `Remove(nonce)`：heap を頭から探して `heap.Remove`。 -/
def Remove (m : TxSortedMap) (nonce : Nat) : TxSortedMap × Bool :=
  if m.items.lookup nonce = none then (m, false)
  else
    let index := match m.index.findIdx? (· == nonce) with
      | some i => (GoHeap.remove m.index i).1
      | none => m.index
    ({ items := m.items.erase nonce, index := index, cache := none }, true)

/-- `Ready` の loop：heap の最小が `next` である間、積んで消し、`next` を進める。 -/
def readyLoop (next : Nat) (items : GoMap Nat Transaction) (index : List Nat)
    (ready : List (Option Transaction)) :
    GoMap Nat Transaction × List Nat × List (Option Transaction) :=
  match index with
  | [] => (items, index, ready)
  | top :: rest =>
    if top = next then
      readyLoop (next + 1) (items.erase next) (GoHeap.pop (top :: rest)).1
        (ready ++ [items.lookup next])
    else (items, index, ready)
termination_by index.length
decreasing_by simp

/-- `Ready(start)`：最小の nonce が `start` 以下なら、そこから連続する取引を消して返す。 -/
def Ready (m : TxSortedMap) (start : Nat) : TxSortedMap × List (Option Transaction) :=
  match m.index with
  | [] => (m, [])
  | top :: _ =>
    if top > start then (m, [])
    else
      let r := readyLoop top m.items m.index []
      ({ items := r.1, index := r.2.1, cache := none }, r.2.2)

/-- `Len()` -/
def Len (m : TxSortedMap) : Nat := m.items.keys.length

/-- `flatten()`：cache が無ければ map の取引を nonce の順に並べて持つ。 -/
def flatten (m : TxSortedMap) : TxSortedMap × List Transaction :=
  match m.cache with
  | some c => (m, c)
  | none =>
    let c := (m.items.entries.map (·.2)).mergeSort fun a b => a.Nonce ≤ b.Nonce
    ({ m with cache := some c }, c)

/-- `Flatten()`：cache の写し。 -/
def Flatten (m : TxSortedMap) : TxSortedMap × List Transaction := m.flatten

/-- `LastElement()`：空なら Go は範囲の外を読んで panic する。 -/
def LastElement (m : TxSortedMap) : TxSortedMap × Option Transaction :=
  (m.flatten.1, m.flatten.2.getLast?)

end TxSortedMap

/-- `txSortedMap` の呼び出し。`filter` の後は `reheap` を呼ぶ（`txList.Filter` の strict の
場合）。cache に取引を並べて持つのは `Flatten`。 -/
inductive SortedMapCall where
  | Put (tx : Transaction)
  | Forward (threshold : Nat)
  | Filter (filter : Transaction → Bool)
  | filterReheap (filter : Transaction → Bool)
  | Cap (threshold : Nat)
  | Remove (nonce : Nat)
  | Ready (start : Nat)
  | Flatten

/-- 呼び出しの後の `txSortedMap`。 -/
def SortedMapCall.apply : SortedMapCall → TxSortedMap → TxSortedMap
  | .Put tx, m => m.Put tx
  | .Forward threshold, m => (m.Forward threshold).1
  | .Filter f, m => (m.Filter f).1
  | .filterReheap f, m => (m.filter f).1.reheap
  | .Cap threshold, m => (m.Cap threshold).1
  | .Remove nonce, m => (m.Remove nonce).1
  | .Ready start, m => (m.Ready start).1
  | .Flatten, m => m.Flatten.1

/-- 呼び出しを順に行った後の `txSortedMap`。 -/
def TxSortedMap.applyAll (m : TxSortedMap) (calls : List SortedMapCall) : TxSortedMap :=
  calls.foldl (fun m k => k.apply m) m

/-- `txList`。 -/
structure TxList where
  strict : Bool
  txs : TxSortedMap
  costcap : Nat
  gascap : Nat

/-- `newTxList(strict)` -/
def newTxList (strict : Bool) : TxList := ⟨strict, newTxSortedMap, 0, 0⟩

namespace TxList

/-- `Overlaps(tx)` -/
def Overlaps (l : TxList) (tx : Transaction) : Bool := (l.txs.Get tx.Nonce).isSome

/-- `Add(tx, priceBump)`：同じ nonce の取引があれば、値段が `priceBump` % 以上上がるときだけ
入れ替える。入れたら上限の目安を上げる。 -/
def Add (l : TxList) (tx : Transaction) (priceBump : Nat) :
    TxList × Bool × Option Transaction :=
  let old := l.txs.Get tx.Nonce
  let rejected : Bool := match old with
    | some o => decide (o.GasPrice ≥ tx.GasPrice) ||
        decide (tx.GasPrice < (100 + priceBump) * o.GasPrice / 100)
    | none => false
  if rejected then (l, false, none)
  else
    ({ l with txs := l.txs.Put tx, costcap := max l.costcap tx.Cost,
              gascap := max l.gascap tx.Gas }, true, old)

/-- `Forward(threshold)` -/
def Forward (l : TxList) (threshold : Nat) : TxList × List (Option Transaction) :=
  ({ l with txs := (l.txs.Forward threshold).1 }, (l.txs.Forward threshold).2)

/-- `Filter(costLimit, gasLimit)`：上限の目安が両方とも限度の内なら何もしない。そうでなければ
目安を限度に下げ、限度を超える取引を消す。strict なら、消えた中で最小の nonce より後ろも
消す。 -/
def Filter (l : TxList) (costLimit gasLimit : Nat) :
    TxList × List Transaction × List Transaction :=
  if l.costcap ≤ costLimit ∧ l.gascap ≤ gasLimit then (l, [], [])
  else
    let r := l.txs.Filter fun tx => decide (tx.Gas > gasLimit) || decide (tx.Cost > costLimit)
    let l1 := { l with costcap := costLimit, gascap := gasLimit, txs := r.1 }
    if r.2 = [] then (l1, [], [])
    else if l.strict then
      let lowest := r.2.foldl (fun lo tx => if lo > tx.Nonce then tx.Nonce else lo) (2 ^ 64 - 1)
      let r' := r.1.filter fun tx => decide (tx.Nonce > lowest)
      ({ l1 with txs := r'.1.reheap }, r.2, r'.2)
    else ({ l1 with txs := r.1.reheap }, r.2, [])

/-- `Cap(threshold)` -/
def Cap (l : TxList) (threshold : Nat) : TxList × List (Option Transaction) :=
  ({ l with txs := (l.txs.Cap threshold).1 }, (l.txs.Cap threshold).2)

/-- `Remove(tx)`：strict なら、消した nonce より後ろも消して返す。 -/
def Remove (l : TxList) (tx : Transaction) : TxList × Bool × List Transaction :=
  let r := l.txs.Remove tx.Nonce
  if ¬ r.2 then (l, false, [])
  else if l.strict then
    let r' := r.1.Filter fun t => decide (t.Nonce > tx.Nonce)
    ({ l with txs := r'.1 }, true, r'.2)
  else ({ l with txs := r.1 }, true, [])

/-- `Ready(start)` -/
def Ready (l : TxList) (start : Nat) : TxList × List (Option Transaction) :=
  ({ l with txs := (l.txs.Ready start).1 }, (l.txs.Ready start).2)

/-- `Len()` -/
def Len (l : TxList) : Nat := l.txs.Len

/-- `Empty()` -/
def Empty (l : TxList) : Bool := l.Len = 0

/-- `Flatten()` -/
def Flatten (l : TxList) : TxList × List Transaction :=
  ({ l with txs := l.txs.Flatten.1 }, l.txs.Flatten.2)

end TxList

/-- `txList` の呼び出し。 -/
inductive TxListCall where
  | Add (tx : Transaction) (priceBump : Nat)
  | Forward (threshold : Nat)
  | Filter (costLimit gasLimit : Nat)
  | Cap (threshold : Nat)
  | Remove (tx : Transaction)
  | Ready (start : Nat)
  | Flatten

/-- 呼び出しの後の `txList`。 -/
def TxListCall.apply : TxListCall → TxList → TxList
  | .Add tx priceBump, l => (l.Add tx priceBump).1
  | .Forward threshold, l => (l.Forward threshold).1
  | .Filter costLimit gasLimit, l => (l.Filter costLimit gasLimit).1
  | .Cap threshold, l => (l.Cap threshold).1
  | .Remove tx, l => (l.Remove tx).1
  | .Ready start, l => (l.Ready start).1
  | .Flatten, l => l.Flatten.1

/-- 呼び出しを順に行った後の `txList`。 -/
def TxList.applyAll (l : TxList) (calls : List TxListCall) : TxList :=
  calls.foldl (fun l k => k.apply l) l

end Core
