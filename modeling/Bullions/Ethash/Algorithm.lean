import Bullions.Lib.Endian

/-!
# Ethash の dataset と hashimoto（`consensus/ethash/algorithm.go`）

dataset は cache から 64 byte の item を一つずつ作って並べたもの（`generateDatasetItem`）。
`hashimoto` は header の hash と nonce から seed を作り、dataset の item を 128 回読んで
mix に混ぜる。`hashimotoLight` は読むたびに item を cache から作り直し、`hashimotoFull` は
`generateDataset` が埋めた dataset を読む。

Keccak-512 と Keccak-256 は抽象的な関数とする。Keccak-512 は 64 byte を書く `Hasher` で、
`makeHasher` の関数も `crypto.Keccak512` もこれで表す。

`generateDataset` は `[]uint32` の dataset を `unsafe` で byte の列として見て書く。ここでは
その byte の列を番地から byte への関数で表し、語は機械の byte の順（`ByteOrder`）で読み書き
する。goroutine はそれぞれ別の item を書くので、順に走らせる。進み具合の log は持たないが、
`status%percent` の 0 での割り算の panic は持つ。panic は `none` で表す。
-/

namespace Ethash

open Endian

/-- `hashBytes`：hash の byte 数。 -/
def hashBytes : Nat := 64

/-- `hashWords`：hash の `uint32` の語の数。 -/
def hashWords : Nat := 16

/-- `mixBytes`：mix の byte 数。 -/
def mixBytes : Nat := 128

/-- `datasetParents`：dataset の item 一つが混ぜる cache の item の数。 -/
def datasetParents : Nat := 256

/-- `loopAccesses`：hashimoto の loop の回数。 -/
def loopAccesses : Nat := 64

/-- `hasher`：`dest` に `data` の 64 byte の hash を書く関数。 -/
abbrev Hasher := List UInt8 → Fin 64 → UInt8

/-- `keccak512(dest, data)` が `dest` に書く 64 byte。 -/
def Hasher.sum (keccak512 : Hasher) (data : List UInt8) : List UInt8 := List.ofFn (keccak512 data)

/-- 機械の byte の順。`isLittleEndian()` がどちらかを決める。 -/
inductive ByteOrder where
  | little
  | big
  deriving DecidableEq, Repr

/-- 機械の順で `uint32` を 4 byte に書く。 -/
def ByteOrder.putUint32 : ByteOrder → UInt32 → List UInt8
  | .little => putUint32LE
  | .big => putUint32BE

/-- 機械の順で 4 byte を `uint32` として読む。 -/
def ByteOrder.uint32 : ByteOrder → List UInt8 → UInt32
  | .little => uint32LE
  | .big => uint32BE

/-- `copy(dst[off:], src)`：写すのは `dst[off:]` と `src` の短い方の長さだけ。 -/
def copyAt {α : Type} (dst : List α) (off : Nat) (src : List α) : List α :=
  dst.take off ++ src.take (dst.length - off) ++ dst.drop (off + src.length)

/-- `swap`：4 byte ごとに、little-endian で読んで big-endian で書き直す。4 byte に満たない
端が残ると、`binary.LittleEndian.Uint32` が panic する。 -/
def swap : List UInt8 → Option (List UInt8)
  | [] => some []
  | a :: b :: c :: d :: rest => (putUint32BE (uint32LE [a, b, c, d]) ++ ·) <$> swap rest
  | _ => none

/-- `fnv(a, b)`。 -/
def fnv (a b : UInt32) : UInt32 := a * 0x01000193 ^^^ b

/-- `fnvHash(mix, data)`：`mix` の各語に `data` の同じ位置の語を混ぜる。 -/
def fnvHash (mix data : List UInt32) : List UInt32 :=
  mix.mapIdx fun i m => m * 0x01000193 ^^^ data.getD i 0

/-- `generateDatasetItem(cache, index, keccak512)`：cache の 256 個の item を混ぜて dataset の
item を一つ作る。 -/
def generateDatasetItem (cache : List UInt32) (index : UInt32) (keccak512 : Hasher) :
    Option (List UInt8) :=
  let rows : UInt32 := (cache.length / hashWords).toUInt32
  -- `index % rows` は 0 で割ると panic する
  if rows = 0 then none
  else
    let row := (index % rows) * hashWords.toUInt32
    let mix := putUint32LE (cache.getD row.toNat 0 ^^^ index) ++
      (List.range' 1 (hashWords - 1)).flatMap fun i =>
        putUint32LE (cache.getD (row + i.toUInt32).toNat 0)
    let mix := keccak512.sum mix
    let intMix := (List.range hashWords).map fun i => uint32LE (mix.drop (i * 4))
    let intMix := (List.range datasetParents).foldl (fun intMix i =>
        let parent := fnv (index ^^^ i.toUInt32) (intMix.getD (i % 16) 0) % rows
        fnvHash intMix (cache.drop (parent * hashWords.toUInt32).toNat)) intMix
    some (keccak512.sum (intMix.flatMap putUint32LE))

/-! ## dataset -/

/-- `dest` を byte の列として見たもの：番地 `a` は、語 `a / 4` を機械の順に書いた `a % 4` 番目
の byte。 -/
def byteView (order : ByteOrder) (dest : List UInt32) : Nat → UInt8 :=
  fun a => (order.putUint32 (dest.getD (a / 4) 0)).getD (a % 4) 0

/-- byte の列を `n` 語の `[]uint32` として読む。 -/
def wordView (order : ByteOrder) (n : Nat) (dataset : Nat → UInt8) : List UInt32 :=
  (List.range n).map fun k =>
    order.uint32 [dataset (4 * k), dataset (4 * k + 1), dataset (4 * k + 2), dataset (4 * k + 3)]

/-- `copy(dataset[off:], src)`：長さ `size` の byte の列の番地 `off` から `src` を写す。 -/
def copyBytes (dataset : Nat → UInt8) (size off : Nat) (src : List UInt8) : Nat → UInt8 :=
  fun a => if off ≤ a ∧ a < size ∧ a - off < src.length then src.getD (a - off) 0 else dataset a

/-- 一つの goroutine の loop：受け持ちの `index` ごとに item を作り、機械の順に直して写す。
`index < size / hashBytes` なので、`index * hashBytes` は `uint64` で回り込まない。 -/
def datasetLoop (keccak512 : Hasher) (swapped : Bool) (cache : List UInt32) (size : Nat)
    (percent : UInt32) : List Nat → (Nat → UInt8) → Option (Nat → UInt8)
  | [], dataset => some dataset
  | index :: rest, dataset => do
    let item ← generateDatasetItem cache index.toUInt32 keccak512
    let item ← if swapped then swap item else pure item
    let dataset := copyBytes dataset size (index * hashBytes) item
    -- `status%percent` は 0 で割ると panic する
    if percent = 0 then none
    else datasetLoop keccak512 swapped cache size percent rest dataset

/-- goroutine `id` が受け持つ `index` の列：`first` から `limit` の手前まで。 -/
def threadIndices (size : UInt64) (threads id : Nat) : List Nat :=
  let batch := (size + hashBytes.toUInt64 * threads.toUInt64 - 1) /
    (hashBytes.toUInt64 * threads.toUInt64)
  let first := id.toUInt64 * batch
  let limit := first + batch
  let limit := if limit > size / hashBytes.toUInt64 then size / hashBytes.toUInt64 else limit
  List.range' first.toNat (limit.toNat - first.toNat)

/-- `generateDataset(dest, epoch, epochLength, cache)`：`threads` は `runtime.NumCPU()`。 -/
def generateDataset (keccak512 : Hasher) (order : ByteOrder) (threads : Nat)
    (dest cache : List UInt32) : Option (List UInt32) :=
  let swapped := order != .little
  let size : UInt64 := (dest.length * 4).toUInt64
  let percent : UInt32 := (size / hashBytes.toUInt64 / 100).toUInt32
  -- `batch` の割り算は、`hashBytes*uint64(threads)` が 0 なら panic する
  if 0 < threads ∧ hashBytes.toUInt64 * threads.toUInt64 = 0 then none
  else
    let dataset := (List.range threads).foldlM (fun dataset id =>
        datasetLoop keccak512 swapped cache (dest.length * 4) percent
          (threadIndices size threads id) dataset) (byteView order dest)
    (wordView order dest.length) <$> dataset

/-! ## hashimoto -/

/-- hashimoto の loop の一回：mix から親を決め、dataset の二つの item を `temp` に写して
mix に混ぜる。`temp` は回をまたいで使い回す。 -/
def hashimotoLoop (rows seedHead : UInt32) (lookup : UInt32 → Option (List UInt32)) :
    List Nat → List UInt32 → List UInt32 → Option (List UInt32)
  | [], mix, _ => some mix
  | i :: rest, mix, temp =>
    -- `% rows` は 0 で割ると panic する
    if rows = 0 then none
    else do
      let parent := fnv (i.toUInt32 ^^^ seedHead) (mix.getD (i % mix.length) 0) % rows
      let temp ← (List.range (mixBytes / hashBytes)).foldlM (fun temp j => do
          let data ← lookup (2 * parent + j.toUInt32)
          pure (copyAt temp (j * hashWords) data)) temp
      hashimotoLoop rows seedHead lookup rest (fnvHash mix temp) temp

/-- `hashimoto(hash, nonce, size, lookup)`：`(digest, result)`。 -/
def hashimoto (keccak512 : Hasher) (keccak256 : List UInt8 → List UInt8) (hash : List UInt8)
    (nonce : UInt64) (size : UInt64) (lookup : UInt32 → Option (List UInt32)) :
    Option (List UInt8 × List UInt8) := do
  let rows : UInt32 := (size / mixBytes.toUInt64).toUInt32
  -- header の hash と nonce の 40 byte の seed
  let seed := copyAt (copyAt (List.replicate 40 0) 0 hash) 32 (putUint64LE nonce)
  let seed := keccak512.sum seed
  let seedHead := uint32LE seed
  let mix := (List.range (mixBytes / 4)).map fun i => uint32LE (seed.drop (i % 16 * 4))
  let temp : List UInt32 := List.replicate mix.length 0
  let mix ← hashimotoLoop rows seedHead lookup (List.range loopAccesses) mix temp
  -- 四語ずつ縮める。`mix[i/4]` に書く位置は読み終えているので、その場で書いてよい
  let mix := (List.range (mix.length / 4)).map fun k =>
    fnv (fnv (fnv (mix.getD (4 * k) 0) (mix.getD (4 * k + 1) 0)) (mix.getD (4 * k + 2) 0))
      (mix.getD (4 * k + 3) 0)
  let digest := mix.flatMap putUint32LE
  pure (digest, keccak256 (seed ++ digest))

/-- `hashimotoLight` の `lookup` が item の byte を語に直す：`data[i] = Uint32(rawData[i*4:])`。 -/
def itemWords (rawData : List UInt8) : List UInt32 :=
  (List.range (rawData.length / 4)).map fun i => uint32LE (rawData.drop (i * 4))

/-- `hashimotoLight` の `lookup`：item を cache から作って語に直す。 -/
def lightLookup (keccak512 : Hasher) (cache : List UInt32) (index : UInt32) :
    Option (List UInt32) :=
  itemWords <$> generateDatasetItem cache index keccak512

/-- `hashimotoLight(size, cache, hash, nonce)`：item を読むたびに cache から作る。 -/
def hashimotoLight (keccak512 : Hasher) (keccak256 : List UInt8 → List UInt8) (size : UInt64)
    (cache : List UInt32) (hash : List UInt8) (nonce : UInt64) :
    Option (List UInt8 × List UInt8) :=
  hashimoto keccak512 keccak256 hash nonce size (lightLookup keccak512 cache)

/-- `hashimotoFull` の `lookup`：dataset から 16 語を切り出す。`offset` は `uint32`。 -/
def fullLookup (dataset : List UInt32) (index : UInt32) : Option (List UInt32) :=
  let offset := index * hashWords.toUInt32
  -- `dataset[offset : offset+hashWords]` は範囲の外で panic する
  if offset.toNat ≤ (offset + hashWords.toUInt32).toNat ∧
      (offset + hashWords.toUInt32).toNat ≤ dataset.length then
    some ((dataset.drop offset.toNat).take ((offset + hashWords.toUInt32).toNat - offset.toNat))
  else none

/-- `hashimotoFull(dataset, hash, nonce)`：item を dataset から切り出す。 -/
def hashimotoFull (keccak512 : Hasher) (keccak256 : List UInt8 → List UInt8)
    (dataset : List UInt32) (hash : List UInt8) (nonce : UInt64) :
    Option (List UInt8 × List UInt8) :=
  hashimoto keccak512 keccak256 hash nonce (dataset.length.toUInt64 * 4) (fullLookup dataset)

end Ethash
