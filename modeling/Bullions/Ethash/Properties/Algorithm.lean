import Bullions.Ethash.Algorithm
import Mathlib

/-!
# 軽い検証と重い検証は一致する

`hashimotoLight` は dataset の item を読むたびに cache から作り、`hashimotoFull` は
`generateDataset` が埋めた dataset から切り出す。二つが同じ値を返すには、二段がいる。

* **dataset の並び**。goroutine の受け持ちは `size / hashBytes` 個の item を覆い、どの item も
  番地 `index * hashBytes` から 64 byte に書かれる（`datasetLoop_filled`）。big-endian の機械では
  `swap` してから書くので、機械の順で読み戻すと little-endian で読んだ語になる。だから dataset
  の `i` 番目の 16 語は `i` 番目の item を語に直したもの（`generateDataset_isDataset`）。
* **切り出し**。`hashimoto` が読むのは `2 * parent + j`（`parent < rows`）だけなので、そこで
  二つの `lookup` が一致すればよい（`hashimoto_congr`）。

ただし `hashimotoFull` の `offset := index * hashWords` は `uint32` で、`index` が `2^28` に
届くと回り込み、別の item を切り出す。dataset が `2^34` byte 未満なら回り込まない。
-/

namespace Ethash

open Endian

/-! ## item と `swap` -/

@[simp] theorem length_sum (keccak512 : Hasher) (data : List UInt8) :
    (keccak512.sum data).length = hashBytes :=
  List.length_ofFn

@[simp] theorem length_itemWords (rawData : List UInt8) :
    (itemWords rawData).length = rawData.length / 4 := by
  simp [itemWords]

theorem generateDatasetItem_eq_none_iff (cache : List UInt32) (index : UInt32)
    (keccak512 : Hasher) :
    generateDatasetItem cache index keccak512 = none ↔ (cache.length / hashWords).toUInt32 = 0 := by
  unfold generateDatasetItem
  dsimp only
  split <;> simp_all

theorem length_of_generateDatasetItem {cache : List UInt32} {index : UInt32} {keccak512 : Hasher}
    {item : List UInt8} (h : generateDatasetItem cache index keccak512 = some item) :
    item.length = hashBytes := by
  unfold generateDatasetItem at h
  dsimp only at h
  split at h
  · cases h
  · cases h
    exact length_sum _ _

/-- `swap` は 4 byte ごとに、little-endian で読んだ語を big-endian で書き直す。帰納法は
`swap` の再帰に沿って 4 byte ずつ。 -/
theorem swap_spec : ∀ {l l' : List UInt8}, swap l = some l' →
    l'.length = l.length ∧ ∀ w r, r < 4 → 4 * w + 4 ≤ l.length →
      l'.getD (4 * w + r) 0 = (putUint32BE (uint32LE (l.drop (4 * w)))).getD r 0
  | [], l', h => by
    cases h
    exact ⟨rfl, fun w r _ hw => absurd hw (by simp)⟩
  | a :: b :: c :: d :: rest, l', h => by
    simp only [swap, Option.map_eq_map, Option.map_eq_some_iff] at h
    obtain ⟨rest', hrest, rfl⟩ := h
    obtain ⟨hlen, hget⟩ := swap_spec hrest
    refine ⟨by simp [hlen]; omega, fun w r hr hw => ?_⟩
    cases w with
    | zero =>
      -- 先頭の 4 byte
      rw [List.getD_append _ _ _ _ (by simpa using hr),
        show a :: b :: c :: d :: rest = [a, b, c, d] ++ rest from rfl,
        Nat.mul_zero, List.drop_zero, uint32LE_append (by simp), Nat.zero_add]
    | succ w =>
      rw [List.getD_append_right _ _ _ _ (by simp; omega),
        show 4 * (w + 1) + r - (putUint32BE (uint32LE [a, b, c, d])).length = 4 * w + r by
          simp; omega,
        hget w r hr (by simp at hw; omega)]
      rfl
  | [_], _, h | [_, _], _, h | [_, _, _], _, h => by cases h

/-- 4 の倍数の長さの列は、`swap` で panic しない。 -/
theorem swap_isSome : ∀ {l : List UInt8}, l.length % 4 = 0 → (swap l).isSome
  | [], _ => rfl
  | a :: b :: c :: d :: rest, h => by
    have ih := swap_isSome (l := rest) (by simp at h; omega)
    simp only [swap, Option.map_eq_map, Option.isSome_map]
    exact ih
  | [_], h | [_, _], h | [_, _, _], h => by simp at h

/-! ## dataset に書く item -/

section items

variable {keccak512 : Hasher} {swapped : Bool} {cache : List UInt32}

/-- dataset の番地 `index * hashBytes` に書く item：`index` の item を、big-endian の機械では
`swap` したもの。 -/
def storedItem (keccak512 : Hasher) (swapped : Bool) (cache : List UInt32) (index : Nat) :
    Option (List UInt8) :=
  generateDatasetItem cache index.toUInt32 keccak512 >>= fun item =>
    if swapped then swap item else pure item

theorem length_of_storedItem {index : Nat} {item : List UInt8}
    (h : storedItem keccak512 swapped cache index = some item) : item.length = hashBytes := by
  simp only [storedItem, Option.bind_eq_bind, Option.bind_eq_some_iff] at h
  obtain ⟨raw, hraw, hitem⟩ := h
  have hlen := length_of_generateDatasetItem hraw
  cases swapped with
  | false =>
    cases hitem
    exact hlen
  | true =>
    rw [(swap_spec hitem).1, hlen]

theorem storedItem_isSome (hrows : (cache.length / hashWords).toUInt32 ≠ 0) (index : Nat) :
    (storedItem keccak512 swapped cache index).isSome := by
  obtain ⟨raw, hraw⟩ := Option.ne_none_iff_exists'.mp
    (mt (generateDatasetItem_eq_none_iff cache index.toUInt32 keccak512).mp hrows)
  have hlen := length_of_generateDatasetItem hraw
  simp only [storedItem, hraw, Option.bind_eq_bind, Option.bind_some]
  cases swapped with
  | false => rfl
  | true => exact swap_isSome (by rw [hlen]; rfl)

theorem storedItem_raw {index : Nat} {item : List UInt8}
    (h : storedItem keccak512 swapped cache index = some item) :
    ∃ raw, generateDatasetItem cache index.toUInt32 keccak512 = some raw := by
  simp only [storedItem, Option.bind_eq_bind, Option.bind_eq_some_iff] at h
  obtain ⟨raw, hraw, -⟩ := h
  exact ⟨raw, hraw⟩

/-- 機械の順で読み戻した語は、item を little-endian で読んだ語。big-endian では `swap` と
big-endian の読みが打ち消し合う。 -/
theorem storedItem_word {index : Nat} {raw item : List UInt8} (order : ByteOrder)
    (hsw : swapped = (order != .little))
    (hraw : generateDatasetItem cache index.toUInt32 keccak512 = some raw)
    (h : storedItem keccak512 swapped cache index = some item) {w : Nat} (hw : w < hashWords) :
    order.uint32 [item.getD (4 * w) 0, item.getD (4 * w + 1) 0, item.getD (4 * w + 2) 0,
      item.getD (4 * w + 3) 0] = uint32LE (raw.drop (4 * w)) := by
  simp only [storedItem, hraw, Option.bind_eq_bind, Option.bind_some] at h
  have hlen := length_of_generateDatasetItem hraw
  cases order with
  | little =>
    cases hsw
    cases h
    simp [ByteOrder.uint32, uint32LE, List.getD_eq_getElem?_getD, Nat.add_comm]
  | big =>
    cases hsw
    have hget := (swap_spec h).2 w
    have hw4 : 4 * w + 4 ≤ raw.length := by
      rw [hlen]
      unfold hashWords at hw
      unfold hashBytes
      omega
    rw [show (4 * w : Nat) = 4 * w + 0 from rfl, hget 0 (by omega) hw4, hget 1 (by omega) hw4,
      hget 2 (by omega) hw4, hget 3 (by omega) hw4]
    exact uint32BE_putUint32BE _

end items

/-! ## byte の列への書き込み -/

/-- 番地 `index * hashBytes` から `item` が書いてある。 -/
def Written (dataset : Nat → UInt8) (index : Nat) (item : List UInt8) : Prop :=
  ∀ r < item.length, dataset (index * hashBytes + r) = item.getD r 0

theorem written_copyBytes_self {size index : Nat} {item : List UInt8}
    (h : index * hashBytes + item.length ≤ size) (dataset : Nat → UInt8) :
    Written (copyBytes dataset size (index * hashBytes) item) index item := by
  intro r hr
  simp only [copyBytes]
  rw [if_pos (by omega), Nat.add_sub_cancel_left]

/-- 別の item の 64 byte は重ならないので、書き込みで変わらない。 -/
theorem written_copyBytes_of_ne {size i j : Nat} {item t : List UInt8} {dataset : Nat → UInt8}
    (hij : j ≠ i) (hi : item.length ≤ hashBytes) (hj : t.length ≤ hashBytes)
    (hw : Written dataset j t) : Written (copyBytes dataset size (i * hashBytes) item) j t := by
  intro r hr
  simp only [copyBytes]
  rw [if_neg, hw r hr]
  rintro ⟨h1, -, h2⟩
  unfold hashBytes at *
  omega

section filled

variable {keccak512 : Hasher} {swapped : Bool} {cache : List UInt32}

/-- `P` を満たすどの `index` にも、その item が書いてある。 -/
def Filled (keccak512 : Hasher) (swapped : Bool) (cache : List UInt32) (dataset : Nat → UInt8)
    (P : Nat → Prop) : Prop :=
  ∀ i, P i → ∃ item, storedItem keccak512 swapped cache i = some item ∧ Written dataset i item

/-- step lemma：item を一つ書くと、書いた `index` が加わり、ほかはそのまま。 -/
theorem Filled.copy {dataset : Nat → UInt8} {P : Nat → Prop} {size index : Nat}
    {item : List UInt8} (hP : Filled keccak512 swapped cache dataset P)
    (hitem : storedItem keccak512 swapped cache index = some item)
    (hsize : index * hashBytes + hashBytes ≤ size) :
    Filled keccak512 swapped cache (copyBytes dataset size (index * hashBytes) item)
      fun j => P j ∨ j = index := by
  have hlen := length_of_storedItem hitem
  rintro j (hj | rfl)
  · obtain ⟨t, ht, hw⟩ := hP j hj
    refine ⟨t, ht, ?_⟩
    by_cases hji : j = index
    · -- 同じ item を書き直す
      subst hji
      rw [ht] at hitem
      cases hitem
      exact written_copyBytes_self (by omega) dataset
    · exact written_copyBytes_of_ne hji (Nat.le_of_eq hlen) (Nat.le_of_eq (length_of_storedItem ht)) hw
  · exact ⟨item, hitem, written_copyBytes_self (by omega) dataset⟩

theorem datasetLoop_cons (size : Nat) (percent : UInt32) (index : Nat) (rest : List Nat)
    (dataset : Nat → UInt8) :
    datasetLoop keccak512 swapped cache size percent (index :: rest) dataset =
      storedItem keccak512 swapped cache index >>= fun item =>
        if percent = 0 then none
        else datasetLoop keccak512 swapped cache size percent rest
          (copyBytes dataset size (index * hashBytes) item) := by
  rw [datasetLoop, storedItem]
  cases swapped <;> simp [Option.bind_assoc]

/-- run lemma：一つの goroutine の loop は、受け持ちの `index` をどれも埋める。帰納法は
受け持ちの列について。 -/
theorem datasetLoop_filled {size : Nat} {percent : UInt32} :
    ∀ {L : List Nat} {dataset dataset' : Nat → UInt8} {P : Nat → Prop},
      datasetLoop keccak512 swapped cache size percent L dataset = some dataset' →
      (∀ i ∈ L, i * hashBytes + hashBytes ≤ size) →
      Filled keccak512 swapped cache dataset P →
      Filled keccak512 swapped cache dataset' fun j => P j ∨ j ∈ L
  | [], dataset, dataset', P, h, _, hP => by
    cases h
    intro j hj
    exact hP j (by simpa using hj)
  | index :: rest, dataset, dataset', P, h, hsize, hP => by
    rw [datasetLoop_cons, Option.bind_eq_bind, Option.bind_eq_some_iff] at h
    obtain ⟨item, hitem, hloop⟩ := h
    split at hloop
    · cases hloop
    · have hstep := hP.copy hitem (hsize index List.mem_cons_self)
      have ih := datasetLoop_filled hloop (fun i hi => hsize i (List.mem_cons_of_mem _ hi)) hstep
      intro j hj
      apply ih j
      simp only [List.mem_cons] at hj
      exact or_assoc.mpr hj

/-- item がどれも作れて `percent` が 0 でなければ、loop は panic しない。 -/
theorem datasetLoop_isSome {size : Nat} {percent : UInt32} (hpercent : percent ≠ 0)
    (hitems : ∀ i, (storedItem keccak512 swapped cache i).isSome) :
    ∀ (L : List Nat) (dataset : Nat → UInt8),
      (datasetLoop keccak512 swapped cache size percent L dataset).isSome
  | [], _ => rfl
  | index :: rest, dataset => by
    obtain ⟨item, hitem⟩ := Option.isSome_iff_exists.mp (hitems index)
    rw [datasetLoop_cons, hitem, Option.bind_eq_bind, Option.bind_some, if_neg hpercent]
    exact datasetLoop_isSome hpercent hitems rest _

theorem datasetLoop_of_none {size : Nat} {percent : UInt32} {index : Nat}
    (h : storedItem keccak512 swapped cache index = none) (rest : List Nat)
    (dataset : Nat → UInt8) :
    datasetLoop keccak512 swapped cache size percent (index :: rest) dataset = none := by
  rw [datasetLoop_cons, h]
  rfl

end filled

/-! ## goroutine の受け持ち -/

/-- goroutine 一つが受け持つ item の数：`size` byte の item を `threads` で割って切り上げたもの。 -/
def batchOf (size threads : Nat) : Nat := (size + hashBytes * threads - 1) / (hashBytes * threads)

/-- `uint64` で回り込まない大きさでは、受け持ちは `id * batch` からの `batch` 個を、item の数で
切ったもの。 -/
theorem threadIndices_eq {size : UInt64} {threads id : Nat} (ht : 0 < threads)
    (ht' : threads < 2 ^ 32) (hsize : size.toNat < 2 ^ 38) (hid : id < threads) :
    threadIndices size threads id =
      List.range' (id * batchOf size.toNat threads)
        (min (id * batchOf size.toNat threads + batchOf size.toNat threads)
          (size.toNat / hashBytes) - id * batchOf size.toNat threads) := by
  obtain ⟨b, hb⟩ : ∃ b, batchOf size.toNat threads = b := ⟨_, rfl⟩
  rw [hb]
  have hm : (hashBytes.toUInt64 * threads.toUInt64).toNat = hashBytes * threads := by
    rw [UInt64.toNat_mul, UInt64.toNat_ofNat', UInt64.toNat_ofNat']
    unfold hashBytes
    omega
  have hsum : (size + hashBytes.toUInt64 * threads.toUInt64 - 1).toNat =
      size.toNat + hashBytes * threads - 1 := by
    have hadd : (size + hashBytes.toUInt64 * threads.toUInt64).toNat =
        size.toNat + hashBytes * threads := by
      rw [UInt64.toNat_add, hm]
      unfold hashBytes at *
      omega
    rw [UInt64.toNat_sub_of_le _ _ (UInt64.le_iff_toNat_le.mpr (by rw [hadd]; unfold hashBytes; simp; omega)), hadd]
    rfl
  -- `batch * threads` は item の数を少し超えるだけ
  have hbmul : b * (hashBytes * threads) ≤ size.toNat + hashBytes * threads - 1 :=
    hb ▸ Nat.div_mul_le_self _ _
  have htb : 64 * (b * threads) ≤ size.toNat + 64 * threads - 1 := by
    rw [← Nat.mul_left_comm]
    exact hbmul
  have hidb : id * b + b ≤ b * threads := by
    rw [← Nat.succ_mul, Nat.mul_comm b]
    exact Nat.mul_le_mul_right b hid
  unfold threadIndices
  dsimp only
  generalize hB : (size + hashBytes.toUInt64 * threads.toUInt64 - 1) /
    (hashBytes.toUInt64 * threads.toUInt64) = B
  have hBn : B.toNat = b := by rw [← hB, UInt64.toNat_div, hsum, hm, ← hb]; rfl
  have hfirst : (id.toUInt64 * B).toNat = id * b := by
    rw [UInt64.toNat_mul, UInt64.toNat_ofNat', hBn, Nat.mod_eq_of_lt (by omega : id < 2 ^ 64)]
    omega
  have hlimit : (id.toUInt64 * B + B).toNat = id * b + b := by
    rw [UInt64.toNat_add, hfirst, hBn]
    omega
  have hcount : (size / hashBytes.toUInt64).toNat = size.toNat / hashBytes := by
    rw [UInt64.toNat_div, UInt64.toNat_ofNat']
    rfl
  split
  · rename_i hgt
    have := UInt64.lt_iff_toNat_lt.mp hgt
    rw [hlimit, hcount] at this
    rw [hfirst, hcount, Nat.min_eq_right (by omega)]
  · rename_i hle
    have := mt UInt64.lt_iff_toNat_lt.mpr hle
    rw [hlimit, hcount] at this
    rw [hfirst, hlimit, Nat.min_eq_left (by omega)]

/-- 受け持ちの `index` は item の数より小さい。 -/
theorem lt_of_mem_threadIndices {size : UInt64} {threads id i : Nat}
    (h : i ∈ threadIndices size threads id) : i < size.toNat / hashBytes := by
  unfold threadIndices at h
  dsimp only at h
  rw [List.mem_range'_1] at h
  have hcount : (size / hashBytes.toUInt64).toNat = size.toNat / hashBytes := by
    rw [UInt64.toNat_div, UInt64.toNat_ofNat']
    rfl
  split at h
  · omega
  · rename_i hle
    have := mt UInt64.lt_iff_toNat_lt.mpr hle
    omega

theorem batchOf_pos {size threads : Nat} (hsize : 0 < size) (ht : 0 < threads) :
    0 < batchOf size threads := by
  unfold batchOf
  apply Nat.div_pos (by omega)
  exact Nat.mul_pos (by decide) ht

/-- 受け持ちはすべての item を覆う：`index` は goroutine `index / batch` の受け持ち。 -/
theorem mem_threadIndices {size : UInt64} {threads : Nat} (ht : 0 < threads)
    (ht' : threads < 2 ^ 32) (hsize : size.toNat < 2 ^ 38) {i : Nat}
    (hi : i < size.toNat / hashBytes) : ∃ id < threads, i ∈ threadIndices size threads id := by
  obtain ⟨b, hb⟩ : ∃ b, batchOf size.toNat threads = b := ⟨_, rfl⟩
  have hpos : 0 < hashBytes * threads := Nat.mul_pos (by decide) ht
  -- `batch` 個ずつ `threads` 個で、item の数に届く
  have hcover : size.toNat ≤ hashBytes * threads * b := by
    have := Nat.lt_mul_div_succ (size.toNat + hashBytes * threads - 1) hpos
    unfold batchOf at hb
    rw [hb, Nat.mul_succ] at this
    omega
  have hb0 : 0 < b := hb ▸ batchOf_pos (by unfold hashBytes at hi; omega) ht
  have hib : i < threads * b := by
    have : size.toNat / hashBytes ≤ threads * b := by
      apply Nat.div_le_of_le_mul
      rw [← Nat.mul_assoc]
      exact hcover
    omega
  refine ⟨i / b, (Nat.div_lt_iff_lt_mul hb0).mpr hib, ?_⟩
  rw [threadIndices_eq ht ht' hsize ((Nat.div_lt_iff_lt_mul hb0).mpr hib), hb, List.mem_range'_1]
  have h1 : i / b * b ≤ i := Nat.div_mul_le_self i b
  have h2 : i < i / b * b + b := Nat.lt_div_mul_add hb0
  omega

/-! ## dataset -/

/-- `D` は cache の dataset：`i` 番目の 16 語は、`i` 番目の item を語に直したもの。 -/
def IsDataset (keccak512 : Hasher) (cache D : List UInt32) : Prop :=
  ∀ i, i * hashWords + hashWords ≤ D.length →
    ∃ item, generateDatasetItem cache i.toUInt32 keccak512 = some item ∧
      (D.drop (i * hashWords)).take hashWords = itemWords item

section generate

variable {keccak512 : Hasher} {swapped : Bool} {cache : List UInt32}

/-- run lemma：goroutine を順に走らせると、受け持ちの `index` がどれも埋まる。帰納法は
goroutine の列について。 -/
theorem foldlM_datasetLoop_filled {size : UInt64} {bytes threads : Nat} {percent : UInt32} :
    ∀ {ids : List Nat} {dataset dataset' : Nat → UInt8} {P : Nat → Prop},
      ids.foldlM (fun dataset id => datasetLoop keccak512 swapped cache bytes percent
        (threadIndices size threads id) dataset) dataset = some dataset' →
      (∀ id i, i ∈ threadIndices size threads id → i * hashBytes + hashBytes ≤ bytes) →
      Filled keccak512 swapped cache dataset P →
      Filled keccak512 swapped cache dataset'
        fun j => P j ∨ ∃ id ∈ ids, j ∈ threadIndices size threads id
  | [], dataset, dataset', P, h, _, hP => by
    cases h
    intro j hj
    exact hP j (by simpa using hj)
  | id :: ids, dataset, dataset', P, h, hsize, hP => by
    rw [List.foldlM_cons, Option.bind_eq_bind, Option.bind_eq_some_iff] at h
    obtain ⟨mid, hmid, hrest⟩ := h
    have hstep := datasetLoop_filled hmid (hsize id) hP
    have ih := foldlM_datasetLoop_filled hrest hsize hstep
    intro j hj
    apply ih j
    simp only [List.mem_cons, exists_eq_or_imp] at hj
    rcases hj with hj | hj | hj
    · exact .inl (.inl hj)
    · exact .inl (.inr hj)
    · exact .inr hj

/-- 埋まった byte の列を語として読むと、item を語に直したものが並ぶ。 -/
theorem wordView_filled {order : ByteOrder} (hsw : swapped = (order != .little)) {n : Nat}
    {dataset : Nat → UInt8} (hP : Filled keccak512 swapped cache dataset fun i => i < n / 16) :
    IsDataset keccak512 cache (wordView order n dataset) := by
  intro i hi
  have hlen : (wordView order n dataset).length = n := by simp [wordView]
  rw [hlen] at hi
  unfold hashWords at hi
  obtain ⟨item, hitem, hw⟩ := hP i (by omega)
  obtain ⟨raw, hraw⟩ := storedItem_raw hitem
  have hilen := length_of_storedItem hitem
  have hrlen := length_of_generateDatasetItem hraw
  refine ⟨raw, hraw, List.ext_getElem ?_ fun w h1 h2 => ?_⟩
  · simp only [List.length_take, List.length_drop, hlen, length_itemWords, hrlen, hashWords,
      hashBytes]
    omega
  · have hw16 : w < hashWords := by
      simp only [length_itemWords, hrlen, hashBytes] at h2
      unfold hashWords
      omega
    simp only [List.getElem_take, List.getElem_drop, wordView, List.getElem_map,
      List.getElem_range, itemWords]
    -- 語 `16 i + w` の 4 byte は、item の `4 w` byte 目から
    have hb : ∀ t < 4, dataset (4 * (i * hashWords + w) + t) = item.getD (4 * w + t) 0 := by
      intro t ht
      have := hw (4 * w + t) (by unfold hashWords at hw16; rw [hilen]; unfold hashBytes; omega)
      rw [← this]
      congr 1
      unfold hashWords hashBytes
      omega
    rw [show 4 * (i * hashWords + w) = 4 * (i * hashWords + w) + 0 from rfl, hb 0 (by omega),
      hb 1 (by omega), hb 2 (by omega), hb 3 (by omega), Nat.add_zero, Nat.mul_comm w 4]
    exact storedItem_word order hsw hraw hitem hw16

end generate

/-- 途中の一つでも panic すれば、goroutine を順に走らせた全体も panic する。 -/
theorem foldlM_eq_none_of_mem {α β : Type} {f : β → α → Option β} {a : α}
    (hf : ∀ b, f b a = none) : ∀ {l : List α}, a ∈ l → ∀ b, l.foldlM f b = none
  | x :: l, hmem, b => by
    rw [List.foldlM_cons, Option.bind_eq_bind]
    rcases List.mem_cons.mp hmem with rfl | hmem
    · rw [hf b]
      rfl
    · cases f b x with
      | none => rfl
      | some b' => exact foldlM_eq_none_of_mem hf hmem b'

theorem foldlM_isSome {α β : Type} {f : β → α → Option β} (hf : ∀ b a, (f b a).isSome) :
    ∀ (l : List α) (b : β), (l.foldlM f b).isSome
  | [], _ => rfl
  | x :: l, b => by
    obtain ⟨b', hb'⟩ := Option.isSome_iff_exists.mp (hf b x)
    rw [List.foldlM_cons, hb', Option.bind_eq_bind, Option.bind_some]
    exact foldlM_isSome hf l b'

section generateDataset

variable {keccak512 : Hasher} {order : ByteOrder} {threads : Nat} {dest cache : List UInt32}

/-- `threads` が `uint64` で回り込まなければ、`batch` の割り算は panic しない。 -/
theorem generateDataset_eq (ht' : threads < 2 ^ 32) :
    generateDataset keccak512 order threads dest cache =
      (wordView order dest.length) <$> (List.range threads).foldlM (fun dataset id =>
        datasetLoop keccak512 (order != .little) cache (dest.length * 4)
          ((dest.length * 4).toUInt64 / hashBytes.toUInt64 / 100).toUInt32
          (threadIndices (dest.length * 4).toUInt64 threads id) dataset) (byteView order dest) := by
  have hdiv : ¬(0 < threads ∧ hashBytes.toUInt64 * threads.toUInt64 = 0) := by
    rintro ⟨ht, h0⟩
    have := congrArg UInt64.toNat h0
    rw [UInt64.toNat_mul, UInt64.toNat_ofNat', UInt64.toNat_ofNat'] at this
    unfold hashBytes at this
    simp only [UInt64.toNat_zero] at this
    omega
  unfold generateDataset
  rw [if_neg hdiv]

/-- 埋まった dataset の `i` 番目の 16 語は、`i` 番目の item を語に直したもの。 -/
theorem generateDataset_isDataset {D : List UInt32} (ht : 0 < threads) (ht' : threads < 2 ^ 32)
    (hsize : dest.length * 4 < 2 ^ 38)
    (h : generateDataset keccak512 order threads dest cache = some D) :
    D.length = dest.length ∧ IsDataset keccak512 cache D := by
  have hsz : ((dest.length * 4).toUInt64).toNat = dest.length * 4 := by
    rw [UInt64.toNat_ofNat']
    omega
  rw [generateDataset_eq ht', Option.map_eq_map, Option.map_eq_some_iff] at h
  obtain ⟨dataset, hfold, rfl⟩ := h
  refine ⟨by simp [wordView], ?_⟩
  -- どの goroutine も、受け持ちの item を dataset の中に書く
  have hbound : ∀ id i, i ∈ threadIndices (dest.length * 4).toUInt64 threads id →
      i * hashBytes + hashBytes ≤ dest.length * 4 := by
    intro id i hi
    have := lt_of_mem_threadIndices hi
    rw [hsz] at this
    unfold hashBytes at this ⊢
    omega
  have hfilled := foldlM_datasetLoop_filled (P := fun _ => False) hfold hbound
    (fun _ hi => hi.elim)
  apply wordView_filled rfl
  intro i hi
  obtain ⟨id, hid, hmem⟩ := mem_threadIndices ht ht' (by rw [hsz]; exact hsize) (i := i)
    (by rw [hsz]; unfold hashBytes; omega)
  exact hfilled i (.inr ⟨id, List.mem_range.mpr hid, hmem⟩)

/-- 回り込まない大きさで item が 100 個以上あれば、`generateDataset` が panic するのは cache
の行の数が `uint32` で 0 のときだけ。 -/
theorem generateDataset_isSome_iff (ht : 0 < threads) (ht' : threads < 2 ^ 32)
    (hsize : dest.length * 4 < 2 ^ 38) (h6400 : 6400 ≤ dest.length * 4) :
    (generateDataset keccak512 order threads dest cache).isSome ↔
      (cache.length / hashWords).toUInt32 ≠ 0 := by
  have hsz : ((dest.length * 4).toUInt64).toNat = dest.length * 4 := by
    rw [UInt64.toNat_ofNat']
    omega
  rw [generateDataset_eq ht', Option.map_eq_map, Option.isSome_map]
  constructor
  · -- 行が 0 なら、goroutine 0 の最初の item で panic する
    intro hsome hrows
    have hnone : ∀ i, storedItem keccak512 (order != .little) cache i = none := by
      intro i
      simp only [storedItem, (generateDatasetItem_eq_none_iff _ _ _).mpr hrows,
        Option.bind_eq_bind, Option.bind_none]
    have hb := batchOf_pos (show 0 < dest.length * 4 by omega) ht
    have h0 : threadIndices (dest.length * 4).toUInt64 threads 0 =
        0 :: List.range' 1 (min (batchOf (dest.length * 4) threads)
          (dest.length * 4 / hashBytes) - 1) := by
      rw [threadIndices_eq ht ht' (by rw [hsz]; exact hsize) ht, hsz, Nat.zero_mul,
        Nat.zero_add, Nat.sub_zero]
      have hpos : 0 < min (batchOf (dest.length * 4) threads) (dest.length * 4 / hashBytes) := by
        unfold hashBytes
        omega
      rw [← Nat.sub_add_cancel hpos, List.range'_succ]
      simp
    rw [foldlM_eq_none_of_mem (a := 0) (fun d => by rw [h0, datasetLoop_of_none (hnone 0)])
      (List.mem_range.mpr ht)] at hsome
    cases hsome
  · -- 行があれば、どの item も作れて `percent` も 0 でない
    intro hrows
    have hpercent : ((dest.length * 4).toUInt64 / hashBytes.toUInt64 / 100).toUInt32 ≠ 0 := by
      intro h0
      have := congrArg UInt32.toNat h0
      rw [UInt64.toNat_toUInt32, UInt64.toNat_div, UInt64.toNat_div, hsz,
        UInt64.toNat_ofNat'] at this
      unfold hashBytes at this
      simp only [UInt32.toNat_zero, UInt64.reduceToNat, Nat.reducePow, Nat.reduceMod] at this
      omega
    exact foldlM_isSome (fun d id => datasetLoop_isSome hpercent
      (storedItem_isSome hrows) _ d) _ _

end generateDataset

/-! ## hashimoto が読む位置 -/

theorem foldlM_congr_mem {α β : Type} {f g : β → α → Option β} :
    ∀ {l : List α}, (∀ a ∈ l, ∀ b, f b a = g b a) → ∀ b, l.foldlM f b = l.foldlM g b
  | [], _, _ => rfl
  | x :: l, h, b => by
    rw [List.foldlM_cons, List.foldlM_cons, h x List.mem_cons_self b]
    congr 1
    funext b'
    exact foldlM_congr_mem (fun a ha => h a (List.mem_cons_of_mem x ha)) b'

section congr

variable {rows : UInt32} {lookup lookup' : UInt32 → Option (List UInt32)}

/-- hashimoto の loop が読むのは `2 * parent + j`（`parent < rows`、`j < 2`）だけなので、そこで
一致する二つの `lookup` は同じ mix を返す。帰納法は loop の回について。 -/
theorem hashimotoLoop_congr
    (h : ∀ p < rows, ∀ j < mixBytes / hashBytes,
      lookup (2 * p + j.toUInt32) = lookup' (2 * p + j.toUInt32)) (seedHead : UInt32) :
    ∀ (L : List Nat) (mix temp : List UInt32),
      hashimotoLoop rows seedHead lookup L mix temp = hashimotoLoop rows seedHead lookup' L mix temp
  | [], _, _ => rfl
  | i :: rest, mix, temp => by
    simp only [hashimotoLoop]
    split
    · rfl
    · rename_i hrows
      have hp : fnv (i.toUInt32 ^^^ seedHead) (mix.getD (i % mix.length) 0) % rows < rows :=
        UInt32.mod_lt _ (UInt32.pos_iff_ne_zero.mpr hrows)
      rw [foldlM_congr_mem (g := fun temp j => do
          let data ← lookup' (2 * (fnv (i.toUInt32 ^^^ seedHead) (mix.getD (i % mix.length) 0) %
            rows) + j.toUInt32)
          pure (copyAt temp (j * hashWords) data))
        (fun j hj b => by rw [h _ hp j (List.mem_range.mp hj)])]
      congr 1
      funext temp'
      exact hashimotoLoop_congr h seedHead rest _ _

theorem hashimoto_congr (keccak512 : Hasher) (keccak256 : List UInt8 → List UInt8)
    (hash : List UInt8) (nonce size : UInt64)
    (h : ∀ p < (size / mixBytes.toUInt64).toUInt32, ∀ j < mixBytes / hashBytes,
      lookup (2 * p + j.toUInt32) = lookup' (2 * p + j.toUInt32)) :
    hashimoto keccak512 keccak256 hash nonce size lookup =
      hashimoto keccak512 keccak256 hash nonce size lookup' := by
  unfold hashimoto
  dsimp only
  rw [hashimotoLoop_congr h]

end congr

/-- `hashimotoFull` の切り出し：`offset` は `uint32` なので、`index` は `2^28` を法として読む。
最後の item では `offset+hashWords` が 0 に回り込み、panic する。 -/
theorem fullLookup_eq (D : List UInt32) (index : UInt32) :
    fullLookup D index =
      if index.toNat % 2 ^ 28 * hashWords + hashWords < 2 ^ 32 ∧
          index.toNat % 2 ^ 28 * hashWords + hashWords ≤ D.length then
        some ((D.drop (index.toNat % 2 ^ 28 * hashWords)).take hashWords)
      else none := by
  have ho : (index * hashWords.toUInt32).toNat = index.toNat % 2 ^ 28 * hashWords := by
    rw [UInt32.toNat_mul, UInt32.toNat_ofNat']
    unfold hashWords
    omega
  have hhi : (index * hashWords.toUInt32 + hashWords.toUInt32).toNat =
      (index.toNat % 2 ^ 28 * hashWords + hashWords) % 2 ^ 32 := by
    rw [UInt32.toNat_add, ho, UInt32.toNat_ofNat']
    unfold hashWords
    omega
  unfold fullLookup
  dsimp only
  rw [ho, hhi]
  by_cases hw : index.toNat % 2 ^ 28 * hashWords + hashWords < 2 ^ 32
  · rw [Nat.mod_eq_of_lt hw, Nat.add_sub_cancel_left]
    simp only [Nat.le_add_right, true_and, hw]
  · -- `offset` は `2^32 - hashWords` で、`offset+hashWords` は 0
    rw [if_neg (by unfold hashWords at *; omega), if_neg (by omega)]

/-! ## 二つの検証の一致 -/

/-- dataset が `2^32` 語に満たなければ、item の数より小さい `index` で二つの切り出しは一致する。 -/
theorem fullLookup_eq_lightLookup {keccak512 : Hasher} {cache D : List UInt32}
    (hD : IsDataset keccak512 cache D) (hlen : D.length < 2 ^ 32) {index : UInt32}
    (hidx : index.toNat * hashWords + hashWords ≤ D.length) :
    fullLookup D index = lightLookup keccak512 cache index := by
  have hlt : index.toNat < 2 ^ 28 := by
    unfold hashWords at hidx
    omega
  rw [fullLookup_eq, Nat.mod_eq_of_lt hlt, if_pos ⟨by omega, hidx⟩]
  obtain ⟨item, hitem, hwords⟩ := hD index.toNat hidx
  rw [show index.toNat.toUInt32 = index from UInt32.ofNat_toNat] at hitem
  rw [hwords, lightLookup, hitem]
  rfl

/-- hashimoto の親 `parent < rows` から読む `2 * parent + j` は、`rows` が小さければ回り込まない。 -/
theorem toNat_lookupIndex {size : UInt64} (hsize : size.toNat < 2 ^ 34) {p : UInt32}
    (hp : p < (size / mixBytes.toUInt64).toUInt32) {j : Nat} (hj : j < mixBytes / hashBytes) :
    (2 * p + j.toUInt32).toNat = 2 * p.toNat + j ∧ 2 * p.toNat + j < size.toNat / hashBytes := by
  have hrows : ((size / mixBytes.toUInt64).toUInt32).toNat = size.toNat / mixBytes := by
    rw [UInt64.toNat_toUInt32, UInt64.toNat_div, UInt64.toNat_ofNat']
    unfold mixBytes
    simp only [Nat.reducePow, Nat.reduceMod]
    omega
  have hp' := UInt32.lt_iff_toNat_lt.mp hp
  rw [hrows] at hp'
  unfold mixBytes hashBytes at *
  constructor
  · rw [UInt32.toNat_add, UInt32.toNat_mul, UInt32.toNat_ofNat']
    simp only [UInt32.reduceToNat]
    omega
  · omega

/-- `generateDataset` が埋めた dataset を読む `hashimotoFull` は、dataset が `2^34` byte に
満たなければ、cache から item を作り直す `hashimotoLight` と同じ値を返す。dataset が作れるのは、
cache の行の数が `uint32` で 0 でないときである。 -/
theorem hashimotoFull_eq_light (keccak512 : Hasher) (keccak256 : List UInt8 → List UInt8)
    (order : ByteOrder) {threads : Nat} {dest cache : List UInt32} {size : UInt64}
    (h6400 : 6400 ≤ size.toNat)
    (h34 : size.toNat < 2 ^ 34) (ht : 0 < threads) (ht' : threads < 2 ^ 32)
    (hdest : dest.length * 4 = size.toNat) :
    ((∃ D, generateDataset keccak512 order threads dest cache = some D) ↔
        (cache.length / hashWords).toUInt32 ≠ 0) ∧
      ∀ D, generateDataset keccak512 order threads dest cache = some D →
        ∀ hash nonce, hashimotoFull keccak512 keccak256 D hash nonce =
          hashimotoLight keccak512 keccak256 size cache hash nonce := by
  refine ⟨Option.isSome_iff_exists.symm.trans
    (generateDataset_isSome_iff ht ht' (by omega) (by omega)), fun D hD hash nonce => ?_⟩
  obtain ⟨hlen, hdata⟩ := generateDataset_isDataset ht ht' (by omega) hD
  -- `hashimotoFull` が渡す大きさは `size` そのもの
  have hsz : D.length.toUInt64 * 4 = size := by
    apply UInt64.toNat_inj.mp
    rw [UInt64.toNat_mul, UInt64.toNat_ofNat']
    simp only [UInt64.reduceToNat]
    omega
  unfold hashimotoFull hashimotoLight
  rw [hsz]
  apply hashimoto_congr
  intro p hp j hj
  obtain ⟨hidx, hlt⟩ := toNat_lookupIndex h34 hp hj
  apply fullLookup_eq_lightLookup hdata (by omega)
  rw [hidx]
  unfold hashWords
  unfold hashBytes at hlt
  omega


theorem hashimotoFull_eq_light_small :
    6400 ≤ (6400 : UInt64).toNat ∧ (6400 : UInt64).toNat < 2 ^ 34 ∧ 0 < 1 ∧ 1 < 2 ^ 32 ∧
      (List.replicate 1600 (0 : UInt32)).length * 4 = (6400 : UInt64).toNat ∧
      (((∃ D, generateDataset (fun _ _ => 0) .big 1 (List.replicate 1600 0)
          (List.replicate 16 0) = some D) ↔
          ((List.replicate 16 (0 : UInt32)).length / hashWords).toUInt32 ≠ 0) ∧
        ∀ D, generateDataset (fun _ _ => 0) .big 1 (List.replicate 1600 0)
            (List.replicate 16 0) = some D →
          ∀ hash nonce, hashimotoFull (fun _ _ => 0) id D hash nonce =
            hashimotoLight (fun _ _ => 0) id 6400 (List.replicate 16 0) hash nonce) :=
  ⟨by decide, by decide, by decide, by decide, by rw [List.length_replicate]; rfl,
    hashimotoFull_eq_light (fun _ _ => 0) id .big (by decide) (by decide) (by decide) (by decide)
      (by rw [List.length_replicate]; rfl)⟩

/-! ## 0 の cache

どの byte も 0 の cache と、入力をそのまま写す hasher では、item は `index` に定数を掛けた語
一つになる（`lightLookup_zeroCache`）。この形で、二つの検証を具体的に比べる。 -/

/-- 入力の先頭の 64 byte をそのまま書く hasher（足りない byte は 0）。 -/
def copyHasher : Hasher := fun data j => data.getD j 0

/-- 0 だけの一行の cache。 -/
def zeroCache : List UInt32 := List.replicate hashWords 0

theorem sum_copyHasher {l : List UInt8} (h : l.length = hashBytes) : copyHasher.sum l = l := by
  apply List.ext_getElem (by rw [length_sum, h])
  intro i h1 h2
  simp only [Hasher.sum, List.getElem_ofFn, copyHasher]
  exact List.getD_eq_getElem _ _ h2

/-- 先頭の語のほかは 0 の item を語に直す。 -/
theorem itemWords_single (x : UInt32) :
    itemWords (putUint32LE x ++ List.replicate 60 0) = x :: List.replicate 15 0 := by
  have hlen : (putUint32LE x ++ List.replicate 60 0).length / 4 = 16 := by
    rw [List.length_append, length_putUint32LE, List.length_replicate]
  apply List.ext_getElem (by rw [length_itemWords, hlen]; rfl)
  intro i h1 h2
  rw [length_itemWords, hlen] at h1
  simp only [itemWords, List.getElem_map, List.getElem_range]
  rcases Nat.eq_zero_or_pos i with rfl | hi
  · rw [Nat.zero_mul, List.drop_zero, uint32LE_append (by simp) _,
      uint32LE_putUint32LE]
    rfl
  · -- 先頭の 4 byte より後ろは 0
    rw [List.drop_append, List.drop_eq_nil_of_le (by simp; omega), List.nil_append,
      List.drop_replicate, uint32LE_replicate_zero]
    obtain ⟨k, rfl⟩ : ∃ k, i = k + 1 := ⟨i - 1, by omega⟩
    rw [List.getElem_cons_succ, List.getElem_replicate]

theorem fnvHash_zeroCache (mix : List UInt32) (k : Nat) :
    fnvHash mix (zeroCache.drop k) = mix.map (· * 0x01000193) := by
  apply List.ext_getElem (by simp [fnvHash])
  intro i h1 h2
  simp only [fnvHash, List.getElem_mapIdx, List.getElem_map, zeroCache, List.drop_replicate,
    List.getD_eq_getElem?_getD, List.getElem?_getD_replicate_default_eq, UInt32.xor_zero]

/-- 毎回 `c` を掛ける loop は、`c` を回の数だけ掛ける。 -/
theorem foldl_map_mul (c : UInt32) : ∀ (L : List Nat) (mix : List UInt32) (k : UInt32),
    L.foldl (fun m _ => m.map (· * c)) (mix.map (· * k)) = mix.map (· * (· * c)^[L.length] k)
  | [], _, _ => rfl
  | _ :: L, mix, k => by
    have hmul : ((· * c) ∘ (· * k)) = (· * (k * c)) := by
      funext x
      exact UInt32.mul_assoc x k c
    rw [List.foldl_cons, List.map_map, hmul, foldl_map_mul c L mix (k * c), List.length_cons,
      Function.iterate_succ_apply]

theorem fnv_pow : (· * 0x01000193)^[datasetParents] (1 : UInt32) = 0x50D7A401 := by
  decide +kernel

theorem generateDatasetItem_zeroCache (index : UInt32) :
    generateDatasetItem zeroCache index copyHasher =
      some (putUint32LE (index * 0x50D7A401) ++ List.replicate 60 0) := by
  have hrows : (zeroCache.length / hashWords).toUInt32 = 1 := rfl
  unfold generateDatasetItem
  dsimp only
  rw [hrows, if_neg (by decide), UInt32.mod_one]
  have hz : ∀ k, zeroCache.getD k 0 = 0 := by
    intro k
    simp only [zeroCache, List.getD_eq_getElem?_getD, List.getElem?_getD_replicate_default_eq]
  -- 初めの mix：先頭の語は `index`、ほかは 0
  have hmix : putUint32LE (zeroCache.getD (0 * hashWords.toUInt32).toNat 0 ^^^ index) ++
      (List.range' 1 (hashWords - 1)).flatMap (fun i =>
        putUint32LE (zeroCache.getD (0 * hashWords.toUInt32 + i.toUInt32).toNat 0)) =
      putUint32LE index ++ List.replicate 60 0 := by
    simp only [hz, UInt32.zero_xor]
    rfl
  have hlen : ∀ x, (putUint32LE x ++ List.replicate 60 0).length = hashBytes := by
    intro x
    rw [List.length_append, length_putUint32LE, List.length_replicate]
    rfl
  have hint := itemWords_single index
  unfold itemWords at hint
  rw [hlen] at hint
  rw [hmix, sum_copyHasher (hlen index)]
  rw [show hashWords = hashBytes / 4 from rfl, hint]
  -- 0 の cache との 256 回の混ぜ合わせは、`0x01000193` を 256 回掛けること
  simp only [fnvHash_zeroCache]
  rw [show index :: List.replicate 15 0 = (index :: List.replicate 15 0).map (· * 1) by simp,
    foldl_map_mul, List.length_range, fnv_pow]
  have hout : (List.map (· * 0x50D7A401) (index :: List.replicate 15 0)).flatMap putUint32LE =
      putUint32LE (index * 0x50D7A401) ++ List.replicate 60 0 := by
    rw [List.map_cons, List.flatMap_cons, List.map_replicate, UInt32.zero_mul]
    rfl
  rw [hout, sum_copyHasher (hlen _)]

theorem lightLookup_zeroCache (index : UInt32) :
    lightLookup copyHasher zeroCache index = some ((index * 0x50D7A401) :: List.replicate 15 0) := by
  rw [lightLookup, generateDatasetItem_zeroCache, Option.map_eq_map, Option.map_some,
    itemWords_single]

/-- 0 の cache の dataset を、`hashimotoFull` が回り込んだ `offset` で切り出したもの：`index` は
`2^28` を法として読まれ、最後の item では panic する。 -/
def wrappedLookup (index : UInt32) : Option (List UInt32) :=
  if index.toNat % 2 ^ 28 * hashWords + hashWords < 2 ^ 32 then
    some ((index.toNat % 2 ^ 28).toUInt32 * 0x50D7A401 :: List.replicate 15 0)
  else none

theorem fullLookup_zeroCache {D : List UInt32} (hD : IsDataset copyHasher zeroCache D)
    (hlen : D.length = 2 ^ 35) (index : UInt32) : fullLookup D index = wrappedLookup index := by
  rw [fullLookup_eq, wrappedLookup]
  by_cases hw : index.toNat % 2 ^ 28 * hashWords + hashWords < 2 ^ 32
  · have hle : index.toNat % 2 ^ 28 * hashWords + hashWords ≤ D.length := by
      rw [hlen]
      omega
    rw [if_pos ⟨hw, hle⟩, if_pos hw]
    obtain ⟨item, hitem, hwords⟩ := hD _ hle
    rw [generateDatasetItem_zeroCache, Option.some.injEq] at hitem
    rw [hwords, ← hitem, itemWords_single]
  · rw [if_neg (fun h => hw h.1), if_neg hw]

/-- `2^34` byte を超える dataset では、`hashimotoFull` は回り込んだ `offset` から別の item を
切り出し、`hashimotoLight` と違う digest を返す。 -/
theorem hashimotoFull_offset_wraps :
    ∃ D, generateDataset copyHasher .little 1 (List.replicate (2 ^ 35) 0) zeroCache = some D ∧
      hashimotoFull copyHasher id D (8 :: List.replicate 31 0) 0 ≠
        hashimotoLight copyHasher id 137438953472 zeroCache (8 :: List.replicate 31 0) 0 := by
  have hsome : (generateDataset copyHasher .little 1 (List.replicate (2 ^ 35) 0) zeroCache).isSome :=
    (generateDataset_isSome_iff (by decide) (by decide) (by rw [List.length_replicate]; decide)
      (by rw [List.length_replicate]; decide)).mpr (by decide)
  obtain ⟨D, hD⟩ := Option.isSome_iff_exists.mp hsome
  obtain ⟨hlen, hdata⟩ := generateDataset_isDataset (by decide) (by decide)
    (by rw [List.length_replicate]; decide) hD
  rw [List.length_replicate] at hlen
  refine ⟨D, hD, ?_⟩
  have hsz : D.length.toUInt64 * 4 = 137438953472 := by
    rw [hlen]
    decide
  have hfull : fullLookup D = wrappedLookup := funext (fullLookup_zeroCache hdata hlen)
  have hlight : lightLookup copyHasher zeroCache =
      fun index => some ((index * 0x50D7A401) :: List.replicate 15 0) :=
    funext lightLookup_zeroCache
  unfold hashimotoFull hashimotoLight
  rw [hsz, hfull, hlight]
  decide +kernel

end Ethash
