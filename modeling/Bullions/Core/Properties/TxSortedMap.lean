import Bullions.Core.TxList
import Mathlib

/-!
# `txSortedMap` の表現の不変条件

`TxSortedMap.Valid`：map の key はその取引の nonce、heap はちょうど map の key を（重複なく）
持って heap の順に並び、cache があればそれは map の取引を nonce の順に並べたもの
（`byNonce`）。`Put`・`Forward`・`Filter`・`filter` の後の `reheap`・`Cap`・`Remove`・
`Ready` はどれもこれを保ち、それぞれが map をどう変え、何を返すかを示す。

nonce の順に狭義に並んだ二つの列は、同じ取引を持てば等しい（`byNonce_eq`）。返す列や新しい
cache が `byNonce` であることは、どれもこれで示す。
-/

namespace Core

open GoHeap

/-- nonce の順。 -/
def NonceLt (a b : Transaction) : Prop := a.Nonce < b.Nonce

instance : Std.Irrefl NonceLt := ⟨fun a => Nat.lt_irrefl a.Nonce⟩

instance : Std.Antisymm NonceLt := ⟨fun _ _ h h' => absurd (Nat.lt_trans h h') (Nat.lt_irrefl _)⟩

/-- map の取引（map を回す順）。 -/
def txsOf (items : GoMap Nat Transaction) : List Transaction := items.entries.map (·.2)

/-- map の取引を nonce の順に並べたもの：`flatten` が cache に持つ列。 -/
def byNonce (items : GoMap Nat Transaction) : List Transaction :=
  (txsOf items).mergeSort fun a b => a.Nonce ≤ b.Nonce

/-- map の key は、その取引の nonce。 -/
def NonceKeyed (items : GoMap Nat Transaction) : Prop :=
  ∀ k tx, items.lookup k = some tx → tx.Nonce = k

/-- `start` から `len` 個の nonce が map にあって、その次の nonce は無い：`start` から連続する
nonce の最長の並び。 -/
def MaximalRun (items : GoMap Nat Transaction) (start len : Nat) : Prop :=
  (∀ j < len, start + j ∈ items) ∧ start + len ∉ items

namespace TxSortedMap

/-- `txSortedMap` の表現の不変条件。 -/
structure Valid (m : TxSortedMap) : Prop where
  keyed : NonceKeyed m.items
  index : List.Perm m.index m.items.keys
  heap : IsHeap m.index
  cache : ∀ c, m.cache = some c → c = byNonce m.items

end TxSortedMap

/-- `next` が map に無ければ、並びの長さは 0。 -/
theorem MaximalRun.zero {items : GoMap Nat Transaction} {next : Nat} (h : next ∉ items) :
    MaximalRun items next 0 :=
  ⟨fun _ hj => absurd hj (Nat.not_lt_zero _), h⟩

/-! ## map の取引と `byNonce` -/

theorem mem_txsOf {items : GoMap Nat Transaction} {tx : Transaction} :
    tx ∈ txsOf items ↔ ∃ k, items.lookup k = some tx := by
  simp only [txsOf, List.mem_map]
  constructor
  · rintro ⟨⟨k, tx'⟩, hmem, rfl⟩
    exact ⟨k, AList.mem_lookup_iff.mpr hmem⟩
  · rintro ⟨k, hk⟩
    exact ⟨⟨k, tx⟩, AList.mem_lookup_iff.mp hk, rfl⟩

theorem mem_txsOf_iff {items : GoMap Nat Transaction} (hk : NonceKeyed items) {tx : Transaction} :
    tx ∈ txsOf items ↔ items.lookup tx.Nonce = some tx := by
  rw [mem_txsOf]
  constructor
  · rintro ⟨k, hl⟩
    rw [hk k tx hl]; exact hl
  · intro h; exact ⟨_, h⟩

/-- key が nonce なら、取引の nonce の列は key の列。 -/
theorem map_nonce_txsOf {items : GoMap Nat Transaction} (hk : NonceKeyed items) :
    (txsOf items).map Transaction.Nonce = items.keys := by
  simp only [txsOf, List.map_map, AList.keys, List.keys]
  apply List.map_congr_left
  rintro ⟨k, tx⟩ hmem
  exact hk k tx (AList.mem_lookup_iff.mpr hmem)

theorem mem_byNonce {items : GoMap Nat Transaction} {tx : Transaction} :
    tx ∈ byNonce items ↔ tx ∈ txsOf items := by
  simp [byNonce]

theorem byNonce_perm (items : GoMap Nat Transaction) : List.Perm (byNonce items) (txsOf items) :=
  List.mergeSort_perm _ _

/-- `byNonce` は nonce の順に狭義に並ぶ。 -/
theorem byNonce_sorted {items : GoMap Nat Transaction} (hk : NonceKeyed items) :
    (byNonce items).Pairwise NonceLt := by
  have hle : (byNonce items).Pairwise fun a b => a.Nonce ≤ b.Nonce := by
    have := @List.pairwise_mergeSort Transaction (fun a b => decide (a.Nonce ≤ b.Nonce))
      (fun a b c hab hbc => by simp at *; omega) (fun a b => by simp; omega) (txsOf items)
    simpa [byNonce] using this
  -- nonce は key なので重複しない
  have hne : (byNonce items).Pairwise fun a b => a.Nonce ≠ b.Nonce := by
    have hnd : ((byNonce items).map Transaction.Nonce).Nodup := by
      rw [((byNonce_perm items).map _).nodup_iff, map_nonce_txsOf hk]
      exact items.keys_nodup
    exact List.pairwise_map.mp hnd
  exact (hle.and hne).imp fun h => lt_of_le_of_ne h.1 h.2

/-- nonce の順に狭義に並んで map の取引をちょうど持つ列は `byNonce`。 -/
theorem byNonce_eq {items : GoMap Nat Transaction} (hk : NonceKeyed items) {l : List Transaction}
    (hs : l.Pairwise NonceLt) (hm : ∀ tx, tx ∈ l ↔ items.lookup tx.Nonce = some tx) :
    byNonce items = l :=
  List.Pairwise.eq_of_mem_iff (byNonce_sorted hk) hs fun tx => by
    rw [mem_byNonce, mem_txsOf_iff hk, hm]

/-- `items'` の取引はどれも `items` に同じ key である：取引を消すだけの呼び出しの後の map。 -/
def SubMap (items' items : GoMap Nat Transaction) : Prop :=
  ∀ k tx, items'.lookup k = some tx → items.lookup k = some tx

/-- `p` に合う key を消した map。 -/
theorem subMap_of_restrict {items items' : GoMap Nat Transaction} (p : Nat → Bool)
    (h : ∀ k, items'.lookup k = if p k then none else items.lookup k) : SubMap items' items :=
  fun k tx hl => by
    rw [h] at hl
    split_ifs at hl
    exact hl

theorem mem_of_restrict {items items' : GoMap Nat Transaction} {p : Nat → Bool}
    (h : ∀ k, items'.lookup k = if p k then none else items.lookup k) {k : Nat} :
    k ∈ items' ↔ k ∈ items ∧ p k = false := by
  rw [← AList.lookup_isSome, h, ← AList.lookup_isSome]
  cases p k <;> simp

theorem SubMap.trans {items₁ items₂ items₃ : GoMap Nat Transaction} (h₁ : SubMap items₁ items₂)
    (h₂ : SubMap items₂ items₃) : SubMap items₁ items₃ :=
  fun k tx hl => h₂ k tx (h₁ k tx hl)

theorem SubMap.txsOf_subset {items items' : GoMap Nat Transaction} (h : SubMap items' items)
    {tx : Transaction} (htx : tx ∈ txsOf items') : tx ∈ txsOf items := by
  obtain ⟨k, hk⟩ := mem_txsOf.mp htx
  exact mem_txsOf.mpr ⟨k, h k tx hk⟩

theorem SubMap.refl (items : GoMap Nat Transaction) : SubMap items items := fun _ _ h => h

theorem subMap_erase (items : GoMap Nat Transaction) (k : Nat) : SubMap (items.erase k) items :=
  subMap_of_restrict (fun k' => decide (k' = k)) fun k' => by
    by_cases h : k' = k
    · subst h; simp
    · simp [h, AList.lookup_erase_ne h]

/-- map から取引を消しても、key は nonce のまま。 -/
theorem NonceKeyed.mono {items items' : GoMap Nat Transaction} (hk : NonceKeyed items)
    (h : SubMap items' items) : NonceKeyed items' :=
  fun k tx hl => hk k tx (h k tx hl)

/-- `p` に合う key を消した map の `byNonce` は、元の `byNonce` からその取引を除いたもの。 -/
theorem byNonce_restrict {items items' : GoMap Nat Transaction} (hk : NonceKeyed items)
    (p : Nat → Bool) (h : ∀ k, items'.lookup k = if p k then none else items.lookup k) :
    byNonce items' = (byNonce items).filter fun tx => !p tx.Nonce := by
  have hk' : NonceKeyed items' := hk.mono (subMap_of_restrict p h)
  refine byNonce_eq hk' ((byNonce_sorted hk).filter _) fun tx => ?_
  rw [List.mem_filter, mem_byNonce, mem_txsOf_iff hk, h]
  cases p tx.Nonce <;> simp

/-! ## `Put` -/

namespace TxSortedMap

variable {m : TxSortedMap}

theorem lookup_Put (m : TxSortedMap) (tx : Transaction) (k : Nat) :
    (m.Put tx).items.lookup k = if k = tx.Nonce then some tx else m.items.lookup k := by
  simp only [Put]
  split_ifs with hk
  · subst hk; exact AList.lookup_insert _
  · exact AList.lookup_insert_ne hk

theorem Valid.Put (hv : m.Valid) (tx : Transaction) : (m.Put tx).Valid where
  keyed k t hl := by
    rw [lookup_Put] at hl
    split_ifs at hl with hk
    · cases hl; exact hk.symm
    · exact hv.keyed k t hl
  index := by
    simp only [TxSortedMap.Put, AList.keys_insert]
    split_ifs with hnew
    · -- 新しい nonce は heap の末尾に積まれる
      have hn : tx.Nonce ∉ m.items.keys := AList.mem_keys.not.mp (AList.lookup_eq_none.mp hnew)
      rw [List.erase_of_not_mem hn]
      exact (push_spec hv.heap _).2.trans ((List.perm_append_singleton _ _).trans (hv.index.cons _))
    · have hn : tx.Nonce ∈ m.items.keys := by
        rw [← AList.mem_keys]
        exact AList.lookup_isSome.mp (Option.ne_none_iff_isSome.mp hnew)
      exact hv.index.trans (List.perm_cons_erase hn)
  heap := by
    simp only [TxSortedMap.Put]
    split_ifs
    · exact (push_spec hv.heap _).1
    · exact hv.heap
  cache := by simp [TxSortedMap.Put]

/-! ## `filter`・`reheap`・`Filter` -/

theorem filterLoop_removed (f : Transaction → Bool) :
    ∀ (es : List (Sigma fun _ : Nat => Transaction)) (items : GoMap Nat Transaction)
      (removed : List Transaction),
      (filterLoop f es items removed).2 = removed ++ (es.map (·.2)).filter f
  | [], _, _ => by simp [filterLoop]
  | ⟨n, tx⟩ :: rest, items, removed => by
    by_cases hf : f tx
    · simp [filterLoop, hf, filterLoop_removed f rest]
    · simp [filterLoop, hf, filterLoop_removed f rest]

theorem filterLoop_lookup (f : Transaction → Bool) (k : Nat) :
    ∀ (es : List (Sigma fun _ : Nat => Transaction)) (items : GoMap Nat Transaction)
      (removed : List Transaction),
      (filterLoop f es items removed).1.lookup k =
        if es.any (fun e => decide (e.1 = k) && f e.2) then none else items.lookup k
  | [], _, _ => by simp [filterLoop]
  | ⟨n, tx⟩ :: rest, items, removed => by
    cases hf : f tx
    · simp only [filterLoop, hf, Bool.false_eq_true, if_false, filterLoop_lookup f k rest,
        List.any_cons, Bool.and_false, Bool.false_or]
    · simp only [filterLoop, hf, if_true, filterLoop_lookup f k rest, List.any_cons, Bool.and_true]
      by_cases hnk : n = k
      · subst hnk; simp
      · rw [decide_eq_false hnk, Bool.false_or, AList.lookup_erase_ne (Ne.symm hnk)]

theorem filterLoop_of_nil (f : Transaction → Bool) :
    ∀ (es : List (Sigma fun _ : Nat => Transaction)) (items : GoMap Nat Transaction)
      (removed : List Transaction), (es.map (·.2)).filter f = [] →
      (filterLoop f es items removed).1 = items
  | [], _, _, _ => rfl
  | ⟨n, tx⟩ :: rest, items, removed, h => by
    have hf : f tx = false := by simpa using (List.filter_eq_nil_iff.mp h) tx
    have hrest : (rest.map (·.2)).filter f = [] := by simpa [hf] using h
    simp only [filterLoop, hf]
    exact filterLoop_of_nil f rest items removed hrest

/-- map の列にある組は `lookup` で引ける。 -/
theorem any_entries (items : GoMap Nat Transaction) (f : Transaction → Bool) (k : Nat) :
    items.entries.any (fun e => decide (e.1 = k) && f e.2) = (items.lookup k).any f := by
  cases hl : items.lookup k with
  | none =>
    simp only [Option.any_none, List.any_eq_false, Bool.and_eq_true, decide_eq_true_eq, not_and]
    rintro ⟨n, tx⟩ hmem rfl
    rw [AList.mem_lookup_iff.mpr hmem] at hl
    cases hl
  | some tx =>
    have hmem : (⟨k, tx⟩ : Sigma fun _ : Nat => Transaction) ∈ items.entries :=
      AList.mem_lookup_iff.mp hl
    simp only [Option.any_some]
    cases hf : f tx
    · simp only [List.any_eq_false, Bool.and_eq_true, decide_eq_true_eq, not_and]
      rintro ⟨n, t⟩ hmem' rfl
      rw [AList.mem_lookup_iff.mpr hmem'] at hl
      cases hl
      simp [hf]
    · exact List.any_eq_true.mpr ⟨_, hmem, by simp [hf]⟩

/-- `filter` は `f` に合う取引を map から消し、それを map を回す順に返す。 -/
theorem lookup_filter (m : TxSortedMap) (f : Transaction → Bool) (k : Nat) :
    (m.filter f).1.items.lookup k = if (m.items.lookup k).any f then none else m.items.lookup k := by
  simp only [filter, filterLoop_lookup, any_entries]

theorem filter_removed (m : TxSortedMap) (f : Transaction → Bool) :
    (m.filter f).2 = (txsOf m.items).filter f := by
  simp [filter, filterLoop_removed, txsOf]

/-- 何も消えなければ `filter` は何も変えない。 -/
theorem filter_of_nil (m : TxSortedMap) (f : Transaction → Bool) (h : (m.filter f).2 = []) :
    (m.filter f).1 = m := by
  have hr : (filterLoop f m.items.entries m.items []).2 = [] := h
  have hi : (filterLoop f m.items.entries m.items []).1 = m.items := by
    apply filterLoop_of_nil
    simpa [filterLoop_removed] using hr
  simp only [filter, hi, hr, if_true]

theorem keyed_filter (hk : NonceKeyed m.items) (f : Transaction → Bool) :
    NonceKeyed (m.filter f).1.items :=
  hk.mono (subMap_of_restrict _ (lookup_filter m f))

/-- `reheap` は map の nonce で heap を作り直す。 -/
theorem Valid.reheap (hk : NonceKeyed m.items) : m.reheap.Valid where
  keyed := hk
  index := (init_spec _).2
  heap := (init_spec _).1
  cache := by simp [TxSortedMap.reheap]

theorem Valid.Filter (hv : m.Valid) (f : Transaction → Bool) : (m.Filter f).1.Valid := by
  by_cases h : (m.filter f).2 = []
  · simp only [TxSortedMap.Filter, h, if_true, filter_of_nil m f h]; exact hv
  · simp only [TxSortedMap.Filter, h, if_false]
    exact Valid.reheap (keyed_filter hv.keyed f)

theorem lookup_Filter (m : TxSortedMap) (f : Transaction → Bool) (k : Nat) :
    (m.Filter f).1.items.lookup k = if (m.items.lookup k).any f then none else m.items.lookup k := by
  by_cases h : (m.filter f).2 = []
  · simp only [TxSortedMap.Filter, h, if_true, lookup_filter]
  · simp only [TxSortedMap.Filter, h, if_false, reheap, lookup_filter]

theorem Filter_removed (m : TxSortedMap) (f : Transaction → Bool) :
    (m.Filter f).2 = (txsOf m.items).filter f :=
  filter_removed m f

/-! ## `Remove` -/

theorem lookup_Remove (m : TxSortedMap) (nonce k : Nat) :
    (m.Remove nonce).1.items.lookup k = if k = nonce then none else m.items.lookup k := by
  by_cases h : m.items.lookup nonce = none
  · simp only [TxSortedMap.Remove, h, if_true]
    split_ifs with hk
    · subst hk; exact h
    · rfl
  · simp only [TxSortedMap.Remove, h, if_false]
    split_ifs with hk
    · subst hk; exact AList.lookup_erase _ _
    · exact AList.lookup_erase_ne hk

theorem Remove_found (m : TxSortedMap) (nonce : Nat) :
    (m.Remove nonce).2 = (m.items.lookup nonce).isSome := by
  unfold TxSortedMap.Remove
  split_ifs with h <;> simp [h, Option.isSome_iff_ne_none]

/-- heap の中の値は、頭から探せば見つかる。 -/
theorem findIdx?_of_mem {l : List Nat} {x : Nat} (h : x ∈ l) :
    ∃ i, l.findIdx? (· == x) = some i ∧ i < l.length ∧ l.getD i 0 = x := by
  have hsome : (l.findIdx? (· == x)).isSome := by
    rw [List.findIdx?_isSome]
    exact List.any_eq_true.mpr ⟨x, h, by simp⟩
  obtain ⟨i, hi⟩ := Option.isSome_iff_exists.mp hsome
  obtain ⟨hlt, hx, -⟩ := List.findIdx?_eq_some_iff_getElem.mp hi
  refine ⟨i, hi, hlt, ?_⟩
  simpa [List.getD_eq_getElem?_getD, hlt] using hx

theorem Valid.Remove (hv : m.Valid) (nonce : Nat) : (m.Remove nonce).1.Valid := by
  have hkeyed : NonceKeyed (m.Remove nonce).1.items :=
    hv.keyed.mono (subMap_of_restrict (fun k => decide (k = nonce)) fun k => by
      simp only [lookup_Remove, decide_eq_true_eq])
  by_cases h : m.items.lookup nonce = none
  · simp only [TxSortedMap.Remove, h, if_true]; exact hv
  · simp only [TxSortedMap.Remove, h, if_false] at hkeyed ⊢
    have hn : nonce ∈ m.index := by
      rw [hv.index.mem_iff, ← AList.mem_keys]
      exact AList.lookup_isSome.mp (Option.ne_none_iff_isSome.mp h)
    obtain ⟨i, hi, hlt, hx⟩ := findIdx?_of_mem hn
    obtain ⟨hheap, hperm, hval, -⟩ := remove_spec hv.heap hlt
    rw [hval, show m.index.getD i default = nonce from hx] at hperm
    simp only [hi] at hkeyed ⊢
    refine ⟨hkeyed, ?_, hheap, by simp⟩
    -- 外した値を先頭に回して、両側から `nonce` を外す
    rw [AList.keys_erase]
    have hk : nonce ∈ m.items.keys := hv.index.mem_iff.mp hn
    exact List.Perm.cons_inv <| (List.perm_append_singleton _ _).symm.trans
      (hperm.trans (hv.index.trans (List.perm_cons_erase hk)))

/-! ## heap の根 -/

theorem Valid.mem_index (hv : m.Valid) {k : Nat} : k ∈ m.index ↔ k ∈ m.items :=
  hv.index.mem_iff.trans AList.mem_keys.symm

/-- cache を捨てても `Valid`。loop は cache の無い状態で回る。 -/
theorem Valid.uncache (hv : m.Valid) : (⟨m.items, m.index, none⟩ : TxSortedMap).Valid :=
  ⟨hv.keyed, hv.index, hv.heap, by simp⟩

/-- heap の根は、map の最小の nonce。 -/
theorem Valid.root_le (hv : m.Valid) {top : Nat} {rest : List Nat} (hi : m.index = top :: rest)
    {k : Nat} (hk : k ∈ m.items) : top ≤ k := by
  obtain ⟨c, hc, rfl⟩ := List.getElem_of_mem (hv.mem_index.mpr hk)
  have h := hv.heap.root_le c hc
  have h0 : m.index.getD 0 default = top := by rw [hi]; rfl
  simp only [h0, List.getD_eq_getElem?_getD, List.getElem?_eq_getElem hc, Option.getD_some] at h
  exact h

theorem Valid.root_mem (hv : m.Valid) {top : Nat} {rest : List Nat} (hi : m.index = top :: rest) :
    top ∈ m.items :=
  hv.mem_index.mp (by simp [hi])

/-- 空の heap なら map も空。 -/
theorem Valid.lookup_of_nil (hv : m.Valid) (hi : m.index = []) (k : Nat) :
    m.items.lookup k = none :=
  AList.lookup_eq_none.mpr fun hk => by
    have h := hv.mem_index.mpr hk
    rw [hi] at h
    simp at h

theorem Valid.byNonce_of_nil (hv : m.Valid) (hi : m.index = []) : byNonce m.items = [] := by
  apply List.eq_nil_iff_forall_not_mem.mpr
  intro tx htx
  rw [mem_byNonce, mem_txsOf_iff hv.keyed, hv.lookup_of_nil hi] at htx
  cases htx

/-- `heap.Pop` の後：根の nonce を map から消せば `Valid`。 -/
theorem Valid.pop (hv : m.Valid) {top : Nat} {rest : List Nat} (hi : m.index = top :: rest) :
    (GoHeap.pop m.index).2 = top ∧
      (⟨m.items.erase top, (GoHeap.pop m.index).1, none⟩ : TxSortedMap).Valid := by
  have hne : m.index ≠ [] := by simp [hi]
  obtain ⟨hheap, hperm, hval, -⟩ := pop_spec hv.heap hne
  have htop : (GoHeap.pop m.index).2 = top := by rw [hval, hi]; rfl
  refine ⟨htop, hv.keyed.mono (subMap_erase _ _), ?_, hheap, by simp⟩
  · rw [htop] at hperm
    rw [AList.keys_erase]
    exact List.Perm.cons_inv <| (List.perm_append_singleton _ _).symm.trans
      (hperm.trans (hv.index.trans (List.perm_cons_erase (hv.index.mem_iff.mp (by simp [hi])))))

/-- 最小の nonce の取引は `byNonce` の先頭。 -/
theorem byNonce_erase_min {items : GoMap Nat Transaction} (hk : NonceKeyed items) {k : Nat}
    {tx : Transaction} (hl : items.lookup k = some tx) (hmin : ∀ k' ∈ items, k ≤ k') :
    byNonce items = tx :: byNonce (items.erase k) := by
  have hk' : NonceKeyed (items.erase k) := hk.mono (subMap_erase _ _)
  have hnonce : tx.Nonce = k := hk k tx hl
  refine byNonce_eq hk (List.pairwise_cons.mpr ⟨fun t ht => ?_, byNonce_sorted hk'⟩) fun t => ?_
  · -- 残りの取引の nonce は `k` と違い、`k` 以上
    rw [mem_byNonce, mem_txsOf_iff hk'] at ht
    have hne : t.Nonce ≠ k := fun h => by
      rw [h, AList.lookup_erase] at ht
      cases ht
    rw [AList.lookup_erase_ne hne] at ht
    have hle := hmin t.Nonce (AList.lookup_isSome.mp (by simp [ht]))
    show tx.Nonce < t.Nonce
    omega
  · rw [List.mem_cons, mem_byNonce, mem_txsOf_iff hk']
    by_cases h : t.Nonce = k
    · rw [h, hl, AList.lookup_erase]
      constructor
      · rintro (rfl | h'); rfl; cases h'
      · intro h'; exact .inl (Option.some.inj h').symm
    · rw [AList.lookup_erase_ne h]
      constructor
      · rintro (rfl | h'); exact absurd hnonce h; exact h'
      · exact .inr

/-! ## `Forward` -/

theorem forwardLoop_nil (threshold : Nat) (items : GoMap Nat Transaction)
    (removed : List (Option Transaction)) :
    forwardLoop threshold items [] removed = (items, [], removed) := by
  rw [forwardLoop]

theorem forwardLoop_of_lt {threshold top : Nat} (h : top < threshold) (items : GoMap Nat Transaction)
    (rest : List Nat) (removed : List (Option Transaction)) :
    forwardLoop threshold items (top :: rest) removed =
      forwardLoop threshold (items.erase (GoHeap.pop (top :: rest)).2) (GoHeap.pop (top :: rest)).1
        (removed ++ [items.lookup (GoHeap.pop (top :: rest)).2]) := by
  rw [forwardLoop, if_pos h]

theorem forwardLoop_of_ge {threshold top : Nat} (h : ¬ top < threshold)
    (items : GoMap Nat Transaction) (rest : List Nat) (removed : List (Option Transaction)) :
    forwardLoop threshold items (top :: rest) removed = (items, top :: rest, removed) := by
  rw [forwardLoop, if_neg h]

/-- `Forward` の loop は `threshold` より小さい nonce を消し、その取引を nonce の順に積む。 -/
theorem forwardLoop_spec (threshold : Nat) (items : GoMap Nat Transaction) (index : List Nat)
    (removed : List (Option Transaction)) (hv : (⟨items, index, none⟩ : TxSortedMap).Valid) :
    (⟨(forwardLoop threshold items index removed).1, (forwardLoop threshold items index removed).2.1,
        none⟩ : TxSortedMap).Valid ∧
      (∀ k, (forwardLoop threshold items index removed).1.lookup k =
        if k < threshold then none else items.lookup k) ∧
      (forwardLoop threshold items index removed).2.2 =
        removed ++ ((byNonce items).filter fun tx => decide (tx.Nonce < threshold)).map some := by
  induction items, index, removed using forwardLoop.induct threshold with
  | case1 items removed =>
    rw [forwardLoop_nil]
    refine ⟨hv, fun k => ?_, by simp [hv.byNonce_of_nil rfl]⟩
    simp [hv.lookup_of_nil rfl k]
  | case2 items removed top rest hlt ih =>
    obtain ⟨htop, hv'⟩ := hv.pop rfl
    obtain ⟨tx, htx⟩ := Option.ne_none_iff_exists'.mp
      (AList.lookup_eq_none.not.mpr (not_not.mpr (hv.root_mem rfl)))
    dsimp only at htop hv' htx
    rw [forwardLoop_of_lt hlt]
    simp only [htop] at ih ⊢
    obtain ⟨hvr, hl, hr⟩ := ih hv'
    have hnonce : tx.Nonce = top := hv.keyed _ _ htx
    refine ⟨hvr, fun k => ?_, ?_⟩
    · rw [hl k]
      by_cases hk : k < threshold
      · simp [hk]
      · have hne : k ≠ top := by omega
        simp [hk, AList.lookup_erase_ne hne]
    · rw [hr, htop, byNonce_erase_min hv.keyed htx fun k' hk' => hv.root_le rfl hk', htx]
      simp [hnonce, hlt]
  | case3 items removed top rest hge =>
    rw [forwardLoop_of_ge hge]
    dsimp only
    have hmin : ∀ k ∈ items, threshold ≤ k := fun k hk => by
      have := hv.root_le rfl hk
      omega
    refine ⟨hv, fun k => ?_, ?_⟩
    · split_ifs with hk
      · exact AList.lookup_eq_none.mpr fun hm => absurd (hmin k hm) (by omega)
      · rfl
    · have : (byNonce items).filter (fun tx => decide (tx.Nonce < threshold)) = [] := by
        apply List.filter_eq_nil_iff.mpr
        intro tx htx
        rw [mem_byNonce, mem_txsOf_iff hv.keyed] at htx
        have := hmin tx.Nonce (AList.lookup_isSome.mp (by simp [htx]))
        simp only [decide_eq_true_eq]
        omega
      simp [this]

/-- nonce の順の列で `threshold` より小さい nonce は前にまとまるので、残りは前を削った列。 -/
theorem filter_not_lt_eq_drop (threshold : Nat) :
    ∀ {l : List Transaction}, l.Pairwise NonceLt →
      l.filter (fun tx => !decide (tx.Nonce < threshold)) =
        l.drop (l.filter fun tx => decide (tx.Nonce < threshold)).length
  | [], _ => rfl
  | tx :: l, h => by
    obtain ⟨hlt, hl⟩ := List.pairwise_cons.mp h
    by_cases htx : tx.Nonce < threshold
    · simp [htx, filter_not_lt_eq_drop threshold hl]
    · -- 先頭が `threshold` 以上なら、後ろはみな `threshold` 以上
      have hall : ∀ t ∈ l, ¬ t.Nonce < threshold := fun t ht => by
        have : tx.Nonce < t.Nonce := hlt t ht
        omega
      have hnil : l.filter (fun tx => decide (tx.Nonce < threshold)) = [] :=
        List.filter_eq_nil_iff.mpr fun t ht => by simpa using hall t ht
      have hself : l.filter (fun tx => !decide (tx.Nonce < threshold)) = l :=
        List.filter_eq_self.mpr fun t ht => by simpa using hall t ht
      simp [htx, hnil, hself]

theorem Forward_spec (hv : m.Valid) (threshold : Nat) :
    (∀ k, (m.Forward threshold).1.items.lookup k =
        if k < threshold then none else m.items.lookup k) ∧
      (m.Forward threshold).2 =
        ((byNonce m.items).filter fun tx => decide (tx.Nonce < threshold)).map some :=
  have h := forwardLoop_spec threshold m.items m.index [] hv.uncache
  ⟨h.2.1, by simpa [TxSortedMap.Forward] using h.2.2⟩

/-- `Forward` は cache の前を、消した数だけ削る。 -/
theorem Valid.Forward (hv : m.Valid) (threshold : Nat) : (m.Forward threshold).1.Valid := by
  obtain ⟨hvr, hl, hr⟩ := forwardLoop_spec threshold m.items m.index [] hv.uncache
  refine ⟨hvr.keyed, hvr.index, hvr.heap, fun c hc => ?_⟩
  simp only [TxSortedMap.Forward, Option.map_eq_some_iff] at hc
  obtain ⟨c0, hc0, rfl⟩ := hc
  rw [hv.cache c0 hc0, hr, List.nil_append, List.length_map,
    ← filter_not_lt_eq_drop threshold (byNonce_sorted hv.keyed)]
  refine (byNonce_restrict hv.keyed (fun k => decide (k < threshold)) fun k => ?_).symm
  simp only [TxSortedMap.Forward, hl k, decide_eq_true_eq]

/-! ## `Ready` -/

theorem readyLoop_nil (next : Nat) (items : GoMap Nat Transaction)
    (ready : List (Option Transaction)) :
    readyLoop next items [] ready = (items, [], ready) := by
  rw [readyLoop]

theorem readyLoop_of_eq (top : Nat) (items : GoMap Nat Transaction) (rest : List Nat)
    (ready : List (Option Transaction)) :
    readyLoop top items (top :: rest) ready =
      readyLoop (top + 1) (items.erase top) (GoHeap.pop (top :: rest)).1
        (ready ++ [items.lookup top]) := by
  rw [readyLoop, if_pos rfl]

theorem readyLoop_of_ne {next top : Nat} (h : ¬ top = next) (items : GoMap Nat Transaction)
    (rest : List Nat) (ready : List (Option Transaction)) :
    readyLoop next items (top :: rest) ready = (items, top :: rest, ready) := by
  rw [readyLoop, if_neg h]

/-- `Ready` の loop は、map の nonce がみな `next` 以上なら、`next` から連続する最長の並びを
消し、その取引を nonce の順に積む。 -/
theorem readyLoop_spec (next : Nat) (items : GoMap Nat Transaction) (index : List Nat)
    (ready : List (Option Transaction)) (hv : (⟨items, index, none⟩ : TxSortedMap).Valid)
    (hmin : ∀ k ∈ items, next ≤ k) :
    ∃ len, MaximalRun items next len ∧
      (readyLoop next items index ready).2.2 = ready ++ (List.range' next len).map items.lookup ∧
      (∀ k, (readyLoop next items index ready).1.lookup k =
        if next ≤ k ∧ k < next + len then none else items.lookup k) ∧
      (⟨(readyLoop next items index ready).1, (readyLoop next items index ready).2.1,
        none⟩ : TxSortedMap).Valid := by
  induction next, items, index, ready using readyLoop.induct with
  | case1 next items ready =>
    rw [readyLoop_nil]
    refine ⟨0, .zero (AList.lookup_eq_none.mp (hv.lookup_of_nil rfl next)), by simp,
      fun k => ?_, hv⟩
    rw [if_neg (by omega)]
  | case2 items ready top rest ih =>
    obtain ⟨-, hv'⟩ := hv.pop rfl
    dsimp only at hv'
    -- 根を消した map の nonce は `top + 1` 以上
    have hmin' : ∀ k ∈ items.erase top, top + 1 ≤ k := fun k hk => by
      obtain ⟨hne, hk⟩ := AList.mem_erase.mp hk
      have := hmin k hk
      omega
    obtain ⟨len, ⟨hrun, hend⟩, hr, hl, hvr⟩ := ih hv' hmin'
    rw [readyLoop_of_eq]
    refine ⟨len + 1, ⟨fun j hj => ?_, ?_⟩, ?_, fun k => ?_, hvr⟩
    · cases j with
      | zero => exact hv.root_mem rfl
      | succ j =>
        have := (AList.mem_erase.mp (hrun j (by omega))).2
        rwa [show top + (j + 1) = top + 1 + j by omega]
    · rw [show top + (len + 1) = top + 1 + len by omega]
      exact fun h => hend (AList.mem_erase.mpr ⟨by omega, h⟩)
    · rw [hr, List.range'_succ, List.map_cons, List.append_assoc, List.singleton_append]
      congr 2
      apply List.map_congr_left
      intro k hk
      exact AList.lookup_erase_ne (by simp [List.mem_range'] at hk; omega)
    · rw [hl k]
      by_cases hk : k = top
      · subst hk
        rw [if_neg (by omega), if_pos (by omega), AList.lookup_erase]
      · have hiff : (top + 1 ≤ k ∧ k < top + 1 + len) ↔ (top ≤ k ∧ k < top + (len + 1)) := by
          omega
        simp only [hiff, AList.lookup_erase_ne hk]
  | case3 next items ready top rest hne =>
    rw [readyLoop_of_ne hne]
    -- 根は最小の nonce なので、`next` は map に無い
    have hnext : next ∉ items := fun h =>
      hne (Nat.le_antisymm (hv.root_le rfl h) (hmin top (hv.root_mem rfl)))
    refine ⟨0, .zero hnext, by simp, fun k => ?_, hv⟩
    rw [if_neg (by omega)]

/-- 最小の nonce が `start` より大きければ、`Ready(start)` は何もしない。 -/
theorem Ready_of_lt (hv : m.Valid) {start : Nat} (h : ∀ k ∈ m.items, start < k) :
    m.Ready start = (m, []) := by
  cases hi : m.index with
  | nil => simp [TxSortedMap.Ready, hi]
  | cons top rest =>
    have := h top (hv.root_mem hi)
    simp [TxSortedMap.Ready, hi, this]

/-- 最小の nonce `k` が `start` 以下なら、`Ready(start)` は `k` から連続する最長の並びを消して、
nonce の順に返す。 -/
theorem Ready_run (hv : m.Valid) {start k : Nat} (hk : k ∈ m.items)
    (hmin : ∀ k' ∈ m.items, k ≤ k') (hks : k ≤ start) :
    ∃ len, MaximalRun m.items k len ∧
      (m.Ready start).2 = (List.range' k len).map m.items.lookup ∧
      ∀ n, (m.Ready start).1.items.lookup n =
        if k ≤ n ∧ n < k + len then none else m.items.lookup n := by
  obtain ⟨top, rest, hi⟩ := List.exists_cons_of_ne_nil fun h : m.index = [] => by
    simpa [h] using hv.mem_index.mpr hk
  -- heap の根が最小の nonce
  have htop : top = k := Nat.le_antisymm (hv.root_le hi hk) (hmin top (hv.root_mem hi))
  subst htop
  obtain ⟨len, hrun, hr, hl, -⟩ := readyLoop_spec top m.items m.index [] hv.uncache hmin
  refine ⟨len, hrun, ?_, fun n => ?_⟩
  · simp only [TxSortedMap.Ready, hi, if_neg (Nat.not_lt.mpr hks)] at hr ⊢
    simpa using hr
  · simp only [TxSortedMap.Ready, hi, if_neg (Nat.not_lt.mpr hks)] at hl ⊢
    exact hl n

theorem Valid.Ready (hv : m.Valid) (start : Nat) : (m.Ready start).1.Valid := by
  cases hi : m.index with
  | nil => simp only [TxSortedMap.Ready, hi]; exact hv
  | cons top rest =>
    by_cases hs : top > start
    · simp only [TxSortedMap.Ready, hi, hs, if_true]; exact hv
    · have hmin : ∀ k ∈ m.items, top ≤ k := fun k hk => hv.root_le hi hk
      obtain ⟨-, -, -, -, hvr⟩ := readyLoop_spec top m.items m.index [] hv.uncache hmin
      simp only [TxSortedMap.Ready, hi, hs, if_false] at hvr ⊢
      exact hvr

/-! ## `Cap` -/

theorem length_byNonce (items : GoMap Nat Transaction) :
    (byNonce items).length = items.keys.length := by
  rw [(byNonce_perm items).length_eq, txsOf, List.length_map, AList.keys, List.keys, List.length_map]

theorem nodup_nonces {items : GoMap Nat Transaction} (hk : NonceKeyed items) :
    ((byNonce items).map Transaction.Nonce).Nodup :=
  List.pairwise_map.mpr ((byNonce_sorted hk).imp fun h => Nat.ne_of_lt h)

/-- `sort.Sort` で並べた heap は、`byNonce` の nonce の列。 -/
theorem Valid.sorted_index (hv : m.Valid) :
    m.index.mergeSort (· ≤ ·) = (byNonce m.items).map Transaction.Nonce := by
  have hs : (m.index.mergeSort (· ≤ ·)).Pairwise fun a b => decide (a ≤ b) = true :=
    List.pairwise_mergeSort (fun a b c hab hbc => by simp at *; omega) (fun a b => by simp; omega) _
  have hb : ((byNonce m.items).map Transaction.Nonce).Pairwise fun a b => decide (a ≤ b) = true :=
    List.pairwise_map.mpr ((byNonce_sorted hv.keyed).imp fun h => by simpa using Nat.le_of_lt h)
  have hp : List.Perm (m.index.mergeSort (· ≤ ·)) ((byNonce m.items).map Transaction.Nonce) := by
    refine (List.mergeSort_perm _ _).trans (hv.index.trans ?_)
    rw [← map_nonce_txsOf hv.keyed]
    exact ((byNonce_perm m.items).map _).symm
  exact List.Perm.eq_of_pairwise (fun a b _ _ hab hba => Nat.le_antisymm (by simpa using hab)
    (by simpa using hba)) hs hb hp

/-- `Cap` の loop は、並べた nonce の `threshold` 番目から `size - 1` 番目までを後ろから落とす。 -/
theorem capLoop_spec {sorted : List Nat} (hnd : sorted.Nodup) (threshold : Nat) :
    ∀ (size : Nat) (items : GoMap Nat Transaction) (drops : List (Option Transaction)),
      size ≤ sorted.length →
      (∀ k, (capLoop sorted threshold size items drops).1.lookup k =
        if k ∈ (sorted.take size).drop threshold then none else items.lookup k) ∧
      (capLoop sorted threshold size items drops).2 =
        drops ++ ((sorted.take size).drop threshold).reverse.map items.lookup
  | 0, items, drops, _ => by simp [capLoop]
  | size + 1, items, drops, hs => by
    by_cases hth : size + 1 > threshold
    · set x := sorted.getD size 0 with hx
      obtain ⟨hl, hd⟩ := capLoop_spec hnd threshold size (items.erase x)
        (drops ++ [items.lookup x]) (by omega)
      -- 落とす並びは `x` の分だけ伸び、`x` はそれまでの並びに無い
      have htake : sorted.take (size + 1) = sorted.take size ++ [x] := by
        rw [List.take_add_one, List.getElem?_eq_getElem (by omega), hx,
          List.getD_eq_getElem?_getD, List.getElem?_eq_getElem (by omega)]
        rfl
      have hdrop : (sorted.take (size + 1)).drop threshold =
          (sorted.take size).drop threshold ++ [x] := by
        rw [htake, List.drop_append_of_le_length (by simp; omega)]
      have hnotin : x ∉ (sorted.take size).drop threshold := by
        have hnd' : (sorted.take size ++ [x]).Nodup := htake ▸ (List.take_sublist _ _).nodup hnd
        exact fun h => (List.nodup_append.mp hnd').2.2 x (List.mem_of_mem_drop h) x
          (List.mem_singleton_self x) rfl
      simp only [capLoop, if_pos hth]
      refine ⟨fun k => ?_, ?_⟩
      · rw [hl k, hdrop]
        by_cases hk : k = x
        · subst hk; simp [hnotin]
        · simp [hk, AList.lookup_erase_ne hk]
      · rw [hd, hdrop, List.reverse_append, List.map_append, List.append_assoc]
        simp only [List.reverse_singleton, List.map_cons, List.map_nil, List.singleton_append]
        congr 2
        apply List.map_congr_left
        intro d hd
        exact AList.lookup_erase_ne fun h => hnotin (h ▸ List.mem_reverse.mp hd)
    · have hnil : (sorted.take (size + 1)).drop threshold = [] :=
        List.drop_eq_nil_of_le (by simp; omega)
      simp [capLoop, hth, hnil]

/-- 数が `threshold` を超えていれば、`Cap(threshold)` は nonce の大きい方から `len - threshold`
個を落とし、大きい順に返す。 -/
theorem Cap_spec (hv : m.Valid) {threshold : Nat} (h : threshold < m.Len) :
    (m.Cap threshold).2 = ((byNonce m.items).drop threshold).reverse.map some ∧
      ∀ k, (m.Cap threshold).1.items.lookup k =
        if k ∈ ((byNonce m.items).drop threshold).map Transaction.Nonce then none
        else m.items.lookup k := by
  have hlen : ((byNonce m.items).map Transaction.Nonce).length = m.items.keys.length := by
    rw [List.length_map, length_byNonce]
  obtain ⟨hl, hd⟩ := capLoop_spec (nodup_nonces hv.keyed) threshold m.items.keys.length m.items []
    hlen.ge
  have hnot : ¬ m.items.keys.length ≤ threshold := by
    simp only [Len] at h
    omega
  rw [List.take_of_length_le hlen.le, ← List.map_drop] at hl hd
  simp only [TxSortedMap.Cap, if_neg hnot, hv.sorted_index]
  refine ⟨?_, hl⟩
  rw [hd, List.nil_append, ← List.map_reverse, List.map_map]
  apply List.map_congr_left
  intro tx htx
  have hmem : tx ∈ byNonce m.items := List.mem_of_mem_drop (List.mem_reverse.mp htx)
  exact (mem_txsOf_iff hv.keyed).mp (mem_byNonce.mp hmem)

/-- nonce の重複しない列から、後ろの nonce の取引を除けば前が残る。 -/
theorem filter_not_mem_drop {l : List Transaction} (hnd : (l.map Transaction.Nonce).Nodup)
    (n : Nat) :
    l.filter (fun tx => !decide (tx.Nonce ∈ (l.drop n).map Transaction.Nonce)) = l.take n := by
  have hdisj : ∀ t ∈ l.take n, t.Nonce ∉ (l.drop n).map Transaction.Nonce := by
    rw [← List.take_append_drop n l, List.map_append] at hnd
    intro t ht hd
    exact (List.nodup_append.mp hnd).2.2 _ (List.mem_map_of_mem ht) _ (by simpa using hd) rfl
  have hsplit := congrArg
    (List.filter fun tx : Transaction => !decide (tx.Nonce ∈ (l.drop n).map Transaction.Nonce))
    (List.take_append_drop n l).symm
  have htake : (l.take n).filter
      (fun tx => !decide (tx.Nonce ∈ (l.drop n).map Transaction.Nonce)) = l.take n :=
    List.filter_eq_self.mpr fun t ht => by simpa using hdisj t ht
  have hdrop : (l.drop n).filter
      (fun tx => !decide (tx.Nonce ∈ (l.drop n).map Transaction.Nonce)) = [] :=
    List.filter_eq_nil_iff.mpr fun t ht => by simpa using List.mem_map_of_mem ht
  rw [hsplit, List.filter_append, htake, hdrop, List.append_nil]

/-- `Cap` は heap を残りの nonce で作り直し、cache の後ろを落とした数だけ削る。 -/
theorem Valid.Cap (hv : m.Valid) (threshold : Nat) : (m.Cap threshold).1.Valid := by
  by_cases hle : m.items.keys.length ≤ threshold
  · simp only [TxSortedMap.Cap, if_pos hle]; exact hv
  · have hlt : threshold < m.Len := by simp only [Len]; omega
    obtain ⟨hd, hl⟩ := Cap_spec hv hlt
    have hkeyed : NonceKeyed (m.Cap threshold).1.items := hv.keyed.mono
      (subMap_of_restrict (fun k => decide (k ∈ ((byNonce m.items).drop threshold).map
        Transaction.Nonce)) fun k => by simp only [hl k, decide_eq_true_eq])
    -- 残る取引は `byNonce` の先頭 `threshold` 個
    have hrest : byNonce (m.Cap threshold).1.items = (byNonce m.items).take threshold := by
      rw [byNonce_restrict hv.keyed
        (fun k => decide (k ∈ ((byNonce m.items).drop threshold).map Transaction.Nonce))
        fun k => by simp only [hl k, decide_eq_true_eq]]
      exact filter_not_mem_drop (nodup_nonces hv.keyed) threshold
    have hlen := length_byNonce m.items
    have hidx : (m.Cap threshold).1.index =
        GoHeap.init (((byNonce m.items).map Transaction.Nonce).take threshold) := by
      simp only [TxSortedMap.Cap, if_neg hle, hv.sorted_index]
    refine ⟨hkeyed, ?_, hidx ▸ (init_spec _).1, fun c hc => ?_⟩
    · rw [hidx]
      refine (init_spec _).2.trans ?_
      rw [← map_nonce_txsOf hkeyed, ← List.map_take, ← hrest]
      exact (byNonce_perm _).map _
    · simp only [TxSortedMap.Cap, if_neg hle, Option.map_eq_some_iff] at hc
      obtain ⟨c0, hc0, rfl⟩ := hc
      rw [hv.cache c0 hc0, hrest]
      have : (m.Cap threshold).2.length = (byNonce m.items).length - threshold := by
        simp [hd]
      simp only [TxSortedMap.Cap, if_neg hle] at this
      rw [this]
      congr 1
      omega

/-! ## `Flatten` -/

/-- `Flatten` は map の取引を nonce の順に返し、それを cache に持つ。 -/
theorem Flatten_spec (hv : m.Valid) : m.Flatten.1.Valid ∧ m.Flatten.2 = byNonce m.items := by
  cases hc : m.cache with
  | none =>
    simp only [TxSortedMap.Flatten, flatten, hc]
    exact ⟨⟨hv.keyed, hv.index, hv.heap, fun c h => (Option.some.inj h).symm⟩, rfl⟩
  | some c =>
    simp only [TxSortedMap.Flatten, flatten, hc]
    exact ⟨hv, hv.cache c hc⟩

/-! ## 取引を消すだけの呼び出し -/

/-- nonce で決まる条件は、key で決まる。 -/
theorem any_nonce {items : GoMap Nat Transaction} (hk : NonceKeyed items) (k : Nat)
    (p : Nat → Bool) : (items.lookup k).any (fun tx => p tx.Nonce) = ((items.lookup k).isSome && p k) := by
  cases hl : items.lookup k with
  | none => rfl
  | some tx => simp [hk k tx hl]

/-- nonce が `b` より大きい取引を消した map に残る key は、`b` 以下の key。 -/
theorem mem_restrict_nonce_gt {items items' : GoMap Nat Transaction} (hk : NonceKeyed items)
    {b : Nat} (h : ∀ k, items'.lookup k =
      if (items.lookup k).any (fun tx => decide (tx.Nonce > b)) then none else items.lookup k)
    (k : Nat) : k ∈ items' ↔ k ∈ items ∧ k ≤ b := by
  rw [mem_of_restrict h, any_nonce hk k fun n => decide (n > b)]
  by_cases hkm : k ∈ items
  · rw [AList.lookup_isSome.mpr hkm, Bool.true_and, decide_eq_false_iff_not]
    simp [hkm]
  · simp [hkm]

theorem mem_Remove (m : TxSortedMap) (nonce k : Nat) :
    k ∈ (m.Remove nonce).1.items ↔ k ∈ m.items ∧ k ≠ nonce := by
  have h : ∀ k, (m.Remove nonce).1.items.lookup k =
      if decide (k = nonce) then none else m.items.lookup k := fun k => by
    simp only [lookup_Remove, decide_eq_true_eq]
  rw [mem_of_restrict h]
  simp

theorem Flatten_items (m : TxSortedMap) : m.Flatten.1.items = m.items := by
  cases hc : m.cache <;> simp [TxSortedMap.Flatten, flatten, hc]

theorem Filter_of_nil (m : TxSortedMap) (f : Transaction → Bool) (h : (m.Filter f).2 = []) :
    (m.Filter f).1 = m := by
  have h' : (m.filter f).2 = [] := h
  simp only [TxSortedMap.Filter, h', if_true]
  exact filter_of_nil m f h'

theorem Forward_sub (hv : m.Valid) (threshold : Nat) :
    SubMap (m.Forward threshold).1.items m.items :=
  subMap_of_restrict (fun k => decide (k < threshold)) fun k => by
    simp only [(Forward_spec hv threshold).1 k, decide_eq_true_eq]

theorem filter_sub (m : TxSortedMap) (f : Transaction → Bool) :
    SubMap (m.filter f).1.items m.items :=
  subMap_of_restrict _ (lookup_filter m f)

theorem Filter_sub (m : TxSortedMap) (f : Transaction → Bool) :
    SubMap (m.Filter f).1.items m.items :=
  subMap_of_restrict _ (lookup_Filter m f)

theorem Remove_sub (m : TxSortedMap) (nonce : Nat) : SubMap (m.Remove nonce).1.items m.items :=
  subMap_of_restrict (fun k => decide (k = nonce)) fun k => by
    simp only [lookup_Remove, decide_eq_true_eq]

theorem Cap_sub (hv : m.Valid) (threshold : Nat) : SubMap (m.Cap threshold).1.items m.items := by
  by_cases hle : m.items.keys.length ≤ threshold
  · simp only [TxSortedMap.Cap, if_pos hle]
    exact SubMap.refl _
  · have hlt : threshold < m.Len := by simp only [Len]; omega
    exact subMap_of_restrict (fun k => decide (k ∈ ((byNonce m.items).drop threshold).map
      Transaction.Nonce)) fun k => by simp only [(Cap_spec hv hlt).2 k, decide_eq_true_eq]

theorem Ready_sub (hv : m.Valid) (start : Nat) : SubMap (m.Ready start).1.items m.items := by
  cases hi : m.index with
  | nil =>
    simp only [TxSortedMap.Ready, hi]
    exact SubMap.refl _
  | cons top rest =>
    by_cases hs : top > start
    · simp only [TxSortedMap.Ready, hi, hs, if_true]
      exact SubMap.refl _
    · obtain ⟨len, -, -, hl, -⟩ :=
        readyLoop_spec top m.items m.index [] hv.uncache fun k hk => hv.root_le hi hk
      simp only [TxSortedMap.Ready, hi, hs, if_false] at hl ⊢
      exact subMap_of_restrict (fun k => decide (top ≤ k ∧ k < top + len)) fun k => by
        simp only [hl k, decide_eq_true_eq]

/-! ## 呼び出しの列 -/

theorem newTxSortedMap_valid : newTxSortedMap.Valid where
  keyed k tx h := by simp [newTxSortedMap] at h
  index := by simp [newTxSortedMap]
  heap c hc := by simp [newTxSortedMap] at hc
  cache := by simp [newTxSortedMap]

/-- どの呼び出しも `Valid` を保つ。 -/
theorem Valid.apply (hv : m.Valid) : ∀ k : SortedMapCall, (k.apply m).Valid
  | .Put tx => hv.Put tx
  | .Forward threshold => hv.Forward threshold
  | .Filter f => hv.Filter f
  | .filterReheap f => Valid.reheap (keyed_filter hv.keyed f)
  | .Cap threshold => hv.Cap threshold
  | .Remove nonce => hv.Remove nonce
  | .Ready start => hv.Ready start
  | .Flatten => (Flatten_spec hv).1

theorem Valid.applyAll : ∀ {m : TxSortedMap} (calls : List SortedMapCall), m.Valid →
    (m.applyAll calls).Valid
  | _, [], hv => hv
  | _, k :: calls, hv => Valid.applyAll calls (hv.apply k)

end TxSortedMap

end Core
