import Bullions.Core.Properties.TxSortedMap

/-!
# `txList` の上限の目安と、strict の列の連続

`TxList.Valid`：取引の map は `TxSortedMap.Valid`、`costcap`・`gascap` はどの取引の値段と gas
以上。`Add` は目安を上げ、`Filter` は目安を限度に下げて限度を超える取引を消し、ほかの呼び出しは
取引を消すだけなので、どれもこれを保つ。

そのため `Filter` の近道（目安が両方とも限度の内なら何もしない）は、限度を超える取引が無いとき
にだけ取られる：`Filter` が返す消した取引は、いつも限度を超える取引のちょうど全部
（`Filter_removed_exceeding`）。

strict の `txList` では、`Filter` は消した中で最小の nonce より後ろを、`Remove` は消した nonce
より後ろを消す。残る nonce は前の方だけなので、穴の無い並びは穴の無いまま。
-/

namespace Core

open TxSortedMap

/-- gas か値段が限度を超える：`txList.Filter` が消す取引。 -/
def Exceeds (costLimit gasLimit : Nat) (tx : Transaction) : Bool :=
  decide (tx.Gas > gasLimit) || decide (tx.Cost > costLimit)

/-- map の nonce に穴が無い。 -/
def Contiguous (items : GoMap Nat Transaction) : Prop :=
  ∀ a c, a ∈ items → c ∈ items → ∀ b, a ≤ b → b ≤ c → b ∈ items

/-- 穴の無い並びの、ある nonce より前だけを残しても穴は無い。 -/
theorem Contiguous.of_below {items items' : GoMap Nat Transaction} (hc : Contiguous items)
    (bound : Nat) (h : ∀ k, k ∈ items' ↔ k ∈ items ∧ k < bound) : Contiguous items' := by
  intro a c ha hc' b hab hbc
  obtain ⟨ha, -⟩ := (h a).mp ha
  obtain ⟨hc', hcb⟩ := (h c).mp hc'
  exact (h b).mpr ⟨hc a c ha hc' b hab hbc, by omega⟩

/-- `lowest` の loop の値は、初めの値と列の nonce の最小。 -/
theorem foldl_lowest : ∀ (txs : List Transaction) (lo : Nat),
    (txs.foldl (fun lo tx => if lo > tx.Nonce then tx.Nonce else lo) lo = lo ∨
      ∃ tx ∈ txs, txs.foldl (fun lo tx => if lo > tx.Nonce then tx.Nonce else lo) lo = tx.Nonce) ∧
    txs.foldl (fun lo tx => if lo > tx.Nonce then tx.Nonce else lo) lo ≤ lo ∧
    ∀ tx ∈ txs, txs.foldl (fun lo tx => if lo > tx.Nonce then tx.Nonce else lo) lo ≤ tx.Nonce
  | [], lo => by simp
  | tx :: txs, lo => by
    simp only [List.foldl_cons, List.mem_cons, forall_eq_or_imp, exists_eq_or_imp]
    have hval' : (if lo > tx.Nonce then tx.Nonce else lo) = tx.Nonce ∨
        (if lo > tx.Nonce then tx.Nonce else lo) = lo := by
      split_ifs <;> simp
    have hle' : (if lo > tx.Nonce then tx.Nonce else lo) ≤ lo ∧
        (if lo > tx.Nonce then tx.Nonce else lo) ≤ tx.Nonce := by
      split_ifs <;> omega
    obtain ⟨hval, hle, hall⟩ := foldl_lowest txs (if lo > tx.Nonce then tx.Nonce else lo)
    generalize (if lo > tx.Nonce then tx.Nonce else lo) = lo' at hval' hle' hval hle hall ⊢
    refine ⟨?_, by omega, by omega, hall⟩
    rcases hval with hval | hval
    · rcases hval' with h | h
      · exact .inr (.inl (hval.trans h))
      · exact .inl (hval.trans h)
    · exact .inr (.inr hval)

/-- 消した取引が一つでもあれば、`lowest` はその中の最小の nonce。 -/
theorem lowest_spec {txs : List Transaction} (hne : txs ≠ []) :
    (∃ tx ∈ txs, txs.foldl (fun lo tx => if lo > tx.Nonce then tx.Nonce else lo) (2 ^ 64 - 1) =
      tx.Nonce) ∧
    ∀ tx ∈ txs, txs.foldl (fun lo tx => if lo > tx.Nonce then tx.Nonce else lo) (2 ^ 64 - 1) ≤
      tx.Nonce := by
  obtain ⟨hval, hle, hall⟩ := foldl_lowest txs (2 ^ 64 - 1)
  refine ⟨?_, hall⟩
  rcases hval with hval | hval
  · -- 初めの値 `MaxUint64` は、どの nonce より小さくない
    obtain ⟨tx, htx⟩ := List.exists_mem_of_ne_nil txs hne
    have hlt : tx.Nonce < 2 ^ 64 := UInt64.toNat_lt tx.AccountNonce
    exact ⟨tx, htx, by have := hall tx htx; omega⟩
  · exact hval

namespace TxList

/-- `txList` の不変条件：取引の map は `Valid`、上限の目安はどの取引の値段と gas 以上。 -/
structure Valid (l : TxList) : Prop where
  txs : l.txs.Valid
  caps : ∀ tx ∈ txsOf l.txs.items, tx.Cost ≤ l.costcap ∧ tx.Gas ≤ l.gascap

variable {l : TxList}

/-- 取引を消すだけなら、目安はそのまま上限。 -/
theorem Valid.shrink (hv : l.Valid) {t : TxSortedMap} (ht : t.Valid)
    (hsub : SubMap t.items l.txs.items) : ({ l with txs := t } : TxList).Valid :=
  ⟨ht, fun tx htx => hv.caps tx (hsub.txsOf_subset htx)⟩

theorem newTxList_valid (strict : Bool) : (newTxList strict).Valid :=
  ⟨newTxSortedMap_valid, fun tx htx => by simp [newTxList, newTxSortedMap, txsOf] at htx⟩

/-- `Add` は入れた取引の値段と gas まで目安を上げる。 -/
theorem Valid.Add (hv : l.Valid) (tx : Transaction) (priceBump : Nat) :
    (l.Add tx priceBump).1.Valid := by
  simp only [TxList.Add]
  split_ifs
  · exact hv
  · refine ⟨hv.txs.Put tx, fun t ht => ?_⟩
    obtain ⟨k, hk⟩ := mem_txsOf.mp ht
    rw [lookup_Put] at hk
    split_ifs at hk
    · cases hk
      exact ⟨le_max_right _ _, le_max_right _ _⟩
    · obtain ⟨hc, hg⟩ := hv.caps t (mem_txsOf.mpr ⟨k, hk⟩)
      exact ⟨le_trans hc (le_max_left _ _), le_trans hg (le_max_left _ _)⟩

theorem Valid.Forward (hv : l.Valid) (threshold : Nat) : (l.Forward threshold).1.Valid :=
  hv.shrink (hv.txs.Forward threshold) (Forward_sub hv.txs threshold)

theorem Valid.Cap (hv : l.Valid) (threshold : Nat) : (l.Cap threshold).1.Valid :=
  hv.shrink (hv.txs.Cap threshold) (Cap_sub hv.txs threshold)

theorem Valid.Ready (hv : l.Valid) (start : Nat) : (l.Ready start).1.Valid :=
  hv.shrink (hv.txs.Ready start) (Ready_sub hv.txs start)

theorem Valid.Flatten (hv : l.Valid) : l.Flatten.1.Valid :=
  hv.shrink (Flatten_spec hv.txs).1 fun k tx h => by rwa [Flatten_items] at h

theorem Valid.Remove (hv : l.Valid) (tx : Transaction) : (l.Remove tx).1.Valid := by
  by_cases hf : (l.txs.Remove tx.Nonce).2 = true
  · by_cases hs : l.strict = true
    · simp only [TxList.Remove, hf, not_true_eq_false, if_false]
      rw [if_pos hs]
      exact hv.shrink ((hv.txs.Remove _).Filter _) ((Filter_sub _ _).trans (Remove_sub _ _))
    · simp only [TxList.Remove, hf, not_true_eq_false, if_false]
      rw [if_neg hs]
      exact hv.shrink (hv.txs.Remove _) (Remove_sub _ _)
  · simp only [TxList.Remove, hf, Bool.false_eq_true, not_false_eq_true, if_true]
    exact hv

/-! ## `Filter` -/

/-- `Filter` の後に残る取引は限度の内。 -/
theorem Filter_within (m : TxSortedMap) (costLimit gasLimit : Nat) :
    ∀ tx ∈ txsOf (m.Filter (Exceeds costLimit gasLimit)).1.items,
      tx.Cost ≤ costLimit ∧ tx.Gas ≤ gasLimit := by
  intro tx htx
  obtain ⟨k, hk⟩ := mem_txsOf.mp htx
  rw [lookup_Filter] at hk
  split_ifs at hk with hany
  simp only [hk, Option.any_some, Exceeds, Bool.or_eq_true, decide_eq_true_eq, not_or] at hany
  omega

/-- 上限の目安が限度の内なら、限度を超える取引は無い。 -/
theorem Valid.none_exceed (hv : l.Valid) {costLimit gasLimit : Nat}
    (h : l.costcap ≤ costLimit ∧ l.gascap ≤ gasLimit) :
    (txsOf l.txs.items).filter (Exceeds costLimit gasLimit) = [] := by
  apply List.filter_eq_nil_iff.mpr
  intro tx htx
  have := hv.caps tx htx
  simp only [Exceeds, Bool.or_eq_true, decide_eq_true_eq, not_or]
  omega

theorem Valid.Filter (hv : l.Valid) (costLimit gasLimit : Nat) :
    (l.Filter costLimit gasLimit).1.Valid := by
  have hF := hv.txs.Filter (Exceeds costLimit gasLimit)
  have hw := Filter_within l.txs costLimit gasLimit
  simp only [TxList.Filter]
  split_ifs
  · exact hv
  · exact ⟨hF, hw⟩
  · -- strict：さらに `lowest` より後ろを消して heap を作り直す
    refine ⟨Valid.reheap (keyed_filter hF.keyed _), fun tx htx => ?_⟩
    exact hw tx ((filter_sub _ _).txsOf_subset htx)
  · exact ⟨Valid.reheap hF.keyed, hw⟩

/-- `Filter` が返す消した取引は、限度を超える取引のちょうど全部。近道を取るのは、それが無い
ときだけ。 -/
theorem Filter_removed_exceeding (hv : l.Valid) (costLimit gasLimit : Nat) :
    (l.Filter costLimit gasLimit).2.1 = (txsOf l.txs.items).filter (Exceeds costLimit gasLimit) := by
  have hr := Filter_removed l.txs (Exceeds costLimit gasLimit)
  by_cases hsc : l.costcap ≤ costLimit ∧ l.gascap ≤ gasLimit
  · simp only [TxList.Filter, if_pos hsc]
    exact (hv.none_exceed hsc).symm
  · simp only [TxList.Filter, if_neg hsc]
    split_ifs with h0
    · exact (hr.symm.trans h0).symm
    · exact hr
    · exact hr

/-- strict なら、`Filter` の後も nonce に穴は無い。 -/
theorem Filter_contiguous (hv : l.Valid) (hs : l.strict = true) (costLimit gasLimit : Nat)
    (hc : Contiguous l.txs.items) : Contiguous (l.Filter costLimit gasLimit).1.txs.items := by
  set f := Exceeds costLimit gasLimit
  have hr := Filter_removed l.txs f
  have hF := hv.txs.Filter f
  by_cases hsc : l.costcap ≤ costLimit ∧ l.gascap ≤ gasLimit
  · simp only [TxList.Filter, if_pos hsc]
    exact hc
  simp only [TxList.Filter, if_neg hsc]
  rw [show (fun tx : Transaction => decide (tx.Gas > gasLimit) || decide (tx.Cost > costLimit)) = f
    from rfl]
  by_cases h0 : (l.txs.Filter f).2 = []
  · rw [if_pos h0]
    simp only [Filter_of_nil l.txs f h0]
    exact hc
  obtain ⟨⟨low, hlow, hval⟩, hmin⟩ := lowest_spec h0
  rw [hval] at hmin
  simp only [if_neg h0, hs, if_true, reheap]
  rw [hval]
  rw [hr] at hlow hmin
  obtain ⟨hlowmem, hlowf⟩ := List.mem_filter.mp hlow
  have hlk : l.txs.items.lookup low.Nonce = some low := (mem_txsOf_iff hv.txs.keyed).mp hlowmem
  refine hc.of_below low.Nonce fun k => ?_
  -- 残るのは、限度の内で `low` の nonce 以下の取引：`low` は限度を超えるので、その前
  rw [mem_restrict_nonce_gt hF.keyed (lookup_filter _ _ ·), mem_of_restrict (lookup_Filter _ _ ·)]
  constructor
  · rintro ⟨⟨hk, hkf⟩, hkl⟩
    refine ⟨hk, lt_of_le_of_ne hkl fun he => ?_⟩
    subst he
    simp [hlk, hlowf] at hkf
  · rintro ⟨hk, hkl⟩
    obtain ⟨tx, htx⟩ := Option.isSome_iff_exists.mp (AList.lookup_isSome.mpr hk)
    have hnonce : tx.Nonce = k := hv.txs.keyed k tx htx
    -- `low` より前の取引は、限度を超えていない
    have hf : f tx = false := by
      by_contra hf
      have := hmin tx (List.mem_filter.mpr ⟨(mem_txsOf_iff hv.txs.keyed).mpr (hnonce ▸ htx),
        by simpa using hf⟩)
      omega
    exact ⟨⟨hk, by simp [htx, hf]⟩, by omega⟩

/-- strict なら、`Remove` の後も nonce に穴は無い。 -/
theorem Remove_contiguous (hv : l.Valid) (hs : l.strict = true) (tx : Transaction)
    (hc : Contiguous l.txs.items) : Contiguous (l.Remove tx).1.txs.items := by
  by_cases hf : (l.txs.Remove tx.Nonce).2 = true
  · simp only [TxList.Remove, hf, not_true_eq_false, if_false, hs, if_true]
    -- 残るのは、消した nonce より前の取引
    refine hc.of_below tx.Nonce fun k => ?_
    rw [mem_restrict_nonce_gt (hv.txs.Remove tx.Nonce).keyed (lookup_Filter _ _ ·), mem_Remove]
    constructor
    · rintro ⟨⟨hk, hne⟩, hle⟩
      exact ⟨hk, by omega⟩
    · rintro ⟨hk, hlt⟩
      exact ⟨⟨hk, by omega⟩, by omega⟩
  · simp only [TxList.Remove, hf, Bool.false_eq_true, not_false_eq_true, if_true]
    exact hc

/-! ## 呼び出しの列 -/

/-- どの呼び出しも `strict` を変えない。 -/
theorem strict_apply (l : TxList) : ∀ k : TxListCall, (k.apply l).strict = l.strict
  | .Add tx priceBump => by simp only [TxListCall.apply, TxList.Add]; split_ifs <;> rfl
  | .Forward _ => rfl
  | .Filter costLimit gasLimit => by simp only [TxListCall.apply, TxList.Filter]; split_ifs <;> rfl
  | .Cap _ => rfl
  | .Remove tx => by simp only [TxListCall.apply, TxList.Remove]; split_ifs <;> rfl
  | .Ready _ => rfl
  | .Flatten => rfl

theorem strict_applyAll : ∀ (calls : List TxListCall) (l : TxList),
    (l.applyAll calls).strict = l.strict
  | [], _ => rfl
  | k :: calls, l => (strict_applyAll calls (k.apply l)).trans (strict_apply l k)

theorem Valid.apply (hv : l.Valid) : ∀ k : TxListCall, (k.apply l).Valid
  | .Add tx priceBump => hv.Add tx priceBump
  | .Forward threshold => hv.Forward threshold
  | .Filter costLimit gasLimit => hv.Filter costLimit gasLimit
  | .Cap threshold => hv.Cap threshold
  | .Remove tx => hv.Remove tx
  | .Ready start => hv.Ready start
  | .Flatten => hv.Flatten

theorem Valid.applyAll : ∀ {l : TxList} (calls : List TxListCall), l.Valid → (l.applyAll calls).Valid
  | _, [], hv => hv
  | _, k :: calls, hv => Valid.applyAll calls (hv.apply k)

end TxList

end Core

namespace Core

open TxSortedMap

/-- どの呼び出しの列の後も、`txSortedMap` の heap は map の key をちょうど重複なく heap の順に
持ち、cache があれば map の取引を nonce の順に並べたもの。そのため `Flatten` は map の取引を
nonce の順に狭義に並べて返し、`Ready(start)` は最小の nonce が `start` 以下ならそこから連続する
最長の並びを消して返し（そうでなければ何もしない）、`Cap(n)` は nonce の大きい方から
`len - n` 個を落とす。`txList` の上限の目安はいつもどの取引の値段と gas 以上なので、`Filter` の
近道は限度を超える取引が無いときにだけ取られ、`Filter` が返す消した取引は限度を超える取引の
全部。strict の `txList` では、`Filter` と `Remove` は穴の無い nonce の並びを穴の無いまま残す。 -/
theorem txList_representation_invariant :
    (∀ calls : List SortedMapCall,
      List.Perm (newTxSortedMap.applyAll calls).index (newTxSortedMap.applyAll calls).items.keys ∧
      (newTxSortedMap.applyAll calls).index.Nodup ∧
      GoHeap.IsHeap (newTxSortedMap.applyAll calls).index ∧
      ∀ c, (newTxSortedMap.applyAll calls).cache = some c →
        c = byNonce (newTxSortedMap.applyAll calls).items) ∧
    (∀ calls : List SortedMapCall,
      (newTxSortedMap.applyAll calls).Flatten.2 = byNonce (newTxSortedMap.applyAll calls).items ∧
      (newTxSortedMap.applyAll calls).Flatten.2.Pairwise NonceLt ∧
      ∀ tx, tx ∈ (newTxSortedMap.applyAll calls).Flatten.2 ↔
        ∃ k, (newTxSortedMap.applyAll calls).items.lookup k = some tx) ∧
    (∀ (calls : List SortedMapCall) (start : Nat),
      ((∀ k ∈ (newTxSortedMap.applyAll calls).items, start < k) →
        (newTxSortedMap.applyAll calls).Ready start = (newTxSortedMap.applyAll calls, [])) ∧
      ∀ k ∈ (newTxSortedMap.applyAll calls).items,
        (∀ k' ∈ (newTxSortedMap.applyAll calls).items, k ≤ k') → k ≤ start →
        ∃ len, MaximalRun (newTxSortedMap.applyAll calls).items k len ∧
          ((newTxSortedMap.applyAll calls).Ready start).2 =
            (List.range' k len).map (newTxSortedMap.applyAll calls).items.lookup ∧
          ∀ n, ((newTxSortedMap.applyAll calls).Ready start).1.items.lookup n =
            if k ≤ n ∧ n < k + len then none else (newTxSortedMap.applyAll calls).items.lookup n) ∧
    (∀ (calls : List SortedMapCall) (n : Nat),
      ((newTxSortedMap.applyAll calls).Len ≤ n →
        (newTxSortedMap.applyAll calls).Cap n = (newTxSortedMap.applyAll calls, [])) ∧
      (n < (newTxSortedMap.applyAll calls).Len →
        ((newTxSortedMap.applyAll calls).Cap n).2 =
          ((byNonce (newTxSortedMap.applyAll calls).items).drop n).reverse.map some ∧
        ∀ k, ((newTxSortedMap.applyAll calls).Cap n).1.items.lookup k =
          if k ∈ ((byNonce (newTxSortedMap.applyAll calls).items).drop n).map Transaction.Nonce
          then none else (newTxSortedMap.applyAll calls).items.lookup k)) ∧
    (∀ (strict : Bool) (calls : List TxListCall),
      ∀ tx ∈ txsOf ((newTxList strict).applyAll calls).txs.items,
        tx.Cost ≤ ((newTxList strict).applyAll calls).costcap ∧
        tx.Gas ≤ ((newTxList strict).applyAll calls).gascap) ∧
    (∀ (strict : Bool) (calls : List TxListCall) (costLimit gasLimit : Nat),
      (((newTxList strict).applyAll calls).costcap ≤ costLimit ∧
          ((newTxList strict).applyAll calls).gascap ≤ gasLimit →
        ∀ tx ∈ txsOf ((newTxList strict).applyAll calls).txs.items,
          Exceeds costLimit gasLimit tx = false) ∧
      (((newTxList strict).applyAll calls).Filter costLimit gasLimit).2.1 =
        (txsOf ((newTxList strict).applyAll calls).txs.items).filter
          (Exceeds costLimit gasLimit)) ∧
    (∀ (calls : List TxListCall) (costLimit gasLimit : Nat) (tx : Transaction),
      Contiguous ((newTxList true).applyAll calls).txs.items →
        Contiguous (((newTxList true).applyAll calls).Filter costLimit gasLimit).1.txs.items ∧
        Contiguous (((newTxList true).applyAll calls).Remove tx).1.txs.items) := by
  refine ⟨fun calls => ?_, fun calls => ?_, fun calls start => ?_, fun calls n => ?_,
    fun strict calls => ?_, fun strict calls costLimit gasLimit => ?_,
    fun calls costLimit gasLimit tx hc => ?_⟩
  · have hv := Valid.applyAll calls newTxSortedMap_valid
    exact ⟨hv.index, hv.index.nodup_iff.mpr (AList.keys_nodup _), hv.heap, hv.cache⟩
  · have hv := Valid.applyAll calls newTxSortedMap_valid
    obtain ⟨-, hflat⟩ := Flatten_spec hv
    refine ⟨hflat, hflat ▸ byNonce_sorted hv.keyed, fun tx => ?_⟩
    rw [hflat, mem_byNonce, mem_txsOf]
  · have hv := Valid.applyAll calls newTxSortedMap_valid
    exact ⟨Ready_of_lt hv, fun k hk hmin hks => Ready_run hv hk hmin hks⟩
  · have hv := Valid.applyAll calls newTxSortedMap_valid
    refine ⟨fun hle => ?_, Cap_spec hv⟩
    simp only [Len] at hle
    simp [TxSortedMap.Cap, hle]
  · exact (TxList.Valid.applyAll calls (TxList.newTxList_valid strict)).caps
  · have hv := TxList.Valid.applyAll calls (TxList.newTxList_valid strict)
    refine ⟨fun hsc tx htx => ?_, TxList.Filter_removed_exceeding hv costLimit gasLimit⟩
    simpa using List.filter_eq_nil_iff.mp (hv.none_exceed hsc) tx htx
  · have hv := TxList.Valid.applyAll calls (TxList.newTxList_valid true)
    -- strict は呼び出しで変わらない
    have hs : ((newTxList true).applyAll calls).strict = true :=
      TxList.strict_applyAll calls (newTxList true)
    exact ⟨TxList.Filter_contiguous hv hs costLimit gasLimit hc,
      TxList.Remove_contiguous hv hs tx hc⟩

end Core
