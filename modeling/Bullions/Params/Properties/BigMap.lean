import Bullions.Params.BigMap
import Mathlib

/-!
# 遅れの表は入れる順によらない

`Represents b T` は、差分の表 `b` が総額の表 `T` を表すことを言う：高さの集まりが同じで、
どの高さでも昇順に差分を足すと `T` の総額になる。`SetValueTotalForHeight` の一回はこれを保ち、
`T` の側では高さ `n` の総額を `v` に（あれば大きい方に）する（`Represents.set`）。差分は高さの
昇順に書き戻すので、足すと元の総額に戻る（`sumValuesLoop_writeDeltas`）。

総額の表は入れる順によらないので、同じ高さに二つの総額が無い組をどの順に何度入れても、表は
組そのものになる。そこから `SumValues` と `MapMeetsSpecification` の値が決まる
（`SetValueTotalForHeight_schedule`）。

ただし総額は `uint64` に収まらなければならない。`SumValues` は総額を `uint64` に直し、
`SetValueTotalForHeight` はその値で今ある総額を求め直すので、`2^64` 以上の総額は二度目の
呼び出しで失われる（`SetValueTotalForHeight_drops_high_totals`）。
-/

namespace Ctypes

/-! ## 差分の和 -/

section sums
variable {b b' : Uint64BigMapEncodesHex} {n n' : Nat}

/-- 高さがどれも `n` を超えれば、何も足さない。 -/
theorem sumValuesLoop_of_forall_gt :
    ∀ {L : List Nat} {acc : Int}, (∀ s ∈ L, n < s) → sumValuesLoop b n L acc = acc
  | [], _, _ => rfl
  | s :: L, acc, h => by
    rw [sumValuesLoop, if_pos (h s List.mem_cons_self)]

/-- どこで止まるかを決めるのは、どの高さが `n` 以下かだけである。 -/
theorem sumValuesLoop_congr :
    ∀ {L : List Nat} {acc : Int}, (∀ s ∈ L, s ≤ n ↔ s ≤ n') →
      sumValuesLoop b n L acc = sumValuesLoop b n' L acc
  | [], _, _ => rfl
  | s :: L, acc, h => by
    have hs := h s List.mem_cons_self
    have hL : ∀ s' ∈ L, s' ≤ n ↔ s' ≤ n' := fun s' hs' => h s' (List.mem_cons_of_mem s hs')
    simp only [sumValuesLoop, gt_iff_lt]
    by_cases hsn : s ≤ n
    · rw [if_neg (Nat.not_lt.mpr hsn), if_neg (Nat.not_lt.mpr (hs.mp hsn))]
      exact sumValuesLoop_congr hL
    · rw [if_pos (Nat.lt_of_not_le hsn), if_pos (Nat.lt_of_not_le (mt hs.mpr hsn))]

end sums

/-! ## 差分の書き戻し -/

section writeDeltas
variable (sums : GoMap Nat Int)

theorem writeDeltas_lookup_of_not_mem {s : Nat} :
    ∀ {L : List Nat} {b : Uint64BigMapEncodesHex} {r : Int}, s ∉ L →
      (writeDeltas sums L b r).lookup s = b.lookup s
  | [], _, _, _ => rfl
  | x :: L, b, r, h => by
    simp only [List.mem_cons, not_or] at h
    rw [writeDeltas, writeDeltas_lookup_of_not_mem h.2, AList.lookup_insert_ne h.1]

theorem mem_writeDeltas {k : Nat} :
    ∀ {L : List Nat} {b : Uint64BigMapEncodesHex} {r : Int},
      k ∈ writeDeltas sums L b r ↔ k ∈ L ∨ k ∈ b
  | [], b, r => by simp [writeDeltas]
  | x :: L, b, r => by
    rw [writeDeltas, mem_writeDeltas, AList.mem_insert, List.mem_cons]
    tauto

/-- 書き戻した差分を昇順に足すと、求め直した総額に戻る。帰納法は書き戻す高さの列について：
先頭の高さの差分は後の書き戻しで変わらず、そこまでの和はちょうどその高さの総額になる。 -/
theorem sumValuesLoop_writeDeltas :
    ∀ {L : List Nat} {b : Uint64BigMapEncodesHex} {r : Int}, L.Pairwise (· < ·) →
      ∀ s ∈ L, sumValuesLoop (writeDeltas sums L b r) s L r = (sums.lookup s).getD 0
  | [], _, _, _, s, hs => absurd hs List.not_mem_nil
  | x :: L, b, r, hL, s, hs => by
    obtain ⟨hx, hL⟩ := List.pairwise_cons.mp hL
    have hxL : x ∉ L := fun h => lt_irrefl x (hx x h)
    have hdx : (writeDeltas sums (x :: L) b r).lookup x = some ((sums.lookup x).getD 0 - r) := by
      rw [writeDeltas, writeDeltas_lookup_of_not_mem sums hxL, AList.lookup_insert]
    have hsx : x ≤ s := by
      rcases List.mem_cons.mp hs with rfl | hs
      · exact le_refl _
      · exact le_of_lt (hx s hs)
    rw [sumValuesLoop, if_neg (Nat.not_lt.mpr hsx), hdx, Option.getD_some]
    rcases List.mem_cons.mp hs with rfl | hs
    · rw [sumValuesLoop_of_forall_gt hx]
      omega
    · exact sumValuesLoop_writeDeltas hL s hs

end writeDeltas

/-! ## 総額の表 -/

/-- 高さごとの遅れの総額：`none` は、まだ設定していない高さ。 -/
abbrev Totals := Nat → Option Int

/-- 高さ `n` の総額を `v` にする。既にあれば大きい方を残す。 -/
def Totals.set (T : Totals) (n : Nat) (v : Int) : Totals :=
  fun k => if k = n then some ((T n).elim v fun s => max s v) else T k

theorem Totals.set_isSome (T : Totals) (n k : Nat) (v : Int) :
    (T.set n v k).isSome ↔ k = n ∨ (T k).isSome := by
  unfold Totals.set
  by_cases h : k = n <;> simp [h]

/-- 差分の表 `b` は総額の表 `T` を表す：高さの集まりが同じで、どの高さでも、昇順に差分を
足すと `T` の総額になる。総額は `uint64` に収まる。 -/
structure Represents (b : Uint64BigMapEncodesHex) (T : Totals) : Prop where
  mem_iff : ∀ k, k ∈ b ↔ (T k).isSome
  range : ∀ k t, T k = some t → 0 ≤ t ∧ t < 2 ^ 64
  total : ∀ k t, T k = some t → sumValuesLoop b k (GoMap.sortedKeys b) 0 = t

theorem Represents.empty : Represents ∅ fun _ => none :=
  ⟨fun k => by simp, fun _ _ h => (by simp at h), fun _ _ h => (by simp at h)⟩

/-- `uint64` に収まる総額は、`Uint64()` で変わらない。 -/
theorem bigUint64_of_range {t : Int} (h : 0 ≤ t ∧ t < 2 ^ 64) : (bigUint64 t : Int) = t := by
  unfold bigUint64
  have hlt : t.natAbs < 2 ^ 64 := by omega
  rw [Nat.mod_eq_of_lt hlt]
  omega

section represents
variable {b : Uint64BigMapEncodesHex} {T : Totals}

/-- `h` 以下の一番高い高さ `k` の総額が、`h` での差分の和である。 -/
theorem Represents.sumValuesLoop_eq (hR : Represents b T) {h k : Nat} {t : Int}
    (hk : T k = some t) (hle : k ≤ h) (hmax : ∀ k', (T k').isSome → k' ≤ h → k' ≤ k) :
    sumValuesLoop b h (GoMap.sortedKeys b) 0 = t := by
  rw [← hR.total k t hk]
  apply sumValuesLoop_congr
  intro s hs
  have hsT : (T s).isSome := (hR.mem_iff s).mp (GoMap.mem_sortedKeys.mp hs)
  exact ⟨fun hsh => hmax s hsT hsh, fun hsk => le_trans hsk hle⟩

theorem Represents.sumValuesLoop_eq_zero (hR : Represents b T) {h : Nat}
    (hlt : ∀ k, (T k).isSome → h < k) : sumValuesLoop b h (GoMap.sortedKeys b) 0 = 0 :=
  sumValuesLoop_of_forall_gt fun s hs => hlt s ((hR.mem_iff s).mp (GoMap.mem_sortedKeys.mp hs))

/-- 一回の `SetValueTotalForHeight` は表すものを保ち、総額の表では高さ `n` を `v` にする。 -/
theorem Represents.set (hR : Represents b T) (n : Nat) {v : Int} (hv : 0 ≤ v ∧ v < 2 ^ 64) :
    Represents (SetValueTotalForHeight b (some n) (some v)) (T.set n v) := by
  -- 今ある総額を `SumValues` で求め直した表は、`T` そのもの
  have h0 : ∀ k, (b.keys.foldl (fun sums k => sums.insert k (SumValues b k : Int))
      (∅ : GoMap Nat Int)).lookup k = T k := by
    intro k
    rw [GoMap.lookup_foldl_insert]
    by_cases hk : k ∈ b.keys
    · rw [if_pos hk]
      obtain ⟨t, ht⟩ := Option.isSome_iff_exists.mp ((hR.mem_iff k).mp (AList.mem_keys.mp hk))
      rw [ht, SumValues, hR.total k t ht, bigUint64_of_range (hR.range k t ht)]
    · rw [if_neg hk]
      have hT : ¬(T k).isSome := fun h => hk (AList.mem_keys.mpr ((hR.mem_iff k).mpr h))
      simp only [Option.not_isSome_iff_eq_none] at hT
      rw [hT, AList.lookup_empty]
  -- 高さ `n` を書き換えた表は、`T.set n v`
  set sums0 := b.keys.foldl (fun sums k => sums.insert k (SumValues b k : Int))
    (∅ : GoMap Nat Int) with hsums0
  set sums1 : GoMap Nat Int :=
    (sums0.lookup n).elim (sums0.insert n v) fun s => if s < v then sums0.insert n v else sums0
    with hsums1
  have h1 : ∀ k, sums1.lookup k = T.set n v k := by
    intro k
    rw [hsums1, h0 n]
    unfold Totals.set
    by_cases hkn : k = n
    · subst hkn
      cases hTk : T k with
      | none => simp [AList.lookup_insert]
      | some s =>
        by_cases hsv : s < v
        · simp [hsv, AList.lookup_insert, max_eq_right (le_of_lt hsv)]
        · simp [hsv, h0, hTk, max_eq_left (not_lt.mp hsv)]
    · cases T n with
      | none => simp [hkn, AList.lookup_insert_ne hkn, h0]
      | some s =>
        by_cases hsv : s < v
        · simp [hsv, hkn, AList.lookup_insert_ne hkn, h0]
        · simp [hsv, hkn, h0]
  have hmem1 : ∀ k, k ∈ sums1 ↔ (T.set n v k).isSome := by
    intro k
    rw [← AList.lookup_isSome, h1]
  -- 書き戻した表の高さは `sums1` の高さ
  have hmem : ∀ k, k ∈ writeDeltas sums1 (GoMap.sortedKeys sums1) b 0 ↔ k ∈ sums1 := by
    intro k
    rw [mem_writeDeltas, GoMap.mem_sortedKeys, hR.mem_iff, hmem1, Totals.set_isSome]
    tauto
  -- `SetValueTotalForHeight` が書き戻すのは `sums1`
  have hdef : SetValueTotalForHeight b (some n) (some v) =
      writeDeltas sums1 (GoMap.sortedKeys sums1) b 0 := by
    rw [hsums1]
    unfold SetValueTotalForHeight
    dsimp only
    rw [← hsums0]
    cases sums0.lookup n <;> rfl
  rw [hdef]
  refine ⟨fun k => (hmem k).trans (hmem1 k), fun k t hk => ?_, fun k t hk => ?_⟩
  · -- 総額は `T` の総額か `v` か、その大きい方
    unfold Totals.set at hk
    split at hk
    · cases hTn : T n with
      | none => rw [hTn] at hk; cases hk; exact hv
      | some s =>
        rw [hTn] at hk
        cases hk
        have hs := hR.range n s hTn
        constructor
        · exact le_trans hv.1 (le_max_right s v)
        · exact max_lt hs.2 hv.2
    · exact hR.range k t hk
  · rw [GoMap.sortedKeys_congr hmem,
      sumValuesLoop_writeDeltas sums1 (GoMap.sortedKeys_sorted sums1) k
        (GoMap.mem_sortedKeys.mpr ((hmem1 k).mpr (by rw [hk]; rfl))), h1, hk, Option.getD_some]

end represents

/-- run lemma：`uint64` に収まる総額を順に入れた表は、同じ順に `Totals.set` した総額の表を
表す。 -/
theorem Represents.foldl_set :
    ∀ (order : List (Nat × Int)) {b : Uint64BigMapEncodesHex} {T : Totals},
      (∀ p ∈ order, 0 ≤ p.2 ∧ p.2 < 2 ^ 64) → Represents b T →
      Represents (order.foldl (fun b p => SetValueTotalForHeight b (some p.1) (some p.2)) b)
        (order.foldl (fun T p => Totals.set T p.1 p.2) T)
  | [], _, _, _, hR => hR
  | p :: order, _, _, hrange, hR =>
    Represents.foldl_set order (fun q hq => hrange q (List.mem_cons_of_mem p hq))
      (hR.set p.1 (hrange p List.mem_cons_self))

/-! ## 組から作る表 -/

section schedule
variable {pairs : List (Nat × Int)}

/-- 表のどの総額も `pairs` の組である。 -/
def FromPairs (pairs : List (Nat × Int)) (T : Totals) : Prop := ∀ k t, T k = some t → (k, t) ∈ pairs

theorem FromPairs.set (hnd : (pairs.map Prod.fst).Nodup) {T : Totals} (hT : FromPairs pairs T)
    {n : Nat} {v : Int} (hp : (n, v) ∈ pairs) : FromPairs pairs (T.set n v) := by
  intro k t hk
  unfold Totals.set at hk
  split at hk
  · rename_i hkn
    subst hkn
    cases hTk : T k with
    | none => rw [hTk] at hk; cases hk; exact hp
    | some s =>
      rw [hTk] at hk
      cases hk
      -- 同じ高さの組は一つだけなので、入っていた総額も `v`
      have hsv : (k, s) = (k, v) := List.inj_on_of_nodup_map hnd (hT k s hTk) hp rfl
      cases hsv
      show (k, max v v) ∈ pairs
      rw [max_self]
      exact hp
  · exact hT k t hk

/-- run lemma：`pairs` の組を順に入れると、入れた高さはどれも表にあり、総額は組のもの。 -/
theorem foldl_set_pairs (hnd : (pairs.map Prod.fst).Nodup) :
    ∀ (order : List (Nat × Int)) (T : Totals), (∀ p ∈ order, p ∈ pairs) → FromPairs pairs T →
      FromPairs pairs (order.foldl (fun T p => Totals.set T p.1 p.2) T) ∧
        ∀ k, ((T k).isSome ∨ ∃ p ∈ order, p.1 = k) →
          ((order.foldl (fun T p => Totals.set T p.1 p.2) T) k).isSome
  | [], T, _, hT => ⟨hT, fun k hk => by simpa using hk⟩
  | p :: order, T, hsub, hT => by
    obtain ⟨hT', hsome⟩ := foldl_set_pairs hnd order (T.set p.1 p.2)
      (fun q hq => hsub q (List.mem_cons_of_mem p hq)) (hT.set hnd (hsub p List.mem_cons_self))
    refine ⟨hT', fun k hk => hsome k ?_⟩
    rw [Totals.set_isSome]
    rcases hk with hk | ⟨q, hq, rfl⟩
    · exact .inl (.inr hk)
    · rcases List.mem_cons.mp hq with rfl | hq
      · exact .inl (.inl rfl)
      · exact .inr ⟨q, hq, rfl⟩

/-- 組をどの順に何度入れても、総額の表は組そのものになる。 -/
theorem foldl_set_eq_pairs (hnd : (pairs.map Prod.fst).Nodup) {order : List (Nat × Int)}
    (hsub : ∀ p ∈ order, p ∈ pairs) (hall : ∀ p ∈ pairs, p ∈ order) :
    FromPairs pairs (order.foldl (fun T p => Totals.set T p.1 p.2) fun _ => none) ∧
      ∀ p ∈ pairs, (order.foldl (fun T p => Totals.set T p.1 p.2) fun _ => none) p.1 = some p.2 := by
  obtain ⟨hT, hsome⟩ := foldl_set_pairs hnd order (fun _ => none) hsub (fun _ _ h => (by simp at h))
  refine ⟨hT, fun p hp => ?_⟩
  obtain ⟨t, ht⟩ := Option.isSome_iff_exists.mp (hsome p.1 (.inr ⟨p, hall p hp, rfl⟩))
  have hpt : (p.1, t) = p := List.inj_on_of_nodup_map hnd (hT p.1 t ht) hp rfl
  rw [ht, ← hpt]

end schedule

/-! ## 逆引き -/

/-- 狭義に増える列で、`meetsLoop` は、昇順に差分を足した和が初めて `difficultySum` になる
高さを返す。 -/
theorem meetsLoop_eq_find (b : Uint64BigMapEncodesHex) (t : Int) :
    ∀ {L : List Nat} {acc : Int}, L.Pairwise (· < ·) →
      meetsLoop b t L acc = L.find? fun s => decide (sumValuesLoop b s L acc = t)
  | [], _, _ => rfl
  | x :: L, acc, hL => by
    obtain ⟨hx, hL'⟩ := List.pairwise_cons.mp hL
    have hxx : sumValuesLoop b x (x :: L) acc = acc + (b.lookup x).getD 0 := by
      rw [sumValuesLoop, if_neg (lt_irrefl x), sumValuesLoop_of_forall_gt hx]
    -- 後の高さでは、先頭の差分を足してから先へ進む
    have hrest : ∀ s ∈ L, sumValuesLoop b s (x :: L) acc =
        sumValuesLoop b s L (acc + (b.lookup x).getD 0) := fun s hs => by
      rw [sumValuesLoop, if_neg (Nat.not_lt.mpr (le_of_lt (hx s hs)))]
    rw [meetsLoop, List.find?_cons, hxx]
    by_cases hxt : acc + (b.lookup x).getD 0 = t
    · simp [hxt]
    · simp only [hxt, if_false, decide_false]
      rw [meetsLoop_eq_find b t hL']
      exact List.find?_congr fun s hs => by rw [hrest s hs]

/-- 狭義に増える列では、`find?` は条件を満たす一番小さい要素を返す。 -/
theorem find?_of_least {P : Nat → Bool} :
    ∀ {L : List Nat}, L.Pairwise (· < ·) → ∀ {x : Nat}, x ∈ L → P x = true →
      (∀ y ∈ L, P y = true → x ≤ y) → L.find? P = some x
  | [], _, _, hx, _, _ => absurd hx List.not_mem_nil
  | y :: L, hL, x, hx, hPx, hmin => by
    obtain ⟨hy, hL'⟩ := List.pairwise_cons.mp hL
    by_cases hPy : P y = true
    · -- `y` も条件を満たすので `x ≤ y`、先頭の `y` は `x` 以下
      have hxy := hmin y List.mem_cons_self hPy
      rcases List.mem_cons.mp hx with rfl | hx
      · exact List.find?_cons_of_pos hPy
      · exact absurd (hy x hx) (Nat.not_lt.mpr hxy)
    · rw [List.find?_cons_of_neg hPy]
      rcases List.mem_cons.mp hx with rfl | hx
      · exact absurd hPx hPy
      · exact find?_of_least hL' hx hPx fun z hz hPz => hmin z (List.mem_cons_of_mem y hz) hPz

/-- 表すものがあれば、逆引きは昇順で初めて総額が `t` になる高さを返す。 -/
theorem Represents.MapMeetsSpecification_eq {b : Uint64BigMapEncodesHex} {T : Totals}
    (hR : Represents b T) (t : Int) :
    MapMeetsSpecification b none t none = (GoMap.sortedKeys b).find? fun s => decide (T s = some t) := by
  have hloop := @meetsLoop_eq_find b t _ 0 (GoMap.sortedKeys_sorted b)
  have hfind : (GoMap.sortedKeys b).find? (fun s => decide (sumValuesLoop b s (GoMap.sortedKeys b) 0 = t)) =
      (GoMap.sortedKeys b).find? fun s => decide (T s = some t) := by
    refine List.find?_congr fun s hs => ?_
    obtain ⟨ts, hts⟩ := Option.isSome_iff_exists.mp ((hR.mem_iff s).mp (GoMap.mem_sortedKeys.mp hs))
    rw [hR.total s ts hts, hts]
    simp
  unfold MapMeetsSpecification
  rw [hloop, hfind]
  cases (GoMap.sortedKeys b).find? fun s => decide (T s = some t) <;> rfl

/-- 遅れの表は入れる順によらない：`uint64` に収まる総額の、同じ高さに二つの無い組を、空の表に
どの順に何度入れても（どの組も一度は入れる）、`SumValues(h)` は `h` 以下の一番高い組の総額
（無ければ 0）で、総額 `t` の逆引きは総額が `t` の一番低い高さ（無ければ nil）を返す。 -/
theorem SetValueTotalForHeight_schedule (pairs order : List (Nat × Int))
    (hnd : (pairs.map Prod.fst).Nodup) (hrange : ∀ p ∈ pairs, 0 ≤ p.2 ∧ p.2 < 2 ^ 64)
    (hsub : ∀ p ∈ order, p ∈ pairs) (hall : ∀ p ∈ pairs, p ∈ order) :
    let b := order.foldl (fun b p => SetValueTotalForHeight b (some p.1) (some p.2)) ∅
    (∀ h, (∀ p ∈ pairs, h < p.1) → SumValues b h = 0) ∧
    (∀ h p, p ∈ pairs → p.1 ≤ h → (∀ q ∈ pairs, q.1 ≤ h → q.1 ≤ p.1) →
      (SumValues b h : Int) = p.2) ∧
    (∀ p ∈ pairs, (∀ q ∈ pairs, q.2 = p.2 → p.1 ≤ q.1) →
      MapMeetsSpecification b none p.2 none = some p.1) ∧
    (∀ t, (∀ p ∈ pairs, p.2 ≠ t) → MapMeetsSpecification b none t none = none) := by
  intro b
  have hR : Represents b (order.foldl (fun T p => Totals.set T p.1 p.2) fun _ => none) :=
    Represents.foldl_set order (fun p hp => hrange p (hsub p hp)) Represents.empty
  obtain ⟨hT, hpairs⟩ := foldl_set_eq_pairs hnd hsub hall
  set T := order.foldl (fun T p => Totals.set T p.1 p.2) fun _ => none
  -- 表にある高さは組の高さ
  have hkey : ∀ k, (T k).isSome → ∃ t, T k = some t ∧ (k, t) ∈ pairs := fun k hk => by
    obtain ⟨t, ht⟩ := Option.isSome_iff_exists.mp hk
    exact ⟨t, ht, hT k t ht⟩
  refine ⟨fun h hlt => ?_, fun h p hp hle hmax => ?_, fun p hp hmin => ?_, fun t hne => ?_⟩
  · rw [SumValues, hR.sumValuesLoop_eq_zero fun k hk => ?_]
    · rfl
    · obtain ⟨t, -, hkt⟩ := hkey k hk
      exact hlt (k, t) hkt
  · rw [SumValues, hR.sumValuesLoop_eq (hpairs p hp) hle fun k' hk' hk'h => ?_]
    · exact bigUint64_of_range (hrange p hp)
    · obtain ⟨t', -, hkt⟩ := hkey k' hk'
      exact hmax (k', t') hkt hk'h
  · rw [hR.MapMeetsSpecification_eq]
    refine find?_of_least (GoMap.sortedKeys_sorted b)
      (GoMap.mem_sortedKeys.mpr ((hR.mem_iff p.1).mpr (by rw [hpairs p hp]; rfl)))
      (by simp [hpairs p hp]) fun y _ hy => ?_
    exact hmin (y, p.2) (hT y p.2 (of_decide_eq_true hy)) rfl
  · rw [hR.MapMeetsSpecification_eq, List.find?_eq_none]
    intro s _ hs
    exact hne (s, t) (hT s t (of_decide_eq_true hs)) rfl

/-- ETC の三つの遅れ（Byzantium、Constantinople、Muir Glacier の高さの総額）。 -/
def bombDelayPairs : List (Nat × Int) :=
  [(4370000, 3000000), (7280000, 5000000), (9200000, 9000000)]

/-- 高さの順でなく、一つは二度入れる。 -/
def bombDelayOrder : List (Nat × Int) :=
  [(9200000, 9000000), (4370000, 3000000), (7280000, 5000000), (4370000, 3000000)]

theorem SetValueTotalForHeight_schedule_bombs :
    (bombDelayPairs.map Prod.fst).Nodup ∧ (∀ p ∈ bombDelayPairs, 0 ≤ p.2 ∧ p.2 < 2 ^ 64) ∧
      (∀ p ∈ bombDelayOrder, p ∈ bombDelayPairs) ∧ (∀ p ∈ bombDelayPairs, p ∈ bombDelayOrder) ∧
      let b := bombDelayOrder.foldl (fun b p => SetValueTotalForHeight b (some p.1) (some p.2)) ∅
      (∀ h, (∀ p ∈ bombDelayPairs, h < p.1) → SumValues b h = 0) ∧
      (∀ h p, p ∈ bombDelayPairs → p.1 ≤ h → (∀ q ∈ bombDelayPairs, q.1 ≤ h → q.1 ≤ p.1) →
        (SumValues b h : Int) = p.2) ∧
      (∀ p ∈ bombDelayPairs, (∀ q ∈ bombDelayPairs, q.2 = p.2 → p.1 ≤ q.1) →
        MapMeetsSpecification b none p.2 none = some p.1) ∧
      (∀ t, (∀ p ∈ bombDelayPairs, p.2 ≠ t) → MapMeetsSpecification b none t none = none) :=
  ⟨by decide, by decide, by decide, by decide,
    SetValueTotalForHeight_schedule bombDelayPairs bombDelayOrder (by decide) (by decide)
      (by decide) (by decide)⟩

/-- 総額 `2^64` の高さ 1 と `2^64 + 5` の高さ 2 を順に入れると、二度目の呼び出しが高さ 1 の総額を
`SumValues(1) = 0` と求め直す。高さ 1 の遅れは 0 になり、総額 `2^64` の逆引きは高さ 1 を
見つけない。 -/
theorem SetValueTotalForHeight_drops_high_totals :
    let b := [(1, (2 : Int) ^ 64), (2, 2 ^ 64 + 5)].foldl
      (fun b p => SetValueTotalForHeight b (some p.1) (some p.2)) ∅
    SumValues b 1 = 0 ∧ MapMeetsSpecification b none (2 ^ 64) none = none := by
  decide

end Ctypes
