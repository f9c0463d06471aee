import Bullions.Bitutil.Compress
import Bullions.Lib.ExceptSpec

/-!
# 圧縮と伸張は互いに逆で、伸張は一通りの入力しか受けない

* `bitsetDecodeBytes (bitsetEncodeBytes d) d.length = .ok d`（`decodePartial_encode`）。
  途中の再帰では圧縮の後ろに 0 でない byte が続くので、後ろに何が続いても先頭の圧縮を
  読み切ることを示す。
* `bitsetDecodeBytes b t = .ok d` なら `bitsetEncodeBytes d = b`（`encode_decodePartial`）。
  伸張が受けた bitset は `d` の 0 でない位置の bitset そのもので、読んだ byte は `d` の
  0 でない byte そのものである。
* 長さが負でない `target` の伸張は、長さ `target` の列か Go の error を返し、panic しない。
  `bitsetDecodeBytes` に負の `target` を渡すと `make` が panic する。

loop の不変条件は、どこまで読み書きしたかの位置 `k` について述べる：書いた列は先頭 `k`
まで `d` と同じで後ろは 0、入力の残りは `d` の `k` から先の 0 でない byte で始まる。
-/

namespace Bitutil

open ByteBits

/-! ## 圧縮の bitset -/

/-- `i` から始まる `b :: rest` の 0 でない位置は、`b` の位置か、`i + 1` から始まる `rest` の位置。 -/
theorem nonZeroAt_cons {b : UInt8} {rest : Bytes} {i j : Nat} :
    (i ≤ j ∧ j < i + (b :: rest).length ∧ (b :: rest).getD (j - i) 0 ≠ 0) ↔
      (j = i ∧ b ≠ 0) ∨ (i + 1 ≤ j ∧ j < i + 1 + rest.length ∧ rest.getD (j - (i + 1)) 0 ≠ 0) := by
  rw [List.length_cons]
  by_cases hji : j = i
  · subst hji
    simp
  · constructor
    · rintro ⟨h1, h2, h3⟩
      rw [show j - i = (j - (i + 1)) + 1 by omega, List.getD_cons_succ] at h3
      exact Or.inr ⟨by omega, by omega, h3⟩
    · rintro (⟨h, -⟩ | ⟨h1, h2, h3⟩)
      · exact absurd h hji
      · refine ⟨by omega, by omega, ?_⟩
        rwa [show j - i = (j - (i + 1)) + 1 by omega, List.getD_cons_succ]

/--
`encodeLoop` は、`i` から先の `l` の 0 でない位置の bit を立て、0 でない byte を後ろに足す。
-/
theorem encodeLoop_spec : ∀ (i : Nat) (l bs nz : Bytes), i + l.length ≤ 8 * bs.length →
    (∀ j, testBit (encodeLoop i l (bs, nz)).1 j = true ↔
      testBit bs j = true ∨ (i ≤ j ∧ j < i + l.length ∧ l.getD (j - i) 0 ≠ 0)) ∧
    (encodeLoop i l (bs, nz)).2 = nz ++ l.filter (· ≠ 0)
  | i, [], bs, nz, _ => by
    simp only [encodeLoop, List.length_nil, Nat.add_zero, List.filter_nil, List.append_nil,
      and_true]
    intro j
    constructor
    · exact Or.inl
    · rintro (h | ⟨h1, h2, -⟩)
      · exact h
      · omega
  | i, b :: rest, bs, nz, h => by
    have hl : i + 1 + rest.length ≤ 8 * bs.length := by simp at h; omega
    by_cases hb : b = 0
    · -- 0 の byte：何も変えずに次へ
      have ih := encodeLoop_spec (i + 1) rest bs nz hl
      simp only [encodeLoop, hb, ne_eq, not_true_eq_false, if_false]
      refine ⟨fun j => ?_, ?_⟩
      · rw [ih.1 j, nonZeroAt_cons]
        simp
      · rw [ih.2]
        simp
    · -- 0 でない byte：その位置の bit を立てる
      have hi : i < 8 * bs.length := by omega
      have ih := encodeLoop_spec (i + 1) rest (setBit bs i) (nz ++ [b]) (by simpa using hl)
      simp only [encodeLoop, ne_eq, hb, not_false_eq_true, if_true]
      refine ⟨fun j => ?_, ?_⟩
      · rw [ih.1 j, testBit_setBit hi, nonZeroAt_cons]
        simp only [Bool.or_eq_true, beq_iff_eq, ne_eq, hb, not_false_eq_true, and_true]
        constructor
        · rintro ((h' | rfl) | h')
          · exact Or.inl h'
          · exact Or.inr (Or.inl rfl)
          · exact Or.inr (Or.inr h')
        · rintro (h' | rfl | h')
          · exact Or.inl (Or.inl h')
          · exact Or.inl (Or.inr rfl)
          · exact Or.inr h'
      · rw [ih.2]
        simp [hb]

/-- `data` の 0 でない位置の bitset（`nonZeroBitset`）。 -/
def bitsetOf (data : Bytes) : Bytes :=
  (encodeLoop 0 data (List.replicate ((data.length + 7) / 8) 0, [])).1

theorem encodeLoop_zero (data : Bytes) :
    (encodeLoop 0 data (List.replicate ((data.length + 7) / 8) 0, [])).2 = data.filter (· ≠ 0) ∧
      ∀ j, testBit (bitsetOf data) j = true ↔ j < data.length ∧ data.getD j 0 ≠ 0 := by
  have h := encodeLoop_spec 0 data (List.replicate ((data.length + 7) / 8) 0) []
    (by simp; omega)
  refine ⟨by simpa using h.2, fun j => ?_⟩
  rw [bitsetOf, h.1 j]
  simp

@[simp] theorem length_bitsetOf (data : Bytes) : (bitsetOf data).length = (data.length + 7) / 8 := by
  simp [bitsetOf, length_encodeLoop_fst]

/-- bitset の bit は `data` の 0 でない位置。 -/
theorem testBit_bitsetOf (data : Bytes) (j : Nat) :
    testBit (bitsetOf data) j = true ↔ j < data.length ∧ data.getD j 0 ≠ 0 :=
  (encodeLoop_zero data).2 j

/-- 長さ 2 以上の列の圧縮：bitset の圧縮の後に、0 でない byte。 -/
theorem bitsetEncodeBytes_cons_cons (a b : UInt8) (rest : Bytes) :
    bitsetEncodeBytes (a :: b :: rest) =
      if ((a :: b :: rest).filter (· ≠ 0)).length = 0 then []
      else bitsetEncodeBytes (bitsetOf (a :: b :: rest)) ++ (a :: b :: rest).filter (· ≠ 0) := by
  rw [bitsetEncodeBytes, (encodeLoop_zero (a :: b :: rest)).1]
  rfl

/-- 全部が 0 の列の圧縮は空。 -/
theorem bitsetEncodeBytes_of_zero : ∀ d : Bytes, (∀ x ∈ d, x = 0) → bitsetEncodeBytes d = []
  | [], _ => by rw [bitsetEncodeBytes]
  | [b], h => by rw [bitsetEncodeBytes, if_pos (h b (by simp))]
  | a :: b :: rest, h => by
    rw [bitsetEncodeBytes_cons_cons, if_pos]
    simp only [List.length_eq_zero_iff, List.filter_eq_nil_iff, decide_not, Bool.not_eq_eq_eq_not,
      Bool.not_true, decide_eq_false_iff_not, not_not]
    exact h

/-! ## 伸張の loop -/

/-- 先頭 `k` 個が `d` で、後ろが 0 の、長さ `d.length` の列。 -/
def fillTo (d : Bytes) (k : Nat) : Bytes := d.take k ++ List.replicate (d.length - k) 0

@[simp] theorem length_fillTo (d : Bytes) (k : Nat) : (fillTo d k).length = d.length := by
  simp only [fillTo, List.length_append, List.length_take, List.length_replicate]
  omega

theorem fillTo_zero (d : Bytes) : fillTo d 0 = List.replicate d.length 0 := by
  simp [fillTo]

theorem fillTo_of_le {d : Bytes} {k : Nat} (h : d.length ≤ k) : fillTo d k = d := by
  simp [fillTo, List.take_of_length_le h, Nat.sub_eq_zero_of_le h]

/-- `k` 番目に `d` の `k` 番目を書けば、`k + 1` まで埋まる。 -/
theorem fillTo_succ (d : Bytes) (k : Nat) : fillTo d (k + 1) = (fillTo d k).set k (d.getD k 0) := by
  by_cases hk : k < d.length
  · have hr : d.length - k = (d.length - (k + 1)) + 1 := by omega
    rw [fillTo, fillTo, hr, List.replicate_succ, List.set_append_right _ _ (by simp),
      List.getD_eq_getElem _ _ hk, List.length_take, show k - min k d.length = 0 by omega,
      List.set_cons_zero, List.take_add_one, List.getElem?_eq_getElem hk, Option.toList_some,
      List.append_assoc, List.singleton_append]
  · rw [fillTo_of_le (by omega), fillTo_of_le (by omega), List.set_eq_of_length_le (by omega)]

/-- `fillTo d k` の `k` 番目は 0。 -/
theorem getD_fillTo_self (d : Bytes) (k : Nat) : (fillTo d k).getD k 0 = 0 := by
  by_cases hk : k < d.length
  · rw [fillTo, List.getD_append_right _ _ _ _ (by simp)]
    simp
  · exact List.getD_eq_default _ _ (by simp; omega)

/-- `k` 番目が 0 なら、`k` から先の 0 でない byte は `k + 1` から先のもの。 -/
theorem filter_drop_of_zero {l : Bytes} {k : Nat} (h : l.getD k 0 = 0) :
    (l.drop k).filter (· ≠ 0) = (l.drop (k + 1)).filter (· ≠ 0) := by
  by_cases hk : k < l.length
  · rw [List.getD_eq_getElem _ _ hk] at h
    rw [List.drop_eq_getElem_cons hk, List.filter_cons_of_neg (by simp [h])]
  · rw [List.drop_eq_nil_of_le (by omega), List.drop_eq_nil_of_le (by omega)]

/-- `k` 番目が 0 でなければ、それが `k` から先の 0 でない byte の先頭。 -/
theorem filter_drop_of_ne {l : Bytes} {k : Nat} (hk : k < l.length) (h : l.getD k 0 ≠ 0) :
    (l.drop k).filter (· ≠ 0) = l.getD k 0 :: (l.drop (k + 1)).filter (· ≠ 0) := by
  rw [List.getD_eq_getElem _ _ hk] at h ⊢
  rw [List.drop_eq_getElem_cons hk, List.filter_cons_of_pos (by simpa using h)]

theorem getElem?_bitset {bitset : Bytes} {k : Nat} (hk : k < 8 * bitset.length) :
    ∃ w, bitset[k / 8]? = some w ∧ (w &&& mask k != 0) = testBit bitset k := by
  refine ⟨bitset[k / 8], List.getElem?_eq_getElem (by omega), ?_⟩
  rw [testBit, List.getD_eq_getElem _ _ (by omega)]

/--
伸張の loop：bitset の bit が `d` の 0 でない位置で、入力の `ptr` から先が `d` の `k` から先の
0 でない byte で始まれば、`fillTo d k` を `d` まで埋める。
-/
theorem decodeLoop_fill {d data bitset : Bytes}
    (hbit : ∀ j, testBit bitset j = true ↔ j < d.length ∧ d.getD j 0 ≠ 0)
    (hM : d.length ≤ 8 * bitset.length) :
    ∀ (m k ptr : Nat) (rest : Bytes), k + m = 8 * bitset.length →
      data.drop ptr = (d.drop k).filter (· ≠ 0) ++ rest →
      decodeLoop data bitset (List.range' k m) (fillTo d k, ptr) =
        .ok (d, ptr + ((d.drop k).filter (· ≠ 0)).length)
  | 0, k, ptr, rest, hk, _ => by
    rw [fillTo_of_le (by omega), List.drop_eq_nil_of_le (by omega)]
    rfl
  | m + 1, k, ptr, rest, hk, hd => by
    obtain ⟨w, hw, hwb⟩ := @getElem?_bitset bitset k (by omega)
    rw [List.range'_succ, decodeLoop, hw]
    simp only [hwb]
    by_cases hb : testBit bitset k = true
    · -- 立った bit：入力の次の byte が `d` の `k` 番目
      obtain ⟨hkn, hdk⟩ := (hbit k).mp hb
      rw [filter_drop_of_ne hkn hdk, List.cons_append] at hd
      have hp : ptr < data.length := by
        have := congrArg List.length hd
        simp at this
        omega
      have hx : data[ptr] = d.getD k 0 := by
        have := congrArg List.head? hd
        rwa [List.head?_drop, List.getElem?_eq_getElem hp, List.head?_cons, Option.some_inj] at this
      have hd' : data.drop (ptr + 1) = (d.drop (k + 1)).filter (· ≠ 0) ++ rest := by
        rw [← List.drop_drop, hd]
        rfl
      rw [if_pos hb, dif_neg (by omega), if_neg (by simp; omega), hx, if_neg hdk, ← fillTo_succ,
        decodeLoop_fill hbit hM m (k + 1) (ptr + 1) rest (by omega) hd', filter_drop_of_ne hkn hdk]
      simp only [List.length_cons]
      rw [Nat.add_assoc, Nat.add_comm 1]
    · -- 立たない bit：`d` の `k` 番目は 0 か、`d` の外
      have hz : d.getD k 0 = 0 := by
        by_cases hkn : k < d.length
        · by_contra hne
          exact hb ((hbit k).mpr ⟨hkn, hne⟩)
        · exact List.getD_eq_default _ _ (by omega)
      have hf := filter_drop_of_zero hz
      have hfill : fillTo d (k + 1) = fillTo d k := by
        rw [fillTo_succ, hz, ← getD_fillTo_self d k]
        by_cases hkn : k < d.length
        · rw [List.getD_eq_getElem _ _ (by simpa using hkn), List.set_getElem_self]
        · exact List.set_eq_of_length_le (by simp; omega)
      rw [if_neg hb, ← hfill, decodeLoop_fill hbit hM m (k + 1) ptr rest (by omega) (hf ▸ hd), hf]

/-- 先頭 `k + 1` が等しい二つの列は、先頭 `k` と `k` 番目が等しい。 -/
theorem take_succ_eq {l l' : Bytes} {k : Nat} (h : l.take (k + 1) = l'.take (k + 1)) :
    l.take k = l'.take k ∧ l.getD k 0 = l'.getD k 0 := by
  constructor
  · have := congrArg (List.take k) h
    rwa [List.take_take, List.take_take, Nat.min_eq_left (by omega)] at this
  · have := congrArg (fun l => l.getD k 0) h
    simpa [List.getD_eq_getElem?_getD, List.getElem?_take] using this

/--
伸張の loop が成功したなら：長さは変わらず、`k` より前は書かれず、`k` から先の立った bit は
結果の 0 でない位置そのもので、読んだ入力は結果の `k` から先の 0 でない byte そのもの。
書く前の列は `k` から先が 0 とする。
-/
theorem decodeLoop_read {data bitset : Bytes} :
    ∀ (m k : Nat) (decomp : Bytes) (ptr : Nat) (out : Bytes) (ptr' : Nat),
      k + m = 8 * bitset.length → ptr ≤ data.length → (∀ j, k ≤ j → decomp.getD j 0 = 0) →
      decodeLoop data bitset (List.range' k m) (decomp, ptr) = .ok (out, ptr') →
      out.length = decomp.length ∧ out.take k = decomp.take k ∧
        (∀ j, k ≤ j → (testBit bitset j = true ↔ j < out.length ∧ out.getD j 0 ≠ 0)) ∧
        ptr ≤ ptr' ∧ ptr' ≤ data.length ∧
        (data.drop ptr).take (ptr' - ptr) = (out.drop k).filter (· ≠ 0)
  | 0, k, decomp, ptr, out, ptr', hk, hp, hz, h => by
    simp only [List.range'_zero, decodeLoop, Except.ok.injEq, Prod.mk.injEq] at h
    obtain ⟨rfl, rfl⟩ := h
    refine ⟨rfl, rfl, fun j hj => ?_, le_rfl, hp, ?_⟩
    · rw [testBit_of_le (by omega), hz j hj]
      simp
    · rw [Nat.sub_self, List.take_zero, eq_comm, List.filter_eq_nil_iff]
      intro x hx
      obtain ⟨i, hi, rfl⟩ := List.getElem_of_mem hx
      have := hz (k + i) (by omega)
      rw [List.getD_eq_getElem _ _ (by simp at hi; omega)] at this
      simp [List.getElem_drop, this]
  | m + 1, k, decomp, ptr, out, ptr', hk, hp, hz, h => by
    obtain ⟨w, hw, hwb⟩ := @getElem?_bitset bitset k (by omega)
    rw [List.range'_succ, decodeLoop, hw] at h
    simp only [hwb] at h
    by_cases hb : testBit bitset k = true
    · -- 立った bit：`ptr` の byte を `k` 番目に書いて進む
      rw [if_pos hb] at h
      by_cases hpl : ptr ≥ data.length
      · rw [dif_pos hpl] at h
        cases h
      rw [dif_neg hpl] at h
      by_cases hkl : k ≥ decomp.length
      · rw [if_pos hkl] at h
        cases h
      rw [if_neg hkl] at h
      by_cases hx : data[ptr] = 0
      · rw [if_pos hx] at h
        cases h
      rw [if_neg hx] at h
      have hz' : ∀ j, k + 1 ≤ j → (decomp.set k data[ptr]).getD j 0 = 0 := by
        intro j hj
        rw [List.getD_eq_getElem?_getD, List.getElem?_set_ne (by omega), ← List.getD_eq_getElem?_getD]
        exact hz j (by omega)
      obtain ⟨hl, ht, hbits, hp1, hp2, hread⟩ :=
        decodeLoop_read m (k + 1) _ (ptr + 1) out ptr' (by omega) (by omega) hz' h
      have hkl' : k < decomp.length := by omega
      obtain ⟨ht', hk'⟩ := take_succ_eq ht
      rw [List.take_set_of_le le_rfl] at ht'
      have hset : (decomp.set k data[ptr]).getD k 0 = data[ptr] := by
        rw [List.getD_eq_getElem?_getD, List.getElem?_set_self hkl']
        rfl
      rw [hset] at hk'
      rw [List.length_set] at hl
      refine ⟨hl, ht', fun j hj => ?_, by omega, hp2, ?_⟩
      · rcases Nat.lt_or_ge k j with hkj | hkj
        · exact hbits j hkj
        · have hjk : j = k := by omega
          subst hjk
          simp only [hb, true_iff]
          exact ⟨by omega, by rw [hk']; exact hx⟩
      · rw [filter_drop_of_ne (by omega) (by rw [hk']; exact hx), hk', ← hread,
          show ptr' - ptr = (ptr' - (ptr + 1)) + 1 by omega, List.drop_eq_getElem_cons (by omega),
          List.take_succ_cons]
    · -- 立たない bit：何も書かずに進む
      rw [if_neg hb] at h
      obtain ⟨hl, ht, hbits, hp1, hp2, hread⟩ :=
        decodeLoop_read m (k + 1) decomp ptr out ptr' (by omega) hp (fun j hj => hz j (by omega)) h
      obtain ⟨ht', hk'⟩ := take_succ_eq ht
      have hok : out.getD k 0 = 0 := by rw [hk']; exact hz k le_rfl
      refine ⟨hl, ht', fun j hj => ?_, hp1, hp2, ?_⟩
      · rcases Nat.lt_or_ge k j with hkj | hkj
        · exact hbits j hkj
        · have hjk : j = k := by omega
          subst hjk
          simp only [hb, Bool.false_eq_true, false_iff, not_and, not_not]
          exact fun _ => hok
      · rw [filter_drop_of_zero hok, hread]

/-! ## 再帰 -/

/-- 長さ 2 以上の伸張は、まず bitset を長さ `(target+7)/8` で伸張し、loop で byte を置く。 -/
theorem decodePartial_cons {d0 : UInt8} {tl : Bytes} {target : Int} (h2 : 2 ≤ target) :
    bitsetDecodePartialBytes (d0 :: tl) target =
      bitsetDecodePartialBytes (d0 :: tl) ((target + 7) / 8) >>= fun r =>
        decodeLoop (d0 :: tl) r.1 (List.range (8 * r.1.length))
          (List.replicate target.toNat 0, r.2) := by
  rw [bitsetDecodePartialBytes, if_neg (by omega), if_neg (by omega)]
  simp only
  rw [if_neg (by omega)]

/--
後ろに何が続いても、0 でない byte のある列の圧縮は、その列の長さで伸張すれば元に戻り、
圧縮の分だけを読む。
-/
theorem decodePartial_encode : ∀ (n : Nat) (d : Bytes), d.length = n → (∃ x ∈ d, x ≠ 0) →
    ∀ rest : Bytes, bitsetDecodePartialBytes (bitsetEncodeBytes d ++ rest) d.length =
      .ok (d, (bitsetEncodeBytes d).length) := by
  intro n
  induction n using Nat.strong_induction_on with
  | _ n ih =>
    intro d hn hnz rest
    match d, hnz with
    | [b], hnz =>
      -- 長さ 1：0 でない byte はそのまま
      obtain ⟨x, hx, hx0⟩ := hnz
      rw [List.mem_singleton] at hx
      subst hx
      rw [bitsetEncodeBytes, if_neg hx0, List.singleton_append, bitsetDecodePartialBytes]
      simp [hx0]
    | a :: b :: r, hnz =>
      -- 長さ 2 以上：bitset の圧縮を読み、後ろの 0 でない byte を置く
      have hne : (a :: b :: r).filter (· ≠ 0) ≠ [] := by
        obtain ⟨x, hx, hx0⟩ := hnz
        intro h0
        rw [List.filter_eq_nil_iff] at h0
        exact h0 x hx (by simpa using hx0)
      have hnz' : ((a :: b :: r).filter (· ≠ 0)).length ≠ 0 := by
        rwa [Ne, List.length_eq_zero_iff]
      obtain ⟨j, hj⟩ : ∃ j, testBit (bitsetOf (a :: b :: r)) j = true := by
        obtain ⟨x, hx, hx0⟩ := hnz
        obtain ⟨j, hjl, rfl⟩ := List.getElem_of_mem hx
        exact ⟨j, (testBit_bitsetOf _ j).mpr ⟨hjl, by rwa [List.getD_eq_getElem _ _ hjl]⟩⟩
      have hlen : (bitsetOf (a :: b :: r)).length < n := by
        rw [length_bitsetOf, hn.symm]
        simp only [List.length_cons]
        omega
      have hbs := ih _ hlen (bitsetOf (a :: b :: r)) rfl (exists_ne_zero_of_testBit hj)
        ((a :: b :: r).filter (· ≠ 0) ++ rest)
      rw [bitsetEncodeBytes_cons_cons, if_neg hnz', List.append_assoc]
      obtain ⟨d0, tl, hdt⟩ : ∃ d0 tl, bitsetEncodeBytes (bitsetOf (a :: b :: r)) ++
          ((a :: b :: r).filter (· ≠ 0) ++ rest) = d0 :: tl :=
        List.exists_cons_of_ne_nil fun h =>
          hne (List.append_eq_nil_iff.mp (List.append_eq_nil_iff.mp h).2).1
      have ht : ((((a :: b :: r).length : Nat) : Int) + 7) / 8 =
          (((bitsetOf (a :: b :: r)).length : Nat) : Int) := by
        rw [length_bitsetOf]
        omega
      rw [hdt, decodePartial_cons (by simp; omega), ht, ← hdt, hbs, ExceptSpec.ok_bind]
      simp only [Int.toNat_natCast, List.range_eq_range']
      rw [← fillTo_zero, decodeLoop_fill (testBit_bitsetOf _) (by simp; omega)
        (8 * (bitsetOf (a :: b :: r)).length) 0 _ rest (by omega) (by simp),
        List.drop_zero, List.length_append]

/-- bit がどれも立たない列は 0 ばかり。 -/
theorem eq_replicate_of_testBit {bs : Bytes} (h : ∀ j, testBit bs j = false) :
    bs = List.replicate bs.length 0 :=
  ByteBits.ext (by simp) fun j _ => by rw [h j, testBit_replicate_zero]

/--
伸張が成功したなら、結果の長さは `target` で、読んだのは入力の先頭 `size` byte、そしてそれは
結果の圧縮そのもの。伸張で受けた bitset は結果の 0 でない位置の bitset に等しいことによる。
-/
theorem encode_decodePartial : ∀ (n : Nat) (data : Bytes) (target : Int) (out : Bytes)
    (size : Nat), target.toNat = n → bitsetDecodePartialBytes data target = .ok (out, size) →
    (out.length : Int) = target ∧ size ≤ data.length ∧ bitsetEncodeBytes out = data.take size := by
  intro n
  induction n using Nat.strong_induction_on with
  | _ n ih =>
    intro data target out size hn h
    by_cases h0 : target = 0
    · rw [bitsetDecodePartialBytes, if_pos h0] at h
      cases h
      simp [h0, bitsetEncodeBytes]
    by_cases hneg : target < 0
    · rw [bitsetDecodePartialBytes, if_neg h0, if_pos hneg] at h
      cases h
    cases data with
    | nil =>
      -- 入力が空なら 0 ばかり
      rw [bitsetDecodePartialBytes, if_neg h0, if_neg hneg] at h
      cases h
      refine ⟨by simp; omega, le_rfl, ?_⟩
      rw [bitsetEncodeBytes_of_zero _ (fun x hx => (List.mem_replicate.mp hx).2)]
      rfl
    | cons d0 tl =>
      by_cases h1 : target = 1
      · -- 長さ 1：最初の byte を写し、0 でなければそれを読んだとする
        subst h1
        rw [bitsetDecodePartialBytes] at h
        simp only [Int.one_ne_zero, if_false, Int.reduceLT, if_true, Int.toNat_one] at h
        by_cases hd : d0 = 0
        · rw [if_neg (by simpa using hd)] at h
          cases h
          simp [hd, bitsetEncodeBytes]
        · rw [if_pos hd] at h
          cases h
          simp [hd, bitsetEncodeBytes]
      -- 長さ 2 以上：bitset を伸張してから byte を置く
      rw [decodePartial_cons (by omega)] at h
      obtain ⟨⟨bs, p⟩, hrec, hloop⟩ := ExceptSpec.bind_eq_ok.mp h
      obtain ⟨hbl, hp, henc⟩ := ih ((target + 7) / 8).toNat (by omega) _ _ bs p rfl hrec
      rw [List.range_eq_range'] at hloop
      simp only at hloop hbl
      obtain ⟨hl, -, hbits, hp1, hp2, hread⟩ := decodeLoop_read (8 * bs.length) 0
        (List.replicate target.toNat 0) p out size (by omega) hp (by simp) hloop
      rw [List.length_replicate] at hl
      rw [List.drop_zero] at hread
      have hbs : bitsetOf out = bs :=
        ByteBits.ext (by rw [length_bitsetOf, hl]; omega) fun j _ => by
          rw [Bool.eq_iff_iff, testBit_bitsetOf, hbits j (Nat.zero_le _)]
      refine ⟨by omega, hp2, ?_⟩
      obtain ⟨a, b, r, rfl⟩ : ∃ a b r, out = a :: b :: r := by
        rcases out with _ | ⟨a, _ | ⟨b, r⟩⟩
        · simp at hl; omega
        · simp at hl; omega
        · exact ⟨a, b, r, rfl⟩
      rw [bitsetEncodeBytes_cons_cons]
      split
      · -- 0 でない byte が無い：bitset も 0 ばかりで、何も読んでいない
        rename_i hz
        rw [List.length_eq_zero_iff] at hz
        rw [hz] at hread
        have hsize : size = p := by
          rw [List.take_eq_nil_iff, List.drop_eq_nil_iff] at hread
          omega
        have hzero : ∀ j, testBit bs j = false := by
          intro j
          rw [← hbs, Bool.eq_false_iff]
          intro hj
          obtain ⟨hjl, hjz⟩ := (testBit_bitsetOf _ j).mp hj
          rw [List.getD_eq_getElem _ _ hjl] at hjz
          rw [List.filter_eq_nil_iff] at hz
          exact hz _ (List.getElem_mem hjl) (by simpa using hjz)
        rw [eq_replicate_of_testBit hzero, bitsetEncodeBytes_of_zero _
          (fun x hx => (List.mem_replicate.mp hx).2)] at henc
        rw [hsize, ← henc]
      · -- bitset の圧縮の後に、読んだ 0 でない byte
        rw [hbs, henc, ← hread, ← List.take_add, Nat.add_sub_cancel' hp1]

/-! ## panic しないこと -/

/-- Go の実行時 panic か（そうでなければ Go の `error` を返す）。 -/
def DecodeError.isPanic : DecodeError → Bool
  | .panicMakeSlice | .panicIndex => true
  | _ => false

/-- bitset の中の位置だけを回る loop は、範囲の外を読まず、Go の `error` でしか失敗しない。 -/
theorem decodeLoop_noPanic {data bitset : Bytes} :
    ∀ (m k : Nat) (acc : Bytes × Nat), k + m = 8 * bitset.length →
      ExceptSpec.FailsOnly (decodeLoop data bitset (List.range' k m) acc)
        (fun e => e.isPanic = false)
  | 0, _, acc, _ => ExceptSpec.failsOnly_ok acc _
  | m + 1, k, (decomp, ptr), hk => by
    obtain ⟨w, hw, -⟩ := @getElem?_bitset bitset k (by omega)
    rw [List.range'_succ, decodeLoop, hw]
    simp only
    -- 立った bit では三つの `error` のどれかか、一つ進む
    split
    · split
      · exact ExceptSpec.failsOnly_error rfl
      split
      · exact ExceptSpec.failsOnly_error rfl
      split
      · exact ExceptSpec.failsOnly_error rfl
      exact decodeLoop_noPanic m (k + 1) _ (by omega)
    · exact decodeLoop_noPanic m (k + 1) _ (by omega)

/-- 空の入力は、長さ `target` の 0 の列に伸張する。 -/
theorem decodePartial_nil {target : Int} (ht : 0 ≤ target) :
    bitsetDecodePartialBytes [] target = .ok (List.replicate target.toNat 0, 0) := by
  rw [bitsetDecodePartialBytes]
  by_cases h0 : target = 0
  · subst h0
    rfl
  · rw [if_neg h0, if_neg (by omega)]

/-- 負でない `target` の伸張は panic しない。 -/
theorem decodePartial_noPanic : ∀ (n : Nat) (data : Bytes) (target : Int), target.toNat = n →
    0 ≤ target →
      ExceptSpec.FailsOnly (bitsetDecodePartialBytes data target) (fun e => e.isPanic = false) := by
  intro n
  induction n using Nat.strong_induction_on with
  | _ n ih =>
    intro data target hn ht
    by_cases h0 : target = 0
    · rw [bitsetDecodePartialBytes, if_pos h0]
      exact ExceptSpec.failsOnly_ok _ _
    cases data with
    | nil =>
      rw [decodePartial_nil ht]
      exact ExceptSpec.failsOnly_ok _ _
    | cons d0 tl =>
      by_cases h1 : target = 1
      · subst h1
        rw [bitsetDecodePartialBytes]
        simp only [Int.one_ne_zero, if_false, Int.reduceLT, if_true]
        split <;> exact ExceptSpec.failsOnly_ok _ _
      -- 長さ 2 以上：bitset の伸張は panic せず、その長さは `(target+7)/8` なので loop も
      rw [decodePartial_cons (by omega)]
      refine ExceptSpec.FailsOnly.bind (ih _ (by omega) _ _ rfl (by omega)) fun ⟨bs, p⟩ hrec => ?_
      obtain ⟨hbl, -, -⟩ := encode_decodePartial _ _ _ _ _ rfl hrec
      rw [List.range_eq_range']
      exact decodeLoop_noPanic _ 0 _ (by omega)

/-! ## 入口の関数 -/

/-- `bitsetDecodeBytes` が成功するのは、伸張が入力を使い切るとき。 -/
theorem bitsetDecodeBytes_eq_ok {data out : Bytes} {target : Int} :
    bitsetDecodeBytes data target = .ok out ↔
      bitsetDecodePartialBytes data target = .ok (out, data.length) := by
  rw [bitsetDecodeBytes, ExceptSpec.bind_eq_ok]
  constructor
  · rintro ⟨⟨o, s⟩, hx, h⟩
    by_cases hs : s = data.length
    · subst hs
      simp only [ne_eq, not_true_eq_false, if_false, Except.ok.injEq] at h
      rwa [← h]
    · simp [hs] at h
  · intro h
    exact ⟨(out, data.length), h, by simp⟩

/-- 圧縮を元の長さで伸張すると元に戻る。 -/
theorem bitsetDecodeBytes_encode (data : Bytes) :
    bitsetDecodeBytes (bitsetEncodeBytes data) data.length = .ok data := by
  rw [bitsetDecodeBytes_eq_ok]
  by_cases hnz : ∃ x ∈ data, x ≠ 0
  · have h := decodePartial_encode _ data rfl hnz []
    rwa [List.append_nil] at h
  · -- 0 ばかりの列の圧縮は空で、空は 0 の列に伸張する
    push Not at hnz
    rw [bitsetEncodeBytes_of_zero data hnz, decodePartial_nil (by omega), Int.toNat_natCast,
      List.eq_replicate_iff.mpr ⟨rfl, hnz⟩, List.length_replicate]
    rfl

/-- 伸張が成功すれば、入力は結果の圧縮そのもの。 -/
theorem encode_of_bitsetDecodeBytes {blob out : Bytes} {target : Int}
    (h : bitsetDecodeBytes blob target = .ok out) :
    (out.length : Int) = target ∧ bitsetEncodeBytes out = blob := by
  obtain ⟨hl, -, henc⟩ := encode_decodePartial _ _ _ _ _ rfl (bitsetDecodeBytes_eq_ok.mp h)
  rw [List.take_length] at henc
  exact ⟨hl, henc⟩

/-- 負でない `target` の `bitsetDecodeBytes` は panic しない。 -/
theorem bitsetDecodeBytes_noPanic (blob : Bytes) {target : Int} (ht : 0 ≤ target) :
    ExceptSpec.FailsOnly (bitsetDecodeBytes blob target) (fun e => e.isPanic = false) := by
  rw [bitsetDecodeBytes]
  refine ExceptSpec.FailsOnly.bind (decodePartial_noPanic _ _ _ rfl ht) fun ⟨out, size⟩ _ => ?_
  simp only
  split
  · exact ExceptSpec.failsOnly_error rfl
  · exact ExceptSpec.failsOnly_ok _ _

/-- 負の `target` では `make([]byte, target)` が panic する。 -/
theorem bitsetDecodeBytes_neg (blob : Bytes) {target : Int} (ht : target < 0) :
    bitsetDecodeBytes blob target = .error .panicMakeSlice := by
  rw [bitsetDecodeBytes, bitsetDecodePartialBytes, if_neg (by omega), if_pos ht]
  rfl

/-- どの `target` でも、`bitsetDecodeBytes` は範囲の外を読まない。 -/
theorem bitsetDecodeBytes_noPanicIndex (blob : Bytes) (target : Int) :
    ExceptSpec.FailsOnly (bitsetDecodeBytes blob target) (· ≠ .panicIndex) := by
  by_cases ht : 0 ≤ target
  · intro e he heq
    have := bitsetDecodeBytes_noPanic blob ht e he
    rw [heq] at this
    cases this
  · rw [bitsetDecodeBytes_neg blob (by omega)]
    exact ExceptSpec.failsOnly_error (by decide)

/-- 圧縮したものを元の長さで `DecompressBytes` すると元に戻り、圧縮は長くならない。 -/
theorem DecompressBytes_CompressBytes (data : Bytes) :
    DecompressBytes (CompressBytes data) data.length = .ok data ∧
      (CompressBytes data).length ≤ data.length := by
  rw [CompressBytes]
  by_cases hlt : (bitsetEncodeBytes data).length < data.length
  · -- 短くなった：圧縮を伸張する
    simp only [if_pos hlt]
    refine ⟨?_, by omega⟩
    rw [DecompressBytes, if_neg (by omega), if_neg (by omega), bitsetDecodeBytes_encode]
  · -- 短くならない：元の写しを返し、伸張もその写し
    simp only [if_neg hlt]
    refine ⟨?_, le_rfl⟩
    rw [DecompressBytes, if_neg (by omega), if_pos rfl]

/-- `DecompressBytes` は、どの `target` でも panic せず、成功すれば長さ `target` の列を返す。 -/
theorem DecompressBytes_spec (blob : Bytes) (target : Int) :
    ExceptSpec.FailsOnly (DecompressBytes blob target) (fun e => e.isPanic = false) ∧
      ExceptSpec.OkThen (DecompressBytes blob target) (fun out => (out.length : Int) = target) := by
  rw [DecompressBytes]
  by_cases hgt : (blob.length : Int) > target
  · rw [if_pos hgt]
    exact ⟨ExceptSpec.failsOnly_error rfl, ExceptSpec.okThen_error _ _⟩
  rw [if_neg hgt]
  by_cases heq : (blob.length : Int) = target
  · rw [if_pos heq]
    exact ⟨ExceptSpec.failsOnly_ok _ _, ExceptSpec.okThen_ok heq⟩
  -- 入力が `target` より短いので `target` は正
  rw [if_neg heq]
  exact ⟨bitsetDecodeBytes_noPanic blob (by omega),
    fun out h => (encode_of_bitsetDecodeBytes h).1⟩

/--
圧縮と伸張は互いに逆で、伸張が受ける入力は圧縮そのもの。負でない `target` の伸張は Go の
`error` か長さ `target` の列を返し、どの `target` でも範囲の外を読まない。`DecompressBytes` は
どの `target` でも panic しない。
-/
theorem bitset_compression_canonical :
    (∀ data : Bytes, bitsetDecodeBytes (bitsetEncodeBytes data) data.length = .ok data) ∧
    (∀ data : Bytes, DecompressBytes (CompressBytes data) data.length = .ok data ∧
      (CompressBytes data).length ≤ data.length) ∧
    (∀ (blob : Bytes) (target : Int) (out : Bytes),
      bitsetDecodeBytes blob target = .ok out → bitsetEncodeBytes out = blob) ∧
    (∀ (blob : Bytes) (target : Int), 0 ≤ target →
      ExceptSpec.FailsOnly (bitsetDecodeBytes blob target) (fun e => e.isPanic = false) ∧
      ExceptSpec.OkThen (bitsetDecodeBytes blob target) (fun out => (out.length : Int) = target)) ∧
    (∀ (blob : Bytes) (target : Int),
      ExceptSpec.FailsOnly (bitsetDecodeBytes blob target) (· ≠ .panicIndex)) ∧
    (∀ (blob : Bytes) (target : Int),
      ExceptSpec.FailsOnly (DecompressBytes blob target) (fun e => e.isPanic = false) ∧
      ExceptSpec.OkThen (DecompressBytes blob target) (fun out => (out.length : Int) = target)) :=
  ⟨bitsetDecodeBytes_encode, DecompressBytes_CompressBytes,
    fun _ _ _ h => (encode_of_bitsetDecodeBytes h).2,
    fun blob _ ht => ⟨bitsetDecodeBytes_noPanic blob ht,
      fun _ h => (encode_of_bitsetDecodeBytes h).1⟩,
    bitsetDecodeBytes_noPanicIndex, DecompressBytes_spec⟩

/-- 負の `target` では、`bitsetDecodeBytes` は `error` も列も返さずに panic する。 -/
theorem bitsetDecodeBytes_negative_target_panics :
    bitsetDecodeBytes [] (-1) = .error .panicMakeSlice ∧ DecodeError.panicMakeSlice.isPanic = true :=
  ⟨bitsetDecodeBytes_neg [] (by decide), rfl⟩

end Bitutil
