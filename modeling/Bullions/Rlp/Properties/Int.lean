import Bullions.Rlp.Properties.Raw
import Bullions.Rlp.Properties.Decode

/-!
# 整数の符号は最短の形で往復する

整数の書き手は二つある。`encodeUint` は `uint64` を、`writeBigInt` は `*big.Int` を書く。
`writeBigInt` は 64 bit に収まる値を `encodeUint` に任せ、それより大きい値は語（`big.Word`）を
下位から一 byte ずつ後ろ向きに写す。どちらも、値の最短の big-endian 表現を RLP の文字列に
したもの（`encodeString (beBytes n)`）を書く（`encodeUint_eq`、`writeBigInt_eq`）。語の写しは
`lowBytes`（値の下位の byte を決まった数だけ並べたもの）で言う。

読み手は三つある。`SplitUint64` は `Split` の中身を、`Stream.Uint` は `Kind()` の後を
`readUint` で、`decodeBigInt` は `Bytes()` の中身を読む。どれも書き手の出力を元の値に戻し、
先頭が 0 の中身と、0x81 の後に 0x80 未満の byte が続く一 byte の文字列を退ける。
-/

namespace Rlp

open ExceptSpec

/-! ## `encodeUint` -/

/-- `encodeUint` は、値の最短の big-endian 表現を文字列として書く。 -/
theorem encodeUint_eq (w : EncBuf) (x : UInt64) :
    w.encodeUint x = w.encodeString (Bytes.beBytes x.toNat) := by
  rw [EncBuf.encodeString_eq]
  unfold EncBuf.encodeUint
  by_cases h0 : x = 0
  · -- 0 は空の文字列
    subst h0
    simp [Bytes.beBytes, Item.enc, header]
  · have hpos : 0 < x.toNat := by
      rw [Nat.pos_iff_ne_zero, Ne, ← UInt64.toNat_zero, UInt64.toNat_inj]
      exact h0
    rw [if_neg h0]
    by_cases h128 : x < 128
    · -- 128 未満はその byte だけ
      have hx : x.toNat < 128 := UInt64.lt_iff_toNat_lt.mp h128
      -- `UInt64.toUInt8` は `toNat` を byte に切ったもの
      rw [if_pos h128, Bytes.beBytes_of_lt hpos (by omega), Item.enc_str_small]
      · rfl
      rw [UInt8.lt_iff_toNat_lt]
      simp only [Nat.toUInt8_eq, UInt8.toNat_ofNat', UInt8.reduceToNat]
      omega
    · -- ほかは 0x80 に byte 数を足した見出しの後に、最短の表現
      have hx : 128 ≤ x.toNat := by
        have := UInt64.lt_iff_toNat_lt.not.mp h128
        simp only [UInt64.reduceToNat] at this
        omega
      have hL8 : (Bytes.beBytes x.toNat).length ≤ 8 :=
        (Bytes.length_beBytes_le_iff _ 8).mpr (by have := x.toNat_lt; simpa using this)
      have hsmall : ¬ ((Bytes.beBytes x.toNat).length = 1 ∧
          (Bytes.beBytes x.toNat).headD 0 < 128) := by
        rintro ⟨h1, hc⟩
        have hlt : x.toNat < 256 := by
          have := (Bytes.length_beBytes_le_iff x.toNat 1).mp (by omega)
          simpa using this
        rw [Bytes.beBytes_of_lt hpos hlt] at hc
        simp only [List.headD_cons, UInt8.lt_iff_toNat_lt, Nat.toUInt8_eq, UInt8.toNat_ofNat',
          UInt8.reduceToNat] at hc
        omega
      rw [if_neg h128, Item.enc_str_of_not_small hsmall, header_of_lt (by omega),
        intsize_eq_length, putint_eq_beBytes hpos]
      rfl

/-- 空の `encbuf` に `encodeUint` で書いた byte 列。 -/
theorem toBytes_encodeUint (x : UInt64) :
    (EncBuf.empty.encodeUint x).toBytes = (Item.str (Bytes.beBytes x.toNat)).enc := by
  rw [encodeUint_eq]
  exact toBytes_empty_writeItem (.str _)

/-! ## `writeBigInt` の語の写し -/

/-- `v` の下位 `m` byte を、上位から並べたもの。 -/
def lowBytes : Nat → Nat → Bytes
  | 0, _ => []
  | m + 1, v => lowBytes m (v / 256) ++ [(v % 256).toUInt8]

@[simp] theorem length_lowBytes (m v : Nat) : (lowBytes m v).length = m := by
  induction m generalizing v with
  | zero => rfl
  | succ m ih => simp [lowBytes, ih]

/-- 下位 `p + q` byte は、`256 ^ q` で割った商の下位 `p` byte の後に、下位 `q` byte。 -/
theorem lowBytes_add (p q v : Nat) : lowBytes (p + q) v = lowBytes p (v / 256 ^ q) ++ lowBytes q v := by
  induction q generalizing v with
  | zero => simp [lowBytes]
  | succ q ih =>
    rw [← Nat.add_assoc, lowBytes, ih, lowBytes, List.append_assoc, Nat.div_div_eq_div_mul,
      ← Nat.pow_succ']

/-- 下位 `m` byte は `256 ^ m` で割った余りで決まる。 -/
theorem lowBytes_mod (m v : Nat) : lowBytes m (v % 256 ^ m) = lowBytes m v := by
  induction m generalizing v with
  | zero => rfl
  | succ m ih =>
    rw [lowBytes, lowBytes, ← ih (v / 256), Nat.pow_succ', ← Nat.mod_mul_right_div_self,
      Nat.mod_mod_of_dvd v (Dvd.intro (256 ^ m) rfl : 256 ∣ 256 * 256 ^ m)]

/-- 表現の byte 数だけ下位を並べれば、最短の表現そのもの。 -/
theorem lowBytes_beBytes (n : Nat) : lowBytes (Bytes.beBytes n).length n = Bytes.beBytes n := by
  induction n using Nat.strong_induction_on with
  | _ n ih =>
    rcases Nat.eq_zero_or_pos n with rfl | hn
    · rfl
    · rw [Bytes.beBytes_of_pos hn, List.length_append, List.length_singleton, lowBytes,
        ih (n / 256) (Nat.div_lt_self hn (by norm_num))]

/-- 0 で埋めた先頭の一番後ろに byte を書く。 -/
theorem set_replicate_append (i : Nat) (b : UInt8) (tail : Bytes) :
    (List.replicate (i + 1) 0 ++ tail).set i b = List.replicate i 0 ++ b :: tail := by
  induction i with
  | zero => rfl
  | succ i ih => rw [List.replicate_succ, List.cons_append, List.set_cons_succ, ih]; rfl

/-- 内側の loop：0 で埋めた `index` byte の後ろから、語 `d` の下位 `min j index` byte を
上位から並べた形に書き、`index` をその分戻す。 -/
theorem copyWord_spec (j d i : Nat) (tail : Bytes) :
    EncBuf.copyWord j d (List.replicate i 0 ++ tail, i) =
      (List.replicate (i - min j i) 0 ++ lowBytes (min j i) d ++ tail, i - min j i) := by
  induction j generalizing d i tail with
  | zero => simp [EncBuf.copyWord, lowBytes]
  | succ j ih =>
    cases i with
    | zero => simp [EncBuf.copyWord, lowBytes]
    | succ i =>
      -- 一つ書くと、残りは一つ短い 0 の並びと、書いた byte の後の列
      rw [EncBuf.copyWord, if_pos (Nat.succ_pos i), Nat.add_sub_cancel, set_replicate_append,
        ih (d / 256) i ((d % 256).toUInt8 :: tail), Nat.succ_min_succ, lowBytes]
      simp

/-- 一つ先の語の分：下の語 `d` の下位 `a` byte（`a` は語の byte 数まで）の前に、上の値 `X` の
下位 `m'` byte。`a` が語の byte 数に足りないのは書く場所が尽きたときで、そのとき上は書かない。 -/
theorem lowBytes_ofDigits_cons {wb a m' d X : Nat} (hd : d < 256 ^ wb) (ha : a ≤ wb)
    (hm : a < wb → m' = 0) :
    lowBytes (m' + a) (d + 256 ^ wb * X) = lowBytes m' X ++ lowBytes a d := by
  rw [lowBytes_add]
  congr 1
  · by_cases haw : a = wb
    · subst haw
      rw [Nat.add_mul_div_left _ _ (by positivity), Nat.div_eq_of_lt hd, Nat.zero_add]
    · rw [hm (by omega)]
      rfl
  · -- 下位 `a` byte は `256 ^ a` で割った余りで決まり、`256 ^ a` は `256 ^ wb` を割る
    rw [← lowBytes_mod a (d + _), ← lowBytes_mod a d]
    congr 1
    rw [show 256 ^ wb = 256 ^ a * 256 ^ (wb - a) by rw [← Nat.pow_add]; congr 1; omega,
      Nat.mul_assoc, Nat.add_mul_mod_self_left]

/-- 外側の loop：語を下位から写すと、0 で埋めた `i` byte の後ろから、値の下位
`min i (wordBytes * 語の数)` byte を上位から並べた形になる。 -/
theorem foldl_copyWord (wb : Nat) : ∀ (ds : List Nat) (i : Nat) (tail : Bytes),
    (∀ d ∈ ds, d < 2 ^ (8 * wb)) →
    ds.foldl (fun st d => EncBuf.copyWord wb d st) (List.replicate i 0 ++ tail, i) =
      (List.replicate (i - min i (wb * ds.length)) 0 ++
        lowBytes (min i (wb * ds.length)) (Nat.ofDigits (2 ^ (8 * wb)) ds) ++ tail,
        i - min i (wb * ds.length))
  | [], i, tail, _ => by simp [lowBytes]
  | d :: ds, i, tail, hds => by
    have hB : 2 ^ (8 * wb) = 256 ^ wb := by rw [Nat.pow_mul]
    have hd : d < 256 ^ wb := hB ▸ hds d List.mem_cons_self
    rw [List.foldl_cons, copyWord_spec, List.append_assoc,
      foldl_copyWord wb ds (i - min wb i) _ (fun d' h => hds d' (List.mem_cons_of_mem _ h)),
      Nat.ofDigits_cons, hB]
    -- 書いた byte 数は、この語の `min wb i` と、残りの語の分
    have hm : min i (wb * (d :: ds).length) = min (i - min wb i) (wb * ds.length) + min wb i := by
      simp only [List.length_cons, Nat.mul_succ]
      omega
    have hr : i - min wb i - min (i - min wb i) (wb * ds.length) =
        i - (min (i - min wb i) (wb * ds.length) + min wb i) := by omega
    rw [hm, hr, lowBytes_ofDigits_cons hd (Nat.min_le_left _ _) (fun h => by omega),
      List.append_assoc, List.append_assoc, List.append_assoc]

/-- 語の写しは、最短の表現を書く：byte 数は `BitLen()` を切り上げたもので、語の数はそれを
覆う。 -/
theorem copyWords_beBytes {wb : Nat} (hw : 0 < wb) (N : Nat) :
    ((Nat.digits (2 ^ (8 * wb)) N).foldl (fun st d => EncBuf.copyWord wb d st)
      (List.replicate (Bytes.beBytes N).length 0, (Bytes.beBytes N).length)).1 = Bytes.beBytes N := by
  have hB : 1 < 2 ^ (8 * wb) := Nat.one_lt_two_pow (by omega)
  -- 語の数に `wordBytes` を掛けた byte 数は、表現の byte 数以上
  have hcover : (Bytes.beBytes N).length ≤ wb * (Nat.digits (2 ^ (8 * wb)) N).length := by
    rw [Bytes.length_beBytes_le_iff]
    calc N < (2 ^ (8 * wb)) ^ (Nat.digits (2 ^ (8 * wb)) N).length :=
          Nat.lt_base_pow_length_digits hB
      _ = 256 ^ (wb * (Nat.digits (2 ^ (8 * wb)) N).length) := by
          rw [← Nat.pow_mul, show (256 : Nat) = 2 ^ 8 from rfl, ← Nat.pow_mul, Nat.mul_assoc]
  have h := foldl_copyWord wb (Nat.digits (2 ^ (8 * wb)) N) (Bytes.beBytes N).length []
    (fun d hd => Nat.digits_lt_base hB hd)
  rw [List.append_nil] at h
  rw [h, Nat.min_eq_left hcover, Nat.sub_self, List.replicate_zero, List.nil_append,
    List.append_nil, Nat.ofDigits_digits, lowBytes_beBytes]

/-- `writeBigInt` は、0 以上の値の最短の big-endian 表現を文字列として書く。64 bit の境の
両側で、`encodeUint` の道と語の写しの道は同じものを書く。 -/
theorem writeBigInt_eq {wordBytes : Nat} (hw : 0 < wordBytes) {n : Int} (hn : 0 ≤ n) (w : EncBuf) :
    w.writeBigInt wordBytes n = .ok (w.encodeString (Bytes.beBytes n.toNat)) := by
  have habs : n.natAbs = n.toNat := by omega
  unfold EncBuf.writeBigInt
  rw [if_neg (by omega)]
  dsimp only
  split
  · -- 64 bit に収まる値は `encodeUint` に任せる
    rename_i hsize
    have hlt : n.natAbs < 2 ^ 64 := Nat.size_le.mp hsize
    rw [encodeUint_eq, Nat.toUInt64_eq, UInt64.toNat_ofNat', Nat.mod_eq_of_lt hlt, habs]
  · -- ほかは見出しの後に、語を下位から写した表現
    rename_i hsize
    rw [habs] at hsize ⊢
    rw [← Bytes.length_beBytes, copyWords_beBytes hw]
    have hL : 9 ≤ (Bytes.beBytes n.toNat).length := by
      rw [Bytes.length_beBytes]
      omega
    have hsmall : ¬ ((Bytes.beBytes n.toNat).length = 1 ∧ (Bytes.beBytes n.toNat).headD 0 < 128) :=
      fun h => by omega
    rw [EncBuf.encodeString_eq, Item.enc_str_of_not_small hsmall, EncBuf.encodeStringHeader_eq,
      EncBuf.append_append]

/-! ## 文字列の符号の読み -/

/-- 文字列の符号は、その文字列を中身とする先頭の値で、`ByteString` ではない。一 byte の値か
文字列かは中身で決まる。 -/
theorem firstValue_enc_str (c rest : Bytes) (h64 : c.length < 2 ^ 64) :
    ∃ k, k ≠ .List ∧ FirstValue ((Item.str c).enc ++ rest) k c rest ∧ ¬ ByteString k c := by
  by_cases hsmall : c.length = 1 ∧ c.headD 0 < 128
  · -- 0x80 未満の一 byte：その byte が値
    obtain ⟨c0, rfl⟩ := List.length_eq_one_iff.mp hsmall.1
    have hc : c0 < 0x80 := by simpa using hsmall.2
    refine ⟨.Byte, by decide, ⟨c0, hc, rfl, ?_⟩, fun h => nomatch h.1⟩
    rw [Item.enc_str_small hc]
    rfl
  · refine ⟨.String, by decide, ⟨h64, ?_⟩, fun h => hsmall ⟨h.2.1, h.2.2⟩⟩
    rw [Item.enc_str_of_not_small hsmall]

/-- `Split` は文字列の符号から、その文字列と残りを切り出す。 -/
theorem SplitString_enc_str (c rest : Bytes) (h64 : c.length < 2 ^ 64) :
    SplitString ((Item.str c).enc ++ rest) = .ok (c, rest) := by
  obtain ⟨k, hk, hfirst, hbs⟩ := firstValue_enc_str c rest h64
  simp [SplitString, Split_eq_ok.mpr ⟨hfirst, hbs⟩, hk, pure, Except.pure]

/-! ## 列の符号の読み -/

theorem length_le_enc_str (c : Bytes) : c.length ≤ (Item.str c).enc.length := by
  by_cases hsmall : c.length = 1 ∧ c.headD 0 < 128
  · obtain ⟨c0, rfl⟩ := List.length_eq_one_iff.mp hsmall.1
    rw [Item.enc_str_small (by simpa using hsmall.2)]
  · rw [Item.enc_str_of_not_small hsmall, List.length_append]
    omega

theorem length_le_enc_list (xs : List Item) : (Item.encList xs).length ≤ (Item.list xs).enc.length := by
  rw [Item.enc_list, List.length_append]
  omega

/-- 列の符号は、その中身を中身とする列の値。 -/
theorem firstValue_enc_list (xs : List Item) (rest : Bytes)
    (h64 : (Item.encList xs).length < 2 ^ 64) :
    FirstValue ((Item.list xs).enc ++ rest) .List (Item.encList xs) rest :=
  ⟨h64, by rw [Item.enc_list]⟩

/-- 値の符号は、`ByteString` でない先頭の値。 -/
theorem firstValue_enc (x : Item) (rest : Bytes) (h64 : x.enc.length < 2 ^ 64) :
    ∃ k c, FirstValue (x.enc ++ rest) k c rest ∧ ¬ ByteString k c := by
  cases x with
  | str c =>
    obtain ⟨k, -, hf, hb⟩ := firstValue_enc_str c rest
      (Nat.lt_of_le_of_lt (length_le_enc_str c) h64)
    exact ⟨k, c, hf, hb⟩
  | list xs =>
    exact ⟨.List, _, firstValue_enc_list xs rest (Nat.lt_of_le_of_lt (length_le_enc_list xs) h64),
      fun h => nomatch h.1⟩

theorem Split_enc_list (xs : List Item) (rest : Bytes) (h64 : (Item.encList xs).length < 2 ^ 64) :
    Split ((Item.list xs).enc ++ rest) = .ok (.List, Item.encList xs, rest) :=
  Split_eq_ok.mpr ⟨firstValue_enc_list xs rest h64, fun h => nomatch h.1⟩

theorem SplitList_enc_list (xs : List Item) (rest : Bytes)
    (h64 : (Item.encList xs).length < 2 ^ 64) :
    SplitList ((Item.list xs).enc ++ rest) = .ok (Item.encList xs, rest) := by
  simp [SplitList, Split_enc_list xs rest h64, pure, Except.pure]

/-- 長さが 1 でない文字列の符号は、文字列として切り出される。 -/
theorem Split_enc_str {c : Bytes} (rest : Bytes) (h64 : c.length < 2 ^ 64) (h1 : c.length ≠ 1) :
    Split ((Item.str c).enc ++ rest) = .ok (.String, c, rest) := by
  obtain ⟨k, hk, hfirst, hbs⟩ := firstValue_enc_str c rest h64
  cases k with
  | Byte =>
    obtain ⟨c', -, rfl, -⟩ := hfirst
    exact absurd rfl h1
  | String => exact Split_eq_ok.mpr ⟨hfirst, hbs⟩
  | List => exact absurd rfl hk

/-- 値を並べた符号を `CountValues` は数え、その数は値の数。 -/
theorem CountValues_encList (xs : List Item) (h64 : ∀ x ∈ xs, x.enc.length < 2 ^ 64) :
    CountValues (Item.encList xs) = .ok xs.length := by
  -- 並んだ値の、種類と中身の列
  have hvs : ∀ xs : List Item, (∀ x ∈ xs, x.enc.length < 2 ^ 64) →
      ∃ vs, Values (Item.encList xs) vs ∧ (∀ v ∈ vs, ¬ ByteString v.1 v.2) ∧
        vs.length = xs.length := by
    intro xs
    induction xs with
    | nil => exact fun _ => ⟨[], rfl, by simp, rfl⟩
    | cons x xs ih =>
      intro h
      obtain ⟨k, c, hf, hb⟩ := firstValue_enc x (Item.encList xs) (h x List.mem_cons_self)
      obtain ⟨vs, hv, hall, hl⟩ := ih fun y hy => h y (List.mem_cons_of_mem x hy)
      refine ⟨(k, c) :: vs, ⟨Item.encList xs, hf, hv⟩, ?_, by simp [hl]⟩
      intro v hv'
      rcases List.mem_cons.mp hv' with rfl | hv'
      · exact hb
      · exact hall v hv'
  obtain ⟨vs, hv, hall, hl⟩ := hvs xs h64
  exact CountValues_eq_ok.mpr ⟨vs, hv, hall, hl.symm⟩

/-! ## `SplitUint64` -/

/-- `SplitString` が 64 bit に収まる値の最短の表現を返せば、`SplitUint64` はその値を返す。 -/
theorem SplitUint64_of_beBytes {b rest : Bytes} {v : Nat} (hv : v < 2 ^ 64)
    (hs : SplitString b = .ok (Bytes.beBytes v, rest)) :
    SplitUint64 b = .ok (v.toUInt64, rest) := by
  unfold SplitUint64
  rw [hs, ok_bind]
  rcases Nat.eq_zero_or_pos v with rfl | hpos
  · rfl
  by_cases h256 : v < 256
  · -- 一 byte：0 でなければその値
    have hne : ¬ v.toUInt8 = 0 := by
      rw [← UInt8.toNat_inj, Nat.toUInt8_eq, UInt8.toNat_ofNat']
      simp only [UInt8.toNat_zero]
      omega
    rw [Bytes.beBytes_of_lt hpos h256]
    simp only [if_neg hne, pure, Except.pure, Except.ok.injEq, Prod.mk.injEq, and_true]
    rw [← UInt64.toNat_inj, UInt8.toNat_toUInt64, Nat.toUInt8_eq, UInt8.toNat_ofNat',
      Nat.toUInt64_eq, UInt64.toNat_ofNat', Nat.mod_eq_of_lt h256, Nat.mod_eq_of_lt hv]
  · -- 二 byte 以上：`readSize` で読む
    have h2 : 2 ≤ (Bytes.beBytes v).length := by
      by_contra h
      have := (Bytes.length_beBytes_le_iff v 1).mp (by omega)
      omega
    have h8 : ¬ (Bytes.beBytes v).length > 8 := by
      rw [gt_iff_lt, Nat.not_lt, Bytes.length_beBytes_le_iff]
      simpa using hv
    have hread := readSize_beBytes (show ¬ v < 56 by omega) []
    rw [List.append_nil] at hread
    obtain ⟨c0, c1, cs, hcs⟩ : ∃ c0 c1 cs, Bytes.beBytes v = c0 :: c1 :: cs := by
      match hb : Bytes.beBytes v, h2 with
      | c0 :: c1 :: cs, _ => exact ⟨c0, c1, cs, rfl⟩
    rw [hcs] at h8 hread ⊢
    simp only [if_neg h8, hread, pure, Except.pure]

/-- `Split` の文字列の中身の先頭が 0 なら、`SplitUint64` は退ける。 -/
theorem SplitUint64_of_head_zero {b c rest : Bytes} {k : Kind} (hs : Split b = .ok (k, c, rest))
    (hk : k ≠ .List) (h0 : c.head? = some 0) :
    SplitUint64 b = .error (if c.length > 8 then .errUintOverflow else .ErrCanonInt) := by
  have hss : SplitString b = .ok (c, rest) := by simp [SplitString, hs, hk, pure, Except.pure]
  unfold SplitUint64
  rw [hss, ok_bind]
  obtain ⟨c', rfl⟩ := List.head?_eq_some_iff.mp h0
  cases c' with
  | nil => rfl
  | cons d c' =>
    -- 二 byte 以上：長すぎるか、先頭の 0 を `readSize` が退ける
    dsimp only
    split_ifs with h8
    · rfl
    · have hread : readSize (0 :: d :: c') (0 :: d :: c').length = .error .ErrCanonSize := by
        simp [readSize]
      rw [hread]

/-! ## `Stream.Uint`・`decodeBigInt` -/

/-- `Kind()` の後、一 byte の値も文字列も、`readValue` が読む中身は `Bytes()` の返すもの。
ただし `ByteString` は `Bytes()` が退ける。 -/
theorem Bytes_of_readValue {s s' : Stream} {k : Kind} {c : Bytes}
    (h : readValue.run s = .ok (k, c) s') (hk : k ≠ .List) (hbs : ¬ ByteString k c) :
    Stream.Bytes.run s = .ok c s' := by
  obtain ⟨⟨k', size⟩, s1, hK, h⟩ := run_bind_eq_ok.mp h
  rw [Stream.Bytes, EStateM.run_bind, hK]
  dsimp only at h ⊢
  cases k' with
  | Byte =>
    simp only [if_true, EStateM.run_bind, EStateM.run_modify, EStateM.run_get, EStateM.run_pure,
      EStateM.Result.ok.injEq, Prod.mk.injEq] at h ⊢
    obtain ⟨⟨-, rfl⟩, rfl⟩ := h
    exact ⟨rfl, rfl⟩
  | String =>
    simp only [if_neg (by decide : ¬ Kind.String = .Byte)] at h
    obtain ⟨c', s2, hf, hp⟩ := run_bind_eq_ok.mp h
    simp only [EStateM.run_pure, EStateM.Result.ok.injEq, Prod.mk.injEq] at hp
    obtain ⟨⟨rfl, rfl⟩, rfl⟩ := hp
    -- 読んだ中身の長さは `size` なので、一 byte で書けた値でなければ退けない
    have hlen : c'.length = size := by
      obtain ⟨-, hle, rfl, -⟩ := readFull_eq_ok.mp hf
      rw [List.length_take]
      omega
    have hcanon : ¬ (size = 1 ∧ c'.headD 0 < 128) := fun h' => hbs ⟨rfl, hlen ▸ h'.1, h'.2⟩
    simp only [EStateM.run_bind, hf, if_neg hcanon]
    rfl
  | List =>
    simp only [if_neg (by decide : ¬ Kind.List = .Byte)] at h
    obtain ⟨c', s2, -, hp⟩ := run_bind_eq_ok.mp h
    simp only [EStateM.run_pure, EStateM.Result.ok.injEq, Prod.mk.injEq] at hp
    exact absurd hp.1.1.symm hk

/-- 一番外で文字列の符号から始まる入力を、`Bytes()` はその文字列に読む。 -/
theorem Bytes_run_enc {s : Stream} {c rest : Bytes} (hs : s.TopLevel) (h64 : c.length < 2 ^ 64)
    (hr : s.r = (Item.str c).enc ++ rest) : ∃ s', Stream.Bytes.run s = .ok c s' ∧ s'.r = rest := by
  obtain ⟨k, hk, hfirst, hbs⟩ := firstValue_enc_str c rest h64
  obtain ⟨s', hv, hr', -⟩ := readValue_run hs (hr ▸ hfirst)
  exact ⟨s', Bytes_of_readValue hv hk hbs, hr'⟩

/-- `decodeBigInt` は `Bytes()` の返す中身を、先頭が 0 でなければ値に読む。 -/
theorem decodeBigInt_of_Bytes {s s' : Stream} {c : Bytes} (h : Stream.Bytes.run s = .ok c s') :
    decodeBigInt.run s = if c.length > 0 ∧ c.headD 0 = 0 then
      .error (wrapStreamError .ErrCanonInt bigIntType) s' else .ok (Bytes.beValue c) s' := by
  simp only [decodeBigInt, EStateM.run_bind, run_tryCatch, h]
  split_ifs <;> rfl

/-- 一番外で 64 bit に収まる値の符号から始まる入力を、`Stream.Uint` はその値に読む。 -/
theorem Uint_run {s : Stream} {v : Nat} {rest : Bytes} (hs : s.TopLevel) (hv : v < 2 ^ 64)
    (hr : s.r = (Item.str (Bytes.beBytes v)).enc ++ rest) :
    ∃ s', Stream.Uint.run s = .ok v.toUInt64 s' ∧ s'.r = rest := by
  rcases Nat.eq_zero_or_pos v with rfl | hpos
  · -- 0：空の文字列。`readUint 0` は何も読まない
    have hh : HeaderOk .String 0 0 [0x80] := ⟨rfl, by norm_num, rfl⟩
    have hr' : s.r = [0x80] ++ rest := hr
    have hK := Kind_run hs.kind hh (hs.room (by simp [hr'])) hr'
    refine ⟨s.after 1 0, ?_, by simp [hr']⟩
    simp only [Stream.Uint, Stream.uint, EStateM.run_bind, hK, Stream.readUint]
    rfl
  by_cases h128 : v < 128
  · -- 128 未満：一 byte の値。0 でないのでそのまま読む
    have hc : v.toUInt8 < 0x80 := by
      rw [UInt8.lt_iff_toNat_lt, Nat.toUInt8_eq, UInt8.toNat_ofNat']
      simp only [UInt8.reduceToNat]
      omega
    have hne : ¬ v.toUInt8 = 0 := by
      rw [← UInt8.toNat_inj, Nat.toUInt8_eq, UInt8.toNat_ofNat']
      simp only [UInt8.toNat_zero]
      omega
    have hh : HeaderOk .Byte 0 v.toUInt8 [v.toUInt8] := ⟨rfl, hc, rfl⟩
    have hr' : s.r = [v.toUInt8] ++ rest := by
      rw [hr, Bytes.beBytes_of_lt hpos (by omega), Item.enc_str_small hc]
    have hK := Kind_run hs.kind hh (hs.room (by simp [hr'])) hr'
    have hval : v.toUInt8.toUInt64 = v.toUInt64 := by
      rw [← UInt64.toNat_inj, UInt8.toNat_toUInt64, Nat.toUInt8_eq, UInt8.toNat_ofNat',
        Nat.toUInt64_eq, UInt64.toNat_ofNat']
      omega
    refine ⟨s.after 1 v.toUInt8, ?_, by simp [hr']⟩
    simp only [Stream.Uint, Stream.uint, EStateM.run_bind, hK, EStateM.run_get,
      Stream.peeked_byteval, hne, ↓reduceIte, EStateM.run_modify, EStateM.run_pure, hval]
    rfl
  · -- 128 以上：長さ 1 から 8 の文字列を `readUint` で読む
    have hL8 : (Bytes.beBytes v).length ≤ 8 :=
      (Bytes.length_beBytes_le_iff v 8).mpr (by simpa using hv)
    have hsmall : ¬ ((Bytes.beBytes v).length = 1 ∧ (Bytes.beBytes v).headD 0 < 128) := by
      rintro ⟨h1, hc⟩
      have hlt : v < 256 := by
        have := (Bytes.length_beBytes_le_iff v 1).mp (by omega)
        simpa using this
      rw [Bytes.beBytes_of_lt hpos hlt] at hc
      simp only [List.headD_cons, UInt8.lt_iff_toNat_lt, Nat.toUInt8_eq, UInt8.toNat_ofNat',
        UInt8.reduceToNat] at hc
      omega
    have hh : HeaderOk .String (Bytes.beBytes v).length 0
        (header 0x80 0xB7 (Bytes.beBytes v).length) := ⟨rfl, by omega, rfl⟩
    have hr' := hr
    rw [Item.enc_str_of_not_small hsmall, List.append_assoc] at hr'
    have hall : (header 0x80 0xB7 (Bytes.beBytes v).length).length + (Bytes.beBytes v).length ≤
        s.r.length := by
      rw [hr']; simp
    have hK := Kind_run hs.kind hh (hs.room hall) hr'
    -- 長さは見出しの後に、最短の表現で書かれている
    have hu := readUint_beBytes (t := s.peeked (header 0x80 0xB7 (Bytes.beBytes v).length).length 0
        (.String, (Bytes.beBytes v).length)) hpos ((Stream.room_add_iff 0).mp (hs.room hall)).2
      (show _ = Bytes.beBytes v ++ rest by simp [hr'])
    have hL : ¬ (Bytes.beBytes v).length > 64 / 8 := by omega
    have hcanon : ¬ ((Bytes.beBytes v).length > 0 ∧ v < 128) := fun h => h128 h.2
    refine ⟨s.after ((header 0x80 0xB7 (Bytes.beBytes v).length).length +
      (Bytes.beBytes v).length) 0, ?_, by simp [hr']⟩
    simp only [Stream.Uint, Stream.uint, EStateM.run_bind, hK, if_neg hL, run_tryCatch, hu,
      if_neg hcanon, EStateM.run_pure, Stream.peeked_byteval, Stream.peeked_after]

/-- `Bytes()` の読む中身の先頭が 0 なら、同じ所から読む `Stream.Uint` は退ける：一 byte の 0 と
先頭が 0 の二 byte 以上は `ErrCanonInt`、8 byte を超えれば `errUintOverflow`。 -/
theorem Uint_of_head_zero {s s' : Stream} {c : Bytes} (h : Stream.Bytes.run s = .ok c s')
    (h0 : c.head? = some 0) :
    ∃ t, Stream.Uint.run s = .error (if c.length > 8 then .errUintOverflow else .ErrCanonInt) t := by
  obtain ⟨⟨k, size⟩, s1, hK, h⟩ := run_bind_eq_ok.mp h
  simp only [Stream.Uint, Stream.uint, EStateM.run_bind, hK]
  dsimp only at h ⊢
  cases k with
  | Byte =>
    -- 一 byte の値 0
    simp only [EStateM.run_bind, EStateM.run_modify, EStateM.run_get, EStateM.run_pure,
      EStateM.Result.ok.injEq] at h
    obtain ⟨rfl, -⟩ := h
    have hbv : s1.byteval = 0 := by simpa using h0
    exact ⟨s1, by simp [EStateM.run_get, hbv, run_throw]⟩
  | String =>
    obtain ⟨c', s2, hf, h⟩ := run_bind_eq_ok.mp h
    obtain ⟨-, hlen, rfl, rfl⟩ := readFull_eq_ok.mp hf
    split_ifs at h with hcanon
    · simp [run_throw] at h
    · simp only [EStateM.run_pure, EStateM.Result.ok.injEq] at h
      obtain ⟨rfl, rfl⟩ := h
      have hclen : (s1.r.take size).length = size := by rw [List.length_take]; omega
      -- 先頭が 0 の中身は、一 byte で書けた値ではないので二 byte 以上
      obtain ⟨c', hc'⟩ := List.head?_eq_some_iff.mp h0
      have h2 : 2 ≤ size := by
        have h1 : 1 ≤ size := by rw [← hclen, hc']; simp
        by_contra hlt
        exact hcanon ⟨by omega, by simp [hc']⟩
      rw [hclen]
      split_ifs with h8
      · exact ⟨_, rfl⟩
      · -- `readUint` は同じ中身を読み、先頭の 0 を `ErrCanonSize` で退け、`ErrCanonInt` に直る
        obtain ⟨n, rfl⟩ := Nat.exists_eq_add_of_le' h2
        have hhead : (s1.r.take (n + 2)).head? = some 0 := by rw [hc']; rfl
        exact ⟨s1.after (n + 2) s1.byteval, by
          simp only [Stream.readUint, bind_pure_comp, gt_iff_lt, lt_add_iff_pos_left, add_pos_iff,
            Order.lt_two_iff, zero_le, or_true, true_and, Nat.toUInt64_eq, EStateM.run_bind,
            run_tryCatch, hf, hhead, ↓reduceIte, run_map, run_throw]⟩
  | List =>
    simp [run_throw] at h

/-- `Bytes()` の読む中身の先頭が 0 なら、`decodeBigInt` は `ErrCanonInt` で退ける。 -/
theorem decodeBigInt_of_head_zero {s s' : Stream} {c : Bytes} (h : Stream.Bytes.run s = .ok c s')
    (h0 : c.head? = some 0) :
    decodeBigInt.run s = .error (wrapStreamError .ErrCanonInt bigIntType) s' := by
  obtain ⟨c', rfl⟩ := List.head?_eq_some_iff.mp h0
  rw [decodeBigInt_of_Bytes h, if_pos ⟨by simp, rfl⟩]

/-- 見出し 0x81 の後に 0x80 未満の byte が続けば、一番外の `Stream.Uint` は `ErrCanonSize` で
退ける。 -/
theorem Uint_byteString {s : Stream} {c : UInt8} {rest : Bytes} (hs : s.TopLevel) (hc : c < 0x80)
    (hr : s.r = 0x81 :: c :: rest) : ∃ t, Stream.Uint.run s = .error .ErrCanonSize t := by
  have hh : HeaderOk .String 1 0 [0x81] := ⟨rfl, by norm_num, rfl⟩
  have hr' : s.r = [0x81] ++ (c :: rest) := hr
  have hroom : s.Room ([0x81].length + 1) := hs.room (by simp [hr])
  have hK := Kind_run hs.kind hh hroom hr'
  have hb : Stream.readByte.run (s.peeked 1 0 (.String, 1)) =
      .ok c ((s.peeked 1 0 (.String, 1)).after 1 0) :=
    readByte_eq_ok.mpr ⟨((Stream.room_add_iff 0).mp hroom).2, by simp [hr], rfl⟩
  have hlt : 1 > 0 ∧ c.toNat < 128 := ⟨by omega, by simpa [UInt8.lt_iff_toNat_lt] using hc⟩
  have h8 : ¬ 1 > 64 / 8 := by norm_num
  refine ⟨(s.peeked 1 0 (.String, 1)).after 1 0, ?_⟩
  simp only [Stream.Uint, Stream.uint, EStateM.run_bind, hK, List.length_singleton, if_neg h8,
    Stream.readUint, run_tryCatch, hb, EStateM.run_pure, if_pos hlt, run_throw]

/-- 見出し 0x81 の後に 0x80 未満の byte が続けば、一番外の `decodeBigInt` は `ErrCanonSize` で
退ける。 -/
theorem decodeBigInt_byteString {s : Stream} {c : UInt8} {rest : Bytes} (hs : s.TopLevel)
    (hc : c < 0x80) (hr : s.r = 0x81 :: c :: rest) :
    ∃ t, decodeBigInt.run s = .error (wrapStreamError .ErrCanonSize bigIntType) t := by
  have hh : HeaderOk .String 1 0 [0x81] := ⟨rfl, by norm_num, rfl⟩
  have hr' : s.r = [0x81] ++ (c :: rest) := hr
  have hroom : s.Room ([0x81].length + 1) := hs.room (by simp [hr])
  have hK := Kind_run hs.kind hh hroom hr'
  have hf : (Stream.readFull 1).run (s.peeked 1 0 (.String, 1)) =
      .ok [c] ((s.peeked 1 0 (.String, 1)).after 1 0) :=
    readFull_eq_ok.mpr ⟨((Stream.room_add_iff 0).mp hroom).2, by simp [hr], by simp [hr], rfl⟩
  have hcanon : [c].headD 0 < 128 := hc
  refine ⟨(s.peeked 1 0 (.String, 1)).after 1 0, ?_⟩
  simp only [decodeBigInt, Stream.Bytes, EStateM.run_bind, run_tryCatch, hK, List.length_singleton,
    hf, true_and, if_pos hcanon, run_throw]

/-- 一番外で `n` の最短の big-endian の byte 列の文字列を、`decodeBigInt` は `n` に読む。 -/
theorem decodeBigInt_run {s : Stream} {n : Nat} {rest : Bytes} (hs : s.TopLevel)
    (h64 : (Bytes.beBytes n).length < 2 ^ 64) (hr : s.r = (Item.str (Bytes.beBytes n)).enc ++ rest) :
    ∃ s', decodeBigInt.run s = .ok (n : Int) s' ∧ s'.r = rest := by
  obtain ⟨s', hb, hrest⟩ := Bytes_run_enc hs h64 hr
  refine ⟨s', ?_, hrest⟩
  -- 最短の byte 列の先頭は 0 でない
  have hcanon : ¬ ((Bytes.beBytes n).length > 0 ∧ (Bytes.beBytes n).headD 0 = 0) := by
    rintro ⟨hpos, hz⟩
    obtain ⟨a, t, he⟩ := List.exists_cons_of_length_pos hpos
    apply Bytes.head_beBytes_ne_zero n
    rw [he] at hz ⊢
    simp_all
  rw [decodeBigInt_of_Bytes hb, if_neg hcanon, Bytes.beValue_beBytes]

/-- 整数の符号の往復と最短の形。`encodeUint` の出力を `SplitUint64` と `Stream.Uint` は `x` と
残りに読む。`writeBigInt` は語の幅に依らず `n` の最短の big-endian の byte 列の文字列を書き
（`n < 2^64` の `encodeUint` の道と語を写す道が境で合う）、`decodeBigInt` はそれを `n` に読む。
中身の先頭が 0 の値と、一 byte で書けた値の文字列（0x81 の後に 0x80 未満）は、三つの読み手の
どれもが退ける。`decodeBigInt` の道の長さの仮定は、Go の長さが `uint64` に収まること。 -/
theorem integer_encodings_canonical :
    (∀ (x : UInt64) (rest : Bytes),
      SplitUint64 ((EncBuf.empty.encodeUint x).toBytes ++ rest) = .ok (x, rest) ∧
      ∃ s', Stream.Uint.run (Stream.Reset ((EncBuf.empty.encodeUint x).toBytes ++ rest)
        ((EncBuf.empty.encodeUint x).toBytes ++ rest).length) = .ok x s' ∧ s'.r = rest) ∧
    (∀ (wordBytes : Nat) (n : Int) (w : EncBuf), 0 < wordBytes → 0 ≤ n →
      w.writeBigInt wordBytes n = .ok (w.encodeString (Bytes.beBytes n.toNat))) ∧
    (∀ (wordBytes : Nat) (n : Int) (rest : Bytes), 0 < wordBytes → 0 ≤ n →
      (Bytes.beBytes n.toNat).length < 2 ^ 64 →
      ∃ w', EncBuf.empty.writeBigInt wordBytes n = .ok w' ∧
        ∃ s', decodeBigInt.run (Stream.Reset (w'.toBytes ++ rest) (w'.toBytes ++ rest).length) =
          .ok n s' ∧ s'.r = rest) ∧
    (∀ (b c rest : Bytes) (k : Kind), Split b = .ok (k, c, rest) → k ≠ .List → c.head? = some 0 →
      SplitUint64 b = .error (if c.length > 8 then .errUintOverflow else .ErrCanonInt)) ∧
    (∀ (s s' : Stream) (c : Bytes), Stream.Bytes.run s = .ok c s' → c.head? = some 0 →
      (∃ t, Stream.Uint.run s = .error (if c.length > 8 then .errUintOverflow else .ErrCanonInt) t) ∧
      decodeBigInt.run s = .error (wrapStreamError .ErrCanonInt bigIntType) s') ∧
    (∀ (c : UInt8) (rest : Bytes), c < 0x80 →
      SplitUint64 (0x81 :: c :: rest) = .error .ErrCanonSize ∧
      (∃ t, Stream.Uint.run (Stream.Reset (0x81 :: c :: rest) (0x81 :: c :: rest).length) =
        .error .ErrCanonSize t) ∧
      ∃ t, decodeBigInt.run (Stream.Reset (0x81 :: c :: rest) (0x81 :: c :: rest).length) =
        .error (wrapStreamError .ErrCanonSize bigIntType) t) := by
  refine ⟨?uint, ?write, ?bigint, ?split0, ?stream0, ?byteString⟩
  case uint =>
    intro x rest
    have hv : x.toNat < 2 ^ 64 := x.toNat_lt
    have henc : (EncBuf.empty.encodeUint x).toBytes ++ rest =
        (Item.str (Bytes.beBytes x.toNat)).enc ++ rest := by rw [toBytes_encodeUint]
    have h64 : (Bytes.beBytes x.toNat).length < 2 ^ 64 := by
      rw [Bytes.length_beBytes]
      have := Nat.size_le.mpr hv
      omega
    refine ⟨?_, ?_⟩
    · rw [henc, SplitUint64_of_beBytes hv (SplitString_enc_str _ rest h64), Nat.toUInt64_eq,
        UInt64.ofNat_toNat]
    · obtain ⟨s', hu, hr⟩ := Uint_run (Reset_topLevel _) hv henc
      exact ⟨s', by rw [hu, Nat.toUInt64_eq, UInt64.ofNat_toNat], hr⟩
  case write =>
    intro wordBytes n w hw hn
    exact writeBigInt_eq hw hn w
  case bigint =>
    intro wordBytes n rest hw hn h64
    refine ⟨_, writeBigInt_eq hw hn EncBuf.empty, ?_⟩
    have hr : (Stream.Reset ((EncBuf.empty.encodeString (Bytes.beBytes n.toNat)).toBytes ++ rest)
        ((EncBuf.empty.encodeString (Bytes.beBytes n.toNat)).toBytes ++ rest).length).r =
        (Item.str (Bytes.beBytes n.toNat)).enc ++ rest := by
      rw [← toBytes_empty_writeItem (.str _)]
      rfl
    obtain ⟨s', hd, hrest⟩ := decodeBigInt_run (Reset_topLevel _) h64 hr
    exact ⟨s', by rw [hd, Int.toNat_of_nonneg hn], hrest⟩
  case split0 =>
    intro b c rest k hs hk h0
    exact SplitUint64_of_head_zero hs hk h0
  case stream0 =>
    intro s s' c hb h0
    exact ⟨Uint_of_head_zero hb h0, decodeBigInt_of_head_zero hb h0⟩
  case byteString =>
    intro c rest hc
    have hs := Reset_topLevel (0x81 :: c :: rest)
    refine ⟨?_, Uint_byteString hs hc rfl, decodeBigInt_byteString hs hc rfl⟩
    simp [SplitUint64, SplitString, Split_byteString hc rest]

/-- `2^64` は一語より大きいので、語を写す道を通る。 -/
theorem integer_encodings_canonical_two_pow_64 :
    0 < 8 ∧ (0 : Int) ≤ 2 ^ 64 ∧
      EncBuf.empty.writeBigInt 8 (2 ^ 64) = .ok (EncBuf.empty.encodeString (Bytes.beBytes (2 ^ 64))) :=
  ⟨by decide, by decide, integer_encodings_canonical.2.1 8 (2 ^ 64) EncBuf.empty (by decide) (by decide)⟩

end Rlp
