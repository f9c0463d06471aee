import Bullions.Rlp.Raw
import Bullions.Rlp.Properties.Stream

/-!
# byte 列の切り分けと `Stream` の読み

`Split` と `Stream` は、どちらも先頭の値を最短の形の見出しでしか読まない（`FirstValue`）。
違うのは一つだけで、0x80 未満の一 byte を中身とする文字列（`ByteString`：見出し 0x81 の後に
0x80 未満の byte）を、`readKind` は退け、`Stream` の `Kind()` は文字列として読む。`Stream`
でこれを退けるのは `Bytes()` と `uint` で、`Raw()` は退けない。

* `Split_eq_ok`：`Split` が読むのは、`ByteString` でない先頭の値そのもの
* `readValue_sound`・`readValue_run`：`Stream` が一番外で読むのは、先頭の値そのもの
* `CountValues_eq_ok`・`readValues_eq_ok`：並んだ値の数え上げも、同じ違いのほかは一致する
-/

namespace Rlp

open ExceptSpec

/-! ## 先頭の値 -/

/-- `b` の先頭の値は種類 `k`、中身 `content` で、その後に `rest` が続く。見出しは最短の形で、
一 byte の値は 0x80 未満の byte そのものである。 -/
def FirstValue (b : Bytes) : Kind → Bytes → Bytes → Prop
  | .Byte, content, rest => ∃ c, c < 0x80 ∧ content = [c] ∧ b = c :: rest
  | .String, content, rest =>
    content.length < 2 ^ 64 ∧ b = header 0x80 0xB7 content.length ++ content ++ rest
  | .List, content, rest =>
    content.length < 2 ^ 64 ∧ b = header 0xC0 0xF7 content.length ++ content ++ rest

/-- 0x80 未満の一 byte を中身とする文字列。一 byte の値として書くべきもので、見出しは 0x81。 -/
def ByteString (k : Kind) (content : Bytes) : Prop :=
  k = .String ∧ content.length = 1 ∧ content.headD 0 < 0x80

instance (k : Kind) (content : Bytes) : Decidable (ByteString k content) :=
  inferInstanceAs (Decidable (k = .String ∧ content.length = 1 ∧ content.headD 0 < 0x80))

/-- 先頭の値の後の残りは、元の列より短い。 -/
theorem FirstValue.length_lt {b content rest : Bytes} {k : Kind} (h : FirstValue b k content rest) :
    rest.length < b.length := by
  cases k with
  | Byte =>
    obtain ⟨c, -, -, rfl⟩ := h
    simp
  | String =>
    obtain ⟨-, rfl⟩ := h
    have := List.length_pos_of_ne_nil (header_ne_nil 0x80 0xB7 content.length)
    simp only [List.length_append]
    omega
  | List =>
    obtain ⟨-, rfl⟩ := h
    have := List.length_pos_of_ne_nil (header_ne_nil 0xC0 0xF7 content.length)
    simp only [List.length_append]
    omega

/-! ## `readSize` と `readKind` -/

/-- `readSize b slen`（`slen ≥ 1`）は先頭の `slen` byte を読み、56 未満の長さと先頭が 0 の長さを
退ける。 -/
theorem readSize_eq_ok {b : Bytes} {slen v : Nat} (h1 : 1 ≤ slen) :
    readSize b slen = .ok v ↔
      slen ≤ b.length ∧ v = Bytes.beValue (b.take slen) ∧ ¬ v < 56 ∧
        (b.take slen).head? ≠ some 0 := by
  unfold readSize
  by_cases hlen : slen > b.length
  · simp only [hlen, if_true, reduceCtorEq, false_iff, not_and]
    intro h
    omega
  · obtain ⟨c, t, rfl⟩ := List.exists_cons_of_length_pos (by omega : 0 < b.length)
    obtain ⟨k, rfl⟩ := Nat.exists_eq_add_of_le' h1
    rw [if_neg hlen]
    dsimp only
    split
    · rename_i hc
      simp only [List.take_succ_cons, List.headD_cons] at hc
      simp only [reduceCtorEq, false_iff, not_and, List.take_succ_cons, List.head?_cons, ne_eq,
        Option.some.injEq, not_not]
      intro _ hv hv56
      subst hv
      exact hc.resolve_left hv56
    · rename_i hc
      simp only [List.take_succ_cons, List.headD_cons] at hc
      simp only [Except.ok.injEq, Nat.le_of_not_gt hlen, true_and, List.take_succ_cons,
        List.head?_cons, ne_eq, Option.some.injEq]
      constructor
      · rintro rfl
        exact ⟨rfl, not_or.mp hc⟩
      · rintro ⟨rfl, -⟩
        rfl

/-- 短い形の見出し `b` の示す大きさの中身が残りに収まれば、`b :: rest` は見出し、中身、
その後に分かれる。 -/
theorem split_short (large : UInt8) {small b : UInt8} (rest : Bytes) (hlt : (b - small).toNat < 56)
    (hfit : (b - small).toNat ≤ rest.length) :
    (rest.take (b - small).toNat).length = (b - small).toNat ∧
      b :: rest = header small large (rest.take (b - small).toNat).length ++
        rest.take (b - small).toNat ++ rest.drop (b - small).toNat := by
  have hlen : (rest.take (b - small).toNat).length = (b - small).toNat := by
    rw [List.length_take]
    omega
  refine ⟨hlen, ?_⟩
  rw [hlen, header_sub hlt, List.append_assoc, List.take_append_drop]
  rfl

/-- 長い形の見出し `b` の後に `readSize` が長さ `v` を読み、その中身が残りに収まれば、
`b :: rest` は最短の形の見出し、中身、その後に分かれる。 -/
theorem split_long (small : UInt8) {large b : UInt8} {rest : Bytes} {v : Nat}
    (hlo : large.toNat + 1 ≤ b.toNat) (hhi : b.toNat ≤ large.toNat + 8)
    (hv : readSize rest (b - large).toNat = .ok v) (hfit : v ≤ rest.length - (b - large).toNat) :
    56 ≤ v ∧ v < 2 ^ 64 ∧ ((rest.drop (b - large).toNat).take v).length = v ∧
      b :: rest = header small large v ++ (rest.drop (b - large).toNat).take v ++
        rest.drop ((b - large).toNat + v) := by
  have hk : (b - large).toNat = b.toNat - large.toNat := toNat_sub_of_le (by omega)
  obtain ⟨hslen, hval, h56, hhead⟩ := (readSize_eq_ok (by omega)).mp hv
  have hlen : (rest.take (b - large).toNat).length = (b - large).toNat := by
    rw [List.length_take]
    omega
  obtain ⟨h64, hhd⟩ := headerOk_long small hlen (by omega) (fun _ => hhead) hval h56
  refine ⟨by omega, h64, by rw [List.length_take, List.length_drop]; omega, ?_⟩
  rw [hhd, List.cons_append, List.cons_append, List.cons.injEq]
  refine ⟨rfl, ?_⟩
  rw [List.append_assoc, ← List.drop_drop, List.take_append_drop, List.take_append_drop]

/-- `readKind` が成功したなら、読んだのは `ByteString` でない先頭の値で、`tagsize` と
`contentsize` はその見出しと中身の byte 数である。 -/
theorem readKind_firstValue {buf : Bytes} {k : Kind} {ts cs : Nat}
    (h : readKind buf = .ok (k, ts, cs)) :
    FirstValue buf k ((buf.drop ts).take cs) (buf.drop (ts + cs)) ∧
      ¬ ByteString k ((buf.drop ts).take cs) := by
  cases buf with
  | nil => simp [readKind] at h
  | cons b rest =>
    simp only [readKind] at h
    obtain ⟨⟨k', ts', cs'⟩, hhd, hchk⟩ := bind_eq_ok.mp h
    dsimp only at hchk
    -- 大きさの確かめが通れば、読んだ見出しをそのまま返す
    split_ifs at hchk with hfit
    obtain ⟨rfl, rfl, rfl⟩ : k' = k ∧ ts' = ts ∧ cs' = cs := by
      simpa only [pure, Except.pure, Except.ok.injEq, Prod.mk.injEq] using hchk
    simp only [List.length_cons, gt_iff_lt, not_lt] at hfit
    split_ifs at hhd with h80 hB8 hcanon hC0 hF8
    · -- 0x00..0x7F：その byte 自身が値
      simp only [pure, Except.pure, Except.ok.injEq, Prod.mk.injEq] at hhd
      obtain ⟨rfl, rfl, rfl⟩ := hhd
      exact ⟨⟨b, h80, rfl, rfl⟩, fun hbs => by cases hbs.1⟩
    · -- 0x80..0xB7：短い文字列で、一 byte で書けた値ではない
      simp only [pure, Except.pure, Except.ok.injEq, Prod.mk.injEq] at hhd
      obtain ⟨rfl, rfl, rfl⟩ := hhd
      simp only [UInt8.lt_iff_toNat_lt, UInt8.reduceToNat] at h80 hB8
      have hlt : (b - 0x80).toNat < 56 := by rw [toNat_sub_of_le (by simp; omega)]; simp; omega
      obtain ⟨hlen, hsplit⟩ := split_short 0xB7 rest hlt (by omega)
      simp only [Nat.add_comm 1, List.drop_succ_cons, List.drop_zero]
      refine ⟨⟨by omega, hsplit⟩, ?_⟩
      rintro ⟨-, h1, hc⟩
      rw [hlen] at h1
      obtain ⟨c, rest', rfl⟩ := List.exists_cons_of_length_pos (by omega : 0 < rest.length)
      simp only [h1, List.take_succ_cons, List.take_zero, List.headD_cons] at hc
      exact hcanon ⟨h1, by simp, by simpa using hc⟩
    · -- 0xB8..0xBF：長さの byte 数が続く文字列
      simp only [UInt8.lt_iff_toNat_lt, UInt8.reduceToNat] at h80 hB8 hC0
      obtain ⟨v, hv, hp⟩ := bind_eq_ok.mp hhd
      simp only [pure, Except.pure, Except.ok.injEq, Prod.mk.injEq] at hp
      obtain ⟨rfl, rfl, rfl⟩ := hp
      obtain ⟨h56, h64, hlen, hsplit⟩ :=
        split_long 0x80 (by simp; omega) (by simp; omega) hv (by omega)
      simp only [List.drop_succ_cons, Nat.add_right_comm _ 1]
      refine ⟨⟨by rw [hlen]; exact h64, by rw [hlen]; exact hsplit⟩, fun hbs => ?_⟩
      have h1 := hbs.2.1
      rw [hlen] at h1
      omega
    · -- 0xC0..0xF7：短い列
      simp only [pure, Except.pure, Except.ok.injEq, Prod.mk.injEq] at hhd
      obtain ⟨rfl, rfl, rfl⟩ := hhd
      simp only [UInt8.lt_iff_toNat_lt, UInt8.reduceToNat] at h80 hB8 hC0 hF8
      have hlt : (b - 0xC0).toNat < 56 := by rw [toNat_sub_of_le (by simp; omega)]; simp; omega
      obtain ⟨hlen, hsplit⟩ := split_short 0xF7 rest hlt (by omega)
      simp only [Nat.add_comm 1, List.drop_succ_cons, List.drop_zero]
      exact ⟨⟨by omega, hsplit⟩, fun hbs => by cases hbs.1⟩
    · -- 0xF8..0xFF：長さの byte 数が続く列
      simp only [UInt8.lt_iff_toNat_lt, UInt8.reduceToNat] at h80 hB8 hC0 hF8
      obtain ⟨v, hv, hp⟩ := bind_eq_ok.mp hhd
      simp only [pure, Except.pure, Except.ok.injEq, Prod.mk.injEq] at hp
      obtain ⟨rfl, rfl, rfl⟩ := hp
      obtain ⟨-, h64, hlen, hsplit⟩ :=
        split_long 0xC0 (by simp; omega) (by simp; have := b.toNat_lt; omega) hv (by omega)
      simp only [List.drop_succ_cons, Nat.add_right_comm _ 1]
      exact ⟨⟨by rw [hlen]; exact h64, by rw [hlen]; exact hsplit⟩, fun hbs => by cases hbs.1⟩

/-- 短い形の見出しの byte：tag に大きさを足したもの。 -/
theorem toNat_short_tag (small : UInt8) {n : Nat} (hn : n < 56) (hs : small.toNat + 56 ≤ 256) :
    (small + n.toUInt8).toNat = small.toNat + n ∧ (small + n.toUInt8 - small).toNat = n := by
  refine ⟨Bytes.toNat_add_toUInt8 (by omega), ?_⟩
  rw [UInt8.add_comm, UInt8.add_sub_cancel, Nat.toUInt8_eq, UInt8.toNat_ofNat']
  omega

/-- 最短の表現で書いた 56 以上の長さは、`readSize` でそのまま読める。 -/
theorem readSize_beBytes {n : Nat} (h56 : ¬ n < 56) (tail : Bytes) :
    readSize (Bytes.beBytes n ++ tail) (Bytes.beBytes n).length = .ok n := by
  have hL := List.length_pos_of_ne_nil (Bytes.beBytes_ne_nil (show 0 < n by omega))
  refine (readSize_eq_ok hL).mpr ⟨by simp, ?_, h56, ?_⟩
  · rw [List.take_left, Bytes.beValue_beBytes]
  · rw [List.take_left]
    exact Bytes.head_beBytes_ne_zero n

/-- 先頭の値が `ByteString` でなければ、`readKind` はその見出しを読む。 -/
theorem readKind_of_firstValue {buf content rest : Bytes} {k : Kind}
    (h : FirstValue buf k content rest) (hb : ¬ ByteString k content) :
    ∃ ts, readKind buf = .ok (k, ts, content.length) ∧ buf.drop ts = content ++ rest := by
  cases k with
  | Byte =>
    obtain ⟨c, hc, rfl, rfl⟩ := h
    refine ⟨0, ?_, rfl⟩
    simp [readKind, hc, pure, Except.pure]
  | String =>
    obtain ⟨h64, rfl⟩ := h
    by_cases h56 : content.length < 56
    · -- 短い形：0x80 + 大きさの一 byte。一 byte の中身は 0x80 以上
      obtain ⟨htag, hsub⟩ := toNat_short_tag 0x80 h56 (by simp)
      have h1 : ¬ (0x80 + content.length.toUInt8 : UInt8) < 0x80 := by
        rw [UInt8.lt_iff_toNat_lt, htag]; simp
      have h2 : (0x80 + content.length.toUInt8 : UInt8) < 0xB8 := by
        rw [UInt8.lt_iff_toNat_lt, htag]; simp; omega
      have hcanon : ¬ (content.length = 1 ∧
          ((0x80 + content.length.toUInt8) :: (content ++ rest)).length > 1 ∧
          ((0x80 + content.length.toUInt8) :: (content ++ rest)).getD 1 0 < 128) := by
        rintro ⟨h1, -, hc⟩
        obtain ⟨c, rfl⟩ := List.length_eq_one_iff.mp h1
        exact hb ⟨rfl, h1, by simpa using hc⟩
      refine ⟨1, ?_, by simp [header_of_lt h56]⟩
      simp only [readKind, header_of_lt h56, List.cons_append, List.nil_append, if_neg h1,
        if_pos h2, hsub,
        if_neg hcanon, pure, Except.pure, ok_bind]
      rw [if_neg (by simp)]
    · -- 長い形：0xB7 + 長さの byte 数の後に、長さの最短の表現
      obtain ⟨htag, hL1, hL8⟩ := toNat_long_tag 0xB7 h64 (by omega) (by simp)
      have h1 : ¬ (0xB7 + (Bytes.beBytes content.length).length.toUInt8 : UInt8) < 0x80 := by
        rw [UInt8.lt_iff_toNat_lt, htag]; simp; omega
      have h2 : ¬ (0xB7 + (Bytes.beBytes content.length).length.toUInt8 : UInt8) < 0xB8 := by
        rw [UInt8.lt_iff_toNat_lt, htag]; simp; omega
      have h3 : (0xB7 + (Bytes.beBytes content.length).length.toUInt8 : UInt8) < 0xC0 := by
        rw [UInt8.lt_iff_toNat_lt, htag]; simp; omega
      have hsub : ((0xB7 + (Bytes.beBytes content.length).length.toUInt8 : UInt8) - 0xB7).toNat =
          (Bytes.beBytes content.length).length := by
        rw [UInt8.add_comm, UInt8.add_sub_cancel]; simp; omega
      refine ⟨(Bytes.beBytes content.length).length + 1, ?_, by simp [header_of_not_lt h56]⟩
      simp only [readKind, header_of_not_lt h56, List.cons_append, List.append_assoc, if_neg h1,
        if_neg h2, if_pos h3, hsub, readSize_beBytes h56, pure, Except.pure, ok_bind]
      rw [if_neg (by simp)]
  | List =>
    obtain ⟨h64, rfl⟩ := h
    by_cases h56 : content.length < 56
    · -- 短い形：0xC0 + 大きさの一 byte
      obtain ⟨htag, hsub⟩ := toNat_short_tag 0xC0 h56 (by simp)
      have h1 : ¬ (0xC0 + content.length.toUInt8 : UInt8) < 0x80 := by
        rw [UInt8.lt_iff_toNat_lt, htag]; simp; omega
      have h2 : ¬ (0xC0 + content.length.toUInt8 : UInt8) < 0xB8 := by
        rw [UInt8.lt_iff_toNat_lt, htag]; simp; omega
      have h3 : ¬ (0xC0 + content.length.toUInt8 : UInt8) < 0xC0 := by
        rw [UInt8.lt_iff_toNat_lt, htag]; simp
      have h4 : (0xC0 + content.length.toUInt8 : UInt8) < 0xF8 := by
        rw [UInt8.lt_iff_toNat_lt, htag]; simp; omega
      refine ⟨1, ?_, by simp [header_of_lt h56]⟩
      simp only [readKind, header_of_lt h56, List.cons_append, List.nil_append, if_neg h1,
        if_neg h2, if_neg h3, if_pos h4, hsub, pure, Except.pure, ok_bind]
      rw [if_neg (by simp)]
    · -- 長い形：0xF7 + 長さの byte 数の後に、長さの最短の表現
      obtain ⟨htag, hL1, hL8⟩ := toNat_long_tag 0xF7 h64 (by omega) (by simp)
      have h1 : ¬ (0xF7 + (Bytes.beBytes content.length).length.toUInt8 : UInt8) < 0x80 := by
        rw [UInt8.lt_iff_toNat_lt, htag]; simp; omega
      have h2 : ¬ (0xF7 + (Bytes.beBytes content.length).length.toUInt8 : UInt8) < 0xB8 := by
        rw [UInt8.lt_iff_toNat_lt, htag]; simp; omega
      have h3 : ¬ (0xF7 + (Bytes.beBytes content.length).length.toUInt8 : UInt8) < 0xC0 := by
        rw [UInt8.lt_iff_toNat_lt, htag]; simp; omega
      have h4 : ¬ (0xF7 + (Bytes.beBytes content.length).length.toUInt8 : UInt8) < 0xF8 := by
        rw [UInt8.lt_iff_toNat_lt, htag]; simp; omega
      have hsub : ((0xF7 + (Bytes.beBytes content.length).length.toUInt8 : UInt8) - 0xF7).toNat =
          (Bytes.beBytes content.length).length := by
        rw [UInt8.add_comm, UInt8.add_sub_cancel]; simp; omega
      refine ⟨(Bytes.beBytes content.length).length + 1, ?_, by simp [header_of_not_lt h56]⟩
      simp only [readKind, header_of_not_lt h56, List.cons_append, List.append_assoc, if_neg h1,
        if_neg h2, if_neg h3, if_neg h4, hsub, readSize_beBytes h56, pure, Except.pure, ok_bind]
      rw [if_neg (by simp)]

/-- `Split` が読むのは、`ByteString` でない先頭の値そのもの。 -/
theorem Split_eq_ok {b content rest : Bytes} {k : Kind} :
    Split b = .ok (k, content, rest) ↔ FirstValue b k content rest ∧ ¬ ByteString k content := by
  constructor
  · intro h
    obtain ⟨⟨k', ts, cs⟩, hk, hp⟩ := bind_eq_ok.mp h
    simp only [pure, Except.pure, Except.ok.injEq, Prod.mk.injEq] at hp
    obtain ⟨rfl, rfl, rfl⟩ := hp
    exact readKind_firstValue hk
  · rintro ⟨hv, hb⟩
    obtain ⟨ts, hk, hdrop⟩ := readKind_of_firstValue hv hb
    simp only [Split, hk, ok_bind, ← List.drop_drop, hdrop, List.take_left, List.drop_left]
    rfl

/-- 見出し 0x81 の後に 0x80 未満の byte が続けば、`Split` は `ErrCanonSize` で退ける。 -/
theorem Split_byteString {c : UInt8} (hc : c < 0x80) (rest : Bytes) :
    Split (0x81 :: c :: rest) = .error .ErrCanonSize := by
  simp [Split, readKind, hc]

/-! ## `Stream` が一番外で読む値 -/

/-- 一番外で、次の値をまだ先読みしていない `Stream`。入力の残りがそのまま読める残りである
（`Reset` の直後と、一番外の値を一つ読み終えた後）。 -/
structure Stream.TopLevel (s : Stream) : Prop where
  kind : s.kind = none
  stack : s.stack = []
  limited : s.limited = true
  remaining : s.remaining = s.r.length

theorem Reset_topLevel (b : Bytes) : (Stream.Reset b b.length).TopLevel where
  kind := rfl
  stack := rfl
  limited := rfl
  remaining := by simp only [Stream.Reset]; split <;> rfl

theorem Stream.TopLevel.room {s : Stream} (hs : s.TopLevel) {n : Nat} (hn : n ≤ s.r.length) :
    s.Room n :=
  ⟨by simp [hs.stack], fun _ => hs.remaining ▸ hn⟩

/-- 一番外で `n` byte 読んだ後も一番外である。 -/
theorem Stream.TopLevel.after {s : Stream} (hs : s.TopLevel) (n : Nat) (bv : UInt8) :
    (s.after n bv).TopLevel where
  kind := rfl
  stack := by simp [hs.stack]
  limited := hs.limited
  remaining := by simp [Stream.after, hs.limited, hs.remaining]

/-- `Stream` で値を一つ読む：`Kind()` の後、一 byte の値はその byte、文字列と列は中身を
`readFull` で読む。`Raw()` が見出しを付け直す前に読むものである。 -/
def readValue : StreamM (Kind × Bytes) := do
  let (kind, size) ← Stream.Kind
  if kind = .Byte then
    modify fun s => { s with kind := none }
    pure (.Byte, [(← get).byteval])
  else
    let content ← Stream.readFull size
    pure (kind, content)

/-- 一番外の値を `EOF` まで読み、読んだ値を並べて返す。燃料は読む値の数の上限。 -/
def readValues : Nat → StreamM (List (Kind × Bytes))
  | 0 => throw .outOfFuel
  | fuel + 1 => do
    match ← attempt Stream.Kind with
    | .error .EOF => pure []
    | .error err => throw err
    | .ok _ =>
      let v ← readValue
      let vs ← readValues fuel
      pure (v :: vs)

/-- 見出しの後の中身を `readFull` で読むと、入力は見出し、中身、その後に分かれ、一番外に
戻る。 -/
theorem readFull_after_header {s s' : Stream} {hd content : Bytes} {size : Nat} {bv : UInt8}
    {v : Kind × Nat} (hs : s.TopLevel) (hr : s.r = hd ++ (s.peeked hd.length bv v).r)
    (h : (Stream.readFull size).run (s.peeked hd.length bv v) = .ok content s') :
    content.length = size ∧ s.r = hd ++ content ++ s'.r ∧ s'.TopLevel := by
  obtain ⟨-, hlen, rfl, rfl⟩ := readFull_eq_ok.mp h
  refine ⟨by rw [List.length_take]; omega, ?_, ?_⟩
  · rw [List.append_assoc, Stream.peeked_after, Stream.after_r, ← List.drop_drop,
      ← Stream.peeked_r s hd.length bv v, List.take_append_drop]
    exact hr
  · rw [Stream.peeked_after]
    exact hs.after _ _

/-- 一番外で値を読めたなら、それは入力の先頭の値で、読んだ後も一番外である。 -/
theorem readValue_sound {s s' : Stream} {k : Kind} {content : Bytes} (hs : s.TopLevel)
    (h : readValue.run s = .ok (k, content) s') : FirstValue s.r k content s'.r ∧ s'.TopLevel := by
  obtain ⟨⟨k', size⟩, s1, hK, h⟩ := run_bind_eq_ok.mp h
  obtain ⟨hd, bv, hh, hr, rfl⟩ := Kind_sound hs.kind hK
  dsimp only at h
  cases k' with
  | Byte =>
    -- 一 byte の値：その byte が見出しで、中身でもある
    obtain ⟨rfl, hbv, rfl⟩ := hh
    simp only [if_true, EStateM.run_bind, EStateM.run_modify, EStateM.run_get, EStateM.run_pure,
      EStateM.Result.ok.injEq, Prod.mk.injEq] at h
    obtain ⟨⟨rfl, rfl⟩, rfl⟩ := h
    exact ⟨⟨bv, hbv, rfl, hr⟩, hs.after 1 bv⟩
  | String =>
    simp only [if_neg (by decide : ¬ Kind.String = .Byte)] at h
    obtain ⟨c, s2, hf, hp⟩ := run_bind_eq_ok.mp h
    simp only [EStateM.run_pure, EStateM.Result.ok.injEq, Prod.mk.injEq] at hp
    obtain ⟨⟨rfl, rfl⟩, rfl⟩ := hp
    obtain ⟨hlen, hsplit, htop⟩ := readFull_after_header hs hr hf
    obtain ⟨-, h64, rfl⟩ := hh
    exact ⟨⟨by omega, by rw [hlen]; exact hsplit⟩, htop⟩
  | List =>
    simp only [if_neg (by decide : ¬ Kind.List = .Byte)] at h
    obtain ⟨c, s2, hf, hp⟩ := run_bind_eq_ok.mp h
    simp only [EStateM.run_pure, EStateM.Result.ok.injEq, Prod.mk.injEq] at hp
    obtain ⟨⟨rfl, rfl⟩, rfl⟩ := hp
    obtain ⟨hlen, hsplit, htop⟩ := readFull_after_header hs hr hf
    obtain ⟨-, h64, rfl⟩ := hh
    exact ⟨⟨by omega, by rw [hlen]; exact hsplit⟩, htop⟩

/-- 一番外で入力が先頭の値で始まれば、`Stream` はその値を読み、その後で一番外に戻る。 -/
theorem readValue_run {s : Stream} {k : Kind} {content rest : Bytes} (hs : s.TopLevel)
    (h : FirstValue s.r k content rest) :
    ∃ s', readValue.run s = .ok (k, content) s' ∧ s'.r = rest ∧ s'.TopLevel := by
  cases k with
  | Byte =>
    obtain ⟨c, hc, rfl, hr⟩ := h
    have hh : HeaderOk .Byte 0 c [c] := ⟨rfl, hc, rfl⟩
    have hK := Kind_run hs.kind hh (hs.room (by simp [hr])) hr
    refine ⟨s.after 1 c, ?_, by simp [hr], hs.after 1 c⟩
    simp only [readValue, EStateM.run_bind, hK, if_true, EStateM.run_modify, EStateM.run_get,
      EStateM.run_pure]
    rfl
  | String =>
    obtain ⟨h64, hr⟩ := h
    have hh : HeaderOk .String content.length 0 (header 0x80 0xB7 content.length) :=
      ⟨rfl, h64, rfl⟩
    have hall : (header 0x80 0xB7 content.length).length + content.length ≤ s.r.length := by
      rw [hr]; simp
    have hK := Kind_run hs.kind hh (hs.room hall) (by rw [hr, List.append_assoc])
    have hf : (Stream.readFull content.length).run
        (s.peeked (header 0x80 0xB7 content.length).length 0 (.String, content.length)) =
        .ok content (s.after ((header 0x80 0xB7 content.length).length + content.length) 0) :=
      readFull_eq_ok.mpr ⟨((Stream.room_add_iff 0).mp (hs.room hall)).2, by simp [hr],
        by simp [hr], (Stream.peeked_after _ _ _ _ _ _).symm⟩
    refine ⟨s.after ((header 0x80 0xB7 content.length).length + content.length) 0, ?_, by simp [hr],
      hs.after _ _⟩
    simp only [readValue, EStateM.run_bind, hK, if_neg (by decide : ¬ Kind.String = .Byte), hf,
      EStateM.run_pure]
  | List =>
    obtain ⟨h64, hr⟩ := h
    have hh : HeaderOk .List content.length 0 (header 0xC0 0xF7 content.length) :=
      ⟨rfl, h64, rfl⟩
    have hall : (header 0xC0 0xF7 content.length).length + content.length ≤ s.r.length := by
      rw [hr]; simp
    have hK := Kind_run hs.kind hh (hs.room hall) (by rw [hr, List.append_assoc])
    have hf : (Stream.readFull content.length).run
        (s.peeked (header 0xC0 0xF7 content.length).length 0 (.List, content.length)) =
        .ok content (s.after ((header 0xC0 0xF7 content.length).length + content.length) 0) :=
      readFull_eq_ok.mpr ⟨((Stream.room_add_iff 0).mp (hs.room hall)).2, by simp [hr],
        by simp [hr], (Stream.peeked_after _ _ _ _ _ _).symm⟩
    refine ⟨s.after ((header 0xC0 0xF7 content.length).length + content.length) 0, ?_, by simp [hr],
      hs.after _ _⟩
    simp only [readValue, EStateM.run_bind, hK, if_neg (by decide : ¬ Kind.List = .Byte), hf,
      EStateM.run_pure]

/-! ## 一番外の値を終わりまで -/

/-- 一番外で入力が尽きていれば、`Kind()` は `EOF` を返す（最初の一 byte を読む余地が無い）。 -/
theorem Kind_eof_of_nil {s : Stream} (hs : s.TopLevel) (hr : s.r = []) :
    ∃ s', Stream.Kind.run s = .error .EOF s' := by
  have hrem : s.remaining = 0 := by rw [hs.remaining, hr]; rfl
  simp only [Stream.Kind, Stream.readKind, Stream.readByte, Stream.willRead, gt_iff_lt,
    Order.lt_one_iff, bind_pure_comp, bind_assoc, List.isEmpty_iff, Except.bind, Bool.and_eq_true,
    decide_eq_true_eq, Prod.mk.eta, EStateM.run_bind, EStateM.run_get, hs.kind, hs.stack, run_attempt,
    run_tryCatch, EStateM.run_modify, hrem, hs.limited, ↓reduceIte, zero_tsub,
    LawfulMonadStateOf.set_bind_get_bind, run_throw, EStateM.run_set, EStateM.Result.error.injEq,
    true_and, exists_eq']

/-- 一番外で `Kind()` が `EOF` を返すのは、入力が尽きたときだけである。 -/
theorem Kind_eof_nil {s s' : Stream} (hs : s.TopLevel) (h : Stream.Kind.run s = .error .EOF s') :
    s.r = [] := by
  by_contra hr
  have hroom : s.Room 1 := hs.room (List.length_pos_of_ne_nil hr)
  simp only [Stream.Kind, EStateM.run_bind, EStateM.run_get, hs.kind, hs.stack, run_attempt,
    EStateM.run_set] at h
  cases hrk : Stream.readKind.run s with
  | error e t =>
    simp only [hrk, Except.bind, run_throw, EStateM.Result.error.injEq] at h
    exact readKind_ne_eof hroom hr hrk h.1
  | ok v t =>
    -- 読めた値の大きさの確かめが投げるのは `ErrValueTooLarge` だけ
    simp only [hrk, Except.bind] at h
    split at h
    · cases h
    · rename_i err hcheck
      simp only [run_throw, EStateM.Result.error.injEq] at h
      obtain ⟨rfl, -⟩ := h
      split at hcheck <;> split at hcheck <;> cases hcheck

/-- `b` は値 `vs` をこの順に並べたもの。 -/
def Values : Bytes → List (Kind × Bytes) → Prop
  | b, [] => b = []
  | b, (k, c) :: vs => ∃ rest, FirstValue b k c rest ∧ Values rest vs

/-- 値は一つごとに一 byte 以上あるので、数は長さを超えない。 -/
theorem Values.length_le : ∀ {b : Bytes} {vs : List (Kind × Bytes)}, Values b vs →
    vs.length ≤ b.length
  | _, [], _ => Nat.zero_le _
  | _, (_, _) :: _, ⟨_, hv, hvs⟩ => by
    have := hv.length_lt
    have := hvs.length_le
    simp only [List.length_cons]
    omega

/-- 一番外で値を `EOF` まで読めたなら、入力はその値を並べたものである。 -/
theorem readValues_sound : ∀ {f : Nat} {s s' : Stream} {vs : List (Kind × Bytes)}, s.TopLevel →
    (readValues f).run s = .ok vs s' → Values s.r vs
  | 0, _, _, _, _, h => by cases h
  | f + 1, s, s', vs, hs, h => by
    obtain ⟨res, s1, hK, h⟩ := run_bind_eq_ok.mp h
    rw [run_attempt] at hK
    cases hKs : Stream.Kind.run s with
    | error e t =>
      -- `Kind()` の誤り：`EOF` なら読み終わりで、入力は尽きている。ほかの誤りは投げ直す
      rw [hKs] at hK
      simp only [EStateM.Result.ok.injEq] at hK
      obtain ⟨rfl, rfl⟩ := hK
      split at h
      · rename_i heq
        cases heq
        simp only [EStateM.run_pure, EStateM.Result.ok.injEq] at h
        obtain ⟨rfl, -⟩ := h
        exact Kind_eof_nil hs hKs
      · simp only [run_throw] at h
        cases h
      · rename_i heq
        cases heq
    | ok v t =>
      rw [hKs] at hK
      simp only [EStateM.Result.ok.injEq] at hK
      obtain ⟨rfl, rfl⟩ := hK
      obtain ⟨⟨k, c⟩, s2, hv, h⟩ := run_bind_eq_ok.mp h
      rw [readValue, Kind_bind_peeked _ hs.kind hKs, ← readValue] at hv
      obtain ⟨hfirst, htop⟩ := readValue_sound hs hv
      obtain ⟨vs', s3, hvs, hp⟩ := run_bind_eq_ok.mp h
      simp only [EStateM.run_pure, EStateM.Result.ok.injEq] at hp
      obtain ⟨rfl, -⟩ := hp
      exact ⟨s2.r, hfirst, readValues_sound htop hvs⟩

/-- 入力が値を並べたもので、燃料が値の数より多ければ、`Stream` はその値を `EOF` まで読む。 -/
theorem readValues_run : ∀ {vs : List (Kind × Bytes)} {f : Nat} {s : Stream}, s.TopLevel →
    Values s.r vs → vs.length < f → ∃ s', (readValues f).run s = .ok vs s'
  | [], f + 1, s, hs, hv, _ => by
    obtain ⟨t, ht⟩ := Kind_eof_of_nil hs hv
    exact ⟨t, by simp only [readValues, EStateM.run_bind, run_attempt, ht, EStateM.run_pure]⟩
  | (k, c) :: vs, f + 1, s, hs, ⟨rest, hfirst, hvs⟩, hf => by
    obtain ⟨s2, hv, rfl, htop⟩ := readValue_run hs hfirst
    obtain ⟨v, t, hK, -⟩ := run_bind_eq_ok.mp hv
    obtain ⟨s3, h3⟩ := readValues_run (f := f) htop hvs
      (by simp only [List.length_cons] at hf; omega)
    refine ⟨s3, ?_⟩
    simp only [readValues, EStateM.run_bind, run_attempt, hK]
    rw [readValue, Kind_bind_peeked _ hs.kind hK, ← readValue, hv]
    simp only [h3, EStateM.run_pure]

/-- `CountValues` の loop：燃料が入力の長さより多ければ、入力が `ByteString` でない値を
並べたものであるときに限り成功し、その数を `i` に足す。 -/
theorem countValuesLoop_eq_ok : ∀ {f i n : Nat} {b : Bytes}, b.length < f →
    (countValuesLoop f i b = .ok n ↔
      ∃ vs, Values b vs ∧ (∀ v ∈ vs, ¬ ByteString v.1 v.2) ∧ n = i + vs.length)
  | 0, _, _, _, hf => absurd hf (Nat.not_lt_zero _)
  | f + 1, i, n, b, hf => by
    rw [countValuesLoop]
    by_cases hb : b.length > 0
    · rw [if_pos hb]
      cases hk : readKind b with
      | error e =>
        -- 先頭を読めないなら、先頭は `ByteString` でない値ではない
        simp only [error_bind, reduceCtorEq, false_iff, not_exists, not_and]
        intro vs hvs hall _
        match vs, hvs with
        | [], hnil => exact (List.ne_nil_of_length_pos hb hnil).elim
        | (k, c) :: vs, ⟨rest, hfirst, _⟩ =>
          have hsplit := Split_eq_ok.mpr ⟨hfirst, hall (k, c) List.mem_cons_self⟩
          simp [Split, hk] at hsplit
      | ok v =>
        obtain ⟨k, ts, cs⟩ := v
        obtain ⟨hfirst, hbs⟩ := readKind_firstValue hk
        have hlt := hfirst.length_lt
        simp only [ok_bind]
        rw [countValuesLoop_eq_ok (by omega)]
        constructor
        · rintro ⟨vs, hvs, hall, rfl⟩
          refine ⟨(k, (b.drop ts).take cs) :: vs, ⟨_, hfirst, hvs⟩, ?_, by simp; omega⟩
          intro v hv
          rcases List.mem_cons.mp hv with rfl | hv
          · exact hbs
          · exact hall v hv
        · rintro ⟨vs, hvs, hall, rfl⟩
          match vs, hvs with
          | [], hnil => exact (List.ne_nil_of_length_pos hb hnil).elim
          | (k', c') :: vs', ⟨rest', hfirst', hvs'⟩ =>
            -- 先頭の値は `readKind` の読みで決まる
            have hsplit := Split_eq_ok.mpr ⟨hfirst', hall _ List.mem_cons_self⟩
            simp only [Split, hk, ok_bind, pure, Except.pure, Except.ok.injEq,
              Prod.mk.injEq] at hsplit
            obtain ⟨rfl, rfl, rfl⟩ := hsplit
            exact ⟨vs', hvs', fun v hv => hall v (List.mem_cons_of_mem _ hv), by simp; omega⟩
    · rw [if_neg hb]
      have hnil : b = [] := List.eq_nil_of_length_eq_zero (by omega)
      subst hnil
      constructor
      · intro h
        cases h
        exact ⟨[], rfl, by simp, rfl⟩
      · rintro ⟨vs, hvs, -, rfl⟩
        match vs, hvs with
        | [], _ => rfl
        | (k, c) :: vs, ⟨rest, hfirst, _⟩ => exact absurd hfirst.length_lt (by simp)

/-- `CountValues` が成功するのは、入力が `ByteString` でない値を並べたものであるときに限り、
そのとき値の数を返す。 -/
theorem CountValues_eq_ok {b : Bytes} {n : Nat} :
    CountValues b = .ok n ↔
      ∃ vs, Values b vs ∧ (∀ v ∈ vs, ¬ ByteString v.1 v.2) ∧ n = vs.length := by
  rw [CountValues, countValuesLoop_eq_ok (Nat.lt_succ_self _)]
  simp only [Nat.zero_add]

/-- `Stream` が一番外の値を `EOF` まで読めるのは、入力が値を並べたものであるときに限る。 -/
theorem readValues_eq_ok {b : Bytes} {vs : List (Kind × Bytes)} :
    (∃ s', (readValues (b.length + 1)).run (Stream.Reset b b.length) = .ok vs s') ↔ Values b vs :=
  ⟨fun ⟨_, h⟩ => readValues_sound (Reset_topLevel b) h,
    fun h => readValues_run (Reset_topLevel b) h (Nat.lt_succ_of_le h.length_le)⟩

/-! ## `Split`・`CountValues` と `Stream` -/

/-- `Split` と `Stream` の読みは、`ByteString`（見出し 0x81 の後に 0x80 未満の byte）のほかで
一致する。`Split` が読むのは、`Stream` が一番外で読む値のうち `ByteString` でないもので、
`ByteString` は `Stream` だけが読む。`CountValues` は、`Stream` が `EOF` まで読む値がどれも
`ByteString` でないときに限り成功し、その数を返す。 -/
theorem Split_agrees_with_stream :
    (∀ (b content rest : Bytes) (k : Kind),
      Split b = .ok (k, content, rest) ↔
        (∃ s', readValue.run (Stream.Reset b b.length) = .ok (k, content) s' ∧ s'.r = rest) ∧
          ¬ ByteString k content) ∧
    (∀ (c : UInt8) (rest : Bytes), c < 0x80 →
      Split (0x81 :: c :: rest) = .error .ErrCanonSize ∧
        ∃ s', readValue.run (Stream.Reset (0x81 :: c :: rest) (0x81 :: c :: rest).length) =
          .ok (.String, [c]) s' ∧ s'.r = rest) ∧
    (∀ (b : Bytes) (n : Nat), CountValues b = .ok n ↔
      ∃ vs s', (readValues (b.length + 1)).run (Stream.Reset b b.length) = .ok vs s' ∧
        vs.length = n ∧ ∀ v ∈ vs, ¬ ByteString v.1 v.2) := by
  refine ⟨fun b content rest k => ?_, fun c rest hc => ?_, fun b n => ?_⟩
  · -- 一つの値：どちらも先頭の値を読む
    rw [Split_eq_ok]
    constructor
    · rintro ⟨hfirst, hbs⟩
      obtain ⟨s', hv, hr, -⟩ := readValue_run (Reset_topLevel b) hfirst
      exact ⟨⟨s', hv, hr⟩, hbs⟩
    · rintro ⟨⟨s', hv, rfl⟩, hbs⟩
      exact ⟨(readValue_sound (Reset_topLevel b) hv).1, hbs⟩
  · -- `ByteString` も最短の形の見出しの値なので、`Stream` は読む
    refine ⟨Split_byteString hc rest, ?_⟩
    have hfirst : FirstValue (0x81 :: c :: rest) .String [c] rest := ⟨by simp, rfl⟩
    obtain ⟨s', hv, hr, -⟩ := readValue_run (Reset_topLevel _) hfirst
    exact ⟨s', hv, hr⟩
  · -- 数え上げ：どちらも値を並べたものを読み、`CountValues` はさらに `ByteString` を退ける
    rw [CountValues_eq_ok]
    constructor
    · rintro ⟨vs, hvs, hall, rfl⟩
      obtain ⟨s', h⟩ := readValues_eq_ok.mpr hvs
      exact ⟨vs, s', h, rfl, hall⟩
    · rintro ⟨vs, s', h, rfl, hall⟩
      exact ⟨vs, readValues_eq_ok.mp ⟨s', h⟩, hall, rfl⟩

/-- 見出し 0x81 の後の 0x05：`Split` と `CountValues` は `ErrCanonSize` で退け、`Stream` は
一つの文字列として読んで、その後で `EOF` になる。 -/
theorem Split_rejects_stream_value :
    Split [0x81, 0x05] = .error .ErrCanonSize ∧
      (∃ s', readValue.run (Stream.Reset [0x81, 0x05] 2) = .ok (.String, [0x05]) s' ∧ s'.r = []) ∧
      CountValues [0x81, 0x05] = .error .ErrCanonSize ∧
      ∃ s', (readValues 3).run (Stream.Reset [0x81, 0x05] 2) = .ok [(.String, [0x05])] s' :=
  ⟨by decide, ⟨_, rfl, rfl⟩, by decide, ⟨_, rfl⟩⟩

end Rlp
