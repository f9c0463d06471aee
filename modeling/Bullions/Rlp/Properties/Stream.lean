import Bullions.Rlp.Decode
import Bullions.Rlp.Properties.EncBuf
import Bullions.Lib.ExceptSpec

/-!
# `Stream` の method の仕様

`Stream` の method ごとに、成功したときに何を読んで状態をどう変えたかを言い切る補題を置く。
一つの向きは「成功したなら」（`readKind_sound`、`Kind_sound`）、もう一つは「この入力なら
成功する」（`readKind_run`、`Kind_run`）である。`decodeInterface` の二つの向きは、これだけ
を使って `Rlp/Properties/Decode.lean` で組み立てる。

状態は次の語で言う。

* `s.Room n`：`n` byte を読む余地がある（`willRead` の見る二つ）。
* `s.after n bv`：`n` byte 読み、`byteval` が `bv` になった状態。`Kind` は読み直し。
* `s.peeked n bv v`：`Kind()` が `n` byte の見出しを読み、結果 `v` を覚えた状態。
* `s.enter size`：`List()` の後、大きさ `size` の列に入った状態。

見出しは最短の形でしか読めない（`HeaderOk`）。長い形の長さは 56 以上で先頭が 0 でなく、
一 byte の値は 0x80 未満である。`EOL` を返すのは、列の終わりを見た `Kind()` だけである
（`Kind_eol`、`readKind_throwsOnly` などの `ThrowsOnly`）。
-/

namespace Rlp

open ExceptSpec

/-- 一番内側の列の位置を `n` 進める。 -/
def advanceTop (n : Nat) : List ListPos → List ListPos
  | tos :: rest => { tos with pos := tos.pos + n } :: rest
  | [] => []

@[simp] theorem advanceTop_nil (n : Nat) : advanceTop n [] = [] := rfl

@[simp] theorem advanceTop_cons (n : Nat) (tos : ListPos) (rest : List ListPos) :
    advanceTop n (tos :: rest) = { tos with pos := tos.pos + n } :: rest := rfl

theorem advanceTop_add (a b : Nat) (l : List ListPos) :
    advanceTop b (advanceTop a l) = advanceTop (a + b) l := by
  cases l <;> simp [Nat.add_assoc]

@[simp] theorem advanceTop_zero (l : List ListPos) : advanceTop 0 l = l := by
  cases l <;> simp

namespace Stream

/-! ## 読む余地と、読んだ後の状態 -/

/-- `n` byte を読む余地がある：一番内側の列の残りにも、入力の残りにも収まる（`willRead` の
見るもの）。 -/
def Room (s : Stream) (n : Nat) : Prop :=
  (∀ tos ∈ s.stack.head?, n ≤ tos.size - tos.pos) ∧ (s.limited = true → n ≤ s.remaining)

/-- `willRead n` の後の状態：`Kind` は読み直しになり、一番内側の列の位置と入力の残りが
`n` 進む。 -/
def advance (s : Stream) (n : Nat) : Stream :=
  { s with
    kind := none
    stack := advanceTop n s.stack
    remaining := if s.limited then s.remaining - n else s.remaining }

@[simp] theorem advance_r (s : Stream) (n : Nat) : (s.advance n).r = s.r := rfl

/-- `s` から `n` byte 読み、`byteval` が `bv` になった状態。`Kind` は読み直しになり、一番内側の
列の位置と入力の残りが `n` 進む。 -/
def after (s : Stream) (n : Nat) (bv : UInt8) : Stream where
  r := s.r.drop n
  remaining := if s.limited then s.remaining - n else s.remaining
  limited := s.limited
  kind := none
  byteval := bv
  stack := advanceTop n s.stack

@[simp] theorem after_r (s : Stream) (n : Nat) (bv : UInt8) : (s.after n bv).r = s.r.drop n := rfl
@[simp] theorem after_kind (s : Stream) (n : Nat) (bv : UInt8) : (s.after n bv).kind = none := rfl
@[simp] theorem after_byteval (s : Stream) (n : Nat) (bv : UInt8) : (s.after n bv).byteval = bv :=
  rfl
@[simp] theorem after_stack (s : Stream) (n : Nat) (bv : UInt8) :
    (s.after n bv).stack = advanceTop n s.stack := rfl
@[simp] theorem after_limited (s : Stream) (n : Nat) (bv : UInt8) :
    (s.after n bv).limited = s.limited := rfl

theorem after_after (s : Stream) (a b : Nat) (bv bv' : UInt8) :
    (s.after a bv).after b bv' = s.after (a + b) bv' := by
  simp only [after, advanceTop_add, List.drop_drop, Stream.mk.injEq, true_and, and_true]
  split <;> omega

theorem room_add_iff {s : Stream} {a b : Nat} (bv : UInt8) :
    s.Room (a + b) ↔ s.Room a ∧ (s.after a bv).Room b := by
  simp only [Room, after]
  cases s.stack with
  | nil => cases s.limited <;> simp; omega
  | cons tos rest => cases s.limited <;> simp <;> omega

end Stream

/-! ## `willRead`・`readByte`・`readFull`・`readUint` -/

/-- `willRead n` が成功するのは余地のあるときで、そのとき数えるだけ。 -/
theorem willRead_eq_ok {s s' : Stream} {n : Nat} {u : Unit} :
    (Stream.willRead n).run s = .ok u s' ↔ s.Room n ∧ s' = s.advance n := by
  unfold Stream.willRead
  simp only [EStateM.run_bind, EStateM.run_modify, EStateM.run_get]
  cases hs : s.stack with
  | nil =>
    cases hl : s.limited with
    | false =>
      simp [Stream.Room, Stream.advance, hs, hl]
      exact eq_comm
    | true =>
      by_cases hn : s.remaining < n
      · simp [Stream.Room, hs, hl, hn]
      · simp [Stream.Room, Stream.advance, hs, hl, hn, Nat.le_of_not_lt hn]
        exact eq_comm
  | cons tos rest =>
    by_cases ht : tos.size - tos.pos < n
    · simp [Stream.Room, hs, ht]
    · cases hl : s.limited with
      | false =>
        simp [Stream.Room, Stream.advance, hs, hl, ht, Nat.le_of_not_lt ht]
        exact eq_comm
      | true =>
        by_cases hn : s.remaining < n
        · simp [Stream.Room, hs, hl, ht, hn]
        · simp [Stream.Room, Stream.advance, hs, hl, ht, hn, Nat.le_of_not_lt ht,
            Nat.le_of_not_lt hn]
          exact eq_comm

theorem willRead_run {s : Stream} {n : Nat} (h : s.Room n) :
    (Stream.willRead n).run s = .ok () (s.advance n) :=
  willRead_eq_ok.mpr ⟨h, rfl⟩

/-- `readByte` は、余地があり入力が空でなければ、先頭の一 byte を読む。 -/
theorem readByte_eq_ok {s s' : Stream} {b : UInt8} :
    Stream.readByte.run s = .ok b s' ↔
      s.Room 1 ∧ s.r.head? = some b ∧ s' = s.after 1 s.byteval := by
  unfold Stream.readByte
  rw [run_bind_eq_ok]
  simp only [willRead_eq_ok, EStateM.run_bind, EStateM.run_get]
  constructor
  · rintro ⟨_, _, ⟨hroom, rfl⟩, h⟩
    split at h
    · rename_i c rest hr
      simp only [EStateM.run_bind, EStateM.run_set, EStateM.run_pure] at h
      cases h
      rw [Stream.advance_r] at hr
      exact ⟨hroom, by simp [hr], by simp [Stream.after, Stream.advance, hr]⟩
    · cases h
  · rintro ⟨hroom, hb, rfl⟩
    refine ⟨(), _, ⟨hroom, rfl⟩, ?_⟩
    split
    · rename_i c rest hr
      rw [Stream.advance_r] at hr
      rw [hr, List.head?_cons, Option.some.injEq] at hb
      subst hb
      simp only [EStateM.run_bind, EStateM.run_set, EStateM.run_pure]
      simp [Stream.after, Stream.advance, hr]
    · rename_i hr
      rw [Stream.advance_r] at hr
      simp [hr] at hb

/-- `readFull n` は、余地があり入力が `n` byte 以上あれば、先頭の `n` byte を読む。 -/
theorem readFull_eq_ok {s s' : Stream} {n : Nat} {bs : Bytes} :
    (Stream.readFull n).run s = .ok bs s' ↔
      s.Room n ∧ n ≤ s.r.length ∧ bs = s.r.take n ∧ s' = s.after n s.byteval := by
  unfold Stream.readFull
  rw [run_bind_eq_ok]
  simp only [willRead_eq_ok, EStateM.run_bind, EStateM.run_get, EStateM.run_set]
  constructor
  · rintro ⟨_, _, ⟨hroom, rfl⟩, h⟩
    by_cases hlen : s.r.length < n
    · simp only [Stream.advance_r, hlen, if_true, EStateM.run_bind, EStateM.run_throw] at h
      cases h
    · simp only [Stream.advance_r, hlen, if_false, EStateM.run_pure] at h
      cases h
      exact ⟨hroom, Nat.le_of_not_lt hlen, rfl, rfl⟩
  · rintro ⟨hroom, hlen, rfl, rfl⟩
    refine ⟨(), _, ⟨hroom, rfl⟩, ?_⟩
    simp only [Stream.advance_r, Nat.not_lt.mpr hlen, if_false, EStateM.run_pure]
    rfl

/-- `readUint k`（`k ≥ 1`）は `k` byte を big-endian で読む。二 byte 以上なら、先頭が 0 のものは
退ける。 -/
theorem readUint_eq_ok {s s' : Stream} {k v : Nat} (hk : 0 < k) :
    (Stream.readUint k).run s = .ok v s' ↔
      s.Room k ∧ k ≤ s.r.length ∧ (2 ≤ k → (s.r.take k).head? ≠ some 0) ∧
        v = Bytes.beValue (s.r.take k) ∧ s' = s.after k s.byteval := by
  match k, hk with
  | 1, _ =>
    simp only [Stream.readUint, run_bind_eq_ok, readByte_eq_ok, EStateM.run_pure]
    constructor
    · rintro ⟨b, _, ⟨hroom, hb, rfl⟩, h⟩
      cases h
      cases hr : s.r with
      | nil => simp [hr] at hb
      | cons c rest =>
        rw [hr, List.head?_cons, Option.some.injEq] at hb
        subst hb
        exact ⟨hroom, by simp, by omega, by simp [Bytes.beValue], rfl⟩
    · rintro ⟨hroom, hlen, -, rfl, rfl⟩
      obtain ⟨c, rest, hr⟩ := List.exists_cons_of_length_pos hlen
      exact ⟨c, _, ⟨hroom, by simp [hr], rfl⟩, by simp [hr, Bytes.beValue]⟩
  | k + 2, _ =>
    simp only [Stream.readUint, run_bind_eq_ok, readFull_eq_ok]
    constructor
    · rintro ⟨_, _, ⟨hroom, hlen, rfl, rfl⟩, h⟩
      by_cases h0 : (s.r.take (k + 2)).head? = some 0
      · simp only [h0, if_true, EStateM.run_bind, EStateM.run_throw] at h
        cases h
      · simp only [h0, if_false, EStateM.run_pure] at h
        cases h
        exact ⟨hroom, hlen, fun _ => h0, rfl, rfl⟩
    · rintro ⟨hroom, hlen, h0, rfl, rfl⟩
      refine ⟨_, _, ⟨hroom, hlen, rfl, rfl⟩, ?_⟩
      simp only [h0 (by omega), if_false, EStateM.run_pure]

/-! ## 見出し -/

theorem header_of_lt {small large : UInt8} {size : Nat} (h : size < 56) :
    header small large size = [small + size.toUInt8] := if_pos h

theorem header_of_not_lt {small large : UInt8} {size : Nat} (h : ¬ size < 56) :
    header small large size =
      (large + (Bytes.beBytes size).length.toUInt8) :: Bytes.beBytes size :=
  if_neg h

/-- 短い形：先頭の byte から tag を引いた大きさの見出しは、その byte 一つ。 -/
theorem header_sub {small large b : UInt8} (h : (b - small).toNat < 56) :
    header small large (b - small).toNat = [b] := by
  rw [header_of_lt h]
  simp [UInt8.add_comm small]

/-- 長い形：先頭の byte の示す数の byte で、0 から始まらずに書かれた 56 以上の長さの見出しは、
その byte 列そのもの。 -/
theorem header_beValue {small large b : UInt8} {bs : Bytes} (hk : bs.length = (b - large).toNat)
    (hv : ¬ Bytes.beValue bs < 56) (hcanon : bs.head? ≠ some 0) :
    header small large (Bytes.beValue bs) = b :: bs := by
  rw [header_of_not_lt hv, Bytes.beBytes_beValue hcanon, hk]
  simp [UInt8.add_comm large]

/-- `readKind` が見出し `hd` を読んで `(kind, size)` を返し、`byteval` を `bv` にすること。
一 byte の値はその byte 自身が見出しで、文字列と列の見出しは `header`（最短の形）である。 -/
def HeaderOk : Kind → Nat → UInt8 → Bytes → Prop
  | .Byte, size, bv, hd => size = 0 ∧ bv < 0x80 ∧ hd = [bv]
  | .String, size, bv, hd => bv = 0 ∧ size < 2 ^ 64 ∧ hd = header 0x80 0xB7 size
  | .List, size, bv, hd => bv = 0 ∧ size < 2 ^ 64 ∧ hd = header 0xC0 0xF7 size

theorem toNat_sub_of_le {a b : UInt8} (h : a.toNat ≤ b.toNat) :
    (b - a).toNat = b.toNat - a.toNat :=
  UInt8.toNat_sub_of_le _ _ (UInt8.le_iff_toNat_le.mpr h)

theorem header_ne_nil (small large : UInt8) (size : Nat) : header small large size ≠ [] := by
  unfold header
  split <;> simp

theorem headerOk_ne_nil {k : Kind} {size : Nat} {bv : UInt8} {hd : Bytes}
    (hh : HeaderOk k size bv hd) : hd ≠ [] := by
  cases k with
  | Byte => simp [hh.2.2]
  | String => rw [hh.2.2]; exact header_ne_nil _ _ _
  | List => rw [hh.2.2]; exact header_ne_nil _ _ _

/-- 長い形の見出しの読み：`readUint` の読んだ長さは 64 bit に収まり、見出しは最短の形。 -/
theorem headerOk_long (small : UInt8) {large b : UInt8} {bs : Bytes} {v : Nat}
    (hk : bs.length = (b - large).toNat) (hk8 : bs.length ≤ 8)
    (hcanon : 2 ≤ bs.length → bs.head? ≠ some 0) (hv : v = Bytes.beValue bs) (h56 : ¬ v < 56) :
    v < 2 ^ 64 ∧ header small large v = b :: bs := by
  subst hv
  refine ⟨lt_of_lt_of_le (Bytes.beValue_lt bs) ?_, header_beValue hk h56 ?_⟩
  · calc 256 ^ bs.length ≤ 256 ^ 8 := Nat.pow_le_pow_right (by norm_num) hk8
      _ = 2 ^ 64 := by norm_num
  · -- 一 byte の長さは 56 以上なので、先頭は 0 でない
    match bs, hcanon with
    | [], _ => simp
    | [c], _ =>
      intro hc
      simp only [List.head?_cons, Option.some.injEq] at hc
      subst hc
      simp [Bytes.beValue] at h56
    | c :: d :: rest, hc => exact hc (by simp)

/-- 長い形の見出しの読み（`readKind` の二つの長い形の枝）：先頭の byte の後に、その示す数の
byte で長さを読む。 -/
theorem readKind_long (small : UInt8) {s s' : Stream} {large b : UInt8} {v : Nat}
    (hroom1 : s.Room 1) (hr1 : s.r.head? = some b) (hlo : large.toNat + 1 ≤ b.toNat)
    (hhi : b.toNat ≤ large.toNat + 8)
    (hu : (Stream.readUint (b - large).toNat).run (s.after 1 0) = .ok v s') (h56 : ¬ v < 56) :
    ∃ hd, v < 2 ^ 64 ∧ header small large v = hd ∧ s.Room hd.length ∧ s.r = hd ++ s'.r ∧
      s' = s.after hd.length 0 := by
  have hk : (b - large).toNat = b.toNat - large.toNat := toNat_sub_of_le (by omega)
  obtain ⟨hroom3, hlen, hcanon, hv, rfl⟩ := (readUint_eq_ok (by omega)).mp hu
  have hlen' : ((s.after 1 0).r.take (b - large).toNat).length = (b - large).toNat := by
    simp only [List.length_take]
    exact Nat.min_eq_left hlen
  obtain ⟨h64, hhd⟩ := headerOk_long small hlen' (by rw [hlen', hk]; omega)
    (fun h2 => hcanon (hlen' ▸ h2)) hv h56
  refine ⟨_, h64, hhd, ?_, ?_, ?_⟩
  · rw [List.length_cons, hlen', Nat.add_comm]
    exact (Stream.room_add_iff _).mpr ⟨hroom1, hroom3⟩
  · rw [Stream.after_after, Stream.after_r, List.cons_append, Stream.after_r,
      ← List.drop_drop, List.take_append_drop, List.drop_one]
    exact List.eq_cons_of_mem_head? hr1
  · rw [Stream.after_after, List.length_cons, hlen', Nat.add_comm, Stream.after_byteval]

/-- `readKind` が成功したなら、読んだのは最短の形の見出しである。 -/
theorem readKind_sound {s s' : Stream} {k : Kind} {size : Nat}
    (h : Stream.readKind.run s = .ok (k, size) s') :
    ∃ hd bv, HeaderOk k size bv hd ∧ s.Room hd.length ∧ s.r = hd ++ s'.r ∧
      s' = s.after hd.length bv := by
  simp only [Stream.readKind, run_bind_eq_ok, run_tryCatch] at h
  obtain ⟨b, s1, hb, _, s2, hmod, h⟩ := h
  -- 先頭の byte は読めている：誤りの受け手は、いつも誤りを返す
  replace hb : Stream.readByte.run s = .ok b s1 := by
    cases hrb : Stream.readByte.run s with
    | ok a t => rw [hrb] at hb; exact hb
    | error e t =>
      rw [hrb] at hb
      simp only [EStateM.run_bind, EStateM.run_get] at hb
      split at hb
      · split at hb <;> cases hb
      · cases hb
  obtain ⟨hroom1, hr1, rfl⟩ := readByte_eq_ok.mp hb
  have hs2 : s2 = s.after 1 0 := by
    simp only [EStateM.run_modify, EStateM.Result.ok.injEq] at hmod
    rw [← hmod.2]
    rfl
  subst hs2
  have hcons : s.r = b :: (s.after 1 0).r := by
    rw [Stream.after_r, List.drop_one]
    exact List.eq_cons_of_mem_head? hr1
  split_ifs at h with h80 hB8 hC0 hF8
  · -- 0x00..0x7F：その byte 自身が値
    simp only [EStateM.run_bind, EStateM.run_modify, EStateM.run_pure, EStateM.Result.ok.injEq,
      Prod.mk.injEq] at h
    obtain ⟨⟨rfl, rfl⟩, rfl⟩ := h
    exact ⟨[b], b, ⟨rfl, h80, rfl⟩, hroom1, hcons, rfl⟩
  · -- 0x80..0xB7：短い文字列
    simp only [EStateM.run_pure, EStateM.Result.ok.injEq, Prod.mk.injEq] at h
    obtain ⟨⟨rfl, rfl⟩, rfl⟩ := h
    simp only [UInt8.lt_iff_toNat_lt, UInt8.reduceToNat] at h80 hB8
    have hlt : (b - 0x80).toNat < 56 := by rw [toNat_sub_of_le (by simp; omega)]; simp; omega
    exact ⟨[b], 0, ⟨rfl, by omega, (header_sub hlt).symm⟩, hroom1, hcons, rfl⟩
  · -- 0xB8..0xBF：長さの byte 数が続く文字列
    simp only [UInt8.lt_iff_toNat_lt, UInt8.reduceToNat] at h80 hB8 hC0
    obtain ⟨v, s3, hu, h⟩ := run_bind_eq_ok.mp h
    split_ifs at h with h56
    · simp only [EStateM.run_bind, EStateM.run_throw] at h
      cases h
    · simp only [EStateM.run_pure, EStateM.Result.ok.injEq, Prod.mk.injEq] at h
      obtain ⟨⟨rfl, rfl⟩, rfl⟩ := h
      obtain ⟨hd, h64, hhd, hroom, hr, rfl⟩ :=
        readKind_long 0x80 hroom1 hr1 (by simp; omega) (by simp; omega) hu h56
      exact ⟨hd, 0, ⟨rfl, h64, hhd.symm⟩, hroom, hr, rfl⟩
  · -- 0xC0..0xF7：短い列
    simp only [EStateM.run_pure, EStateM.Result.ok.injEq, Prod.mk.injEq] at h
    obtain ⟨⟨rfl, rfl⟩, rfl⟩ := h
    simp only [UInt8.lt_iff_toNat_lt, UInt8.reduceToNat] at h80 hB8 hC0 hF8
    have hlt : (b - 0xC0).toNat < 56 := by rw [toNat_sub_of_le (by simp; omega)]; simp; omega
    exact ⟨[b], 0, ⟨rfl, by omega, (header_sub hlt).symm⟩, hroom1, hcons, rfl⟩
  · -- 0xF8..0xFF：長さの byte 数が続く列
    simp only [UInt8.lt_iff_toNat_lt, UInt8.reduceToNat] at h80 hB8 hC0 hF8
    obtain ⟨v, s3, hu, h⟩ := run_bind_eq_ok.mp h
    split_ifs at h with h56
    · simp only [EStateM.run_bind, EStateM.run_throw] at h
      cases h
    · simp only [EStateM.run_pure, EStateM.Result.ok.injEq, Prod.mk.injEq] at h
      obtain ⟨⟨rfl, rfl⟩, rfl⟩ := h
      obtain ⟨hd, h64, hhd, hroom, hr, rfl⟩ :=
        readKind_long 0xC0 hroom1 hr1 (by simp; omega) (by simp; have := b.toNat_lt; omega) hu h56
      exact ⟨hd, 0, ⟨rfl, h64, hhd.symm⟩, hroom, hr, rfl⟩

/-- 最短の表現で書いた長さは、`readUint` でそのまま読める。 -/
theorem readUint_beBytes {t : Stream} {size : Nat} {rest : Bytes} (hpos : 0 < size)
    (hroom : t.Room (Bytes.beBytes size).length) (hr : t.r = Bytes.beBytes size ++ rest) :
    (Stream.readUint (Bytes.beBytes size).length).run t =
      .ok size (t.after (Bytes.beBytes size).length t.byteval) := by
  have hlen : 0 < (Bytes.beBytes size).length := List.length_pos_of_ne_nil (Bytes.beBytes_ne_nil hpos)
  refine (readUint_eq_ok hlen).mpr ⟨hroom, by simp [hr], fun _ => ?_, ?_, rfl⟩
  · rw [hr, List.take_left]
    exact Bytes.head_beBytes_ne_zero size
  · rw [hr, List.take_left, Bytes.beValue_beBytes]

theorem run_modify_byteval (s : Stream) (n : Nat) (bv bv' : UInt8) :
    (modify fun t => { t with byteval := bv' } : StreamM PUnit).run (s.after n bv) =
      .ok () (s.after n bv') := rfl

/-- 長い形の見出しの先頭の byte：長さの byte 数を tag に足したもの。 -/
theorem toNat_long_tag (large : UInt8) {size : Nat} (hsize : size < 2 ^ 64) (hpos : 0 < size)
    (hlarge : large.toNat + 8 < 256) :
    (large + (Bytes.beBytes size).length.toUInt8).toNat = large.toNat + (Bytes.beBytes size).length ∧
      1 ≤ (Bytes.beBytes size).length ∧ (Bytes.beBytes size).length ≤ 8 := by
  have hL8 : (Bytes.beBytes size).length ≤ 8 :=
    (Bytes.length_beBytes_le_iff size 8).mpr (by norm_num; omega)
  have hL1 := List.length_pos_of_ne_nil (Bytes.beBytes_ne_nil hpos)
  exact ⟨Bytes.toNat_add_toUInt8 (by omega), hL1, hL8⟩

/-- 最短の形の見出しの後に入力が続けば、`readKind` はそれを読む。 -/
theorem readKind_run {s : Stream} {k : Kind} {size : Nat} {bv : UInt8} {hd rest : Bytes}
    (hh : HeaderOk k size bv hd) (hroom : s.Room hd.length) (hr : s.r = hd ++ rest) :
    Stream.readKind.run s = .ok (k, size) (s.after hd.length bv) := by
  -- 見出しの先頭の byte を読む
  obtain ⟨b, tl, rfl⟩ := List.exists_cons_of_ne_nil (headerOk_ne_nil hh)
  rw [List.length_cons, Nat.add_comm] at hroom ⊢
  have hroom1 := (Stream.room_add_iff 0).mp hroom
  have hrb : Stream.readByte.run s = .ok b (s.after 1 s.byteval) :=
    readByte_eq_ok.mpr ⟨hroom1.1, by simp [hr], rfl⟩
  have hr1 : (s.after 1 0).r = tl ++ rest := by simp [hr]
  simp only [Stream.readKind, EStateM.run_bind, run_tryCatch, hrb, run_modify_byteval]
  cases k with
  | Byte =>
    obtain ⟨rfl, hbv, hhd⟩ := hh
    obtain ⟨rfl, rfl⟩ := List.cons_eq_cons.mp hhd
    simp only [if_pos hbv, EStateM.run_bind, run_modify_byteval, EStateM.run_pure]
    rfl
  | String =>
    obtain ⟨rfl, hsize, hhd⟩ := hh
    by_cases h56 : size < 56
    · rw [header_of_lt h56] at hhd
      obtain ⟨rfl, rfl⟩ := List.cons_eq_cons.mp hhd
      have hbn := Bytes.toNat_add_toUInt8 (a := 0x80) (n := size) (by simp; omega)
      have h1 : ¬ (0x80 + size.toUInt8 : UInt8) < 0x80 := by
        rw [UInt8.lt_iff_toNat_lt, hbn]; simp
      have h2 : (0x80 + size.toUInt8 : UInt8) < 0xB8 := by
        rw [UInt8.lt_iff_toNat_lt, hbn]; simp; omega
      have hsub : ((0x80 + size.toUInt8 : UInt8) - 0x80).toNat = size := by
        rw [UInt8.add_comm, UInt8.add_sub_cancel]; simp; omega
      simp only [if_neg h1, if_pos h2, EStateM.run_pure, hsub]
      rfl
    · rw [header_of_not_lt h56] at hhd
      obtain ⟨rfl, rfl⟩ := List.cons_eq_cons.mp hhd
      obtain ⟨hbn, hL1, hL8⟩ := toNat_long_tag 0xB7 hsize (by omega) (by simp)
      have h1 : ¬ (0xB7 + (Bytes.beBytes size).length.toUInt8 : UInt8) < 0x80 := by
        rw [UInt8.lt_iff_toNat_lt, hbn]; simp; omega
      have h2 : ¬ (0xB7 + (Bytes.beBytes size).length.toUInt8 : UInt8) < 0xB8 := by
        rw [UInt8.lt_iff_toNat_lt, hbn]; simp; omega
      have h3 : (0xB7 + (Bytes.beBytes size).length.toUInt8 : UInt8) < 0xC0 := by
        rw [UInt8.lt_iff_toNat_lt, hbn]; simp; omega
      have hsub : ((0xB7 + (Bytes.beBytes size).length.toUInt8 : UInt8) - 0xB7).toNat =
          (Bytes.beBytes size).length := by
        rw [UInt8.add_comm, UInt8.add_sub_cancel]; simp; omega
      have hu := readUint_beBytes (by omega) hroom1.2 hr1
      simp only [if_neg h1, if_neg h2, if_pos h3, hsub, EStateM.run_bind, hu, if_neg h56,
        EStateM.run_pure, Stream.after_byteval, Stream.after_after]
  | List =>
    obtain ⟨rfl, hsize, hhd⟩ := hh
    by_cases h56 : size < 56
    · rw [header_of_lt h56] at hhd
      obtain ⟨rfl, rfl⟩ := List.cons_eq_cons.mp hhd
      have hbn := Bytes.toNat_add_toUInt8 (a := 0xC0) (n := size) (by simp; omega)
      have h1 : ¬ (0xC0 + size.toUInt8 : UInt8) < 0x80 := by
        rw [UInt8.lt_iff_toNat_lt, hbn]; simp; omega
      have h2 : ¬ (0xC0 + size.toUInt8 : UInt8) < 0xB8 := by
        rw [UInt8.lt_iff_toNat_lt, hbn]; simp; omega
      have h3 : ¬ (0xC0 + size.toUInt8 : UInt8) < 0xC0 := by
        rw [UInt8.lt_iff_toNat_lt, hbn]; simp
      have h4 : (0xC0 + size.toUInt8 : UInt8) < 0xF8 := by
        rw [UInt8.lt_iff_toNat_lt, hbn]; simp; omega
      have hsub : ((0xC0 + size.toUInt8 : UInt8) - 0xC0).toNat = size := by
        rw [UInt8.add_comm, UInt8.add_sub_cancel]; simp; omega
      simp only [if_neg h1, if_neg h2, if_neg h3, if_pos h4, EStateM.run_pure, hsub]
      rfl
    · rw [header_of_not_lt h56] at hhd
      obtain ⟨rfl, rfl⟩ := List.cons_eq_cons.mp hhd
      obtain ⟨hbn, hL1, hL8⟩ := toNat_long_tag 0xF7 hsize (by omega) (by simp)
      have h1 : ¬ (0xF7 + (Bytes.beBytes size).length.toUInt8 : UInt8) < 0x80 := by
        rw [UInt8.lt_iff_toNat_lt, hbn]; simp; omega
      have h2 : ¬ (0xF7 + (Bytes.beBytes size).length.toUInt8 : UInt8) < 0xB8 := by
        rw [UInt8.lt_iff_toNat_lt, hbn]; simp; omega
      have h3 : ¬ (0xF7 + (Bytes.beBytes size).length.toUInt8 : UInt8) < 0xC0 := by
        rw [UInt8.lt_iff_toNat_lt, hbn]; simp; omega
      have h4 : ¬ (0xF7 + (Bytes.beBytes size).length.toUInt8 : UInt8) < 0xF8 := by
        rw [UInt8.lt_iff_toNat_lt, hbn]; simp; omega
      have hsub : ((0xF7 + (Bytes.beBytes size).length.toUInt8 : UInt8) - 0xF7).toNat =
          (Bytes.beBytes size).length := by
        rw [UInt8.add_comm, UInt8.add_sub_cancel]; simp; omega
      have hu := readUint_beBytes (by omega) hroom1.2 hr1
      simp only [if_neg h1, if_neg h2, if_neg h3, if_neg h4, hsub, EStateM.run_bind, hu,
        if_neg h56, EStateM.run_pure, Stream.after_byteval, Stream.after_after]

/-! ## 誤り -/

/-- 読む手続きの誤り：列の終わり（`EOL`）でも、一番外の入力の終わり（`EOF`）でもない。
`EOL` は `Kind()` だけが、`EOF` は `readKind` の最初の一 byte の受け手だけが投げる。 -/
def ReadError (e : Error) : Prop := e ≠ .EOL ∧ e ≠ .EOF

instance : DecidablePred ReadError := fun e => inferInstanceAs (Decidable (e ≠ .EOL ∧ e ≠ .EOF))

theorem willRead_throwsOnly (n : Nat) : ThrowsOnly (Stream.willRead n) ReadError := by
  intro s e s' h
  unfold Stream.willRead at h
  -- 枝ごとに、投げる誤りは定数
  repeat' (first
    | (simp only [EStateM.run_bind, EStateM.run_get, EStateM.run_set, EStateM.run_modify,
        EStateM.run_pure, EStateM.run_throw, EStateM.Result.error.injEq] at h)
    | (split at h))
  all_goals first
    | (obtain ⟨rfl, -⟩ := h; decide)
    | cases h

theorem readByte_throwsOnly : ThrowsOnly Stream.readByte ReadError := by
  unfold Stream.readByte
  refine (willRead_throwsOnly 1).bind fun _ => (throwsOnly_get _).bind fun st => ?_
  split
  · exact (throwsOnly_set _ _).bind fun _ => throwsOnly_pure _ _
  · exact throwsOnly_throw (by decide)

theorem readFull_throwsOnly (n : Nat) : ThrowsOnly (Stream.readFull n) ReadError := by
  unfold Stream.readFull
  refine (willRead_throwsOnly n).bind fun _ => (throwsOnly_get _).bind fun st =>
    (throwsOnly_set _ _).bind fun _ => ?_
  split
  · exact (throwsOnly_throw (by decide)).bind fun _ => throwsOnly_pure _ _
  · exact throwsOnly_pure _ _

theorem readUint_throwsOnly (k : Nat) : ThrowsOnly (Stream.readUint k) ReadError := by
  match k with
  | 0 => exact (throwsOnly_modify _ _).bind fun _ => throwsOnly_pure _ _
  | 1 => exact readByte_throwsOnly.bind fun _ => throwsOnly_pure _ _
  | k + 2 =>
    refine (readFull_throwsOnly (k + 2)).bind fun buf => ?_
    split
    · exact (throwsOnly_throw (by decide)).bind fun _ => throwsOnly_pure _ _
    · exact throwsOnly_pure _ _

/-- `readKind` の長い形の二つの枝：長さを読んでから、短い形で書けた長さを退ける。 -/
theorem readLongSize_throwsOnly (kind : Kind) (k : Nat) : ThrowsOnly (Stream.readUint k >>= fun size =>
    if size < 56 then throw Error.ErrCanonSize >>= fun (_ : PUnit) => pure (kind, size)
    else pure (kind, size)) ReadError :=
  (readUint_throwsOnly k).bind fun size => by
    split
    · exact (throwsOnly_throw (by decide)).bind fun _ => throwsOnly_pure _ _
    · exact throwsOnly_pure _ _

theorem readKind_throwsOnly : ThrowsOnly Stream.readKind (· ≠ .EOL) := by
  unfold Stream.readKind
  refine (readByte_throwsOnly.tryCatch fun err herr => ?_).bind fun b =>
    (throwsOnly_modify _ _).bind fun _ => ?_
  · refine (throwsOnly_get _).bind fun st => ?_
    split
    · split
      · exact throwsOnly_throw (by decide)
      · exact throwsOnly_throw (by decide)
      · exact throwsOnly_throw herr.1
    · exact throwsOnly_throw herr.1
  · split_ifs
    · exact (throwsOnly_modify _ _).bind fun _ => throwsOnly_pure _ _
    · exact throwsOnly_pure _ _
    · exact (readLongSize_throwsOnly _ _).mono fun _ h => h.1
    · exact throwsOnly_pure _ _
    · exact (readLongSize_throwsOnly _ _).mono fun _ h => h.1

/-- 先頭の一 byte が読めれば、`readKind` は `EOF` を投げない：`EOF` になるのは最初の一 byte の
誤りだけで、その後は読む手続きの誤りか `ErrCanonSize` である。 -/
theorem readKind_ne_eof {s s' : Stream} {e : Error} (hroom : s.Room 1) (hr : s.r ≠ [])
    (h : Stream.readKind.run s = .error e s') : e ≠ .EOF := by
  obtain ⟨b, rest, hbr⟩ := List.exists_cons_of_ne_nil hr
  have hrb : Stream.readByte.run s = .ok b (s.after 1 s.byteval) :=
    readByte_eq_ok.mpr ⟨hroom, by simp [hbr], rfl⟩
  simp only [Stream.readKind, EStateM.run_bind, run_tryCatch, hrb, run_modify_byteval] at h
  split_ifs at h
  · cases h
  · cases h
  · exact ((readLongSize_throwsOnly _ _) _ _ _ h).2
  · cases h
  · exact ((readLongSize_throwsOnly _ _) _ _ _ h).2

theorem ListEnd_throwsOnly : ThrowsOnly Stream.ListEnd (· ≠ .EOL) := by
  unfold Stream.ListEnd
  refine (throwsOnly_get _).bind fun st => ?_
  split
  · exact throwsOnly_throw (by decide)
  · dsimp only
    split
    · exact (throwsOnly_throw (by decide)).bind fun _ => throwsOnly_set _ _
    · exact throwsOnly_set _ _

theorem run_attempt {α : Type} (x : StreamM α) (s : Stream) :
    (attempt x).run s =
      match x.run s with
      | .ok a s' => .ok (.ok a) s'
      | .error e s' => .ok (.error e) s' := by
  unfold attempt
  rw [run_tryCatch, run_map]
  cases x.run s <;> rfl

/-! ## `Kind`：見出しを読んで覚える -/

/-- `Kind()` が `n` byte の見出しを読み、`byteval` を `bv` にして、結果 `v` を覚えた状態。 -/
def Stream.peeked (s : Stream) (n : Nat) (bv : UInt8) (v : Rlp.Kind × Nat) : Stream :=
  { s.after n bv with kind := some (.ok v) }

theorem Kind_cached {s : Stream} {v : Kind × Nat} (h : s.kind = some (.ok v)) :
    Stream.Kind.run s = .ok v s := by
  simp [Stream.Kind, h]

theorem Kind_sound {s s' : Stream} {k : Kind} {size : Nat} (hk : s.kind = none)
    (h : Stream.Kind.run s = .ok (k, size) s') :
    ∃ hd bv, HeaderOk k size bv hd ∧ s.r = hd ++ s'.r ∧ s' = s.peeked hd.length bv (k, size) := by
  simp only [Stream.Kind, EStateM.run_bind, EStateM.run_get, hk] at h
  -- 一番内側の列の終わりなら EOL。そうでなければ、どちらの枝も見出しを読んで大きさを確かめる
  split at h
  on_goal 1 => split at h
  on_goal 1 =>
    simp only [EStateM.run_bind, EStateM.run_throw] at h
    cases h
  all_goals
    simp only [EStateM.run_bind, run_attempt, EStateM.run_get, EStateM.run_set] at h
    cases hrk : Stream.readKind.run s with
    | error e t =>
      simp only [hrk, Except.bind, run_throw] at h
      cases h
    | ok v t =>
      obtain ⟨hd, bv, hh, -, hr, rfl⟩ := readKind_sound hrk
      simp only [hrk, Except.bind] at h
      split at h
      · rename_i v' hcheck
        simp only [EStateM.run_pure, EStateM.Result.ok.injEq] at h
        obtain ⟨rfl, rfl⟩ := h
        -- 大きさの確かめが通ったので、覚えた結果は読んだ値そのもの
        have hv : v = (k, size) := by
          split at hcheck <;> split_ifs at hcheck <;> cases hcheck <;> rfl
        subst hv
        refine ⟨hd, bv, hh, hr, ?_⟩
        rw [hcheck]
        rfl
      · simp only [run_throw] at h
        cases h

theorem Kind_run {s : Stream} {k : Kind} {size : Nat} {bv : UInt8} {hd rest : Bytes}
    (hk : s.kind = none) (hh : HeaderOk k size bv hd) (hroom : s.Room (hd.length + size))
    (hr : s.r = hd ++ rest) :
    Stream.Kind.run s = .ok (k, size) (s.peeked hd.length bv (k, size)) := by
  obtain ⟨hroom1, hroom2⟩ := (Stream.room_add_iff bv).mp hroom
  have hrk := readKind_run hh hroom1 hr
  have hpos : 0 < hd.length := List.length_pos_of_ne_nil (headerOk_ne_nil hh)
  simp only [Stream.Kind, EStateM.run_bind, EStateM.run_get, hk]
  cases hs : s.stack with
  | nil =>
    simp only [EStateM.run_bind, run_attempt, hrk, EStateM.run_get, EStateM.run_set, Except.bind,
      Stream.after_stack, hs, advanceTop_nil]
    -- 一番外では、読んだ値は入力の残りに収まる
    have hfit : ¬ ((s.after hd.length bv).limited &&
        decide (size > (s.after hd.length bv).remaining)) = true := by
      simp only [Bool.and_eq_true, decide_eq_true_eq, not_and, not_lt]
      exact hroom2.2
    simp only [if_neg hfit, EStateM.run_pure]
    simp [Stream.peeked, Stream.after, hs]
  | cons tos up =>
    -- 列の中では、列の終わりではなく、読んだ値は列の残りに収まる
    have htop : hd.length + size ≤ tos.size - tos.pos := hroom.1 tos (by simp [hs])
    have hne : ¬ tos.pos = tos.size := by omega
    have hfit : ¬ size > tos.size - (tos.pos + hd.length) := by omega
    simp only [if_neg hne, EStateM.run_bind, run_attempt, hrk, EStateM.run_get, EStateM.run_set,
      Except.bind, Stream.after_stack, hs, advanceTop_cons, if_neg hfit, EStateM.run_pure]
    simp [Stream.peeked, Stream.after, hs]

/-- `Kind()` が値を読んで覚えた後は、`Kind()` から始まる手続きは覚えた値から読み直すので、
読む前から始めたのと同じ結果になる。 -/
theorem Kind_bind_peeked {α : Type} {s t : Stream} {v : Kind × Nat} (f : Kind × Nat → StreamM α)
    (hk : s.kind = none) (h : Stream.Kind.run s = .ok v t) :
    (Stream.Kind >>= f).run t = (Stream.Kind >>= f).run s := by
  obtain ⟨k, size⟩ := v
  obtain ⟨hd, bv, -, -, rfl⟩ := Kind_sound hk h
  rw [EStateM.run_bind, Kind_cached rfl, EStateM.run_bind, h]

/-- 一番内側の列を読み終えている（`Kind()` は `EOL` を返す）。 -/
def AtListEnd (stack : List ListPos) : Prop := ∃ tos ∈ stack.head?, tos.pos = tos.size

/-- `List()` の後の状態：大きさ `size` の列に入り、`Kind` は読み直し。 -/
def Stream.enter (s : Stream) (size : Nat) : Stream :=
  { s with stack := ⟨0, size⟩ :: s.stack, kind := none }

@[simp] theorem Stream.enter_stack (s : Stream) (size : Nat) :
    (s.enter size).stack = ⟨0, size⟩ :: s.stack := rfl

theorem Stream.after_zero {s : Stream} (hk : s.kind = none) : s.after 0 s.byteval = s := by
  obtain ⟨r, remaining, limited, kind, byteval, stack⟩ := s
  dsimp only at hk
  subst hk
  simp [Stream.after]

@[simp] theorem Stream.peeked_r (s : Stream) (n : Nat) (bv : UInt8) (v : Rlp.Kind × Nat) :
    (s.peeked n bv v).r = s.r.drop n := rfl

@[simp] theorem Stream.peeked_byteval (s : Stream) (n : Nat) (bv : UInt8) (v : Rlp.Kind × Nat) :
    (s.peeked n bv v).byteval = bv := rfl

theorem Stream.peeked_after (s : Stream) (n m : Nat) (bv bv' : UInt8) (v : Rlp.Kind × Nat) :
    (s.peeked n bv v).after m bv' = s.after (n + m) bv' :=
  Stream.after_after s n m bv bv'

theorem Kind_at_eol {s : Stream} (hk : s.kind = none) (he : AtListEnd s.stack) :
    Stream.Kind.run s = .error .EOL s := by
  obtain ⟨tos, htos, heq⟩ := he
  obtain ⟨up, hs⟩ : ∃ up, s.stack = tos :: up := by
    cases hs : s.stack with
    | nil => simp [hs] at htos
    | cons t up => simp only [hs, List.head?_cons, Option.mem_def, Option.some.injEq] at htos; exact ⟨up, by rw [htos]⟩
  simp only [Stream.Kind, EStateM.run_bind, EStateM.run_get, hk, hs, if_pos heq, run_throw]

theorem Kind_eol {s s' : Stream} (hk : s.kind = none) (h : Stream.Kind.run s = .error .EOL s') :
    s' = s ∧ AtListEnd s.stack := by
  simp only [Stream.Kind, EStateM.run_bind, EStateM.run_get, hk] at h
  split at h
  on_goal 1 => split at h
  on_goal 1 =>
    simp only [EStateM.run_bind, run_throw, EStateM.Result.error.injEq] at h
    rename_i tos up hs heq
    exact ⟨h.2.symm, tos, by simp [hs], heq⟩
  all_goals
    simp only [EStateM.run_bind, run_attempt, EStateM.run_get, EStateM.run_set] at h
    cases hrk : Stream.readKind.run s with
    | error e t =>
      simp only [hrk, Except.bind, run_throw, EStateM.Result.error.injEq] at h
      exact absurd h.1 (readKind_throwsOnly s e t hrk)
    | ok v t =>
      simp only [hrk, Except.bind] at h
      split at h
      · simp only [EStateM.run_pure] at h
        cases h
      · rename_i err hcheck
        simp only [run_throw, EStateM.Result.error.injEq] at h
        obtain ⟨rfl, -⟩ := h
        split at hcheck <;> split_ifs at hcheck <;> cases hcheck

/-! ## 覚えた種類からの `Bytes`・`List`・`ListEnd` -/

theorem Bytes_byte {t : Stream} {size : Nat} (hk : t.kind = some (.ok (.Byte, size))) :
    Stream.Bytes.run t = .ok [t.byteval] { t with kind := none } := by
  simp only [Stream.Bytes, EStateM.run_bind, Kind_cached hk, EStateM.run_modify, EStateM.run_get,
    EStateM.run_pure]

theorem Bytes_string_eq_ok {t t' : Stream} {size : Nat} {b : Bytes}
    (hk : t.kind = some (.ok (.String, size))) :
    Stream.Bytes.run t = .ok b t' ↔
      (Stream.readFull size).run t = .ok b t' ∧ ¬ (size = 1 ∧ b.headD 0 < 128) := by
  simp only [Stream.Bytes]
  rw [EStateM.run_bind, Kind_cached hk]
  dsimp only
  rw [run_bind_eq_ok]
  constructor
  · rintro ⟨b', t1, hb, h⟩
    split at h
    · simp only [EStateM.run_bind, run_throw] at h
      cases h
    · rename_i hcanon
      simp only [EStateM.run_pure, EStateM.Result.ok.injEq] at h
      obtain ⟨rfl, rfl⟩ := h
      exact ⟨hb, hcanon⟩
  · rintro ⟨hb, hcanon⟩
    refine ⟨b, t', hb, ?_⟩
    simp only [if_neg hcanon, EStateM.run_pure]

theorem Bytes_cached_ne_eol {t t' : Stream} {v : Rlp.Kind × Nat} {e : Error}
    (hk : t.kind = some (.ok v)) (h : Stream.Bytes.run t = .error e t') : e ≠ .EOL := by
  obtain ⟨k, size⟩ := v
  simp only [Stream.Bytes, EStateM.run_bind, Kind_cached hk] at h
  cases k with
  | Byte => simp [EStateM.run_bind, EStateM.run_modify, EStateM.run_get] at h
  | String =>
    refine (((readFull_throwsOnly size).bind fun b => ?_) t e t' h).1
    split
    · exact (throwsOnly_throw (by decide)).bind fun _ => throwsOnly_pure _ _
    · exact throwsOnly_pure _ _
  | List =>
    simp only [run_throw, EStateM.Result.error.injEq] at h
    rw [← h.1]
    decide

theorem List_cached {t : Stream} {size : Nat} (hk : t.kind = some (.ok (.List, size))) :
    Stream.List.run t = .ok size (t.enter size) := by
  simp only [Stream.List, EStateM.run_bind, Kind_cached hk, ne_eq, not_true_eq_false, if_false,
    EStateM.run_modify, EStateM.run_pure]
  rfl

/-- 列の中身をちょうど読み終えていれば、`ListEnd` は列から出て、親の列の位置に中身の大きさを
足す。 -/
theorem ListEnd_enter (t : Stream) (size : Nat) (bv : UInt8) :
    Stream.ListEnd.run ((t.enter size).after size bv) = .ok () (t.after size bv) := by
  simp only [Stream.ListEnd, EStateM.run_bind, EStateM.run_get, Stream.after_stack,
    Stream.enter_stack, advanceTop_cons, Nat.zero_add, ne_eq, not_true_eq_false, if_false]
  cases hs : t.stack with
  | nil => simp [Stream.after, Stream.enter, hs]
  | cons parent up => simp [Stream.after, Stream.enter, hs]

theorem ListEnd_enter_zero {u : Stream} (hk : u.kind = none) :
    Stream.ListEnd.run (u.enter 0) = .ok () u := by
  have h := ListEnd_enter u 0 u.byteval
  rwa [show (u.enter 0).after 0 u.byteval = u.enter 0 from Stream.after_zero rfl,
    Stream.after_zero hk] at h

end Rlp
