import Bullions.Hexutil.Hexutil
import Bullions.Lib.Positional
import Bullions.Lib.ExceptSpec

/-!
# 16 進の数の符号化は互いに逆

* `DecodeBig_EncodeBig`：256 bit 未満の負でない数は、符号化して読み戻すと元に戻る。
* `DecodeBig_isOk_iff`：`DecodeBig` が受けるのは、`"0x"` か `"0X"` の後に 1 から 64 桁の、
  先頭が 0 でない（0 は `"0"`）16 進の数字が続く列だけ。
* `EncodeBig_DecodeBig`：受けた列を符号化し直すと、`"0x"` の後に元の数字を小文字にしたもの。
  接頭辞 `"0X"` は `"0x"` に変わる。
* `DecodeUint64_EncodeUint64`：`uint64` の往復。

`DecodeBig` は数字を右から `bigWordNibbles` 桁ずつ word に組むが、組み方によらず値は数字の列を
上の桁から読んだもの（`decodeWords_ok`）。`formatBits` が書く数字は `Positional.repr 16` の桁を
`digits` の表で引いたもの（`formatBits_eq`）。
-/

namespace Hexutil

open Positional

/-! ## 数字の byte -/

/-- 16 進の数字の byte（`decodeNibble` が受けるもの）。 -/
def isHexDigit (c : UInt8) : Bool :=
  (0x30 ≤ c && c ≤ 0x39) || (0x41 ≤ c && c ≤ 0x46) || (0x61 ≤ c && c ≤ 0x66)

/-- ASCII の大文字を小文字に。 -/
def toLower (c : UInt8) : UInt8 := if 0x41 ≤ c ∧ c ≤ 0x5a then c + 0x20 else c

/-- 数字の値（数字でない byte は 0 と読む）。 -/
def nibbleOf (c : UInt8) : Nat := (decodeNibble c).getD 0

/-- 数字の列を上の桁から読んだ値。 -/
def hexValue (cs : Bytes) : Nat := value 16 (cs.map nibbleOf)

/-- `"0x"` の後に許される数字の列：1 から 64 桁で、2 桁以上なら先頭が `'0'` でない。 -/
def IsQuantity (ds : Bytes) : Prop :=
  0 < ds.length ∧ ds.length ≤ 64 ∧ (∀ c ∈ ds, isHexDigit c = true) ∧
    (1 < ds.length → ds.head? ≠ some 0x30)

theorem decodeNibble_isSome (c : UInt8) : (decodeNibble c).isSome = isHexDigit c := by
  unfold decodeNibble isHexDigit
  split_ifs <;> simp_all

/-- 数字の値は 16 未満で、表で引き直すと小文字の数字。 -/
theorem toNat_digits : ∀ d : Nat, d < 16 →
    (digits.getD d 0).toNat = if d < 10 then 0x30 + d else 0x57 + d
  | 0, _ | 1, _ | 2, _ | 3, _ | 4, _ | 5, _ | 6, _ | 7, _ | 8, _ | 9, _ | 10, _ | 11, _ | 12, _
  | 13, _ | 14, _ | 15, _ => by decide
  | _ + 16, h => absurd h (by omega)

theorem decodeNibble_digits : ∀ d : Nat, d < 16 → decodeNibble (digits.getD d 0) = some d
  | 0, _ | 1, _ | 2, _ | 3, _ | 4, _ | 5, _ | 6, _ | 7, _ | 8, _ | 9, _ | 10, _ | 11, _ | 12, _
  | 13, _ | 14, _ | 15, _ => by decide
  | _ + 16, h => absurd h (by omega)

theorem digitValue_digits : ∀ d : Nat, d < 16 → digitValue (digits.getD d 0) = some d
  | 0, _ | 1, _ | 2, _ | 3, _ | 4, _ | 5, _ | 6, _ | 7, _ | 8, _ | 9, _ | 10, _ | 11, _ | 12, _
  | 13, _ | 14, _ | 15, _ => by decide
  | _ + 16, h => absurd h (by omega)

/-- 数字 `'0'` を表すのは値 0 だけ。 -/
theorem digits_eq_zero_iff {d : Nat} (hd : d < 16) : digits.getD d 0 = 0x30 ↔ d = 0 := by
  rw [← UInt8.toNat_inj, toNat_digits d hd]
  split_ifs with h10
  · simp
  · simp
    omega

theorem isHexDigit_digits {d : Nat} (hd : d < 16) : isHexDigit (digits.getD d 0) = true := by
  rw [← decodeNibble_isSome, decodeNibble_digits d hd]
  rfl

theorem nibbleOf_digits {d : Nat} (hd : d < 16) : nibbleOf (digits.getD d 0) = d := by
  rw [nibbleOf, decodeNibble_digits d hd]
  rfl

/-- 数字の値は 16 未満で、その値を表で引くと、元の数字を小文字にしたもの。 -/
theorem decodeNibble_eq_some {c : UInt8} {d : Nat} (h : decodeNibble c = some d) :
    d < 16 ∧ digits.getD d 0 = toLower c := by
  unfold decodeNibble at h
  split_ifs at h with h1 h2 h3 <;> cases h
  · -- `'0'..'9'`：そのまま
    simp only [ge_iff_le, UInt8.le_iff_toNat_le, UInt8.toNat_ofNat] at h1
    refine ⟨by omega, ?_⟩
    rw [toLower, if_neg (by simp [UInt8.le_iff_toNat_le]; omega), ← UInt8.toNat_inj,
      toNat_digits _ (by omega), if_pos (by omega)]
    omega
  · -- `'A'..'F'`：`0x20` を足した小文字
    simp only [ge_iff_le, UInt8.le_iff_toNat_le, UInt8.toNat_ofNat] at h1 h2
    refine ⟨by omega, ?_⟩
    rw [toLower, if_pos (by simp [UInt8.le_iff_toNat_le]; omega), ← UInt8.toNat_inj,
      toNat_digits _ (by omega), if_neg (by omega), UInt8.toNat_add]
    simp
    omega
  · -- `'a'..'f'`：そのまま
    simp only [ge_iff_le, UInt8.le_iff_toNat_le, UInt8.toNat_ofNat] at h1 h2 h3
    refine ⟨by omega, ?_⟩
    rw [toLower, if_neg (by simp [UInt8.le_iff_toNat_le]; omega), ← UInt8.toNat_inj,
      toNat_digits _ (by omega), if_neg (by omega)]
    omega

theorem decodeNibble_of_isHexDigit {c : UInt8} (h : isHexDigit c = true) :
    decodeNibble c = some (nibbleOf c) := by
  rw [← decodeNibble_isSome, Option.isSome_iff_exists] at h
  obtain ⟨d, hd⟩ := h
  rw [nibbleOf, hd]
  rfl

theorem nibbleOf_lt {c : UInt8} (h : isHexDigit c = true) : nibbleOf c < 16 :=
  (decodeNibble_eq_some (decodeNibble_of_isHexDigit h)).1

theorem digits_nibbleOf {c : UInt8} (h : isHexDigit c = true) :
    digits.getD (nibbleOf c) 0 = toLower c :=
  (decodeNibble_eq_some (decodeNibble_of_isHexDigit h)).2

/-- 数字 `'0'` だけが値 0 を持つ。 -/
theorem nibbleOf_eq_zero_iff {c : UInt8} (h : isHexDigit c = true) : nibbleOf c = 0 ↔ c = 0x30 := by
  constructor
  · intro h0
    have hd := decodeNibble_of_isHexDigit h
    rw [h0] at hd
    unfold decodeNibble at hd
    split_ifs at hd with h1 h2 h3 <;> simp only [Option.some.injEq] at hd
    · simp only [ge_iff_le, UInt8.le_iff_toNat_le, UInt8.toNat_ofNat] at h1
      rw [← UInt8.toNat_inj]
      simp
      omega
    all_goals omega
  · rintro rfl
    rfl

theorem hexValue_append (cs cs' : Bytes) :
    hexValue (cs ++ cs') = hexValue cs * 16 ^ cs'.length + hexValue cs' := by
  rw [hexValue, List.map_append, value_append, List.length_map]
  rfl

/-! ## `formatBits` の数字 -/

/-- `formatBits` が書く桁：0 は一桁の 0、ほかは最小の表現。 -/
def hexDigitsOf (u : Nat) : List Nat := if u = 0 then [0] else repr 16 u

theorem value_hexDigitsOf (u : Nat) : value 16 (hexDigitsOf u) = u := by
  unfold hexDigitsOf
  split_ifs with h
  · subst h
    rfl
  · exact value_repr u

theorem lt_of_mem_hexDigitsOf {u d : Nat} (h : d ∈ hexDigitsOf u) : d < 16 := by
  unfold hexDigitsOf at h
  split_ifs at h
  · simp at h
    omega
  · exact lt_of_mem_repr (by norm_num) h

theorem formatBits_eq (u : Nat) : formatBits u = (hexDigitsOf u).map (digits.getD · 0) := by
  induction u using Nat.strong_induction_on with
  | _ u ih =>
    rw [formatBits]
    split_ifs with h16
    · -- 一桁
      unfold hexDigitsOf
      split_ifs with h0
      · subst h0
        rfl
      · rw [repr_of_lt (by omega) h16]
        rfl
    · -- 下の桁を後ろに書き足す
      have hshift : u >>> 4 = u / 16 := by rw [Nat.shiftRight_eq_div_pow]
      have hmask : u &&& 15 = u % 16 := Nat.and_two_pow_sub_one_eq_mod u 4
      have hq : u / 16 ≠ 0 := by omega
      have hu : u ≠ 0 := by omega
      have hrec : hexDigitsOf u = hexDigitsOf (u / 16) ++ [u % 16] := by
        rw [hexDigitsOf, hexDigitsOf, if_neg hu, if_neg hq,
          @repr_of_le 16 (by norm_num) u (by omega)]
      rw [hshift, hmask, ih (u / 16) (by omega), hrec, List.map_append]
      rfl

theorem isHexDigit_formatBits (u : Nat) : ∀ c ∈ formatBits u, isHexDigit c = true := by
  rw [formatBits_eq]
  intro c hc
  obtain ⟨d, hd, rfl⟩ := List.mem_map.mp hc
  exact isHexDigit_digits (lt_of_mem_hexDigitsOf hd)

theorem hexValue_formatBits (u : Nat) : hexValue (formatBits u) = u := by
  rw [formatBits_eq, hexValue, List.map_map]
  have hid : ∀ d ∈ hexDigitsOf u, (nibbleOf ∘ (digits.getD · 0)) d = d :=
    fun d hd => nibbleOf_digits (lt_of_mem_hexDigitsOf hd)
  rw [List.map_congr_left hid, List.map_id', value_hexDigitsOf]

theorem formatBits_ne_nil (u : Nat) : formatBits u ≠ [] := by
  rw [formatBits_eq, Ne, List.map_eq_nil_iff, hexDigitsOf]
  split_ifs with h
  · simp
  · exact repr_ne_nil (by omega)

/-- 二桁以上書くのは正の数で、その先頭は `'0'` でない。 -/
theorem head_formatBits {u : Nat} (h : 1 < (formatBits u).length) :
    (formatBits u).head? ≠ some 0x30 := by
  rw [formatBits_eq] at h ⊢
  have hu : u ≠ 0 := by
    intro h0
    subst h0
    simp [hexDigitsOf] at h
  rw [hexDigitsOf, if_neg hu] at h ⊢
  rw [List.head?_map]
  have hne := head_repr_ne_zero (b := 16) u
  cases hr : (repr 16 u).head? with
  | none => simp
  | some d =>
    rw [hr] at hne
    have hd : d < 16 := lt_of_mem_repr (by norm_num) (List.mem_of_head? hr)
    simp only [Option.map_some, ne_eq, Option.some.injEq]
    rw [digits_eq_zero_iff hd]
    exact fun h0 => hne (by rw [h0])

theorem length_formatBits_le_iff {u k : Nat} (hk : 0 < k) : (formatBits u).length ≤ k ↔ u < 16 ^ k := by
  rw [formatBits_eq, List.length_map, hexDigitsOf]
  split_ifs with h
  · subst h
    simp only [List.length_singleton]
    exact ⟨fun _ => Nat.pow_pos (by norm_num), fun _ => hk⟩
  · exact length_repr_le_iff (by norm_num) u k

/-! ## `checkNumber` -/

theorem has0xPrefix_iff {input : Bytes} :
    has0xPrefix input = true ↔ ∃ p rest, input = 0x30 :: p :: rest ∧ (p = 0x78 ∨ p = 0x58) := by
  match input with
  | [] => simp [has0xPrefix]
  | [_] => simp [has0xPrefix]
  | c0 :: c1 :: rest => simp [has0xPrefix, and_comm]

/-- 接頭辞のある入力を `checkNumber` は、後ろの列の長さと先頭で振り分ける。 -/
theorem checkNumber_cons {p : UInt8} (rest : Bytes) (hp : p = 0x78 ∨ p = 0x58) :
    checkNumber (0x30 :: p :: rest) =
      if rest.length = 0 then .error .ErrEmptyNumber
      else if rest.length > 1 ∧ rest.head? = some 0x30 then .error .ErrLeadingZero
      else .ok rest := by
  have hpre : has0xPrefix (0x30 :: p :: rest) = true := has0xPrefix_iff.mpr ⟨p, rest, rfl, hp⟩
  rw [checkNumber, if_neg (by simp), if_neg (by simp [hpre])]
  rfl

/-- `checkNumber` が返すのは、`"0x"` か `"0X"` の後の、空でなく、2 桁以上なら先頭が `'0'` でない列。 -/
theorem checkNumber_eq_ok {input raw : Bytes} :
    checkNumber input = .ok raw ↔
      ∃ p, input = 0x30 :: p :: raw ∧ (p = 0x78 ∨ p = 0x58) ∧ 0 < raw.length ∧
        (1 < raw.length → raw.head? ≠ some 0x30) := by
  constructor
  · intro h
    by_cases hp : has0xPrefix input = true
    · obtain ⟨p, rest, rfl, hpx⟩ := has0xPrefix_iff.mp hp
      rw [checkNumber_cons rest hpx] at h
      split_ifs at h with h0 hz
      cases h
      exact ⟨p, rfl, hpx, by omega, fun h1 h2 => hz ⟨h1, h2⟩⟩
    · -- 接頭辞が無ければ誤り
      by_cases hl : input.length = 0
      · rw [checkNumber, if_pos hl] at h
        cases h
      · rw [checkNumber, if_neg hl, if_pos (by simpa using hp)] at h
        cases h
  · rintro ⟨p, rfl, hpx, hpos, hlead⟩
    rw [checkNumber_cons raw hpx, if_neg (by omega), if_neg (fun h => hlead h.1 h.2)]

/-- 符号化した数字の列は `checkNumber` を通る。 -/
theorem checkNumber_formatBits (u : Nat) :
    checkNumber (0x30 :: 0x78 :: formatBits u) = .ok (formatBits u) :=
  checkNumber_eq_ok.mpr
    ⟨0x78, rfl, Or.inl rfl, List.length_pos_of_ne_nil (formatBits_ne_nil u), head_formatBits⟩

/-! ## word への組み立て -/

theorem hexValue_cons (c : UInt8) (cs : Bytes) :
    hexValue (c :: cs) = nibbleOf c * 16 ^ cs.length + hexValue cs := by
  rw [hexValue, List.map_cons, value_cons, List.length_map]
  rfl

theorem hexValue_lt {cs : Bytes} (h : ∀ c ∈ cs, isHexDigit c = true) : hexValue cs < 16 ^ cs.length := by
  rw [hexValue, ← List.length_map (f := nibbleOf)]
  refine value_lt (by norm_num) fun d hd => ?_
  obtain ⟨c, hc, rfl⟩ := List.mem_map.mp hd
  exact nibbleOf_lt (h c hc)

/-- 数字だけの列は、上の桁から読んだ値の word になる。 -/
theorem decodeWord_ok : ∀ (cs : Bytes) (acc : Nat), (∀ c ∈ cs, isHexDigit c = true) →
    decodeWord cs acc = .ok (acc * 16 ^ cs.length + hexValue cs)
  | [], acc, _ => by simp [decodeWord, hexValue]
  | c :: cs, acc, h => by
    rw [decodeWord, decodeNibble_of_isHexDigit (h c List.mem_cons_self)]
    simp only
    rw [decodeWord_ok cs _ (fun x hx => h x (List.mem_cons_of_mem c hx)), hexValue_cons,
      List.length_cons, Nat.pow_succ]
    congr 1
    ring

/-- 数字でない byte があれば `ErrSyntax`。 -/
theorem decodeWord_error : ∀ (cs : Bytes) (acc : Nat), (∃ c ∈ cs, isHexDigit c = false) →
    decodeWord cs acc = .error .ErrSyntax
  | [], _, ⟨_, hc, _⟩ => absurd hc List.not_mem_nil
  | c :: cs, acc, ⟨x, hx, hbad⟩ => by
    rw [decodeWord]
    cases hd : decodeNibble c with
    | none => rfl
    | some nib =>
      simp only
      -- `c` は数字なので、数字でない byte は後ろにある
      have hc : isHexDigit c = true := by rw [← decodeNibble_isSome, hd]; rfl
      rcases List.mem_cons.mp hx with rfl | hx'
      · rw [hc] at hbad
        cases hbad
      · exact decodeWord_error cs _ ⟨x, hx', hbad⟩

section
variable {w : Nat}

/-- 一つの word に入る桁は `bigWordNibbles` までなので、word は `2 ^ _W` 未満で桁あふれしない。 -/
theorem decodeWord_lt {cs : Bytes} {word : Nat} (hl : cs.length ≤ w)
    (h : decodeWord cs 0 = .ok word) : word < 2 ^ (4 * w) := by
  by_cases hx : ∀ c ∈ cs, isHexDigit c = true
  · rw [decodeWord_ok cs 0 hx, Except.ok.injEq] at h
    subst h
    calc 0 * 16 ^ cs.length + hexValue cs = hexValue cs := by ring
      _ < 16 ^ cs.length := hexValue_lt hx
      _ ≤ 16 ^ w := Nat.pow_le_pow_right (by norm_num) hl
      _ = 2 ^ (4 * w) := by rw [Nat.pow_mul]
  · push Not at hx
    obtain ⟨c, hc, hcb⟩ := hx
    rw [decodeWord_error cs 0 ⟨c, hc, by simpa using hcb⟩] at h
    cases h

theorem setBits_cons (word : Nat) (words : List Nat) :
    setBits w (word :: words) = word + 2 ^ (4 * w) * setBits w words := rfl

/-- `raw[:end]` は `raw[:start]` と `raw[start:end]` に分かれる。 -/
theorem take_eq_take_append_slice (raw : Bytes) (endPos : Nat) :
    raw.take endPos = raw.take (endPos - w) ++ (raw.take endPos).drop (endPos - w) := by
  conv_lhs => rw [← List.take_append_drop (endPos - w) (raw.take endPos)]
  rw [List.take_take, Nat.min_eq_left (by omega)]

/-- 右から `bigWordNibbles` 桁ずつ組んだ word の値は、数字の列を上の桁から読んだもの。 -/
theorem decodeWords_ok (raw : Bytes) : ∀ (count endPos : Nat), endPos ≤ raw.length →
    endPos ≤ count * w → (∀ c ∈ raw.take endPos, isHexDigit c = true) →
    ExceptSpec.OkWith (decodeWords w raw count endPos)
      (fun words => setBits w words = hexValue (raw.take endPos))
  | 0, endPos, _, hc, _ => by
    have h0 : endPos = 0 := by simpa using hc
    subst h0
    exact ExceptSpec.okWith_ok (by simp [setBits, hexValue])
  | count + 1, endPos, hl, hc, hx => by
    have hsplit := take_eq_take_append_slice (w := w) raw endPos
    have hxs : ∀ c ∈ (raw.take endPos).drop (endPos - w), isHexDigit c = true :=
      fun c hc' => hx c (List.mem_of_mem_drop hc')
    have hxt : ∀ c ∈ raw.take (endPos - w), isHexDigit c = true :=
      fun c hc' => hx c ((List.take_sublist_take_left (by omega)).subset hc')
    obtain ⟨words, hws, hv⟩ :=
      decodeWords_ok raw count (endPos - w) (by omega) (by rw [Nat.succ_mul] at hc; omega) hxt
    refine ⟨hexValue ((raw.take endPos).drop (endPos - w)) :: words, ?_, ?_⟩
    · rw [decodeWords, decodeWord_ok _ 0 hxs, ExceptSpec.ok_bind, hws, ExceptSpec.ok_bind]
      simp
    · -- 下の word と、その上の桁の値
      show setBits w (_ :: words) = _
      rw [setBits_cons, hv]
      conv_rhs => rw [hsplit, hexValue_append]
      by_cases hew : w ≤ endPos
      · -- 下の word はちょうど `bigWordNibbles` 桁
        have hlen : ((raw.take endPos).drop (endPos - w)).length = w := by
          simp only [List.length_drop, List.length_take]
          omega
        rw [hlen, Nat.pow_mul]
        ring
      · -- 残りが `bigWordNibbles` 桁に満たなければ、上の word は空
        rw [show endPos - w = 0 by omega, List.take_zero]
        simp [hexValue]

/-- 組む範囲に数字でない byte があれば `ErrSyntax`。 -/
theorem decodeWords_error (raw : Bytes) : ∀ (count endPos : Nat), endPos ≤ count * w →
    (∃ c ∈ raw.take endPos, isHexDigit c = false) →
    decodeWords w raw count endPos = .error .ErrSyntax
  | 0, endPos, hc, ⟨c, hc', _⟩ => by
    have h0 : endPos = 0 := by simpa using hc
    subst h0
    simp at hc'
  | count + 1, endPos, hc, ⟨c, hc', hbad⟩ => by
    rw [decodeWords]
    by_cases hs : ∀ x ∈ (raw.take endPos).drop (endPos - w), isHexDigit x = true
    · -- 下の word は組めるので、数字でない byte は上の桁にある
      have hct : c ∈ raw.take (endPos - w) := by
        rw [take_eq_take_append_slice (w := w) raw endPos] at hc'
        rcases List.mem_append.mp hc' with h | h
        · exact h
        · rw [hs c h] at hbad
          cases hbad
      rw [decodeWord_ok _ 0 hs, ExceptSpec.ok_bind,
        decodeWords_error raw count (endPos - w) (by rw [Nat.succ_mul] at hc; omega) ⟨c, hct, hbad⟩]
      rfl
    · push Not at hs
      obtain ⟨x, hx, hxb⟩ := hs
      rw [decodeWord_error _ 0 ⟨x, hx, by simpa using hxb⟩]
      rfl

/-- `len(raw)/bigWordNibbles + 1` 個の word は、数字の列を覆う。 -/
theorem length_le_words (hw : 0 < w) (raw : Bytes) : raw.length ≤ (raw.length / w + 1) * w := by
  rw [Nat.succ_mul]
  exact (Nat.lt_div_mul_add hw).le

/-- 数字だけの、64 桁までの列は、その値に読む。 -/
theorem DecodeBig_ok (hw : 0 < w) {input raw : Bytes} (h : checkNumber input = .ok raw)
    (hl : raw.length ≤ 64) (hx : ∀ c ∈ raw, isHexDigit c = true) :
    DecodeBig w input = .ok (hexValue raw : Int) := by
  obtain ⟨words, hws, hv⟩ := decodeWords_ok raw _ raw.length le_rfl (length_le_words hw raw)
    (by rwa [List.take_length])
  rw [DecodeBig, h, ExceptSpec.ok_bind, if_neg (by omega), hws, ExceptSpec.ok_bind, hv,
    List.take_length]

/-- `DecodeBig` が成功するのは、`checkNumber` を通った 64 桁までの数字の列で、値はその列の値。 -/
theorem DecodeBig_eq_ok (hw : 0 < w) {input : Bytes} {v : Int} (h : DecodeBig w input = .ok v) :
    ∃ raw, checkNumber input = .ok raw ∧ raw.length ≤ 64 ∧ (∀ c ∈ raw, isHexDigit c = true) ∧
      v = hexValue raw := by
  have h' := h
  rw [DecodeBig] at h
  obtain ⟨raw, hraw, h⟩ := ExceptSpec.bind_eq_ok.mp h
  have hl : raw.length ≤ 64 := by
    by_contra hgt
    rw [if_pos (by omega)] at h
    cases h
  rw [if_neg (by omega)] at h
  have hx : ∀ c ∈ raw, isHexDigit c = true := by
    by_contra hbad
    push Not at hbad
    obtain ⟨c, hc, hcb⟩ := hbad
    rw [decodeWords_error raw _ raw.length (length_le_words hw raw)
      ⟨c, by rwa [List.take_length], by simpa using hcb⟩] at h
    cases h
  rw [DecodeBig_ok hw hraw hl hx, Except.ok.injEq] at h'
  exact ⟨raw, hraw, hl, hx, h'.symm⟩

/-- `DecodeBig` が受けるのは、`"0x"` か `"0X"` の後に `IsQuantity` の数字の列が続くものだけ。 -/
theorem DecodeBig_isOk_iff (hw : 0 < w) (s : Bytes) :
    (∃ v, DecodeBig w s = .ok v) ↔
      ∃ p ds, s = 0x30 :: p :: ds ∧ (p = 0x78 ∨ p = 0x58) ∧ IsQuantity ds := by
  constructor
  · rintro ⟨v, h⟩
    obtain ⟨raw, hraw, hl, hx, -⟩ := DecodeBig_eq_ok hw h
    obtain ⟨p, rfl, hp, hpos, hlead⟩ := checkNumber_eq_ok.mp hraw
    exact ⟨p, raw, rfl, hp, hpos, hl, hx, hlead⟩
  · rintro ⟨p, ds, rfl, hp, hpos, hl, hx, hlead⟩
    exact ⟨_, DecodeBig_ok hw (checkNumber_eq_ok.mpr ⟨p, rfl, hp, hpos, hlead⟩) hl hx⟩

end

/-! ## `EncodeBig` -/

theorem EncodeBig_zero : EncodeBig 0 = [0x30, 0x78, 0x30] := by
  simp [EncodeBig]

theorem EncodeBig_of_pos {n : Int} (hn : 0 < n) :
    EncodeBig n = 0x30 :: 0x78 :: formatBits n.natAbs := by
  have hs : n.natAbs.size ≠ 0 := by
    rw [Ne, Nat.size_eq_zero]
    omega
  rw [EncodeBig, if_neg hs, if_neg (by omega)]
  rfl

/-- 256 bit 未満の負でない数は、符号化して読み戻すと元に戻る。 -/
theorem DecodeBig_EncodeBig {w : Nat} (hw : 0 < w) {n : Int} (h0 : 0 ≤ n) (h256 : n < 2 ^ 256) :
    DecodeBig w (EncodeBig n) = .ok n := by
  rcases h0.eq_or_lt with rfl | hpos
  · -- `0` の数字は `"0"` の一つ
    have hx : ∀ c ∈ [(0x30 : UInt8)], isHexDigit c = true := fun c hc => by
      rw [List.mem_singleton.mp hc]
      rfl
    rw [EncodeBig_zero, DecodeBig_ok hw (show checkNumber [0x30, 0x78, 0x30] = .ok [0x30] from rfl)
      (by decide) hx]
    rfl
  · have hlt : n.natAbs < 16 ^ 64 := by
      have : (n.natAbs : Int) < 2 ^ 256 := by rwa [Int.natAbs_of_nonneg h0]
      have : n.natAbs < 2 ^ 256 := by exact_mod_cast this
      simpa using this
    rw [EncodeBig_of_pos hpos, DecodeBig_ok hw (checkNumber_formatBits _)
      ((length_formatBits_le_iff (by norm_num)).mpr hlt) (isHexDigit_formatBits _),
      hexValue_formatBits, Int.natAbs_of_nonneg h0]

/-- 受けた列を符号化し直すと、`"0x"` の後に元の数字を小文字にしたもの。 -/
theorem EncodeBig_DecodeBig {w : Nat} (hw : 0 < w) {p : UInt8} {ds : Bytes} {v : Int}
    (h : DecodeBig w (0x30 :: p :: ds) = .ok v) : EncodeBig v = 0x30 :: 0x78 :: ds.map toLower := by
  obtain ⟨raw, hraw, -, hx, rfl⟩ := DecodeBig_eq_ok hw h
  obtain ⟨p', he, -, hpos, hlead⟩ := checkNumber_eq_ok.mp hraw
  simp only [List.cons.injEq, true_and] at he
  obtain ⟨-, rfl⟩ := he
  by_cases hz : ds.head? = some 0x30
  · -- 数字の列は `"0"`
    have h1 : ds.length = 1 := by
      by_contra hne
      exact hlead (by omega) hz
    obtain ⟨c, rfl⟩ := List.length_eq_one_iff.mp h1
    simp only [List.head?_cons, Option.some.injEq] at hz
    subst hz
    rw [show hexValue [0x30] = 0 from rfl, Nat.cast_zero, EncodeBig_zero]
    rfl
  · -- 先頭の数字は 0 でないので、値の表現は数字の値の列そのもの
    have hns : ∀ d ∈ ds.map nibbleOf, d < 16 := by
      intro d hd
      obtain ⟨c, hc, rfl⟩ := List.mem_map.mp hd
      exact nibbleOf_lt (hx c hc)
    have hns0 : (ds.map nibbleOf).head? ≠ some 0 := by
      rw [List.head?_map]
      cases hc : ds.head? with
      | none => simp
      | some c =>
        simp only [Option.map_some, ne_eq, Option.some.injEq]
        rw [nibbleOf_eq_zero_iff (hx c (List.mem_of_head? hc))]
        exact fun h0 => hz (by rw [hc, h0])
    have hrepr : repr 16 (hexValue ds) = ds.map nibbleOf := repr_value (by norm_num) hns hns0
    have hv : 0 < hexValue ds := by
      by_contra h0
      rw [show hexValue ds = 0 by omega, repr_zero, eq_comm, List.map_eq_nil_iff] at hrepr
      rw [hrepr] at hpos
      simp at hpos
    rw [EncodeBig_of_pos (by exact_mod_cast hv), Int.natAbs_natCast, formatBits_eq, hexDigitsOf,
      if_neg hv.ne', hrepr, List.map_map]
    congr 2
    exact List.map_congr_left fun c hc => digits_nibbleOf (hx c hc)

/-! ## `uint64` -/

/--
`ParseUint` の loop は、既に読んだ桁 `P` の値から、表で書いた桁 `R` を読み進める。全体が 64 bit に
収まれば、途中の値は `cutoff` 未満なので範囲の誤りにならない。
-/
theorem parseUintLoop_digits : ∀ (R P : List Nat), (∀ d ∈ R, d < 16) →
    value 16 (P ++ R) < 2 ^ 64 →
    parseUintLoop (R.map (digits.getD · 0)) (value 16 P) = .ok (value 16 (P ++ R))
  | [], P, _, _ => by simp [parseUintLoop]
  | d :: R, P, hR, hv => by
    have hd : d < 16 := hR d List.mem_cons_self
    -- 次の桁まで読んだ値は全体の値を超えない
    have hle : value 16 (P ++ [d]) ≤ value 16 (P ++ d :: R) := by
      rw [show P ++ d :: R = (P ++ [d]) ++ R by simp, value_append (P ++ [d]) R]
      exact Nat.le_add_right_of_le (Nat.le_mul_of_pos_right _ (Nat.pow_pos (by norm_num : 0 < 16)))
    have h64 : value 16 P * 16 + d < 18446744073709551616 := by
      rw [← value_append_singleton]
      norm_num at hv
      omega
    rw [List.map_cons, parseUintLoop, digitValue_digits d hd]
    simp only
    rw [if_neg (by omega), if_neg (by norm_num [cutoff]; omega),
      if_neg (by norm_num [maxVal]; omega), ← value_append_singleton,
      parseUintLoop_digits R (P ++ [d]) (fun x hx => hR x (List.mem_cons_of_mem d hx))
        (by simpa using hv)]
    simp

/-- `uint64` は、符号化して読み戻すと元に戻る。 -/
theorem DecodeUint64_EncodeUint64 (x : UInt64) : DecodeUint64 (EncodeUint64 x) = .ok x := by
  have hparse : ParseUint (formatBits x.toNat) = .ok x.toNat := by
    have hl : (formatBits x.toNat).length ≠ 0 := by simpa using formatBits_ne_nil x.toNat
    have h := parseUintLoop_digits (hexDigitsOf x.toNat) [] (fun d hd => lt_of_mem_hexDigitsOf hd)
      (by simpa [value_hexDigitsOf] using x.toNat_lt)
    rw [ParseUint, if_neg hl, formatBits_eq]
    simpa [value_hexDigitsOf] using h
  rw [DecodeUint64, EncodeUint64, List.cons_append, List.cons_append, List.nil_append,
    checkNumber_formatBits, ExceptSpec.ok_bind, hparse]
  simp

/-! ## 16 進の数の符号化 -/

/--
`DecodeBig` と `EncodeBig` は、256 bit 未満の負でない数と `DecodeBig` が受ける列とのあいだで
互いに逆。受ける列は `"0x"` か `"0X"` の後に 1 から 64 桁の、先頭が 0 でない（0 は `"0"`）16 進の
数字で、符号化し直すと `"0x"` と小文字の数字になる。`uint64` の符号化も読み戻せる。どれも
`big.Word` の桁数 `bigWordNibbles` によらない。
-/
theorem hex_quantity_codecs (bigWordNibbles : Nat) (hw : 0 < bigWordNibbles) :
    (∀ n : Int, 0 ≤ n → n < 2 ^ 256 → DecodeBig bigWordNibbles (EncodeBig n) = .ok n) ∧
    (∀ s : Bytes, (∃ v, DecodeBig bigWordNibbles s = .ok v) ↔
      ∃ p ds, s = 0x30 :: p :: ds ∧ (p = 0x78 ∨ p = 0x58) ∧ IsQuantity ds) ∧
    (∀ (p : UInt8) (ds : Bytes) (v : Int), DecodeBig bigWordNibbles (0x30 :: p :: ds) = .ok v →
      EncodeBig v = 0x30 :: 0x78 :: ds.map toLower) ∧
    (∀ x : UInt64, DecodeUint64 (EncodeUint64 x) = .ok x) :=
  ⟨fun _ h0 h256 => DecodeBig_EncodeBig hw h0 h256, DecodeBig_isOk_iff hw,
    fun _ _ _ h => EncodeBig_DecodeBig hw h, DecodeUint64_EncodeUint64⟩

/-- 64 bit の機械（`bigWordNibbles = 16`）で `0xff` を往復する。 -/
theorem hex_quantity_codecs_64bit : 0 < 16 ∧ DecodeBig 16 (EncodeBig 255) = .ok 255 :=
  ⟨by decide, (hex_quantity_codecs 16 (by decide)).1 255 (by decide) (by norm_num)⟩

/-- 接頭辞 `"0X"` は、符号化し直すと `"0x"` になる：`"0X1"` の数字を小文字にしても `"0X1"` のまま。 -/
theorem EncodeBig_DecodeBig_upper_prefix :
    DecodeBig 16 [0x30, 0x58, 0x31] = .ok 1 ∧ EncodeBig 1 = [0x30, 0x78, 0x31] ∧
      EncodeBig 1 ≠ 0x30 :: 0x58 :: [0x31].map toLower := by
  have he : EncodeBig 1 = [0x30, 0x78, 0x31] := by
    rw [EncodeBig_of_pos (by decide), formatBits]
    rfl
  refine ⟨by decide, he, ?_⟩
  rw [he]
  decide

end Hexutil
