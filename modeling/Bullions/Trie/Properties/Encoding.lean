import Bullions.Trie.Encoding

/-!
# key の三つの符号化は互いに逆

* `compactToHex (hexToCompact h) = h`：16 未満の nibble の列に終端 `16` が付くことがある key
  （`HexKey`）なら、compact に詰めて開くと元に戻る。
* `hexToKeybytes (keybytesToHex k) = some k`：どの byte 列も戻る。
* `hexToCompactInPlace` は nibble を置いた領域の先頭に `hexToCompact h` を書き、その長さを
  返す。書く位置 `bi` は、読む位置 `ni` の一つ先までしか進まず、読んだ後に書くので、まだ読む
  所を壊さない（`hexToCompactInPlaceLoop_spec`）。ただし空の領域では最後の `hex[0]` が範囲の
  外で、Go は panic する。

鍵になるのは byte の算術：16 未満の `a`、`b` について `a<<4 | b` の値は `16a + b` で、その
上位・下位の nibble は `a` と `b`（`toNat_pair`）。
-/

namespace Trie

/-- key の形をした nibble の列：どの要素も 16 未満で、後ろに終端 `16` が付くことがある。 -/
def HexKey (hex : Nibbles) : Prop :=
  ∃ body : Nibbles, (∀ x ∈ body, x.val < 16) ∧ (hex = body ∨ hex = body ++ [16])

/-- byte の列を二つずつ詰める：`hex[ni]<<4 | hex[ni+1]`。 -/
def packPairs : Bytes → Bytes
  | a :: b :: rest => ((a <<< 4) ||| b) :: packPairs rest
  | _ => []

/-! ## byte の算術 -/

@[simp] theorem toNat_toByte (x : Nibble) : x.toByte.toNat = x.val := by
  simp only [Nibble.toByte]
  exact Nat.mod_eq_of_lt (by omega)

/-- 16 未満の二つを詰めた byte の値。 -/
theorem toNat_pair {a b : UInt8} (ha : a.toNat < 16) (hb : b.toNat < 16) :
    ((a <<< 4) ||| b).toNat = a.toNat * 16 + b.toNat := by
  rw [UInt8.toNat_or, UInt8.toNat_shiftLeft]
  have hs : a.toNat <<< ((4 : UInt8).toNat % 8) % 2 ^ 8 = a.toNat <<< 4 := by
    rw [show (4 : UInt8).toNat % 8 = 4 from rfl, Nat.shiftLeft_eq]
    exact Nat.mod_eq_of_lt (by omega)
  rw [hs, ← Nat.shiftLeft_add_eq_or_of_lt (by omega), Nat.shiftLeft_eq]

theorem hiNibble_pair {a b : Nibble} (ha : a.val < 16) (hb : b.val < 16) :
    hiNibble ((a.toByte <<< 4) ||| b.toByte) = a := by
  apply Fin.ext
  simp only [hiNibble, toNat_pair (a := a.toByte) (b := b.toByte) (by simpa using ha)
    (by simpa using hb), toNat_toByte]
  omega

theorem loNibble_pair {a b : Nibble} (ha : a.val < 16) (hb : b.val < 16) :
    loNibble ((a.toByte <<< 4) ||| b.toByte) = b := by
  apply Fin.ext
  simp only [loNibble, toNat_pair (a := a.toByte) (b := b.toByte) (by simpa using ha)
    (by simpa using hb), toNat_toByte]
  omega

/-- byte は、その二つの nibble を詰め直せば戻る。 -/
theorem pair_hiNibble_loNibble (b : UInt8) :
    ((hiNibble b).toByte <<< 4) ||| (loNibble b).toByte = b := by
  have hb := b.toNat_lt
  apply UInt8.toNat_inj.mp
  rw [toNat_pair (by simp [hiNibble]; omega) (by simp [loNibble]; omega)]
  simp only [toNat_toByte, hiNibble, loNibble]
  omega

/-! ## 詰めて開く -/

theorem packPairs_map : ∀ l : Nibbles, packPairs (l.map Nibble.toByte) = decodeNibbles l
  | [] => rfl
  | [_] => rfl
  | a :: b :: rest => by
    simp only [List.map_cons, packPairs, decodeNibbles, packPairs_map rest]

/-- 16 未満の nibble の偶数長の列は、詰めて開けば戻る。 -/
theorem unpack_decodeNibbles : ∀ l : Nibbles, (∀ x ∈ l, x.val < 16) → l.length % 2 = 0 →
    (decodeNibbles l).flatMap (fun b => [hiNibble b, loNibble b]) = l
  | [], _, _ => rfl
  | [_], _, h => by simp at h
  | a :: b :: rest, hl, h => by
    have ha := hl a (by simp)
    have hb := hl b (by simp)
    have hrest := unpack_decodeNibbles rest (fun x hx => hl x (by simp [hx]))
      (by simp at h; omega)
    simp only [decodeNibbles, List.flatMap_cons, hiNibble_pair ha hb, loNibble_pair ha hb, hrest,
      List.cons_append, List.nil_append]

theorem decodeNibbles_unpack : ∀ k : Bytes,
    decodeNibbles (k.flatMap fun b => [hiNibble b, loNibble b]) = k
  | [] => rfl
  | b :: k => by
    simp only [List.flatMap_cons, List.cons_append, List.nil_append, decodeNibbles,
      pair_hiNibble_loNibble, decodeNibbles_unpack k]

theorem hasTerm_keybytesToHex (k : Bytes) : hasTerm (keybytesToHex k) = true := by
  simp [hasTerm, keybytesToHex]

/-- どの byte 列も、HEX に開いて戻せば戻る。 -/
theorem hexToKeybytes_keybytesToHex (k : Bytes) : hexToKeybytes (keybytesToHex k) = some k := by
  simp only [hexToKeybytes, hasTerm_keybytesToHex, if_true]
  -- 開いた列の長さは `2 * k.length` で偶数
  rw [keybytesToHex, List.dropLast_concat, if_neg (by simp), decodeNibbles_unpack]

/-! ## compact の先頭 byte -/

/-- 印の nibble の値が 16 の倍数の byte に、16 未満の byte を重ねた値。 -/
theorem toNat_or_low {c x : UInt8} (hc : c.toNat % 16 = 0) (hx : x.toNat < 16) :
    (c ||| x).toNat = c.toNat + x.toNat := by
  have hc' : c.toNat = (c.toNat / 16) <<< 4 := by rw [Nat.shiftLeft_eq]; omega
  rw [UInt8.toNat_or, hc', ← Nat.shiftLeft_add_eq_or_of_lt (by omega)]

theorem toNat_flag {t : UInt8} (ht : t.toNat < 2) : (t <<< 5).toNat = 32 * t.toNat := by
  rw [UInt8.toNat_shiftLeft, show (5 : UInt8).toNat % 8 = 5 from rfl, Nat.shiftLeft_eq]
  omega

theorem toNat_oddFlag {t : UInt8} (ht : t.toNat < 2) :
    (t <<< 5 ||| (1 : UInt8) <<< 4).toNat = 32 * t.toNat + 16 := by
  have h5 : (t <<< 5).toNat = t.toNat <<< 5 := by rw [toNat_flag ht, Nat.shiftLeft_eq]; omega
  rw [UInt8.toNat_or, h5, show ((1 : UInt8) <<< 4).toNat = 16 from rfl,
    ← Nat.shiftLeft_add_eq_or_of_lt (by omega), Nat.shiftLeft_eq]
  omega

/-- 奇数長の先頭 byte：上位の nibble は印 `2t + 1`、下位は最初の nibble。 -/
theorem nibbles_oddByte {t : UInt8} (ht : t.toNat < 2) {h : Nibble} (hh : h.val < 16) :
    (hiNibble (t <<< 5 ||| (1 : UInt8) <<< 4 ||| h.toByte)).val = 2 * t.toNat + 1 ∧
      loNibble (t <<< 5 ||| (1 : UInt8) <<< 4 ||| h.toByte) = h := by
  have hv := toNat_or_low (c := t <<< 5 ||| (1 : UInt8) <<< 4) (x := h.toByte)
    (by rw [toNat_oddFlag ht]; omega) (by simpa using hh)
  rw [toNat_oddFlag ht, toNat_toByte] at hv
  refine ⟨?_, Fin.ext ?_⟩
  · simp only [hiNibble, hv]; omega
  · simp only [loNibble, hv]; omega

/-- 偶数長の先頭 byte：上位の nibble は印 `2t`、下位は 0。 -/
theorem nibbles_evenByte {t : UInt8} (ht : t.toNat < 2) :
    (hiNibble (t <<< 5)).val = 2 * t.toNat ∧ (loNibble (t <<< 5)).val = 0 := by
  simp only [hiNibble, loNibble, toNat_flag ht]
  omega

/-! ## compact に詰めて開く -/

theorem hasTerm_body {body : Nibbles} (hb : ∀ x ∈ body, x.val < 16) (term : Bool) :
    hasTerm (body ++ if term then [16] else []) = term := by
  cases term with
  | true => simp [hasTerm]
  | false =>
    simp only [hasTerm, Bool.false_eq_true, if_false, List.append_nil, beq_eq_false_iff_ne, ne_eq]
    intro hl
    have := hb 16 (List.mem_of_getLast? hl)
    simp at this

/-- 開いた列の先頭の二つの nibble の後ろは、詰める前の列と終端。 -/
theorem keybytesToHex_cons_decode {rest : Nibbles} (hr : ∀ x ∈ rest, x.val < 16)
    (he : rest.length % 2 = 0) (c : UInt8) :
    keybytesToHex (c :: decodeNibbles rest) = hiNibble c :: loNibble c :: rest ++ [16] := by
  simp [keybytesToHex, unpack_decodeNibbles rest hr he]

theorem length_decodeNibbles : ∀ l : Nibbles, (decodeNibbles l).length = l.length / 2
  | [] => rfl
  | [_] => by simp [decodeNibbles]
  | a :: b :: rest => by
    simp only [decodeNibbles, List.length_cons, length_decodeNibbles rest]
    omega

/-- 奇数長の body：最初の nibble は先頭 byte の下位に入る。 -/
theorem hexToCompact_odd {h : Nibble} {rest : Nibbles} (hb : ∀ x ∈ h :: rest, x.val < 16)
    (term : Bool) (hodd : (h :: rest).length % 2 = 1) :
    hexToCompact (h :: rest ++ if term then [16] else []) =
      (((if term then (1 : UInt8) else 0) <<< 5) ||| ((1 : UInt8) <<< 4) ||| h.toByte) ::
        decodeNibbles rest := by
  have hdrop : (if term then (h :: rest ++ if term then [16] else []).dropLast
      else h :: rest ++ if term then [16] else []) = h :: rest := by
    cases term <;> simp [List.dropLast_cons_of_ne_nil]
  simp only [hexToCompact, hasTerm_body hb, hdrop, if_pos hodd]

/-- 偶数長の body：先頭 byte は印だけ。 -/
theorem hexToCompact_even {body : Nibbles} (hb : ∀ x ∈ body, x.val < 16) (term : Bool)
    (he : body.length % 2 = 0) :
    hexToCompact (body ++ if term then [16] else []) =
      ((if term then (1 : UInt8) else 0) <<< 5) :: decodeNibbles body := by
  have hdrop : (if term then (body ++ if term then [16] else []).dropLast
      else body ++ if term then [16] else []) = body := by
    cases term <;> simp
  simp only [hexToCompact, hasTerm_body hb, hdrop, if_neg (show ¬body.length % 2 = 1 by omega)]

/-- 16 未満の nibble の列は、終端が付いていてもいなくても、compact に詰めて開けば戻る。 -/
theorem compactToHex_hexToCompact_body {body : Nibbles} (hb : ∀ x ∈ body, x.val < 16)
    (term : Bool) :
    compactToHex (hexToCompact (body ++ if term then [16] else [])) =
      body ++ if term then [16] else [] := by
  have ht : (if term then (1 : UInt8) else 0).toNat < 2 := by cases term <;> decide
  by_cases hodd : body.length % 2 = 1
  · obtain ⟨h, rest, rfl⟩ : ∃ h rest, body = h :: rest := by
      cases body with
      | nil => simp at hodd
      | cons h rest => exact ⟨h, rest, rfl⟩
    have hr : ∀ x ∈ rest, x.val < 16 := fun x hx => hb x (by simp [hx])
    have he : rest.length % 2 = 0 := by simp at hodd; omega
    obtain ⟨hhi, hlo⟩ := nibbles_oddByte ht (hb h (by simp))
    rw [hexToCompact_odd hb term hodd, compactToHex, keybytesToHex_cons_decode hr he, hhi, hlo]
    -- 印 `2t + 1`：終端の無い時だけ最後を落とし、先頭の一つを捨てる
    cases term <;> simp [List.dropLast_cons_of_ne_nil]
  · have he : body.length % 2 = 0 := by omega
    obtain ⟨hhi, -⟩ := nibbles_evenByte ht
    rw [hexToCompact_even hb term he, compactToHex, keybytesToHex_cons_decode hb he, hhi]
    -- 印 `2t`：終端の無い時だけ最後を落とし、先頭の二つを捨てる
    cases term <;> simp [List.dropLast_cons_of_ne_nil]

theorem compactToHex_hexToCompact {hex : Nibbles} (hk : HexKey hex) :
    compactToHex (hexToCompact hex) = hex := by
  obtain ⟨body, hb, rfl | rfl⟩ := hk
  · simpa using compactToHex_hexToCompact_body hb false
  · simpa using compactToHex_hexToCompact_body hb true

/-! ## その場で詰める -/

/-- `bi` に書いた後の先頭 `bi + 1` byte。 -/
theorem take_succ_set {buf : Bytes} {bi : Nat} (h : bi < buf.length) (v : UInt8) :
    (buf.set bi v).take (bi + 1) = buf.take bi ++ [v] := by
  rw [List.take_succ_eq_append_getElem (by simpa using h), List.take_set_of_le le_rfl,
    List.getElem_set_self]

/-- 読む位置から先の二つは、詰めた byte の一つ目になる。 -/
theorem packPairs_drop (buf : Bytes) (ni n : Nat) (h : ni + 2 ≤ buf.length) :
    packPairs ((buf.drop ni).take (n + 2)) =
      ((buf.getD ni 0 <<< 4) ||| buf.getD (ni + 1) 0) ::
        packPairs ((buf.drop (ni + 2)).take n) := by
  have hd : buf.drop ni = buf[ni] :: buf[ni + 1] :: buf.drop (ni + 2) := by
    rw [List.drop_eq_getElem_cons (i := ni) (by omega),
      List.drop_eq_getElem_cons (i := ni + 1) (by omega)]
  rw [hd, List.getD_eq_getElem?_getD, List.getD_eq_getElem?_getD,
    List.getElem?_eq_getElem (by omega), List.getElem?_eq_getElem (by omega)]
  rfl

/--
loop の不変条件：書く位置 `bi` は読む位置 `ni` の一つ先までにあり、`ni` から `hexLen` までの
偶数個が残っている。loop は領域の長さを変えず、先頭 `bi` byte の後ろに残りを二つずつ詰める。
`bi < ni + 2` なので、書いた所はこれから読む所と重ならない。
-/
theorem hexToCompactInPlaceLoop_spec (hexLen : Nat) : ∀ (fuel : Nat) (buf : Bytes) (bi ni : Nat),
    bi ≤ ni + 1 → ni ≤ hexLen → hexLen ≤ buf.length → (hexLen - ni) % 2 = 0 →
    (hexLen - ni) / 2 ≤ fuel →
    (hexToCompactInPlaceLoop hexLen fuel buf bi ni).length = buf.length ∧
      (hexToCompactInPlaceLoop hexLen fuel buf bi ni).take (bi + (hexLen - ni) / 2) =
        buf.take bi ++ packPairs ((buf.drop ni).take (hexLen - ni))
  | 0, buf, bi, ni, _, hn, _, he, hf => by
    have hni : ni = hexLen := by omega
    subst hni
    simp [hexToCompactInPlaceLoop, packPairs]
  | fuel + 1, buf, bi, ni, hb, hn, hl, he, hf => by
    by_cases hlt : ni < hexLen
    · -- 一回り：`hex[bi]` に二つを詰め、`bi + 1`、`ni + 2` へ進む
      obtain ⟨n, hn2⟩ : ∃ n, hexLen - ni = n + 2 := ⟨hexLen - ni - 2, by omega⟩
      have ih := hexToCompactInPlaceLoop_spec hexLen fuel
        (buf.set bi ((buf.getD ni 0 <<< 4) ||| buf.getD (ni + 1) 0)) (bi + 1) (ni + 2)
        (by omega) (by omega) (by simp; omega) (by omega) (by omega)
      rw [List.length_set, show hexLen - (ni + 2) = n by omega,
        take_succ_set (by omega), List.drop_set_of_lt (by omega)] at ih
      simp only [hexToCompactInPlaceLoop, if_pos hlt, hn2, packPairs_drop buf ni n (by omega)]
      refine ⟨ih.1, ?_⟩
      rw [show bi + (n + 2) / 2 = bi + 1 + n / 2 by omega, ih.2, List.append_assoc,
        List.singleton_append]
    · -- 読み終えた：領域はそのまま
      have hni : ni = hexLen := by omega
      subst hni
      simp [hexToCompactInPlaceLoop, packPairs]

/-- nibble の byte の領域の最後が 16 なのは、終端が付いている時だけ。 -/
theorem terminated_body {body : Nibbles} (hb : ∀ x ∈ body, x.val < 16) (term : Bool) :
    (decide (((body ++ if term then [16] else []).map Nibble.toByte).length > 0) &&
      ((body ++ if term then [16] else []).map Nibble.toByte).getLast? == some 16) = term := by
  cases term with
  | true => simp [Nibble.toByte]
  | false =>
    have hlast : ∀ x, body.getLast? = some x → x.toByte ≠ 16 := by
      intro x hx h16
      have h1 := hb x (List.mem_of_getLast? hx)
      have h2 := toNat_toByte x
      rw [h16] at h2
      simp at h2
      omega
    simpa using fun _ => hlast

/-- 先頭 byte を書き戻した後の先頭 `n` byte。 -/
theorem take_set_zero {res : Bytes} {n : Nat} {x : UInt8} {xs : Bytes}
    (h : res.take n = x :: xs) (v : UInt8) : (res.set 0 v).take n = v :: xs := by
  rw [List.take_set, h, List.set_cons_zero]

/--
nibble を一つずつ置いた領域で `hexToCompactInPlace` すると、先頭の `sz` byte が `hexToCompact`
の符号で、`sz` はその長さ。領域が空でない時に限る。
-/
theorem hexToCompactInPlace_body {body : Nibbles} (hb : ∀ x ∈ body, x.val < 16) (term : Bool)
    (hne : (body ++ if term then [16] else []) ≠ []) :
    ∃ buf, hexToCompactInPlace ((body ++ if term then [16] else []).map Nibble.toByte) =
        some (buf, (hexToCompact (body ++ if term then [16] else [])).length) ∧
      buf.take (hexToCompact (body ++ if term then [16] else [])).length =
        hexToCompact (body ++ if term then [16] else []) := by
  have hlen : (if term then ((body ++ if term then [16] else []).map Nibble.toByte).length - 1
      else ((body ++ if term then [16] else []).map Nibble.toByte).length) = body.length := by
    cases term <;> simp
  have hfb : (if term then (1 : UInt8) <<< 5 else 0) = (if term then (1 : UInt8) else 0) <<< 5 := by
    cases term <;> rfl
  simp only [hexToCompactInPlace, terminated_body hb term, hlen, hfb]
  by_cases hodd : body.length % 2 = 1
  · -- 奇数長：`ni = 1` から読み、最初の nibble は先頭 byte に入れる
    obtain ⟨h, rest, rfl⟩ : ∃ h rest, body = h :: rest := by
      cases body with
      | nil => simp at hodd
      | cons h rest => exact ⟨h, rest, rfl⟩
    have he : rest.length % 2 = 0 := by simp at hodd; omega
    obtain ⟨hl, ht⟩ := hexToCompactInPlaceLoop_spec (h :: rest).length (h :: rest).length
      ((h :: rest ++ if term then [16] else []).map Nibble.toByte) 1 1
      (by omega) (by simp) (by simp) (by simp; omega) (by omega)
    simp only [show ((h :: rest).length % 2 == 1) = true by simpa using hodd, if_true,
      hexToCompact_odd hb term hodd]
    generalize hexToCompactInPlaceLoop _ _ _ _ _ = res at hl ht ⊢
    have ht' : res.take (rest.length / 2 + 1) = h.toByte :: decodeNibbles rest := by
      simpa [packPairs_map, Nat.add_comm] using ht
    have hn : (rest.length + 1) / 2 = rest.length / 2 := by omega
    cases res with
    | nil => simp at ht'
    | cons r rs =>
      simp only [List.length_cons, length_decodeNibbles, List.map_cons, List.cons_append,
        List.getD_cons_zero, hn]
      exact ⟨_, rfl, take_set_zero ht' _⟩
  · -- 偶数長：`ni = 0` から読み、領域の最初の byte は印で上書きされる
    have he : body.length % 2 = 0 := by omega
    obtain ⟨hl, ht⟩ := hexToCompactInPlaceLoop_spec body.length body.length
      ((body ++ if term then [16] else []).map Nibble.toByte) 1 0
      (by omega) (by omega) (by simp) (by simpa using he) (by omega)
    obtain ⟨x, xs, hx⟩ := List.exists_cons_of_ne_nil
      (mt List.map_eq_nil_iff.mp hne : (body ++ if term then [16] else []).map Nibble.toByte ≠ [])
    simp only [show (body.length % 2 == 1) = false by simpa using hodd, Bool.false_eq_true,
      if_false, hexToCompact_even hb term he]
    generalize hexToCompactInPlaceLoop _ _ _ _ _ = res at hl ht ⊢
    have ht' : res.take (body.length / 2 + 1) = x :: decodeNibbles body := by
      have hpre : ((body ++ if term then [16] else []).map Nibble.toByte).take body.length =
          body.map Nibble.toByte := by simp
      rw [Nat.sub_zero, List.drop_zero, hpre, packPairs_map, hx] at ht
      simpa [Nat.add_comm] using ht
    cases res with
    | nil => simp at ht'
    | cons r rs =>
      simp only [List.length_cons, length_decodeNibbles]
      exact ⟨_, rfl, take_set_zero ht' _⟩

theorem hexToCompactInPlace_spec {hex : Nibbles} (hk : HexKey hex) (hne : hex ≠ []) :
    ∃ buf, hexToCompactInPlace (hex.map Nibble.toByte) = some (buf, (hexToCompact hex).length) ∧
      buf.take (hexToCompact hex).length = hexToCompact hex := by
  obtain ⟨body, hb, rfl | rfl⟩ := hk
  · simpa using hexToCompactInPlace_body hb false (by simpa using hne)
  · simpa using hexToCompactInPlace_body hb true (by simp)

/-! ## 三つの符号化 -/

/--
key の三つの符号化は互いに逆：compact に詰めて開けば戻り、空でない領域でその場で詰めれば
先頭の `n` byte が `hexToCompact` の符号で `n` を返し、byte 列は HEX に開いて戻せば戻る。
-/
theorem key_encodings_inverse :
    (∀ hex : Nibbles, HexKey hex → compactToHex (hexToCompact hex) = hex) ∧
    (∀ hex : Nibbles, HexKey hex → hex ≠ [] →
      ∃ buf, hexToCompactInPlace (hex.map Nibble.toByte) = some (buf, (hexToCompact hex).length) ∧
        buf.take (hexToCompact hex).length = hexToCompact hex) ∧
    (∀ k : Bytes, hexToKeybytes (keybytesToHex k) = some k) :=
  ⟨fun _ hk => compactToHex_hexToCompact hk, fun _ hk hne => hexToCompactInPlace_spec hk hne,
    hexToKeybytes_keybytesToHex⟩

/--
空の列も key の形をしていて `hexToCompact [] = [0]` だが、空の領域での `hexToCompactInPlace` は
最後の `hex[0] = firstByte` が範囲の外で、Go は panic する。
-/
theorem hexToCompactInPlace_empty_panics :
    HexKey [] ∧ hexToCompactInPlace (([] : Nibbles).map Nibble.toByte) = none ∧
      hexToCompact [] = [0] :=
  ⟨⟨[], by simp, Or.inl rfl⟩, rfl, rfl⟩

end Trie
