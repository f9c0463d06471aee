import Bullions.Rlp.Encode

/-!
# 見出しを後から差し込む符号化は、素直な符号化に等しい

`encbuf` に値 `it` を書くと、`str` には `strData it`（文字列の符号と、列の中身の分）が
足され、`lheads` には `listHeads it`（列ごとの見出し、位置は `strData it` の中）が積まれ、
`lhsize` には `headBytes it`（列の見出しの byte 数の和）が足される（`writeItem_eq`）。
`listEnd` が計算する中身の大きさは、`strData` と `headBytes` の長さの和として、ちょうど
列の中身の符号の長さになる（`length_strData_add_headBytes`）。

書き出しは三通りある。`toBytes` と `toWriter` は見出しの列の `foldl`、`encReader` は
`next()` の繰り返しである。どれも `chunks`（見出しの前の文字列と見出しを交互に並べた列）
を書き出すことを示し、`chunks` を平らにしたものが `Item.enc` になることを、値の構造に
沿った帰納法で示す（`flatten_chunks_strData`）。鍵は、並べた二つの値の `chunks` が、
それぞれの `chunks` を並べたものになること（`flatten_chunks_append`）である。
-/

namespace Rlp

/-! ## 大きさの符号 -/

theorem putint_eq_beBytes {i : Nat} (hi : 0 < i) : putint i = Bytes.beBytes i := by
  induction i using Nat.strong_induction_on with
  | _ i ih =>
    rw [putint, Bytes.beBytes, Nat.digits_def' (by norm_num) hi]
    split
    · rename_i hlt
      rw [Nat.div_eq_of_lt hlt, Nat.digits_zero, Nat.mod_eq_of_lt hlt]
      rfl
    · -- 上位の byte を先に書き、最後に下位の byte
      rename_i hge
      have hpos : 0 < i / 256 := Nat.div_pos (Nat.le_of_not_lt hge) (by norm_num)
      rw [ih (i / 256) (Nat.div_lt_self hi (by norm_num)) hpos, Bytes.beBytes]
      simp [Nat.toUInt8]

theorem intsize_eq_length (i : Nat) : intsize i = (putint i).length := by
  induction i using Nat.strong_induction_on with
  | _ i ih =>
    rw [intsize, putint]
    split
    · rfl
    · rename_i hge
      rw [ih (i / 256) (Nat.div_lt_self (by omega) (by norm_num))]
      simp

/-- `puthead` の書く見出しは `header` である。 -/
theorem puthead_eq_header (smalltag largetag : UInt8) (size : Nat) :
    puthead smalltag largetag size = header smalltag largetag size := by
  unfold puthead header
  split
  · rfl
  · rw [intsize_eq_length, putint_eq_beBytes (by omega)]

theorem headsize_eq_length (size : Nat) : headsize size = (header 0xC0 0xF7 size).length := by
  unfold headsize header
  split
  · rfl
  · simp [intsize_eq_length, putint_eq_beBytes (show 0 < size by omega), Nat.add_comm]

namespace EncBuf

@[simp] theorem str_append (w : EncBuf) (b : Bytes) : (w.append b).str = w.str ++ b := rfl
@[simp] theorem lheads_append (w : EncBuf) (b : Bytes) : (w.append b).lheads = w.lheads := rfl
@[simp] theorem lhsize_append (w : EncBuf) (b : Bytes) : (w.append b).lhsize = w.lhsize := rfl

theorem append_append (w : EncBuf) (a b : Bytes) : (w.append a).append b = w.append (a ++ b) := by
  simp [append, List.append_assoc]

theorem encodeStringHeader_eq (w : EncBuf) (size : Nat) :
    w.encodeStringHeader size = w.append (header 0x80 0xB7 size) := by
  unfold encodeStringHeader
  rw [← puthead_eq_header]
  unfold puthead
  split <;> rfl

/-- `encodeString` は文字列の符号をそのまま `str` に足す。 -/
theorem encodeString_eq (w : EncBuf) (b : Bytes) :
    w.encodeString b = w.append (Item.str b).enc := by
  match b with
  | [b] =>
    simp only [encodeString, Item.enc]
    split <;> simp [encodeStringHeader_eq, append_append]
  | [] => simp [encodeString, Item.enc, encodeStringHeader_eq, append_append]
  | b₁ :: b₂ :: bs => simp [encodeString, Item.enc, encodeStringHeader_eq, append_append]

end EncBuf

/-! ## 値を書いた後の `encbuf` -/

/-- 見出しの位置をずらす。 -/
def ListHead.shift (d : Nat) (h : ListHead) : ListHead := { h with offset := h.offset + d }

@[simp] theorem ListHead.shift_offset (d : Nat) (h : ListHead) : (h.shift d).offset = h.offset + d :=
  rfl

@[simp] theorem ListHead.shift_size (d : Nat) (h : ListHead) : (h.shift d).size = h.size := rfl

@[simp] theorem ListHead.encode_shift (d : Nat) (h : ListHead) : (h.shift d).encode = h.encode :=
  rfl

theorem ListHead.shift_shift (a b : Nat) (h : ListHead) : (h.shift b).shift a = h.shift (b + a) := by
  simp [shift, Nat.add_assoc]

mutual

/-- 値を書くと `str` に足される byte：文字列はその符号、列は要素の分。 -/
def strData : Item → Bytes
  | .str b => (Item.str b).enc
  | .list xs => strDataList xs

/-- 値の列を書くと `str` に足される byte。 -/
def strDataList : List Item → Bytes
  | [] => []
  | x :: xs => strData x ++ strDataList xs

end

mutual

/-- 値を書くと積まれる、大きさの決まった見出し。位置は `strData` の中で数える。 -/
def listHeads : Item → List ListHead
  | .str _ => []
  | .list xs => ⟨0, (Item.encList xs).length⟩ :: listHeadsList xs

/-- 値の列を書くと積まれる見出し。 -/
def listHeadsList : List Item → List ListHead
  | [] => []
  | x :: xs => listHeads x ++ (listHeadsList xs).map (ListHead.shift (strData x).length)

end

mutual

/-- 値を書くと `lhsize` に足される、列の見出しの byte 数。 -/
def headBytes : Item → Nat
  | .str _ => 0
  | .list xs => headBytesList xs + headsize (Item.encList xs).length

/-- 値の列を書くと `lhsize` に足される byte 数。 -/
def headBytesList : List Item → Nat
  | [] => 0
  | x :: xs => headBytes x + headBytesList xs

end

mutual

/-- `str` に足される byte と見出しの byte を合わせると、符号の長さになる。 -/
theorem length_strData_add_headBytes : ∀ it : Item, (strData it).length + headBytes it = it.enc.length
  | .str b => by simp [strData, headBytes]
  | .list xs => by
    have ih := length_strDataList_add_headBytesList xs
    rw [strData, headBytes, Item.enc, List.length_append, headsize_eq_length]
    omega

theorem length_strDataList_add_headBytesList :
    ∀ xs : List Item, (strDataList xs).length + headBytesList xs = (Item.encList xs).length
  | [] => rfl
  | x :: xs => by
    have ih₁ := length_strData_add_headBytes x
    have ih₂ := length_strDataList_add_headBytesList xs
    simp only [strDataList, headBytesList, Item.encList, List.length_append]
    omega

end

mutual

/-- 見出しはどれも `strData` の中（終わりを含む）にある。 -/
theorem offset_le_strData : ∀ it : Item, ∀ h ∈ listHeads it, h.offset ≤ (strData it).length
  | .str _ => by simp [listHeads]
  | .list xs => by
    intro h hh
    rw [listHeads, List.mem_cons] at hh
    rcases hh with rfl | hh
    · exact Nat.zero_le _
    · exact offset_le_strDataList xs h hh

theorem offset_le_strDataList :
    ∀ xs : List Item, ∀ h ∈ listHeadsList xs, h.offset ≤ (strDataList xs).length
  | [] => by simp [listHeadsList]
  | x :: xs => by
    intro h hh
    rw [listHeadsList, List.mem_append] at hh
    rw [strDataList, List.length_append]
    rcases hh with hh | hh
    · have := offset_le_strData x h hh
      omega
    · obtain ⟨h', hh', rfl⟩ := List.mem_map.mp hh
      have := offset_le_strDataList xs h' hh'
      simp only [ListHead.shift_offset]
      omega

end

namespace EncBuf

theorem list_eq (w : EncBuf) :
    w.list = ({ w with lheads := w.lheads ++ [⟨w.str.length, w.lhsize⟩] }, w.lheads.length) := rfl

/-- `listEnd(index)` は `index` 番目の見出しの大きさを決め、その見出しの byte 数を `lhsize` に
足す。 -/
theorem listEnd_eq (w : EncBuf) (pre post : List ListHead) (lh : ListHead)
    (h : w.lheads = pre ++ lh :: post) :
    w.listEnd pre.length =
      { w with lheads := pre ++ { lh with size := w.size - lh.offset - lh.size } :: post,
               lhsize := w.lhsize + headsize (w.size - lh.offset - lh.size) } := by
  have hget : w.lheads[pre.length]? = some lh := by simp [h]
  unfold listEnd
  rw [hget]
  simp only [h, List.set_append_right _ _ (Nat.le_refl _), Nat.sub_self, List.set_cons_zero,
    headsize]
  split <;> rfl

end EncBuf

mutual

/-- 値を書いた `encbuf` は、`strData`、`listHeads`、`headBytes` を足したものになる。 -/
theorem writeItem_eq : ∀ (w : EncBuf) (it : Item), w.writeItem it =
    ⟨w.str ++ strData it, w.lheads ++ (listHeads it).map (ListHead.shift w.str.length),
      w.lhsize + headBytes it⟩
  | w, .str b => by
    rw [EncBuf.writeItem, EncBuf.encodeString_eq]
    simp [strData, listHeads, headBytes, EncBuf.append]
  | w, .list xs => by
    -- 中身を書いた後、`list()` で積んだ見出しを `listEnd` が閉じる
    have hxs := writeItems_eq { w with lheads := w.lheads ++ [⟨w.str.length, w.lhsize⟩] } xs
    have hlen := length_strDataList_add_headBytesList xs
    simp only at hxs
    rw [EncBuf.writeItem, EncBuf.list_eq]
    dsimp only
    rw [hxs, EncBuf.listEnd_eq _ w.lheads ((listHeadsList xs).map (ListHead.shift w.str.length))
      ⟨w.str.length, w.lhsize⟩ (by simp)]
    have hsize : (⟨w.str ++ strDataList xs,
        w.lheads ++ [⟨w.str.length, w.lhsize⟩] ++ (listHeadsList xs).map (ListHead.shift w.str.length),
        w.lhsize + headBytesList xs⟩ : EncBuf).size - w.str.length - w.lhsize =
        (Item.encList xs).length := by
      simp only [EncBuf.size, List.length_append]
      omega
    rw [hsize]
    simp [strData, listHeads, headBytes, ListHead.shift, Nat.add_assoc]
theorem writeItems_eq : ∀ (w : EncBuf) (xs : List Item), w.writeItems xs =
    ⟨w.str ++ strDataList xs, w.lheads ++ (listHeadsList xs).map (ListHead.shift w.str.length),
      w.lhsize + headBytesList xs⟩
  | w, [] => by simp [EncBuf.writeItems, strDataList, listHeadsList, headBytesList]
  | w, x :: xs => by
    rw [EncBuf.writeItems, writeItem_eq w x, writeItems_eq]
    simp [strDataList, listHeadsList, headBytesList, List.map_map, Function.comp_def,
      ListHead.shift_shift, Nat.add_assoc, Nat.add_comm]

end

@[simp] theorem ListHead.shift_zero : ListHead.shift 0 = id := rfl

/-- 空の `encbuf` に値を書いた結果。 -/
theorem empty_writeItem (it : Item) :
    EncBuf.empty.writeItem it = ⟨strData it, listHeads it, headBytes it⟩ := by
  rw [writeItem_eq]
  simp [EncBuf.empty]

/-! ## 書き出す断片 -/

/--
`toWriter` が書く断片の列。`strpos` から始めて、見出しごとにその前の文字列（あれば）と
見出しを書き、最後に残りの文字列（あれば）を書く。
-/
def chunks (str : Bytes) (strpos : Nat) : List ListHead → List Bytes
  | [] => if strpos < str.length then [str.drop strpos] else []
  | h :: hs =>
    if h.offset - strpos > 0 then
      (str.drop strpos).take (h.offset - strpos) :: h.encode ::
        chunks str (strpos + ((str.drop strpos).take (h.offset - strpos)).length) hs
    else h.encode :: chunks str strpos hs

theorem flatten_chunks_nil (str : Bytes) (strpos : Nat) :
    (chunks str strpos []).flatten = str.drop strpos := by
  unfold chunks
  split
  · simp
  · rename_i h
    simp [List.drop_eq_nil_of_le (Nat.le_of_not_lt h)]

theorem toWriterStep_eq (w : EncBuf) (acc : List Bytes) (p : Nat) (h : ListHead) :
    w.toWriterStep (acc, p) h =
      if h.offset - p > 0 then
        (acc ++ [(w.str.drop p).take (h.offset - p), h.encode],
          p + ((w.str.drop p).take (h.offset - p)).length)
      else (acc ++ [h.encode], p) := by
  by_cases hpos : h.offset - p > 0 <;> simp [EncBuf.toWriterStep, hpos]

/-- `toWriter` の最後：残りの文字列があれば書く。 -/
def writeTail (w : EncBuf) (q : List Bytes × Nat) : List Bytes :=
  if q.2 < w.str.length then q.1 ++ [w.str.drop q.2] else q.1

theorem writeTail_foldl (w : EncBuf) (hs : List ListHead) (acc : List Bytes) (p : Nat) :
    writeTail w (hs.foldl w.toWriterStep (acc, p)) = acc ++ chunks w.str p hs := by
  induction hs generalizing acc p with
  | nil =>
    rw [List.foldl_nil]
    unfold writeTail chunks
    split <;> simp
  | cons h hs ih =>
    rw [List.foldl_cons, toWriterStep_eq, chunks]
    split
    · rw [ih]
      simp
    · rw [ih]
      simp

/-- `toWriter` は `chunks` を順に書く。 -/
theorem toWriter_eq (w : EncBuf) : w.toWriter = chunks w.str 0 w.lheads := by
  have h := writeTail_foldl w w.lheads [] 0
  rw [List.nil_append] at h
  rw [← h]
  rfl

theorem toBytesStep_eq (w : EncBuf) (out : Bytes) (p : Nat) (h : ListHead) :
    w.toBytesStep (out, p) h =
      (out ++ (w.str.drop p).take (h.offset - p) ++ h.encode,
        p + ((w.str.drop p).take (h.offset - p)).length) := rfl

theorem foldl_toBytesStep (w : EncBuf) (hs : List ListHead) (out : Bytes) (p : Nat) :
    (hs.foldl w.toBytesStep (out, p)).1 ++ w.str.drop (hs.foldl w.toBytesStep (out, p)).2 =
      out ++ (chunks w.str p hs).flatten := by
  induction hs generalizing out p with
  | nil => simp [flatten_chunks_nil]
  | cons h hs ih =>
    rw [List.foldl_cons, toBytesStep_eq, ih, chunks]
    split
    · simp
    · -- 見出しの前に文字列がなければ、`toBytes` の写す断片は空
      have h0 : h.offset - p = 0 := by omega
      simp [h0]

/-- `toBytes` は `chunks` を並べたものを返す。 -/
theorem toBytes_eq (w : EncBuf) : w.toBytes = (chunks w.str 0 w.lheads).flatten := by
  have h := foldl_toBytesStep w w.lheads [] 0
  rw [List.nil_append] at h
  rw [← h]
  rfl

/-- 前に `s₁` を足し、見出しをその分ずらしても、`s₁` の後から書く断片は変わらない。 -/
theorem chunks_shift (s₁ s₂ : Bytes) (hs : List ListHead) (q : Nat) :
    chunks (s₁ ++ s₂) (s₁.length + q) (hs.map (ListHead.shift s₁.length)) = chunks s₂ q hs := by
  induction hs generalizing q with
  | nil =>
    simp only [List.map_nil, chunks, List.length_append, Nat.add_lt_add_iff_left]
    split <;> simp [List.drop_append]
  | cons h hs ih =>
    have hsub : h.offset + s₁.length - (s₁.length + q) = h.offset - q := by omega
    have hdrop : (s₁ ++ s₂).drop (s₁.length + q) = s₂.drop q := by simp [List.drop_append]
    simp only [List.map_cons, chunks, ListHead.shift_offset, hsub, hdrop]
    rw [Nat.add_assoc, ih, ih]
    rfl

/-- 見出しが `s₁` の中にあれば、`s₁` の後の見出しの前までは `s₁` の残りを書く。 -/
theorem flatten_chunks_shift_of_le (s₁ s₂ : Bytes) (hs : List ListHead) {p : Nat}
    (hp : p ≤ s₁.length) :
    (chunks (s₁ ++ s₂) p (hs.map (ListHead.shift s₁.length))).flatten =
      s₁.drop p ++ (chunks s₂ 0 hs).flatten := by
  have hdrop : (s₁ ++ s₂).drop p = s₁.drop p ++ s₂ := by
    rw [List.drop_append, Nat.sub_eq_zero_of_le hp, List.drop_zero]
  cases hs with
  | nil => rw [List.map_nil, flatten_chunks_nil, flatten_chunks_nil, hdrop, List.drop_zero]
  | cons h hs =>
    rw [List.map_cons, chunks, chunks]
    split
    · -- `s₁` の残りと、`s₂` の見出しの前までをまとめて書く
      rename_i hpos
      have htake : ((s₁ ++ s₂).drop p).take ((h.shift s₁.length).offset - p) =
          s₁.drop p ++ s₂.take h.offset := by
        rw [hdrop, List.take_append, List.take_of_length_le (by simp; omega)]
        congr 2
        simp only [List.length_drop, ListHead.shift_offset]
        omega
      have hpos' : p + (s₁.drop p ++ s₂.take h.offset).length =
          s₁.length + (s₂.take h.offset).length := by
        simp only [List.length_append, List.length_drop]
        omega
      rw [htake, hpos', chunks_shift]
      split
      · simp
      · rename_i ho
        have h0 : h.offset = 0 := by omega
        simp [h0]
    · -- 見出しは `s₁` の終わりにあり、`s₁` は読み終えている
      rename_i hpos
      have h0 : h.offset = 0 := by simp at hpos; omega
      have hp' : p = s₁.length + 0 := by simp at hpos; omega
      rw [hp', chunks_shift]
      split
      · omega
      · simp

/-- 並べた二つの値の断片は、それぞれの断片を並べたもの。 -/
theorem flatten_chunks_append (s₁ s₂ : Bytes) (hs₁ hs₂ : List ListHead) {p : Nat}
    (hp : p ≤ s₁.length) (h₁ : ∀ h ∈ hs₁, h.offset ≤ s₁.length) :
    (chunks (s₁ ++ s₂) p (hs₁ ++ hs₂.map (ListHead.shift s₁.length))).flatten =
      (chunks s₁ p hs₁).flatten ++ (chunks s₂ 0 hs₂).flatten := by
  induction hs₁ generalizing p with
  | nil => rw [List.nil_append, flatten_chunks_shift_of_le s₁ s₂ hs₂ hp, flatten_chunks_nil]
  | cons h hs₁ ih =>
    have ho : h.offset ≤ s₁.length := h₁ h List.mem_cons_self
    have h₁' : ∀ h ∈ hs₁, h.offset ≤ s₁.length := fun h' hh => h₁ h' (List.mem_cons_of_mem h hh)
    have htake : ((s₁ ++ s₂).drop p).take (h.offset - p) = (s₁.drop p).take (h.offset - p) := by
      rw [List.drop_append, Nat.sub_eq_zero_of_le hp, List.drop_zero,
        List.take_append_of_le_length (by simp; omega)]
    simp only [List.cons_append, chunks]
    split
    · rw [htake]
      simp only [List.flatten_cons, List.append_assoc]
      rw [ih (by simp; omega) h₁']
    · simp only [List.flatten_cons, List.append_assoc]
      rw [ih hp h₁']

mutual

/-- 値の断片を並べると、その値の符号になる。 -/
theorem flatten_chunks_strData : ∀ it : Item, (chunks (strData it) 0 (listHeads it)).flatten = it.enc
  | .str b => by rw [listHeads, flatten_chunks_nil, List.drop_zero, strData]
  | .list xs => by
    have ih := flatten_chunks_strDataList xs
    simp only [strData, listHeads, chunks, Nat.sub_self, gt_iff_lt, Nat.lt_irrefl, if_false,
      List.flatten_cons, ih, ListHead.encode, puthead_eq_header, Item.enc]

theorem flatten_chunks_strDataList :
    ∀ xs : List Item, (chunks (strDataList xs) 0 (listHeadsList xs)).flatten = Item.encList xs
  | [] => by simp [strDataList, listHeadsList, chunks, Item.encList]
  | x :: xs => by
    rw [strDataList, listHeadsList, flatten_chunks_append _ _ _ _ (Nat.zero_le _)
      (offset_le_strData x), flatten_chunks_strData x, flatten_chunks_strDataList xs, Item.encList]

end

/-! ## `encReader` -/

namespace EncReader

/-- 読み残した断片と、この後 `next` が返す断片。 -/
def pieces (r : EncReader) : List Bytes :=
  match r.buf with
  | none => []
  | some w => r.piece.toList ++ chunks w.str r.strpos (w.lheads.drop r.lhpos)

/-- この後読める byte。 -/
def stream (r : EncReader) : Bytes := r.pieces.flatten

/-- 読んでいる `encbuf` の見出しは、どれも `str` の中にある。 -/
def WellFormed (r : EncReader) : Prop :=
  ∀ w, r.buf = some w → ∀ h ∈ w.lheads, h.offset ≤ w.str.length

theorem next_none {r r' : EncReader} (h : r.next = (none, r')) : r.pieces = [] := by
  rcases r with ⟨_ | w, lhpos, strpos, _ | q⟩
  · rfl
  · rfl
  · cases hh : w.lheads[lhpos]? with
    | none =>
      have hdrop : w.lheads.drop lhpos = [] :=
        List.drop_eq_nil_of_le (List.getElem?_eq_none_iff.mp hh)
      by_cases hs : strpos < w.str.length
      · simp [next, hh, hs] at h
      · simp [pieces, hdrop, chunks, hs]
    | some head =>
      by_cases hs : head.offset - strpos > 0
      · simp [next, hh, hs] at h
      · simp [next, hh, hs] at h
  · simp [next] at h

/-- 断片を返した `next` の後には、残りの断片が続く。 -/
theorem next_some {r r' : EncReader} {p : Bytes} (hwf : r.WellFormed)
    (h : r.next = (some p, r')) : r'.buf = r.buf ∧ r.pieces = p :: ({ r' with piece := none }).pieces := by
  rcases r with ⟨_ | w, lhpos, strpos, _ | q⟩
  · simp [next] at h
  · simp [next] at h
  · cases hh : w.lheads[lhpos]? with
    | none =>
      have hdrop : w.lheads.drop lhpos = [] :=
        List.drop_eq_nil_of_le (List.getElem?_eq_none_iff.mp hh)
      by_cases hs : strpos < w.str.length
      · -- 最後の見出しの後の文字列
        simp only [next, hh, if_pos hs, Prod.mk.injEq, Option.some.injEq] at h
        obtain ⟨rfl, rfl⟩ := h
        simp [pieces, hdrop, chunks, hs]
      · simp [next, hh, hs] at h
    | some head =>
      obtain ⟨hlt, hget⟩ := List.getElem?_eq_some_iff.mp hh
      have hdrop : w.lheads.drop lhpos = head :: w.lheads.drop (lhpos + 1) := by
        rw [List.drop_eq_getElem_cons hlt, hget]
      have hoff : head.offset ≤ w.str.length := hwf w rfl head (hget ▸ List.getElem_mem hlt)
      by_cases hs : head.offset - strpos > 0
      · -- 見出しの前の文字列。`strpos` は見出しの位置まで進む
        simp only [next, hh, if_pos hs, Prod.mk.injEq, Option.some.injEq] at h
        obtain ⟨rfl, rfl⟩ := h
        have hlen : ((w.str.drop strpos).take (head.offset - strpos)).length = head.offset - strpos := by
          simp only [List.length_take, List.length_drop]
          omega
        refine ⟨rfl, ?_⟩
        have h0 : head.offset - (strpos + (head.offset - strpos)) = 0 := by omega
        simp only [pieces, hdrop, Option.toList_none, List.nil_append, chunks, if_pos hs, hlen]
        simp only [h0, gt_iff_lt, Nat.lt_irrefl, if_false]
      · -- 見出し
        simp only [next, hh, if_neg hs, Prod.mk.injEq, Option.some.injEq] at h
        obtain ⟨rfl, rfl⟩ := h
        refine ⟨rfl, ?_⟩
        simp only [pieces, hdrop, Option.toList_none, List.nil_append, chunks, if_neg hs]
  · simp only [next, Prod.mk.injEq, Option.some.injEq] at h
    obtain ⟨rfl, rfl⟩ := h
    exact ⟨rfl, rfl⟩

theorem pieces_piece {r : EncReader} (q : Bytes) (h : r.buf ≠ none) :
    ({ r with piece := some q } : EncReader).pieces = q :: ({ r with piece := none } : EncReader).pieces := by
  rcases r with ⟨_ | w, lhpos, strpos, piece⟩
  · exact absurd rfl h
  · rfl

theorem wellFormed_of_buf {r r' : EncReader} (h : r'.buf = r.buf) (hwf : r.WellFormed) :
    r'.WellFormed := by
  intro w hw
  exact hwf w (h ▸ hw)

theorem readLoop_none {r r' : EncReader} {cap : Nat} {n : Bytes} (h : r.next = (none, r')) :
    r.readLoop cap n = (n, true, { r' with buf := none, piece := none }) := by
  rw [readLoop.eq_1]
  split
  · rename_i r'' h'
    rw [h] at h'
    cases h'
    rfl
  · rename_i p r'' h'
    rw [h] at h'
    cases h'

theorem readLoop_some {r r' : EncReader} {cap : Nat} {n p : Bytes} (h : r.next = (some p, r')) :
    r.readLoop cap n =
      if min (cap - n.length) p.length < p.length then
        (n ++ p.take (min (cap - n.length) p.length), false,
          { r' with piece := some (p.drop (min (cap - n.length) p.length)) })
      else ({ r' with piece := none } : EncReader).readLoop cap (n ++ p) := by
  rw [readLoop.eq_1]
  split
  · rename_i r'' h'
    rw [h] at h'
    cases h'
  · rename_i p' r'' h'
    rw [h] at h'
    cases h'
    rfl

/--
`Read` の繰り返しは、`b` の空きの分だけこの後の byte を写し、残りがちょうど収まるか
足りなければ EOF を返す。後の状態からは、写した後の byte が読める。
-/
theorem readLoop_spec (cap : Nat) (r : EncReader) (n : Bytes) (hwf : r.WellFormed)
    (hn : n.length ≤ cap) :
    ∃ r'', r.readLoop cap n =
        (n ++ r.stream.take (cap - n.length), decide (r.stream.length ≤ cap - n.length), r'') ∧
      r''.WellFormed ∧ r''.stream = r.stream.drop (cap - n.length) := by
  induction r, n using readLoop.induct cap with
  | case1 r n r' hnext =>
    -- EOF：読む byte は残っていない
    have hs : r.stream = [] := by simp [stream, next_none hnext]
    rw [readLoop_none hnext, hs]
    refine ⟨{ r' with buf := none, piece := none }, by simp, ?_, by simp [stream, pieces]⟩
    intro w hw
    cases hw
  | case2 r n p r' hnext nn hlt =>
    -- 断片が収まり切らない：残りを取っておく
    change min (cap - n.length) p.length < p.length at hlt
    obtain ⟨hbuf, hpieces⟩ := next_some hwf hnext
    have hne : r'.buf ≠ none := by
      intro h0
      rw [hbuf] at h0
      simp [pieces, h0] at hpieces
    have hmin : min (cap - n.length) p.length = cap - n.length := by omega
    have hs : r.stream = p ++ ({ r' with piece := none } : EncReader).stream := by
      simp [stream, hpieces]
    rw [readLoop_some hnext, if_pos hlt, hmin]
    refine ⟨{ r' with piece := some (p.drop (cap - n.length)) }, ?_,
      wellFormed_of_buf hbuf hwf, ?_⟩
    · rw [hs, List.take_append_of_le_length (by omega)]
      have hd : decide ((p ++ ({ r' with piece := none } : EncReader).stream).length ≤
          cap - n.length) = false := by
        simp only [List.length_append, decide_eq_false_iff_not]
        omega
      rw [hd]
    · simp only [stream, pieces_piece _ hne, List.flatten_cons, hpieces,
        List.drop_append_of_le_length (show cap - n.length ≤ p.length by omega)]
  | case3 r n p r' hnext nn hge ih =>
    -- 断片がまるごと収まる：続けて読む
    change ¬min (cap - n.length) p.length < p.length at hge
    obtain ⟨hbuf, hpieces⟩ := next_some hwf hnext
    have hle : p.length ≤ cap - n.length := by omega
    have hs : r.stream = p ++ ({ r' with piece := none } : EncReader).stream := by
      simp [stream, hpieces]
    obtain ⟨r'', heq, hwf'', hstream⟩ :=
      ih (wellFormed_of_buf hbuf hwf) (by simp only [List.length_append]; omega)
    rw [readLoop_some hnext, if_neg hge, heq]
    refine ⟨r'', ?_, hwf'', ?_⟩
    · have htake : n ++ (p ++ ({ r' with piece := none } : EncReader).stream).take (cap - n.length) =
          n ++ p ++ ({ r' with piece := none } : EncReader).stream.take
            (cap - (n ++ p).length) := by
        rw [List.take_append, List.take_of_length_le hle, List.length_append, List.append_assoc]
        congr 3
        omega
      have hd : decide (({ r' with piece := none } : EncReader).stream.length ≤
          cap - (n ++ p).length) =
          decide ((p ++ ({ r' with piece := none } : EncReader).stream).length ≤
            cap - n.length) := by
        apply decide_eq_decide.mpr
        simp only [List.length_append]
        omega
      rw [hs, htake, hd]
    · rw [hstream, hs, List.drop_append, List.drop_eq_nil_of_le hle, List.nil_append]
      congr 1
      simp only [List.length_append]
      omega

/-- `Read(b)` は `b` の長さだけ読み、この後の byte が収まれば EOF を返す。 -/
theorem Read_spec (r : EncReader) (cap : Nat) (hwf : r.WellFormed) :
    ∃ r', r.Read cap = (r.stream.take cap, decide (r.stream.length ≤ cap), r') ∧
      r'.WellFormed ∧ r'.stream = r.stream.drop cap := by
  simpa [Read] using readLoop_spec cap r [] hwf (Nat.zero_le _)

/-- `Read` を、長さ `caps` の buffer で順に呼んだ結果：読んだ byte と、EOF を返したか。 -/
def readAll (r : EncReader) : List Nat → List (Bytes × Bool)
  | [] => []
  | cap :: caps => ((r.Read cap).1, (r.Read cap).2.1) :: readAll (r.Read cap).2.2 caps

end EncReader

/-- byte 列 `s` を長さ `caps` の buffer で順に読んだ結果：読めるだけ読み、読み尽くせば EOF。 -/
def readsOf (s : Bytes) : List Nat → List (Bytes × Bool)
  | [] => []
  | cap :: caps => (s.take cap, decide (s.length ≤ cap)) :: readsOf (s.drop cap) caps

/-- 読んだ byte をつなぐと、`s` の先頭の、buffer の長さの和の分になる。 -/
theorem flatten_readsOf (s : Bytes) (caps : List Nat) :
    ((readsOf s caps).map Prod.fst).flatten = s.take caps.sum := by
  induction caps generalizing s with
  | nil => simp [readsOf]
  | cons cap caps ih =>
    simp only [readsOf, List.map_cons, List.flatten_cons, ih, List.sum_cons]
    rw [List.take_add]

theorem EncReader.readAll_eq (r : EncReader) (hwf : r.WellFormed) (caps : List Nat) :
    r.readAll caps = readsOf r.stream caps := by
  induction caps generalizing r with
  | nil => rfl
  | cons cap caps ih =>
    obtain ⟨r', hread, hwf', hstream⟩ := r.Read_spec cap hwf
    rw [readAll, readsOf, hread, ih r' hwf', hstream]

/-! ## 三つの書き出し -/

theorem size_empty_writeItem (it : Item) : (EncBuf.empty.writeItem it).size = it.enc.length := by
  rw [empty_writeItem, EncBuf.size, length_strData_add_headBytes]

/-- `toBytes` の返す byte は素直な符号化。 -/
theorem toBytes_empty_writeItem (it : Item) : (EncBuf.empty.writeItem it).toBytes = it.enc := by
  rw [empty_writeItem, toBytes_eq, flatten_chunks_strData]

/-- `toWriter` の書く byte は素直な符号化。 -/
theorem encode_eq_enc (it : Item) : encode it = it.enc := by
  rw [encode, empty_writeItem, toWriter_eq, flatten_chunks_strData]

theorem encodeToReader_wellFormed (it : Item) : (encodeToReader it).2.WellFormed := by
  intro w hw
  simp only [encodeToReader, Option.some.injEq] at hw
  rw [← hw, empty_writeItem]
  exact offset_le_strData it

theorem encodeToReader_stream (it : Item) : (encodeToReader it).2.stream = it.enc := by
  simp [encodeToReader, EncReader.stream, EncReader.pieces, empty_writeItem,
    flatten_chunks_strData]

/--
`encbuf` の三つの書き出しは、どれも素直な符号化 `Item.enc` を書く。`toBytes`、`toWriter`
に書かれた byte、`EncodeToReader` の reader から長さ `caps` の buffer で読んだ結果（読める
だけ読み、読み尽くせば EOF）がそうであり、buffer の長さの和が符号の長さに届けば、読んだ
byte をつないだものは符号そのものになる。`size()` と `EncodeToReader` の返す大きさは、
符号の長さである。
-/
theorem encbuf_refines_enc (it : Item) :
    encodeToBytes it = it.enc ∧
      (EncBuf.empty.writeItem it).toWriter.flatten = it.enc ∧
      (∀ caps : List Nat, (encodeToReader it).2.readAll caps = readsOf it.enc caps ∧
        (it.enc.length ≤ caps.sum →
          (((encodeToReader it).2.readAll caps).map Prod.fst).flatten = it.enc)) ∧
      (EncBuf.empty.writeItem it).size = it.enc.length ∧
      (encodeToReader it).1 = it.enc.length := by
  have hreads : ∀ caps, (encodeToReader it).2.readAll caps = readsOf it.enc caps := fun caps => by
    rw [EncReader.readAll_eq _ (encodeToReader_wellFormed it), encodeToReader_stream]
  refine ⟨toBytes_empty_writeItem it, encode_eq_enc it, fun caps => ⟨hreads caps, fun hle => ?_⟩,
    size_empty_writeItem it, size_empty_writeItem it⟩
  rw [hreads, flatten_readsOf, List.take_of_length_le hle]

end Rlp
