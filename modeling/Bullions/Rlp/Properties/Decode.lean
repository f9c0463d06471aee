import Bullions.Rlp.Properties.Stream

/-!
# 復号は、ちょうど正準な符号化を受け付けて、符号化の逆になる

`DecodeBytes` で `interface{}` に読むと、

* 完全性（`decodeInterface_run`）：入力が `it.enc ++ rest` で、その分を読む余地があれば、
  `it` を返して `rest` の手前で止まる。燃料についての帰納法で、列の要素は一段浅い燃料で読む。
* 健全性（`decodeInterface_sound`）：成功したなら、読んだ byte はちょうど返した値の符号
  である。鍵は、列の見出しの大きさと要素の符号の長さの和が一致すること（列の `pos` は要素を
  読むたびに進み、`EOL` と `ListEnd` が `pos = size` を見る）と、見出しが最短の形で書かれて
  いること（`Kind_sound`）である。

列の要素の繰り返し（`decodeSliceElems`）と列（`decodeListSlice`）の補題は、要素を読む手続き
について仮定を置いた形で言う。`decodeInterface` はそれを一段浅い燃料の自分自身で満たす。
`DecodeBytes` の与える燃料（入力の長さより一つ多い）で足りることも、完全性に含まれる。
-/

namespace Rlp

open ExceptSpec

/-! ## 符号の形 -/

theorem Item.enc_str_small {c : UInt8} (h : c < 0x80) : (Item.str [c]).enc = [c] := by
  have hc : c ≤ 0x7F := by
    rw [UInt8.lt_iff_toNat_lt] at h
    rw [UInt8.le_iff_toNat_le]
    simp only [UInt8.reduceToNat] at h ⊢
    omega
  simp [Item.enc, hc]

/-- 一 byte で書けない byte 列は、見出しの後に中身。`Bytes()` の退ける形と同じ言い方。 -/
theorem Item.enc_str_of_not_small {b : Bytes} (h : ¬ (b.length = 1 ∧ b.headD 0 < 128)) :
    (Item.str b).enc = header 0x80 0xB7 b.length ++ b := by
  match b with
  | [] => simp [Item.enc]
  | [c] =>
    have hc : ¬ c ≤ 0x7F := by
      simp only [List.length_singleton, List.headD_cons, true_and, UInt8.lt_iff_toNat_lt,
        UInt8.reduceToNat, not_lt] at h
      rw [UInt8.le_iff_toNat_le]
      simp only [UInt8.reduceToNat, not_le]
      omega
    simp [Item.enc, hc]
  | c :: d :: rest => simp [Item.enc]

theorem Item.enc_list (xs : List Item) :
    (Item.list xs).enc = header 0xC0 0xF7 (Item.encList xs).length ++ Item.encList xs := by
  simp [Item.enc]

theorem Item.encList_eq_flatten (xs : List Item) : Item.encList xs = (xs.map Item.enc).flatten := by
  induction xs with
  | nil => rfl
  | cons x xs ih => simp [Item.encList, ih]

theorem Item.enc_ne_nil (it : Item) : it.enc ≠ [] := by
  cases it with
  | str b =>
    by_cases hs : b.length = 1 ∧ b.headD 0 < 128
    · obtain ⟨c, rfl⟩ := List.length_eq_one_iff.mp hs.1
      rw [Item.enc_str_small (by simpa using hs.2)]
      simp
    · rw [Item.enc_str_of_not_small hs]
      simp [header_ne_nil]
  | list xs =>
    rw [Item.enc_list]
    simp [header_ne_nil]

theorem Item.length_le_length_encList (xs : List Item) : xs.length ≤ (Item.encList xs).length := by
  induction xs with
  | nil => simp [Item.encList]
  | cons x xs ih =>
    have := List.length_pos_of_ne_nil (Item.enc_ne_nil x)
    simp only [Item.encList, List.length_cons, List.length_append]
    omega

theorem Item.length_enc_le_of_mem {xs : List Item} {x : Item} (h : x ∈ xs) :
    x.enc.length ≤ (Item.encList xs).length := by
  rw [Item.encList_eq_flatten]
  exact (List.sublist_flatten_of_mem (List.mem_map_of_mem h)).length_le

/-! ## 列の要素の繰り返し -/

theorem addErrorContext_eq_eol {err : Error} {ctx : String} :
    addErrorContext err ctx = .EOL ↔ err = .EOL := by
  cases err <;> simp [addErrorContext]

section SliceElems

variable {α : Type} {elemdec : StreamM α} {enc : α → Bytes}

/-- 要素の誤りには位置を足して返すので、`decodeSliceElems` は `EOL` を返さない。 -/
theorem decodeSliceElems_throwsOnly (fuel : Nat) (acc : List α) :
    ThrowsOnly (decodeSliceElems elemdec fuel acc) (· ≠ .EOL) := by
  induction fuel generalizing acc with
  | zero => exact throwsOnly_throw (by decide)
  | succ fuel ih =>
    intro s e s' h
    simp only [decodeSliceElems, EStateM.run_bind, run_attempt] at h
    cases hx : elemdec.run s with
    | ok x t =>
      rw [hx] at h
      exact ih _ t e s' h
    | error err t =>
      rw [hx] at h
      dsimp only at h
      split at h
      · cases h
      · rename_i err' hne _
        simp only [run_throw, EStateM.Result.error.injEq] at h
        obtain ⟨rfl, -⟩ := h
        rw [ne_eq, addErrorContext_eq_eol]
        exact fun heq => hne heq
      · rename_i heq
        cases heq

/-- 健全性：要素を読む手続きが、成功すれば符号を読み、`EOL` なら列の終わりで何も変えない
なら、`decodeSliceElems` の読んだ byte は要素の符号を並べたもので、終わりで列を読み終えている。 -/
theorem decodeSliceElems_sound
    (hok : ∀ {t x t'}, t.kind = none → elemdec.run t = .ok x t' →
      ∃ bv, t.r = enc x ++ t'.r ∧ t' = t.after (enc x).length bv)
    (heol : ∀ {t t'}, t.kind = none → elemdec.run t = .error .EOL t' →
      t' = t ∧ AtListEnd t.stack) :
    ∀ {fuel : Nat} {acc xs : List α} {t t' : Stream}, t.kind = none →
      (decodeSliceElems elemdec fuel acc).run t = .ok xs t' →
      ∃ ys bv, xs = acc ++ ys ∧ t.r = (ys.map enc).flatten ++ t'.r ∧
        t' = t.after (ys.map enc).flatten.length bv ∧ AtListEnd t'.stack := by
  intro fuel
  induction fuel with
  | zero =>
    intro acc xs t t' _ h
    cases h
  | succ fuel ih =>
    intro acc xs t t' hk h
    simp only [decodeSliceElems, EStateM.run_bind, run_attempt] at h
    cases hx : elemdec.run t with
    | ok x t1 =>
      rw [hx] at h
      obtain ⟨bv1, hr1, rfl⟩ := hok hk hx
      obtain ⟨ys, bv, rfl, hr, rfl, he⟩ := ih (Stream.after_kind _ _ _) h
      refine ⟨x :: ys, bv, by simp, ?_, ?_, he⟩
      · rw [hr1, hr]
        simp
      · rw [Stream.after_after]
        simp
    | error err t1 =>
      rw [hx] at h
      dsimp only at h
      split at h
      · -- EOL：何も読まずに列の終わり
        rename_i heq
        obtain rfl : err = .EOL := by injection heq
        simp only [EStateM.run_pure, EStateM.Result.ok.injEq] at h
        obtain ⟨rfl, rfl⟩ := h
        obtain ⟨rfl, he⟩ := heol hk hx
        exact ⟨[], _, by simp, by simp, (Stream.after_zero hk).symm, he⟩
      · simp only [run_throw] at h
        cases h
      · rename_i heq
        cases heq

/-- 完全性：入力が要素の符号を並べたもので、その後で列が終わるなら、`decodeSliceElems` は
要素をすべて読み、`EOL` で止まる。燃料は要素の数より多ければよい。 -/
theorem decodeSliceElems_run
    (heol : ∀ {t}, t.kind = none → AtListEnd t.stack → elemdec.run t = .error .EOL t) :
    ∀ (xs acc : List α) {fuel : Nat} {t : Stream} {rest : Bytes},
      (∀ x ∈ xs, ∀ {u : Stream} {rest' : Bytes}, u.kind = none → u.r = enc x ++ rest' →
        u.Room (enc x).length → ∃ bv, elemdec.run u = .ok x (u.after (enc x).length bv)) →
      xs.length < fuel → t.kind = none → t.r = (xs.map enc).flatten ++ rest →
      t.Room (xs.map enc).flatten.length →
      AtListEnd (advanceTop (xs.map enc).flatten.length t.stack) →
      ∃ bv, (decodeSliceElems elemdec fuel acc).run t =
        .ok (acc ++ xs) (t.after (xs.map enc).flatten.length bv) := by
  intro xs
  induction xs with
  | nil =>
    intro acc fuel t rest _ hfuel hk _ _ hend
    obtain ⟨fuel, rfl⟩ := Nat.exists_eq_add_one_of_ne_zero (Nat.pos_iff_ne_zero.mp hfuel)
    simp only [List.map_nil, List.flatten_nil, List.length_nil, advanceTop_zero] at hend ⊢
    refine ⟨t.byteval, ?_⟩
    simp only [decodeSliceElems, EStateM.run_bind, run_attempt, heol hk hend, EStateM.run_pure,
      List.append_nil, Stream.after_zero hk]
  | cons x xs ih =>
    intro acc fuel t rest hx hfuel hk hr hroom hend
    obtain ⟨fuel, rfl⟩ := Nat.exists_eq_add_one_of_ne_zero (Nat.pos_iff_ne_zero.mp
      (Nat.lt_of_le_of_lt (Nat.zero_le _) hfuel))
    simp only [List.map_cons, List.flatten_cons, List.length_append, List.append_assoc]
      at hr hroom hend ⊢
    -- 先頭の要素を読み、残りの要素は帰納法の仮定で読む
    obtain ⟨bv1, hx1⟩ := hx x List.mem_cons_self hk hr ((Stream.room_add_iff 0).mp hroom).1
    have hr1 : (t.after (enc x).length bv1).r = (xs.map enc).flatten ++ rest := by
      simp [hr]
    obtain ⟨bv, hrun⟩ := ih (acc ++ [x]) (fun y hy => hx y (List.mem_cons_of_mem x hy))
      (show xs.length < fuel by simpa using hfuel) (Stream.after_kind _ _ _) hr1
      ((Stream.room_add_iff bv1).mp hroom).2 (by simpa [advanceTop_add] using hend)
    refine ⟨bv, ?_⟩
    simp only [decodeSliceElems, EStateM.run_bind, run_attempt, hx1]
    rw [hrun, Stream.after_after]
    simp

end SliceElems

section ListSlice

variable {α : Type} {elemdec : StreamM α} {enc : α → Bytes} {fuel : Nat}

theorem List_cached_kind {u : Stream} {size : Nat} :
    Stream.List.run { u with kind := some (.ok (.List, size)) } = .ok size (u.enter size) :=
  List_cached rfl

theorem decodeListSlice_ne_eol {u s' : Stream} {size : Nat} {e : Error}
    (h : (decodeListSlice elemdec fuel).run { u with kind := some (.ok (.List, size)) } =
      .error e s') : e ≠ .EOL := by
  simp only [decodeListSlice] at h
  rw [EStateM.run_bind, run_tryCatch, List_cached_kind] at h
  dsimp only at h
  -- 列に入った後の誤りは、要素の繰り返しか ListEnd のもの
  revert h
  split
  · exact (ListEnd_throwsOnly.bind fun _ => throwsOnly_pure _ _) _ _ _
  · exact ((decodeSliceElems_throwsOnly _ _).bind fun _ =>
      ListEnd_throwsOnly.bind fun _ => throwsOnly_pure _ _) _ _ _

/-- 健全性：列を読み終えたなら、要素の符号の長さの和は見出しの大きさで、状態はその分進んで
列から出ている。 -/
theorem decodeListSlice_sound
    (hok : ∀ {t x t'}, t.kind = none → elemdec.run t = .ok x t' →
      ∃ bv, t.r = enc x ++ t'.r ∧ t' = t.after (enc x).length bv)
    (heol : ∀ {t t'}, t.kind = none → elemdec.run t = .error .EOL t' →
      t' = t ∧ AtListEnd t.stack)
    {u s' : Stream} {size : Nat} {xs : List α} (hk : u.kind = none)
    (h : (decodeListSlice elemdec fuel).run { u with kind := some (.ok (.List, size)) } =
      .ok xs s') :
    ∃ bv, u.r = (xs.map enc).flatten ++ s'.r ∧ (xs.map enc).flatten.length = size ∧
      s' = u.after size bv := by
  simp only [decodeListSlice] at h
  rw [EStateM.run_bind, run_tryCatch, List_cached_kind] at h
  dsimp only at h
  split at h
  · -- 空の列：すぐに ListEnd
    rename_i hsize
    subst hsize
    obtain ⟨_, t1, hend, h⟩ := run_bind_eq_ok.mp h
    rw [ListEnd_enter_zero hk, EStateM.Result.ok.injEq] at hend
    obtain ⟨-, rfl⟩ := hend
    simp only [EStateM.run_pure, EStateM.Result.ok.injEq] at h
    obtain ⟨rfl, rfl⟩ := h
    exact ⟨u.byteval, by simp, by simp, (Stream.after_zero hk).symm⟩
  · obtain ⟨ys, t1, hdse, h⟩ := run_bind_eq_ok.mp h
    obtain ⟨_, t2, hend, h⟩ := run_bind_eq_ok.mp h
    simp only [EStateM.run_pure, EStateM.Result.ok.injEq] at h
    obtain ⟨rfl, rfl⟩ := h
    obtain ⟨ys, bv, rfl, hr, rfl, hat⟩ := decodeSliceElems_sound hok heol rfl hdse
    -- EOL は、列の位置が見出しの大きさに届いたときにだけ返る
    have hlen : (ys.map enc).flatten.length = size := by
      obtain ⟨tos, htos, heq⟩ := hat
      simp only [Stream.after_stack, Stream.enter_stack, advanceTop_cons, List.head?_cons,
        Option.mem_def, Option.some.injEq] at htos
      subst htos
      simpa using heq
    rw [hlen, ListEnd_enter, EStateM.Result.ok.injEq] at hend
    obtain ⟨-, rfl⟩ := hend
    rw [hlen] at hr
    exact ⟨bv, hr, hlen, rfl⟩

/-- 完全性：入力が要素の符号を並べたもので、その長さが見出しの大きさなら、`decodeListSlice` は
要素をすべて読んで列から出る。 -/
theorem decodeListSlice_run
    (heol : ∀ {t}, t.kind = none → AtListEnd t.stack → elemdec.run t = .error .EOL t)
    {xs : List α} {u : Stream} {rest : Bytes} {size : Nat}
    (hx : ∀ x ∈ xs, ∀ {t : Stream} {rest' : Bytes}, t.kind = none → t.r = enc x ++ rest' →
      t.Room (enc x).length → ∃ bv, elemdec.run t = .ok x (t.after (enc x).length bv))
    (hne : ∀ x ∈ xs, enc x ≠ []) (hfuel : xs.length < fuel) (hk : u.kind = none)
    (hr : u.r = (xs.map enc).flatten ++ rest) (hroom : u.Room size)
    (hsize : (xs.map enc).flatten.length = size) :
    ∃ bv, (decodeListSlice elemdec fuel).run { u with kind := some (.ok (.List, size)) } =
      .ok xs (u.after size bv) := by
  simp only [decodeListSlice]
  rw [EStateM.run_bind, run_tryCatch, List_cached_kind]
  dsimp only
  split
  · -- 大きさ 0 の列には、符号の空でない要素はない
    rename_i hzero
    subst hzero
    obtain rfl : xs = [] := by
      cases xs with
      | nil => rfl
      | cons x xs =>
        have := hne x List.mem_cons_self
        simp_all
    refine ⟨u.byteval, ?_⟩
    simp only [EStateM.run_bind, ListEnd_enter_zero hk, EStateM.run_pure, Stream.after_zero hk]
  · subst hsize
    have hr' : (u.enter (xs.map enc).flatten.length).r = (xs.map enc).flatten ++ rest := hr
    obtain ⟨bv, hdse⟩ := decodeSliceElems_run heol xs [] hx hfuel rfl hr'
      ⟨by simp, hroom.2⟩ ⟨_, rfl, Nat.zero_add _⟩
    refine ⟨bv, ?_⟩
    simp only [EStateM.run_bind, hdse, ListEnd_enter, EStateM.run_pure, List.nil_append]

end ListSlice

/-! ## `decodeInterface` -/

/-- `decodeInterface` が `EOL` を返すのは、最初の `Kind()` が列の終わりを見たときだけ。 -/
theorem decodeInterface_eol {f : Nat} {s s' : Stream} (hk : s.kind = none)
    (h : (decodeInterface f).run s = .error .EOL s') : s' = s ∧ AtListEnd s.stack := by
  cases f with
  | zero => cases h
  | succ f =>
    simp only [decodeInterface] at h
    rcases run_bind_eq_error.mp h with hK | ⟨⟨k, size⟩, s1, hK, h⟩
    · exact Kind_eol hk hK
    · obtain ⟨hd, bv, -, -, rfl⟩ := Kind_sound hk hK
      dsimp only at h
      split at h
      · rename_i hkl
        subst hkl
        rcases run_bind_eq_error.mp h with hL | ⟨_, _, _, h⟩
        · exact absurd rfl (decodeListSlice_ne_eol hL)
        · cases h
      · rcases run_bind_eq_error.mp h with hB | ⟨_, _, _, h⟩
        · exact absurd rfl (Bytes_cached_ne_eol rfl hB)
        · cases h

theorem decodeInterface_at_eol {f : Nat} {s : Stream} (hf : 0 < f) (hk : s.kind = none)
    (he : AtListEnd s.stack) : (decodeInterface f).run s = .error .EOL s := by
  obtain ⟨f, rfl⟩ := Nat.exists_eq_add_one_of_ne_zero (Nat.pos_iff_ne_zero.mp hf)
  simp only [decodeInterface, EStateM.run_bind, Kind_at_eol hk he]

/-- 健全性：`decodeInterface` が値を返したなら、読んだ byte はちょうどその値の符号である。 -/
theorem decodeInterface_sound : ∀ {f : Nat} {s s' : Stream} {x : Item}, s.kind = none →
    (decodeInterface f).run s = .ok x s' →
    ∃ bv, s.r = x.enc ++ s'.r ∧ s' = s.after x.enc.length bv
  | 0, _, _, _, _, h => by cases h
  | f + 1, s, s', x, hk, h => by
    simp only [decodeInterface] at h
    obtain ⟨⟨k, size⟩, s1, hK, h⟩ := run_bind_eq_ok.mp h
    obtain ⟨hd, bv, hh, hr, rfl⟩ := Kind_sound hk hK
    dsimp only at h
    split at h
    · -- 列：要素は一段浅い燃料の decodeInterface で読む
      rename_i hkl
      subst hkl
      obtain ⟨xs, s2, hL, h⟩ := run_bind_eq_ok.mp h
      simp only [EStateM.run_pure, EStateM.Result.ok.injEq] at h
      obtain ⟨rfl, rfl⟩ := h
      obtain ⟨bv', hr2, hsize, rfl⟩ := decodeListSlice_sound
        (fun hk h => decodeInterface_sound hk h) (fun hk h => decodeInterface_eol hk h)
        (Stream.after_kind _ _ _) hL
      obtain ⟨-, -, rfl⟩ := hh
      rw [← Item.encList_eq_flatten] at hr2 hsize
      subst hsize
      refine ⟨bv', ?_, ?_⟩
      · rw [Item.enc_list, List.append_assoc, ← hr2]
        exact hr
      · rw [Stream.after_after, Item.enc_list, List.length_append]
    · rename_i hkl
      obtain ⟨b, s2, hB, h⟩ := run_bind_eq_ok.mp h
      simp only [EStateM.run_pure, EStateM.Result.ok.injEq] at h
      obtain ⟨rfl, rfl⟩ := h
      cases k with
      | Byte =>
        -- 一 byte の値：その byte 自身
        obtain ⟨-, hbv, rfl⟩ := hh
        rw [Bytes_byte rfl, Stream.peeked_byteval, EStateM.Result.ok.injEq] at hB
        obtain ⟨rfl, rfl⟩ := hB
        refine ⟨bv, ?_⟩
        rw [Item.enc_str_small hbv]
        exact ⟨hr, rfl⟩
      | String =>
        obtain ⟨hfull, hcanon⟩ := (Bytes_string_eq_ok rfl).mp hB
        obtain ⟨-, hlen, hb, rfl⟩ := readFull_eq_ok.mp hfull
        obtain ⟨rfl, -, rfl⟩ := hh
        have hblen : b.length = size := by
          rw [hb]
          exact List.length_take_of_le hlen
        rw [← hblen] at hcanon
        refine ⟨0, ?_, ?_⟩
        · rw [Item.enc_str_of_not_small hcanon, hblen, hr, hb]
          simp
        · rw [Stream.peeked_after, Stream.peeked_byteval, Item.enc_str_of_not_small hcanon,
            List.length_append, hblen]
      | List => exact absurd rfl hkl

/-- 完全性：入力が値の符号で始まり、その分を読む余地があれば、`decodeInterface` はその値を
返して符号の後で止まる。燃料は符号の長さより大きければよい。 -/
theorem decodeInterface_run (f : Nat) : ∀ (it : Item) {s : Stream} {rest : Bytes},
    it.enc.length < f → it.enc.length < 2 ^ 64 → s.kind = none → s.r = it.enc ++ rest →
    s.Room it.enc.length → ∃ bv, (decodeInterface f).run s = .ok it (s.after it.enc.length bv) := by
  induction f with
  | zero =>
    intro it s rest hf
    exact absurd hf (Nat.not_lt_zero _)
  | succ f ih =>
    intro it s rest hf h64 hk hr hroom
    cases it with
    | str b =>
      by_cases hsmall : b.length = 1 ∧ b.headD 0 < 128
      · -- 0x7F 以下の一 byte：Kind() が Byte を返し、Bytes() はその byte
        obtain ⟨c, rfl⟩ := List.length_eq_one_iff.mp hsmall.1
        have hc : c < 0x80 := by simpa using hsmall.2
        rw [Item.enc_str_small hc] at hr hroom ⊢
        have hh : HeaderOk .Byte 0 c [c] := ⟨rfl, hc, rfl⟩
        have hK := Kind_run hk hh hroom hr
        have hB := Bytes_byte (t := s.peeked [c].length c (.Byte, 0)) rfl
        refine ⟨c, ?_⟩
        simp only [decodeInterface, EStateM.run_bind, hK, if_neg (by decide : ¬ Kind.Byte = Kind.List),
          hB, EStateM.run_pure]
        rfl
      · rw [Item.enc_str_of_not_small hsmall] at hf h64 hr hroom ⊢
        rw [List.length_append] at hf h64 hroom ⊢
        have hh : HeaderOk .String b.length 0 (header 0x80 0xB7 b.length) := ⟨rfl, by omega, rfl⟩
        have hK := Kind_run hk hh hroom (by rw [hr, List.append_assoc])
        -- 中身は readFull で読み、一 byte で書ける値ではないので退けられない
        have hfull : (Stream.readFull b.length).run
            (s.peeked (header 0x80 0xB7 b.length).length 0 (.String, b.length)) =
            .ok b (s.after ((header 0x80 0xB7 b.length).length + b.length) 0) :=
          readFull_eq_ok.mpr ⟨((Stream.room_add_iff 0).mp hroom).2, by simp [hr], by simp [hr],
            (Stream.peeked_after _ _ _ _ _ _).symm⟩
        refine ⟨0, ?_⟩
        simp only [decodeInterface, EStateM.run_bind, hK,
          if_neg (by decide : ¬ Kind.String = Kind.List), (Bytes_string_eq_ok rfl).mpr ⟨hfull, hsmall⟩,
          EStateM.run_pure]
    | list xs =>
      rw [Item.enc_list] at hf h64 hr hroom ⊢
      rw [List.length_append] at hf h64 hroom ⊢
      have hh : HeaderOk .List (Item.encList xs).length 0 (header 0xC0 0xF7 (Item.encList xs).length) :=
        ⟨rfl, by omega, rfl⟩
      have hK := Kind_run hk hh hroom (by rw [hr, List.append_assoc])
      have hpos := List.length_pos_of_ne_nil (header_ne_nil 0xC0 0xF7 (Item.encList xs).length)
      -- 要素は一段浅い燃料の decodeInterface で読める
      have hx : ∀ x ∈ xs, ∀ {t : Stream} {rest' : Bytes}, t.kind = none → t.r = x.enc ++ rest' →
          t.Room x.enc.length → ∃ bv, (decodeInterface f).run t = .ok x (t.after x.enc.length bv) := by
        intro x hx t rest' hk' hr' hroom'
        have hle := Item.length_enc_le_of_mem hx
        exact ih x (by omega) (by omega) hk' hr' hroom'
      have hr' : (s.after (header 0xC0 0xF7 (Item.encList xs).length).length 0).r =
          (xs.map Item.enc).flatten ++ rest := by
        simp [hr, Item.encList_eq_flatten]
      obtain ⟨bv, hL⟩ : ∃ bv, (decodeListSlice (decodeInterface f) f).run
          (s.peeked (header 0xC0 0xF7 (Item.encList xs).length).length 0
            (.List, (Item.encList xs).length)) =
          .ok xs ((s.after (header 0xC0 0xF7 (Item.encList xs).length).length 0).after
            (Item.encList xs).length bv) :=
        decodeListSlice_run (fun hk he => decodeInterface_at_eol (by omega) hk he) hx
          (fun x _ => Item.enc_ne_nil x)
          (Nat.lt_of_le_of_lt (Item.length_le_length_encList xs) (by omega))
          (Stream.after_kind _ _ _) hr' ((Stream.room_add_iff 0).mp hroom).2
          (by rw [Item.encList_eq_flatten])
      refine ⟨bv, ?_⟩
      simp only [decodeInterface, EStateM.run_bind, hK, ↓reduceIte, hL, EStateM.run_pure,
        Stream.after_after]

/-! ## `DecodeBytes` -/

/-- `Decode` の受け手は文脈を足して投げ直すだけなので、成功は `decodeInterface` の成功。 -/
theorem Decode_eq_ok {f : Nat} {s s' : Stream} {x : Item} :
    (Stream.Decode f).run s = .ok x s' ↔ (decodeInterface f).run s = .ok x s' := by
  simp only [Stream.Decode, run_tryCatch]
  cases (decodeInterface f).run s with
  | ok a t => rfl
  | error e t =>
    dsimp only
    split
    · split <;> simp [run_throw]
    · simp [run_throw]

theorem Reset_room (b : Bytes) : (Stream.Reset b b.length).Room b.length :=
  ⟨by simp [Stream.Reset], by simp [Stream.Reset]⟩

theorem decodeBytes_sound {b : Bytes} {x : Item} (h : DecodeBytes b = .ok x) : x.enc = b := by
  unfold DecodeBytes at h
  split at h
  · cases h
  · rename_i val s hrun
    split at h
    · cases h
    · rename_i hlen
      cases h
      obtain ⟨_, hr, -⟩ := decodeInterface_sound rfl (Decode_eq_ok.mp hrun)
      have hnil : s.r = [] := List.eq_nil_of_length_eq_zero (by omega)
      rw [hnil, List.append_nil] at hr
      exact hr.symm

theorem decodeBytes_enc {it : Item} (h64 : it.enc.length < 2 ^ 64) :
    DecodeBytes it.enc = .ok it := by
  obtain ⟨bv, hrun⟩ := decodeInterface_run (it.enc.length + 1) it (Nat.lt_succ_self _) h64
    rfl (List.append_nil _).symm (Reset_room it.enc)
  unfold DecodeBytes
  rw [Decode_eq_ok.mpr hrun]
  simp [Stream.Reset]

theorem decodeBytes_canonical :
    (∀ (b : Bytes) (x : Item), DecodeBytes b = .ok x → encodeToBytes x = b) ∧
      (∀ x : Item, (encodeToBytes x).length < 2 ^ 64 → DecodeBytes (encodeToBytes x) = .ok x) := by
  refine ⟨fun b x h => ?_, fun x h64 => ?_⟩
  · rw [encodeToBytes, toBytes_empty_writeItem]
    exact decodeBytes_sound h
  · rw [encodeToBytes, toBytes_empty_writeItem] at h64 ⊢
    exact decodeBytes_enc h64

theorem decodeBytes_canonical_nested :
    (encodeToBytes (.list [.str [0x05], .list []])).length < 2 ^ 64 ∧
      DecodeBytes (encodeToBytes (.list [.str [0x05], .list []])) = .ok (.list [.str [0x05], .list []]) :=
  ⟨by decide, decodeBytes_canonical.2 _ (by decide)⟩

end Rlp
