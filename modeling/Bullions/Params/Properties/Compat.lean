import Bullions.Params.Compat

/-!
# `Compatible` の止まり方

`compatible(head)` の誤りは、`head` までに fork した block の一つ前まで巻き戻す。したがって
`RewindTo` は `head` より小さいか 0 で（`compatible_lowers`）、`Compatible` の loop は
`RewindTo` が下がり続けるか、同じ値が二度続いて止まる（`Compatible_lowest_conflict`）。

ただしこれは、EIP-155 の block が `int64` に収まるときに限る。`IsEnabled` は block を `int64`
に直すので、`2^63` 以上の block は負になり、どの `head` でも有効になる。そのとき chain ID の
誤りは `head` より上の block まで巻き戻せと言い、ほかの fork の誤りと交互に出て、loop は
止まらない（`Compatible_cycles_forever`）。
-/

namespace Params

/-- 巻き戻し先 `r` が `head` より小さいか、0 である。 -/
def Lowers (head r : UInt64) : Prop := r.toNat < head.toNat ∨ r.toNat = 0

/-- `head` で `compatible` が誤りを返さないか、同じ `head` に巻き戻せと言う。 -/
def Settled (names : List String) (a b : CompatConfigurator) (r : UInt64) : Prop :=
  compatible names (some r) a b = .ok none ∨
    ∃ e, compatible names (some r) a b = .ok (some e) ∧ e.RewindTo = r

/-! ## 巻き戻し先 -/

/-- `rew - 1`（`rew = 0` なら 0）は、`rew ≤ head` なら `head` を下げる。 -/
theorem rewind_lowers {rew head : UInt64} (hle : rew.toNat ≤ head.toNat) :
    Lowers head (if rew > 0 then rew - 1 else 0) := by
  unfold Lowers
  split
  · rename_i hpos
    have h1 : (1 : UInt64) ≤ rew := UInt64.le_iff_toNat_le.mpr (by
      have := UInt64.lt_iff_toNat_lt.mp hpos
      simp at this ⊢
      omega)
    rw [UInt64.toNat_sub_of_le _ _ h1]
    have := UInt64.lt_iff_toNat_lt.mp hpos
    simp at this ⊢
    omega
  · exact .inr rfl

theorem NewCompatError_RewindTo_some_none (what : String) (s : UInt64) :
    (NewCompatError what (some s) none).RewindTo = if s > 0 then s - 1 else 0 := rfl

theorem NewCompatError_RewindTo_none_some (what : String) (n : UInt64) :
    (NewCompatError what none (some n)).RewindTo = if n > 0 then n - 1 else 0 := rfl

theorem NewCompatError_RewindTo_some_some (what : String) (s n : UInt64) :
    (NewCompatError what (some s) (some n)).RewindTo =
      if s < n then (if s > 0 then s - 1 else 0) else (if n > 0 then n - 1 else 0) := by
  by_cases h : s < n <;> simp [NewCompatError, h]

/-- 片方の block `s` が `head` までに fork していれば、`NewCompatError` は `head` を下げる。 -/
theorem NewCompatError_lowers_of_stored {what : String} {s head : UInt64} (n : Option UInt64)
    (hs : s.toNat ≤ head.toNat) : Lowers head (NewCompatError what (some s) n).RewindTo := by
  cases n with
  | none =>
    rw [NewCompatError_RewindTo_some_none]
    exact rewind_lowers hs
  | some n =>
    rw [NewCompatError_RewindTo_some_some]
    split
    · exact rewind_lowers hs
    · rename_i hsn
      -- 小さい方の `n` に巻き戻す
      have : n.toNat ≤ s.toNat := by
        have := mt UInt64.lt_iff_toNat_lt.mpr hsn
        omega
      exact rewind_lowers (by omega)

/-- fork の値の衝突の誤りは `head` を下げる。 -/
theorem NewCompatError_lowers {what : String} {c1 c2 : Option UInt64} {head : UInt64}
    (h : isForkIncompatible c1 c2 (some head) = true) :
    Lowers head (NewCompatError what c1 c2).RewindTo := by
  simp only [isForkIncompatible, isForked, u2Equal, Bool.and_eq_true, Bool.or_eq_true,
    Bool.not_eq_true', decide_eq_false_iff_not] at h
  obtain ⟨hforked, hne⟩ := h
  cases c1 with
  | some s =>
    by_cases hs : s.toNat ≤ head.toNat
    · exact NewCompatError_lowers_of_stored c2 hs
    · -- `c1` は fork していないので、fork したのは `c2`
      cases c2 with
      | none => simp [UInt64.le_iff_toNat_le, hs] at hforked
      | some n =>
        have hn : n.toNat ≤ head.toNat := by
          simp [UInt64.le_iff_toNat_le, hs] at hforked
          exact hforked
        rw [NewCompatError_RewindTo_some_some]
        split
        · rename_i hsn
          have := UInt64.lt_iff_toNat_lt.mp hsn
          omega
        · exact rewind_lowers hn
  | none =>
    cases c2 with
    | none => exact absurd rfl hne
    | some n =>
      have hn : n.toNat ≤ head.toNat := by
        simpa [UInt64.le_iff_toNat_le] using hforked
      rw [NewCompatError_RewindTo_none_some]
      exact rewind_lowers hn

theorem firstIncompatible_lowers {head : UInt64} {a b : CompatConfigurator} :
    ∀ {names : List String} {e : ConfigCompatError},
      firstIncompatible (some head) a b names = some e → Lowers head e.RewindTo
  | [], _, h => by simp [firstIncompatible] at h
  | name :: rest, e, h => by
    simp only [firstIncompatible] at h
    split at h
    · exact firstIncompatible_lowers h
    · split at h
      · rename_i hinc
        cases h
        exact NewCompatError_lowers hinc
      · exact firstIncompatible_lowers h

theorem isForked_none (x : Option UInt64) : isForked x none = false := by
  cases x <;> rfl

theorem firstIncompatible_none (a b : CompatConfigurator) :
    ∀ names : List String, firstIncompatible none a b names = none
  | [] => rfl
  | name :: rest => by
    simp only [firstIncompatible, isForkIncompatible, isForked_none, Bool.or_self, Bool.false_and,
      Bool.false_eq_true, if_false, ite_self]
    exact firstIncompatible_none a b rest

/-- `int64` に収まる block では、`IsEnabled` は `≤` である。 -/
theorem IsEnabled_iff_le (c : CompatConfigurator) {s : UInt64} (hs : s.toNat < 2 ^ 63)
    (h : UInt64) : c.IsEnabled (some s) (some (h.toNat : Int)) = true ↔ s.toNat ≤ h.toNat := by
  have hcast : s.toInt64.toInt = (s.toNat : Int) := by
    simp [Int64.toInt, UInt64.toInt64, BitVec.toInt, Int64.toBitVec]
    omega
  simp only [CompatConfigurator.IsEnabled, decide_eq_true_eq, hcast]
  omega

section settled

variable {names : List String} {a b : CompatConfigurator}

/-- EIP-155 の block が `int64` に収まれば、`compatible` の誤りはどれも `head` を下げる。 -/
theorem compatible_lowers (hEIP : ∀ s, a.GetEIP155Transition = some s → s.toNat < 2 ^ 63)
    {head : UInt64} {e : ConfigCompatError}
    (h : compatible names (some head) a b = .ok (some e)) : Lowers head e.RewindTo := by
  unfold compatible at h
  cases hf : firstIncompatible (some head) a b names with
  | some err =>
    rw [hf] at h
    cases h
    exact firstIncompatible_lowers hf
  | none =>
    rw [hf] at h
    dsimp only at h
    split at h
    · rename_i hen
      -- 有効な EIP-155 の block は `head` 以下
      cases hs : a.GetEIP155Transition with
      | none => simp [hs, CompatConfigurator.IsEnabled] at hen
      | some s =>
        rw [hs] at hen
        have hle := (IsEnabled_iff_le a (hEIP s hs) head).mp hen
        split at h
        · split at h
          · cases h
            rw [hs]
            exact NewCompatError_lowers_of_stored _ hle
          · cases h
        · cases h
    · cases h

/-- chain ID がどちらにもあれば、`compatible` は panic しない。 -/
theorem compatible_ok (hida : a.GetChainID.isSome) (hidb : b.GetChainID.isSome)
    (head : Option UInt64) : ∃ r, compatible names head a b = .ok r := by
  obtain ⟨x, hx⟩ := Option.isSome_iff_exists.mp hida
  obtain ⟨y, hy⟩ := Option.isSome_iff_exists.mp hidb
  unfold compatible
  split
  · exact ⟨_, rfl⟩
  · split
    · exact ⟨_, rfl⟩
    · split
      · rw [hx, hy]
        by_cases hxy : x ≠ y
        · exact ⟨_, if_pos hxy⟩
        · exact ⟨_, if_neg hxy⟩
      · exact ⟨_, rfl⟩

/-- run lemma：前の誤りが `head` に巻き戻せと言った後の loop は、回数が `head + 1` あれば、
`head` 以下の、`Settled` な巻き戻し先の誤りを返して止まる。帰納法は `head` の値について。 -/
theorem CompatibleLoop_settles (hEIP : ∀ s, a.GetEIP155Transition = some s → s.toNat < 2 ^ 63)
    (hida : a.GetChainID.isSome) (hidb : b.GetChainID.isSome) :
    ∀ (n : Nat) (head : UInt64) (last : ConfigCompatError) (fuel : Nat),
      head.toNat = n → n + 1 ≤ fuel → last.RewindTo = head →
      ∃ e, CompatibleLoop names a b fuel (some head) (some last) = some (.ok (some e)) ∧
        e.RewindTo.toNat ≤ head.toNat ∧ Settled names a b e.RewindTo := by
  intro n
  induction n using Nat.strong_induction_on with
  | _ n ih =>
    intro head last fuel hn hfuel hlast
    obtain ⟨fuel, rfl⟩ : ∃ k, fuel = k + 1 := ⟨fuel - 1, by omega⟩
    obtain ⟨r, hr⟩ := @compatible_ok names a b hida hidb (some head)
    cases r with
    | none =>
      refine ⟨last, ?_, by rw [hlast], .inl (by rw [hlast]; exact hr)⟩
      simp only [CompatibleLoop, hr]
    | some err =>
      by_cases heq : last.RewindTo = err.RewindTo
      · refine ⟨last, ?_, by rw [hlast], .inr ⟨err, by rw [hlast]; exact hr, by rw [← heq]⟩⟩
        simp [CompatibleLoop, hr, heq]
      · -- 違う巻き戻し先は `head` より下
        have hlow := compatible_lowers hEIP hr
        have hlt : err.RewindTo.toNat < n := by
          have : err.RewindTo ≠ head := fun h => heq (by rw [hlast, h])
          have : err.RewindTo.toNat ≠ head.toNat := fun h => this (UInt64.toNat_inj.mp h)
          unfold Lowers at hlow
          omega
        obtain ⟨e, he, hle, hset⟩ := ih _ hlt err.RewindTo err fuel rfl (by omega) rfl
        refine ⟨e, ?_, by omega, hset⟩
        simp only [CompatibleLoop, hr, Option.any_some, decide_eq_true_eq, heq, if_false]
        exact he

end settled

/-- `Compatible` は、EIP-155 の block が `int64` に収まり chain ID がどちらにもあれば、`head + 2`
回のうちに止まる。`compatible(head)` が誤りを返さなければ nil を、返せば `head` 以下の巻き戻し先
`r` の誤りを返し、`r` では `compatible` が誤りを返さないか、`r` に巻き戻せと言う。 -/
theorem Compatible_lowest_conflict (names : List String) (a b : CompatConfigurator)
    (hEIP : ∀ s, a.GetEIP155Transition = some s → s.toNat < 2 ^ 63)
    (hida : a.GetChainID.isSome) (hidb : b.GetChainID.isSome)
    (head : Option UInt64) (fuel : Nat) (hfuel : (head.map UInt64.toNat).getD 0 + 2 ≤ fuel) :
    ∃ r, Compatible names fuel head a b = some (.ok r) ∧
      (r = none ↔ compatible names head a b = .ok none) ∧
      ∀ e, r = some e → (∀ h, head = some h → e.RewindTo.toNat ≤ h.toNat) ∧
        Settled names a b e.RewindTo := by
  obtain ⟨fuel, rfl⟩ : ∃ k, fuel = k + 1 := ⟨fuel - 1, by omega⟩
  obtain ⟨r, hr⟩ := @compatible_ok names a b hida hidb head
  cases r with
  | none =>
    refine ⟨none, ?_, by simp [hr], fun e he => absurd he (by simp)⟩
    simp only [Compatible, CompatibleLoop, hr]
  | some err =>
    cases head with
    | none =>
      have h0 : compatible names none a b = .ok none := by
        simp [compatible, firstIncompatible_none]
      rw [h0] at hr
      cases hr
    | some h =>
      have hlow := compatible_lowers hEIP hr
      unfold Lowers at hlow
      simp only [Option.map_some, Option.getD_some] at hfuel
      obtain ⟨e, he, hle, hset⟩ := @CompatibleLoop_settles names a b hEIP hida hidb
        err.RewindTo.toNat err.RewindTo err fuel rfl (by omega) rfl
      refine ⟨some e, ?_, by simp [hr], ?_⟩
      · simp only [Compatible, CompatibleLoop, hr, Option.any_none, Bool.false_eq_true, if_false]
        exact he
      · intro e' he'
        cases he'
        refine ⟨fun h' hh => ?_, hset⟩
        cases hh
        omega

/-! ## EIP-155 の block が `int64` に収まらないとき -/

/-- 保存された設定：EIP-150 は block 10、EIP-155 は `MaxUint64`、chain ID 1。 -/
def storedCompatConfig : CompatConfigurator :=
  ⟨fun n => if n = "GetEIP150Transition" then some 10
    else if n = "GetEIP155Transition" then some 0xFFFFFFFFFFFFFFFF else none, some 1⟩

/-- 新しい設定：fork は無く、chain ID 2。 -/
def newCompatConfig : CompatConfigurator := ⟨fun _ => none, some 2⟩

/-- 二つの設定の型の `Get…Transition` の method（ほかの method はどちらでも nil）。 -/
def compatNames : List String := ["GetEIP150Transition", "GetEIP155Transition"]

/-- EIP-150 の誤り：block 9 まで巻き戻せ。 -/
theorem compatible_stored_100 :
    compatible compatNames (some 100) storedCompatConfig newCompatConfig =
      .ok (some (NewCompatError "incompatible fork value: GetEIP150Transition" (some 10) none)) :=
  rfl

/-- block 9 では EIP-150 はまだだが、`int64` では `MaxUint64` が -1 なので EIP-155 が有効になり、
chain ID の誤りが `MaxUint64 - 1` まで巻き戻せと言う。 -/
theorem compatible_stored_9 :
    compatible compatNames (some 9) storedCompatConfig newCompatConfig =
      .ok (some (NewCompatError "mismatching chain ids after EIP155 transition"
        (some 0xFFFFFFFFFFFFFFFF) none)) :=
  rfl

theorem compatible_stored_max :
    compatible compatNames (some 0xFFFFFFFFFFFFFFFE) storedCompatConfig newCompatConfig =
      .ok (some (NewCompatError "incompatible fork value: GetEIP150Transition" (some 10) none)) :=
  rfl

/-- loop は block 9 と `MaxUint64 - 1` を交互に訪れ、同じ巻き戻し先が二度続かない。 -/
theorem CompatibleLoop_cycle (fuel : Nat) :
    CompatibleLoop compatNames storedCompatConfig newCompatConfig fuel (some 9)
        (some (NewCompatError "incompatible fork value: GetEIP150Transition" (some 10) none)) =
      none ∧
    CompatibleLoop compatNames storedCompatConfig newCompatConfig fuel (some 0xFFFFFFFFFFFFFFFE)
        (some (NewCompatError "mismatching chain ids after EIP155 transition"
          (some 0xFFFFFFFFFFFFFFFF) none)) = none := by
  induction fuel with
  | zero => exact ⟨rfl, rfl⟩
  | succ fuel ih =>
    constructor
    · simp only [CompatibleLoop, compatible_stored_9]
      exact ih.2
    · simp only [CompatibleLoop, compatible_stored_max]
      exact ih.1

/-- `Compatible(100, stored, new)` は、どれだけ回しても止まらない。 -/
theorem Compatible_cycles_forever (fuel : Nat) :
    Compatible compatNames fuel (some 100) storedCompatConfig newCompatConfig = none := by
  cases fuel with
  | zero => rfl
  | succ fuel =>
    simp only [Compatible, CompatibleLoop, compatible_stored_100]
    exact (CompatibleLoop_cycle fuel).1

/-- `int64` に収まる EIP-155 の block（20）では、block 100 からの探しは block 9 で止まる。 -/
def storedCompatConfig20 : CompatConfigurator :=
  ⟨fun n => if n = "GetEIP150Transition" then some 10
    else if n = "GetEIP155Transition" then some 20 else none, some 1⟩

theorem Compatible_lowest_conflict_eip155_20 :
    (∀ s, storedCompatConfig20.GetEIP155Transition = some s → s.toNat < 2 ^ 63) ∧
      storedCompatConfig20.GetChainID.isSome ∧ newCompatConfig.GetChainID.isSome ∧
      ((some (100 : UInt64)).map UInt64.toNat).getD 0 + 2 ≤ 102 ∧
      ∃ r, Compatible compatNames 102 (some 100) storedCompatConfig20 newCompatConfig =
          some (.ok r) ∧
        (r = none ↔ compatible compatNames (some 100) storedCompatConfig20 newCompatConfig =
          .ok none) ∧
        ∀ e, r = some e → (∀ h, some (100 : UInt64) = some h → e.RewindTo.toNat ≤ h.toNat) ∧
          Settled compatNames storedCompatConfig20 newCompatConfig e.RewindTo := by
  have hEIP : ∀ s, storedCompatConfig20.GetEIP155Transition = some s → s.toNat < 2 ^ 63 := by
    intro s hs
    cases hs
    decide
  exact ⟨hEIP, rfl, rfl, by decide,
    Compatible_lowest_conflict compatNames storedCompatConfig20 newCompatConfig hEIP rfl rfl
      (some 100) 102 (by decide)⟩

end Params
