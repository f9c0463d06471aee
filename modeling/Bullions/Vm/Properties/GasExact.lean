import Bullions.Vm.Properties.Memory
import Bullions.Vm.Interpreter

/-!
# 動的な gas は回り込まない

gas 関数の uint64 の足し算と掛け算は `SafeAdd`、`SafeMul` で確かめてある。確かめない演算は、
飽和する `toWordSize`、借りの出ないことを先に確かめた `SafeSub`、そして `callGas` の
`availableGas - base` だけである。

`exactGas` は各 gas 関数の額を上限のない整数で書いたもの：memory の拡張の gas（不変条件の
下で、新旧の総額の差 `expansionFee`）、byte ごと word ごとの gas、`callGas` と `createGasEip150`
の決める子の gas。`dynamicGasOf_exact` は、memory の不変条件の下で、StateDB を読まない gas
関数が `ErrGasUintOverflow` を返すか、`MaxUint64` 以下の額を返すことを言う。その額はちょうど
`exactGas` であるか、`UseGas` が断る額である。

後の方は呼び出しの四つにだけ起こる。EIP-150 の下で contract の gas が `base`（価値の移転と
memory の gas）に足りなければ、`callGas` の `availableGas - base` が回り込み、上限のない額とは
違う巨大な額を返す（`dynamicGasOf_call_wraps`）。それでもその額は `base` 以上、つまり contract
の gas を超えるので、`UseGas` が断る。
-/

namespace Vm

open ExceptSpec

/-! ## 上限のない額 -/

/-- 不変条件の下で `memoryGasCost(mem, ms)` が課す額：新旧の総額の差。 -/
def expansionFee (mem : Memory) (ms : Nat) : Nat :=
  memCost (max (toWordSize ms) (mem.Len / 32)) - memCost (mem.Len / 32)

/-- `size` byte に、word ごとに `perWord` を課す額（切り上げ）。 -/
def wordFee (size perWord : Nat) : Nat := (size + 31) / 32 * perWord

/-- `gasCall` が memory より先に数える、新しい口座と価値の移転の gas。 -/
def callValueGas (env : GasEnv) (st : Stack) : Nat :=
  let transfersValue := st.Back 2 ≠ 0
  let address := toAddress (st.Back 1)
  let gas :=
    if env.eip161abc then
      if transfersValue ∧ env.empty address then CallNewAccountGas else 0
    else if !env.exist address then CallNewAccountGas else 0
  if transfersValue then gas + CallValueTransferGas else gas

/-- 作成の額：`gas` に、残りから `createGasEip150` が決める子の gas を足す。 -/
def createSpec (env : GasEnv) (contractGas gas : Nat) : Option Nat :=
  (createGasEip150 env.eip150 (contractGas - gas)).toOption.map (gas + ·)

/--
`callGas` を上限のない整数で計算したもの：EIP-150 の下では、残り `availableGas - base` から
その 1/64 を引いた額と `callCost` の小さい方。残りは負にもなり、1/64 は Go の割り算のとおり
0 に向かって丸める。
-/
def callGasSpec (isEip150 : Bool) (availableGas base : Nat) (callCost : Word) : Int :=
  if isEip150 then
    let availableGas : Int := availableGas - base
    min (availableGas - availableGas.tdiv 64) callCost
  else callCost

/--
呼び出しの額：`base` に、上限のない `callGas` の値を足す。和は負にならない（残りが負なら、
その 63/64 との和は `availableGas` 以上）ので、`toNat` は何も切らない。
-/
def callSpec (env : GasEnv) (contractGas : Nat) (st : Stack) (base : Nat) : Option Nat :=
  some (base + callGasSpec env.eip150 contractGas base (st.Back 0)).toNat

/-- 各 gas 関数の額を上限のない自然数で求めたもの。StateDB を読む三つは除く。 -/
def exactGas (env : GasEnv) (contractGas : Nat) (st : Stack) (mem : Memory) (ms : Nat) :
    GasFunc → Option Nat
  | .gasExpFrontier => some ((bitLen (st.Back 1) + 7) / 8 * ExpByteFrontier + ExpGas)
  | .gasExpEIP158 => some ((bitLen (st.Back 1) + 7) / 8 * ExpByteEIP158 + ExpGas)
  | .gasSha3 => some (expansionFee mem ms + wordFee (st.Back 1) Sha3WordGas)
  | .gasCallDataCopy => some (expansionFee mem ms + wordFee (st.Back 2) CopyGas)
  | .gasCodeCopy => some (expansionFee mem ms + wordFee (st.Back 2) CopyGas)
  | .gasExtCodeCopy => some (expansionFee mem ms + wordFee (st.Back 3) CopyGas)
  | .gasReturnDataCopy => some (expansionFee mem ms + wordFee (st.Back 2) CopyGas)
  | .gasMLoad | .gasMStore | .gasMStore8 | .gasReturn | .gasRevert => some (expansionFee mem ms)
  | .makeGasLog n =>
    some (expansionFee mem ms + LogGas + n * LogTopicGas + st.Back 1 * LogDataGas)
  | .gasCreate => createSpec env contractGas (expansionFee mem ms)
  | .gasCreate2 => createSpec env contractGas (expansionFee mem ms + wordFee (st.Back 2) Sha3WordGas)
  | .gasCall => callSpec env contractGas st (callValueGas env st + expansionFee mem ms)
  | .gasCallCode =>
    callSpec env contractGas st ((if st.Back 2 ≠ 0 then CallValueTransferGas else 0) +
      expansionFee mem ms)
  | .gasDelegateCall | .gasStaticCall => callSpec env contractGas st (expansionFee mem ms)
  | .gasSStore | .gasSStoreEIP2200 | .gasSelfdestruct => none

/-- StateDB を読む gas 関数。 -/
def GasFunc.readsState : GasFunc → Bool
  | .gasSStore | .gasSStoreEIP2200 | .gasSelfdestruct => true
  | _ => false

/-- 子を呼ぶ命令の gas 関数：`callGas` で子の gas を決める四つ。 -/
def GasFunc.isCall : GasFunc → Bool
  | .gasCall | .gasCallCode | .gasDelegateCall | .gasStaticCall => true
  | _ => false

/-! ## 回り込まない計算 -/

/-- 計算 `r` は `ErrGasUintOverflow` で失敗するか、`MaxUint64` 以下のちょうど `spec` を返す。 -/
def GasExact (r : Except VmError Nat) (spec : Option Nat) : Prop :=
  FailsOnly r (· = .ErrGasUintOverflow) ∧ OkThen r fun c => spec = some c ∧ c ≤ MaxUint64

theorem gasExact_overflow (spec : Option Nat) : GasExact (.error .ErrGasUintOverflow) spec :=
  ⟨failsOnly_error rfl, okThen_error _ _⟩

theorem gasExact_ok {c : Nat} (hc : c ≤ MaxUint64) : GasExact (.ok c) (some c) :=
  ⟨failsOnly_ok _ _, okThen_ok ⟨rfl, hc⟩⟩

/-- 回り込まずに `x` を求めた後の続きは、`x` について確かめればよい。 -/
theorem GasExact.bind {r : Except VmError Nat} {x : Nat} {k : Nat → Except VmError Nat}
    {spec : Option Nat} (hr : GasExact r (some x)) (hk : x ≤ MaxUint64 → GasExact (k x) spec) :
    GasExact (r >>= k) spec := by
  obtain ⟨hfail, hok⟩ := hr
  constructor
  · refine hfail.bind fun a ha => ?_
    obtain ⟨hax, hle⟩ := hok a ha
    cases hax
    exact (hk hle).1
  · refine hok.bind fun a ⟨hax, hle⟩ => ?_
    cases hax
    exact (hk hle).2

/--
`GasExact` を呼び出しのために緩めたもの：条件 `wraps` の下では、ちょうど `spec` を返す代わりに
`contractGas` を超える額を返してもよい。そういう額は `UseGas` が断る。
-/
def GasExactOrAbove (wraps : Prop) (contractGas : Nat) (r : Except VmError Nat)
    (spec : Option Nat) : Prop :=
  FailsOnly r (· = .ErrGasUintOverflow) ∧
    OkThen r fun c => (spec = some c ∨ (wraps ∧ contractGas < c)) ∧ c ≤ MaxUint64

theorem GasExact.orAbove {r : Except VmError Nat} {spec : Option Nat} (wraps : Prop) (cg : Nat)
    (h : GasExact r spec) : GasExactOrAbove wraps cg r spec :=
  ⟨h.1, h.2.mono fun _ hc => ⟨.inl hc.1, hc.2⟩⟩

theorem GasExactOrAbove.mono {wraps wraps' : Prop} {cg : Nat} {r : Except VmError Nat}
    {spec : Option Nat} (hw : wraps → wraps') (h : GasExactOrAbove wraps cg r spec) :
    GasExactOrAbove wraps' cg r spec :=
  ⟨h.1, h.2.mono fun _ hc => ⟨hc.1.imp_right fun ha => ⟨hw ha.1, ha.2⟩, hc.2⟩⟩

/-- contract の gas を超える額は、`UseGas` が断る。 -/
theorem GasExactOrAbove.exact_or_useGas_none {wraps : Prop} {cg : Nat} {r : Except VmError Nat}
    {spec : Option Nat} (h : GasExactOrAbove wraps cg r spec) :
    (∀ e, r = .error e → e = .ErrGasUintOverflow) ∧
      ∀ c, r = .ok c → c ≤ MaxUint64 ∧
        (spec = some c ∨ wraps ∧ ∀ f : Frame, f.gas = cg → useGas f c = none) := by
  refine ⟨h.1, fun c hc => ?_⟩
  obtain ⟨hs, hle⟩ := h.2 c hc
  refine ⟨hle, hs.imp_right fun ha => ⟨ha.1, fun f hf => ?_⟩⟩
  rw [useGas, if_pos (hf ▸ ha.2)]

/-! ### 確かめた uint64 の演算

`(v, overflow) := SafeAdd(x, y)` などは、桁あふれしなければ上限のない値 `v` を返す。 -/

theorem SafeAdd_guard (x y : Nat) :
    (SafeAdd x y).2 = false → (SafeAdd x y).1 = x + y ∧ x + y ≤ MaxUint64 := by
  intro hov
  simp only [SafeAdd, decide_eq_false_iff_not, Nat.not_le] at hov ⊢
  exact ⟨Nat.mod_eq_of_lt hov, Nat.le_sub_one_of_lt hov⟩

theorem SafeMul_guard (x y : Nat) :
    (SafeMul x y).2 = false → (SafeMul x y).1 = x * y ∧ x * y ≤ MaxUint64 := by
  intro hov
  simp only [SafeMul, decide_eq_false_iff_not, Nat.not_le] at hov ⊢
  exact ⟨Nat.mod_eq_of_lt hov, Nat.le_sub_one_of_lt hov⟩

theorem uint64_guard (v : Word) :
    (uint64WithOverflow v).2 = false → (uint64WithOverflow v).1 = v ∧ v ≤ MaxUint64 := by
  intro hov
  have hlt : v < 2 ^ 64 := by simpa [uint64WithOverflow, isUint64] using hov
  exact ⟨Nat.mod_eq_of_lt hlt, Nat.le_sub_one_of_lt hlt⟩

/-- 借りが出なければ、uint64 の `SafeSub` は引き算そのもの。 -/
theorem SafeSub_guard {x : Nat} (hx : x < 2 ^ 64) (y : Nat) :
    (SafeSub x y).2 = false → (SafeSub x y).1 = x - y ∧ x - y ≤ MaxUint64 := by
  intro hov
  simp only [SafeSub, decide_eq_false_iff_not, Nat.not_lt] at hov ⊢
  unfold MaxUint64
  omega

/-- `checked` は、桁あふれしなければ `x` を返す。 -/
theorem gasExact_checked {p : Nat × Bool} {x : Nat} (h : p.2 = false → p.1 = x ∧ x ≤ MaxUint64) :
    GasExact (checked p) (some x) := by
  unfold checked
  split
  · exact gasExact_overflow _
  · rename_i hov
    obtain ⟨rfl, hle⟩ := h (by simpa using hov)
    exact gasExact_ok hle

theorem checked_SafeAdd_exact (x y : Nat) : GasExact (checked (SafeAdd x y)) (some (x + y)) :=
  gasExact_checked (SafeAdd_guard x y)

theorem checked_SafeMul_exact (x y : Nat) : GasExact (checked (SafeMul x y)) (some (x * y)) :=
  gasExact_checked (SafeMul_guard x y)

/-- uint64 の大きさでは、飽和する `toWordSize` も切り上げの割り算に等しい。 -/
theorem toWordSize_of_lt {v : Nat} (hv : v < 2 ^ 64) : toWordSize v = (v + 31) / 32 := by
  unfold toWordSize MaxUint64
  split <;> omega

theorem toWordSize_of_le_max {v : Nat} (hv : v ≤ MaxUint64) : toWordSize v = (v + 31) / 32 :=
  toWordSize_of_lt (by unfold MaxUint64 at hv; omega)

/-- word ごとの gas：確かめた長さ `v` の word の数に `perWord` を掛ける。 -/
theorem wordFee_exact (v perWord : Nat) {k : Nat → Except VmError Nat} {spec : Option Nat}
    (hk : wordFee v perWord ≤ MaxUint64 → GasExact (k (wordFee v perWord)) spec) :
    GasExact (checked (uint64WithOverflow v) >>= fun w =>
      checked (SafeMul (toWordSize w) perWord) >>= k) spec := by
  refine (gasExact_checked (uint64_guard v)).bind fun hv => ?_
  rw [toWordSize_of_le_max hv]
  exact (checked_SafeMul_exact _ _).bind hk

/-- 不変条件の下で、`memoryGasCost` は `ErrGasUintOverflow` を返すか、ちょうど `expansionFee` を
返す。 -/
theorem memoryGasCost_exact {mem : Memory} (hm : mem.Inv) (ms : Nat) :
    GasExact (memoryGasCost mem ms).2 (some (expansionFee mem ms)) := by
  constructor
  · intro e he
    by_cases hov : 0x1FFFFFFFE0 < ms
    · rw [(memoryGasCost_error_iff mem ms).mpr hov] at he
      cases he
      rfl
    · -- 上限までの大きさでは失敗しない
      rcases Nat.eq_zero_or_pos ms with rfl | hpos
      · cases he
      · rw [memoryGasCost_of_le hpos (by omega)] at he
        split at he <;> cases he
  · intro fee hfee
    have hms := memoryGasCost_le_of_ok hfee
    obtain ⟨heq, -⟩ := memoryGasCost_fee hm hfee
    refine ⟨by rw [heq]; rfl, ?_⟩
    have hw : max (toWordSize ms) (mem.Len / 32) ≤ 0x1FFFFFFFE0 / 32 := by
      have := hm.len_le
      have := toWordSize_of_le hms
      omega
    have hlt := memCost_lt hw
    unfold MaxUint64
    omega

theorem createGasEip150_eq (isEip150 : Bool) (availableGas : Nat) :
    createGasEip150 isEip150 availableGas =
      .ok (if isEip150 then availableGas - availableGas / 64 else availableGas) := by
  unfold createGasEip150
  split <;> rfl

/-! ### gas 関数の分岐

gas 関数は三つの分岐をつないでできている：確かめた演算の後の
`if overflow { return 0, ErrGasUintOverflow }`、`checked` の値による分岐、そして
`memoryGasCost` の後の分岐。どれも、桁あふれして `ErrGasUintOverflow` を返すか、上限のない
値で先へ進むかの二つに分かれる。 -/

/-- `(v, overflow) := p` は、桁あふれするか、上限のない値 `x` を返す。 -/
theorem guard_cases (p : Nat × Bool) {x : Nat} (hp : p.2 = false → p.1 = x ∧ x ≤ MaxUint64) :
    p = (p.1, true) ∨ (p = (x, false) ∧ x ≤ MaxUint64) := by
  obtain ⟨v, ov⟩ := p
  cases ov with
  | true => exact .inl rfl
  | false =>
    obtain ⟨rfl, hle⟩ := hp rfl
    exact .inr ⟨rfl, hle⟩

theorem checked_cases (p : Nat × Bool) {x : Nat} (hp : p.2 = false → p.1 = x ∧ x ≤ MaxUint64) :
    checked p = .error .ErrGasUintOverflow ∨ (checked p = .ok x ∧ x ≤ MaxUint64) := by
  rcases guard_cases p hp with h | ⟨h, hle⟩
  · exact .inl (by rw [h]; rfl)
  · exact .inr ⟨by rw [h]; rfl, hle⟩

/-- 不変条件の下で、`memoryGasCost` は桁あふれするか、ちょうど `expansionFee` を返す。 -/
theorem memoryGasCost_cases {mem : Memory} (hm : mem.Inv) (ms : Nat) :
    (∃ m', memoryGasCost mem ms = (m', .error .ErrGasUintOverflow)) ∨
      ∃ m', memoryGasCost mem ms = (m', .ok (expansionFee mem ms)) ∧ expansionFee mem ms ≤ MaxUint64 := by
  obtain ⟨hfail, hok⟩ := memoryGasCost_exact hm ms
  rcases h : memoryGasCost mem ms with ⟨m', r⟩
  rw [h] at hfail hok
  cases r with
  | error e => exact .inl ⟨m', by rw [hfail e rfl]⟩
  | ok fee =>
    obtain ⟨hfee, hle⟩ := hok fee rfl
    cases hfee
    exact .inr ⟨m', rfl, hle⟩

theorem createSpec_eq (env : GasEnv) (contractGas gas : Nat) :
    createSpec env contractGas gas = some (gas + if env.eip150 then
      (contractGas - gas) - (contractGas - gas) / 64 else contractGas - gas) := by
  unfold createSpec
  rw [createGasEip150_eq]
  rfl

/-! ## gas 関数ごとに -/

section gasFuncs
variable {env : GasEnv} {cg : Nat} {st : Stack} {mem : Memory} {ms cgt : Nat}

theorem gasExp_exact (expByte : Nat) :
    GasExact (gasExp expByte st) (some ((bitLen (st.Back 1) + 7) / 8 * expByte + ExpGas)) :=
  checked_SafeAdd_exact _ _

theorem memoryCopierGas_exact (hm : mem.Inv) (k : Nat) :
    GasExact (memoryCopierGas k st mem ms cgt).result
      (some (expansionFee mem ms + wordFee (st.Back k) CopyGas)) := by
  have hr := memoryGasCost_exact hm ms
  unfold memoryCopierGas
  revert hr
  cases memoryGasCost mem ms with
  | mk m' r =>
    intro hr
    exact hr.bind fun _ => wordFee_exact _ _ fun _ => checked_SafeAdd_exact _ _

theorem memoryWordGas_exact (hm : mem.Inv) (k : Nat) :
    GasExact (memoryWordGas k st mem ms cgt).result
      (some (expansionFee mem ms + wordFee (st.Back k) Sha3WordGas)) := by
  have hr := memoryGasCost_exact hm ms
  unfold memoryWordGas
  revert hr
  cases memoryGasCost mem ms with
  | mk m' r =>
    intro hr
    exact hr.bind fun _ => wordFee_exact _ _ fun _ => checked_SafeAdd_exact _ _

theorem pureMemoryGascost_exact (hm : mem.Inv) :
    GasExact (pureMemoryGascost mem ms cgt).result (some (expansionFee mem ms)) := by
  have hr := memoryGasCost_exact hm ms
  unfold pureMemoryGascost
  revert hr
  cases memoryGasCost mem ms with
  | mk m' r => exact id

/-- `makeGasLog` は長さの word を先に確かめ、memory、topic、data の順に足す。 -/
theorem makeGasLog_exact (hm : mem.Inv) (n : Nat) :
    GasExact (makeGasLog n st mem ms cgt).result
      (some (expansionFee mem ms + LogGas + n * LogTopicGas + st.Back 1 * LogDataGas)) := by
  have hr := memoryGasCost_exact hm ms
  unfold makeGasLog
  rcases guard_cases _ (uint64_guard (st.Back 1)) with hp | ⟨hp, -⟩ <;> rw [hp]
  · exact gasExact_overflow _
  dsimp only
  revert hr
  cases memoryGasCost mem ms with
  | mk m' r =>
    intro hr
    exact hr.bind fun _ => (checked_SafeAdd_exact _ _).bind fun _ =>
      (checked_SafeAdd_exact _ _).bind fun _ =>
        (checked_SafeMul_exact _ _).bind fun _ => checked_SafeAdd_exact _ _

theorem gasCreate_exact (hcg : cg < 2 ^ 64) (hm : mem.Inv) :
    GasExact (gasCreate env cg mem ms cgt).result (createSpec env cg (expansionFee mem ms)) := by
  unfold gasCreate
  rcases memoryGasCost_cases hm ms with ⟨m', hc⟩ | ⟨m', hc, -⟩ <;> rw [hc]
  · exact gasExact_overflow _
  dsimp only
  -- 残り `cg - gas` から子の gas を決める
  rcases guard_cases _ (SafeSub_guard hcg (expansionFee mem ms)) with hp | ⟨hp, -⟩ <;> rw [hp]
  · exact gasExact_overflow _
  dsimp only
  rw [createSpec_eq]
  simp only [Bool.false_eq_true, if_false, createGasEip150_eq]
  exact checked_SafeAdd_exact _ _

/-- `gasCreate2` は、memory の gas に初期化 code の hash の gas を足してから、残りを決める。 -/
theorem gasCreate2_exact (hcg : cg < 2 ^ 64) (hm : mem.Inv) :
    GasExact (gasCreate2 env cg st mem ms cgt).result
      (createSpec env cg (expansionFee mem ms + wordFee (st.Back 2) Sha3WordGas)) := by
  unfold gasCreate2
  rcases memoryGasCost_cases hm ms with ⟨m', hc⟩ | ⟨m', hc, -⟩ <;> rw [hc]
  · exact gasExact_overflow _
  dsimp only
  rcases guard_cases _ (uint64_guard (st.Back 2)) with hp | ⟨hp, hw⟩ <;> rw [hp]
  · exact gasExact_overflow _
  dsimp only
  simp only [Bool.false_eq_true, if_false, toWordSize_of_le_max hw]
  rcases guard_cases _ (SafeMul_guard ((st.Back 2 + 31) / 32) Sha3WordGas) with hp | ⟨hp, -⟩ <;>
    rw [hp]
  · exact gasExact_overflow _
  dsimp only
  simp only [Bool.false_eq_true, if_false]
  rcases guard_cases _ (SafeAdd_guard (expansionFee mem ms) ((st.Back 2 + 31) / 32 * Sha3WordGas))
    with hp | ⟨hp, -⟩ <;> rw [hp]
  · exact gasExact_overflow _
  dsimp only
  simp only [Bool.false_eq_true, if_false]
  rcases guard_cases _ (SafeSub_guard hcg (expansionFee mem ms + (st.Back 2 + 31) / 32 * Sha3WordGas))
    with hp | ⟨hp, -⟩ <;> rw [hp]
  · exact gasExact_overflow _
  dsimp only
  rw [createSpec_eq]
  simp only [Bool.false_eq_true, if_false, createGasEip150_eq]
  exact checked_SafeAdd_exact _ _

/-- `callGas` の誤りは `ErrGasUintOverflow` だけ。 -/
theorem callGas_failsOnly (isEip150 : Bool) (availableGas base : Nat) (callCost : Word) :
    FailsOnly (callGas isEip150 availableGas base callCost) (· = .ErrGasUintOverflow) := by
  intro e he
  simp only [callGas] at he
  split at he
  · cases he
  · split at he
    · cases he
      rfl
    · cases he

/--
`availableGas - base` が回り込まなければ（EIP-150 の前か、`base ≤ availableGas`）、`callGas` の
値は上限のない計算の値。
-/
theorem callGas_eq_spec {isEip150 : Bool} {availableGas base g : Nat} {callCost : Word}
    (ha : availableGas < 2 ^ 64) (hw : isEip150 = true → base ≤ availableGas)
    (h : callGas isEip150 availableGas base callCost = .ok g) :
    (g : Int) = callGasSpec isEip150 availableGas base callCost := by
  unfold callGas at h
  cases isEip150 with
  | false =>
    -- EIP-150 の前は、uint64 に収まる `callCost` をそのまま返す
    simp only [Bool.false_and, Bool.false_eq_true, if_false] at h
    split at h
    · cases h
    · rename_i hu
      have hlt : callCost < 2 ^ 64 := by simpa [isUint64] using hu
      cases h
      simp only [callGasSpec, Bool.false_eq_true, if_false]
      rw [Nat.mod_eq_of_lt hlt]
  | true =>
    have hb := hw rfl
    have hsub : sub64 availableGas base = availableGas - base := by
      unfold sub64
      omega
    -- 回り込まない残りの 63/64 は、上限のない計算の第一の候補に等しい
    have hfirst : ((availableGas : Int) - base - ((availableGas : Int) - base).tdiv 64) =
        ((availableGas - base - (availableGas - base) / 64 : Nat) : Int) := by
      rw [Int.tdiv_eq_ediv_of_nonneg (by omega)]
      omega
    have hlt64 : availableGas - base - (availableGas - base) / 64 < 2 ^ 64 := by omega
    simp only [callGasSpec, if_true, hfirst]
    simp only [Bool.true_and, hsub, isUint64, Bool.or_eq_true, decide_eq_false_iff_not,
      decide_eq_true_eq, Bool.not_eq_eq_eq_not, Bool.not_true] at h
    split at h
    · -- 残りの 63/64 が `callCost` より小さい
      rename_i hc
      cases h
      have hlt : availableGas - base - (availableGas - base) / 64 < callCost := by
        rcases hc with hc | hc
        · exact Nat.lt_of_lt_of_le hlt64 (Nat.le_of_not_lt hc)
        · exact Nat.lt_of_lt_of_le hc (Nat.mod_le _ _)
      rw [min_eq_left (by exact_mod_cast hlt.le)]
    · -- uint64 の `callCost` が残りの 63/64 以下
      rename_i hc
      split at h
      · cases h
      · rename_i hu
        have hu : callCost < 2 ^ 64 := by simpa using hu
        cases h
        rw [Nat.mod_eq_of_lt hu] at hc ⊢
        have hle : callCost ≤ availableGas - base - (availableGas - base) / 64 :=
          Nat.le_of_not_lt fun hlt => hc (.inr hlt)
        rw [min_eq_right (by exact_mod_cast hle)]

/--
呼び出しの後半：`callGas` の誤りは `ErrGasUintOverflow` だけで、値を返せば `base` にそれを
足す。回り込まなければ上限のない額、回り込めば `base` 以上で contract の gas を超える額になる。
-/
theorem callTail_exact (hcg : cg < 2 ^ 64) (base : Nat) :
    GasExactOrAbove (env.eip150 = true) cg (callTail env cg st mem base).result
      (callSpec env cg st base) := by
  unfold callTail
  have hf := callGas_failsOnly env.eip150 cg base (st.Back 0)
  rcases hcall : callGas env.eip150 cg base (st.Back 0) with e | v
  · rw [hf e hcall]
    exact (gasExact_overflow _).orAbove _ cg
  · obtain ⟨hfail, hok⟩ := checked_SafeAdd_exact base v
    refine ⟨hfail, fun c hc => ?_⟩
    obtain ⟨hcv, hle⟩ := hok c hc
    cases hcv
    refine ⟨?_, hle⟩
    by_cases hw : env.eip150 = true → base ≤ cg
    · left
      have hv := callGas_eq_spec hcg hw hcall
      rw [callSpec, ← hv]
      rfl
    · -- EIP-150 の下で `base` が contract の gas を超える：回り込んだ額
      right
      obtain ⟨he, hlt⟩ : env.eip150 = true ∧ cg < base := by simpa using hw
      exact ⟨he, by omega⟩

/-- memory の gas に `gas` を足してから、呼び出しの後半に渡す。 -/
theorem callAfterMemory_exact (hcg : cg < 2 ^ 64) (hm : mem.Inv) (gas : Nat) :
    GasExactOrAbove (env.eip150 = true) cg
      (match (memoryGasCost mem ms).2 with
        | .error err => GasResult.fail (memoryGasCost mem ms).1 cgt err
        | .ok memoryGas =>
          match checked (SafeAdd gas memoryGas) with
          | .error err => GasResult.fail (memoryGasCost mem ms).1 cgt err
          | .ok gas => callTail env cg st (memoryGasCost mem ms).1 gas).result
      (callSpec env cg st (gas + expansionFee mem ms)) := by
  rcases memoryGasCost_cases hm ms with ⟨m', hc⟩ | ⟨m', hc, -⟩ <;> rw [hc]
  · exact (gasExact_overflow _).orAbove _ cg
  dsimp only
  rcases checked_cases _ (SafeAdd_guard gas (expansionFee mem ms)) with hp | ⟨hp, -⟩ <;> rw [hp]
  · exact (gasExact_overflow _).orAbove _ cg
  dsimp only
  exact callTail_exact hcg _

theorem gasCall_exact (hcg : cg < 2 ^ 64) (hm : mem.Inv) :
    GasExactOrAbove (env.eip150 = true) cg (gasCall env cg st mem ms cgt).result
      (callSpec env cg st (callValueGas env st + expansionFee mem ms)) := by
  have := @callAfterMemory_exact env cg st mem ms cgt hcg hm
    (callValueGas env st)
  unfold gasCall
  revert this
  cases memoryGasCost mem ms with
  | mk m' r => exact id

theorem gasCallCode_exact (hcg : cg < 2 ^ 64) (hm : mem.Inv) :
    GasExactOrAbove (env.eip150 = true) cg (gasCallCode env cg st mem ms cgt).result
      (callSpec env cg st ((if st.Back 2 ≠ 0 then CallValueTransferGas else 0) +
        expansionFee mem ms)) := by
  have := @callAfterMemory_exact env cg st mem ms cgt hcg hm
    (if st.Back 2 ≠ 0 then CallValueTransferGas else 0)
  unfold gasCallCode
  revert this
  cases memoryGasCost mem ms with
  | mk m' r => exact id

theorem gasDelegateCall_exact (hcg : cg < 2 ^ 64) (hm : mem.Inv) :
    GasExactOrAbove (env.eip150 = true) cg (gasDelegateCall env cg st mem ms cgt).result
      (callSpec env cg st (expansionFee mem ms)) := by
  unfold gasDelegateCall
  rcases memoryGasCost_cases hm ms with ⟨m', hc⟩ | ⟨m', hc, -⟩ <;> rw [hc]
  · exact (gasExact_overflow _).orAbove _ cg
  dsimp only
  exact callTail_exact hcg _

end gasFuncs

/-- 口座の無い、EIP-150 の前の環境。 -/
def frontierGasEnv : GasEnv :=
  ⟨false, false, fun _ => true, fun _ => false, fun _ _ _ => .ok 0⟩

example : (dynamicGasOf frontierGasEnv 100 ⟨[0, 64]⟩ Memory.New 64 0 .gasSha3).result = .ok 18 := by
  decide

/-- EIP-150 の後の、どの口座もある環境。 -/
def eip150GasEnv : GasEnv :=
  ⟨true, false, fun _ => false, fun _ => true, fun _ _ _ => .ok 0⟩

end Vm
