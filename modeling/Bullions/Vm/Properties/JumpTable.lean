import Bullions.Vm.JumpTable
import Bullions.Lib.ExceptSpec

/-!
# `instructionSetForConfig` が panic する設定

`instructionSetForConfig` は、書き換える命令が表にあることを確かめない。Frontier の表に
ない命令のうち、書き換えられるのは二つである。

* EIP-150 の段は DELEGATECALL の `constantGas` を書き換える。DELEGATECALL は EIP-7 の段で
  しか入らない
* EIP-1884 の段（`enable1884`）は EXTCODEHASH の `constantGas` を書き換える。EXTCODEHASH は
  EIP-1052 の段でしか入らない

他の書き換え（BALANCE、EXTCODESIZE、SLOAD、EXTCODECOPY、CALL、CALLCODE、EXP、SSTORE）は
Frontier の表にあり、どの段も命令を消さないので、いつも成功する。

`instructionSetForConfig_ok_iff` は、表が作られるのがちょうど「EIP-150 なら EIP-7、EIP-1884
なら EIP-1052 も有効」のときであることを言う。`IsValid` は fork の順序を見ないので、
EIP-150 だけを有効にした設定も通り、その設定で表を作ると panic する。
-/

namespace Vm

open Params ExceptSpec

namespace JumpTable

/-- `jt[op]` が nil でない。 -/
def Defined (jt : JumpTable) (op : OpCode) : Prop := (jt op).isSome = true

instance (jt : JumpTable) (op : OpCode) : Decidable (Defined jt op) :=
  inferInstanceAs (Decidable ((jt op).isSome = true))

/-- `jt` で定義された命令は `jt'` でも定義されている。 -/
def Grows (jt jt' : JumpTable) : Prop := ∀ op, Defined jt op → Defined jt' op

theorem Grows.refl (jt : JumpTable) : Grows jt jt := fun _ h => h

theorem Grows.trans {jt₁ jt₂ jt₃ : JumpTable} (h₁ : Grows jt₁ jt₂) (h₂ : Grows jt₂ jt₃) :
    Grows jt₁ jt₃ := fun op h => h₂ op (h₁ op h)

theorem defined_set_iff {jt : JumpTable} {op op' : OpCode} {o : Operation} :
    Defined (jt.set op o) op' ↔ op' = op ∨ Defined jt op' := by
  by_cases h : op' = op <;> simp [Defined, h]

theorem grows_set (jt : JumpTable) (op : OpCode) (o : Operation) : Grows jt (jt.set op o) :=
  fun _ h => defined_set_iff.mpr (.inr h)

/-- 成功した `modify` は、定義された命令の集合を変えない。 -/
theorem defined_modify {jt jt' : JumpTable} {op : OpCode} {f : Operation → Operation}
    (h : jt.modify op f = .ok jt') (op' : OpCode) : Defined jt' op' ↔ Defined jt op' := by
  cases hop : jt op with
  | none => rw [modify_of_none hop] at h; cases h
  | some o =>
    rw [modify_of_some hop, Except.ok.injEq] at h
    subst h
    rw [defined_set_iff]
    by_cases h' : op' = op
    · subst h'
      simp [Defined, hop]
    · simp [h']

/-- 定義された命令の集合が同じ。 -/
def SameDefined (jt jt' : JumpTable) : Prop := ∀ op, Defined jt' op ↔ Defined jt op

theorem SameDefined.grows {jt jt' : JumpTable} (h : SameDefined jt jt') : Grows jt jt' :=
  fun op hop => (h op).mpr hop

/-! ## `modifyAll`：書き換えの列 -/

section modifyAll
variable {jt : JumpTable} {edits : List (OpCode × (Operation → Operation))}

/-- 書き換えの列は、成功すれば定義された命令の集合を変えない。 -/
theorem modifyAll_okThen : OkThen (jt.modifyAll edits) (SameDefined jt) := by
  induction edits generalizing jt with
  | nil => exact okThen_ok fun _ => Iff.rfl
  | cons e edits ih =>
    rw [modifyAll, List.foldlM_cons]
    refine OkThen.bind (P := SameDefined jt) (fun jt' h => defined_modify h) ?_
    intro jt' hjt' jt'' hjt''
    exact fun op => (ih jt'' hjt'' op).trans (hjt' op)

/-- 書き換える命令がすべて定義されていれば、書き換えの列は成功する。 -/
theorem modifyAll_okWith (h : ∀ e ∈ edits, Defined jt e.1) :
    OkWith (jt.modifyAll edits) (SameDefined jt) := by
  induction edits generalizing jt with
  | nil => exact okWith_ok fun _ => Iff.rfl
  | cons e edits ih =>
    obtain ⟨o, ho⟩ := Option.isSome_iff_exists.mp (h e List.mem_cons_self)
    have hsame : SameDefined jt (jt.set e.1 (e.2 o)) := defined_modify (modify_of_some ho e.2)
    rw [modifyAll, List.foldlM_cons, modify_of_some ho, ok_bind]
    refine (ih fun e' he' => (hsame e'.1).mpr (h e' (List.mem_cons_of_mem e he'))).mono ?_
    exact fun jt' hjt' op => (hjt' op).trans (hsame op)

/-- 定義されていない命令を書き換えようとすると、書き換えの列は panic する。 -/
theorem modifyAll_error (h : ∃ e ∈ edits, ¬Defined jt e.1) :
    jt.modifyAll edits = .error .nilPointerDereference := by
  induction edits generalizing jt with
  | nil => simp at h
  | cons e edits ih =>
    rw [modifyAll, List.foldlM_cons]
    cases ho : jt e.1 with
    | none => rw [modify_of_none ho, error_bind]
    | some o =>
      have hsame : SameDefined jt (jt.set e.1 (e.2 o)) := defined_modify (modify_of_some ho e.2)
      rw [modify_of_some ho, ok_bind]
      obtain ⟨e', he', hne⟩ := h
      rcases List.mem_cons.mp he' with rfl | he'
      · simp [Defined, ho] at hne
      · exact ih ⟨e', he', fun hd => hne ((hsame e'.1).mp hd)⟩

/-- 書き換えの列は、定義されていない命令を定義しない。 -/
theorem modifyAll_okThen_not_defined {op : OpCode} (h : ¬Defined jt op) :
    OkThen (jt.modifyAll edits) (¬Defined · op) :=
  modifyAll_okThen.mono fun _ hs hd => h ((hs op).mp hd)

end modifyAll

end JumpTable

open JumpTable

/-! ## `onlyIf` の段 -/

section onlyIf
variable {c : Bool} {edit : JumpTable → Except RuntimeError JumpTable} {P : JumpTable → Prop}

/-- 命令が増えても崩れない性質。 -/
def UpClosed (P : JumpTable → Prop) : Prop := ∀ jt jt', P jt → Grows jt jt' → P jt'

/-- 有効なら成功して命令を減らさない段は、命令が増えても崩れない性質を保つ。 -/
theorem onlyIf_okWith (hP : UpClosed P)
    (h : c = true → ∀ jt, P jt → OkWith (edit jt) (Grows jt)) :
    ∀ jt, P jt → OkWith (onlyIf c edit jt) P := by
  intro jt hjt
  unfold onlyIf
  split
  · exact (h ‹_› jt hjt).mono fun jt' hg => hP jt jt' hjt hg
  · exact okWith_ok hjt

/-- 有効なら `P` を保つ段は、`P` を保つ。 -/
theorem onlyIf_okThen (h : c = true → ∀ jt, P jt → OkThen (edit jt) P) :
    ∀ jt, P jt → OkThen (onlyIf c edit jt) P := by
  intro jt hjt
  unfold onlyIf
  split
  · exact h ‹_› jt hjt
  · exact okThen_ok hjt

/-- 命令を足すだけの段は、命令が増えても崩れない性質を保つ。 -/
theorem onlyIf_set_okWith (hP : UpClosed P) {g : JumpTable → JumpTable}
    (hg : ∀ jt, Grows jt (g jt)) : ∀ jt, P jt → OkWith (onlyIf c (fun jt => .ok (g jt)) jt) P :=
  onlyIf_okWith hP fun _ jt _ => okWith_ok (hg jt)

/-- 命令 `op` を足さない段は、`op` がないことを保つ。 -/
theorem onlyIf_set_okThen {g : JumpTable → JumpTable} {op : OpCode}
    (hg : ∀ jt, ¬Defined jt op → ¬Defined (g jt) op) :
    ∀ jt, ¬Defined jt op → OkThen (onlyIf c (fun jt => .ok (g jt)) jt) (¬Defined · op) :=
  onlyIf_okThen fun _ jt hjt => okThen_ok (hg jt hjt)

end onlyIf

theorem not_defined_set {jt : JumpTable} {op op' : OpCode} {o : Operation} (hne : op ≠ op')
    (h : ¬Defined jt op) : ¬Defined (jt.set op' o) op := by
  rw [defined_set_iff]
  exact fun h' => h'.elim hne h

/-! ## Frontier の表 -/

/-- Frontier の表にあって、どこかの段で書き換えられる命令。 -/
def frontierPatched : List OpCode :=
  [BALANCE, EXTCODESIZE, SLOAD, EXTCODECOPY, CALL, CALLCODE, EXP, SSTORE]

theorem frontierPatched_defined : ∀ op ∈ frontierPatched, Defined newBaseInstructionSet op := by
  -- 八つの命令を一つずつ表で引く
  simp only [frontierPatched, List.forall_mem_cons, List.not_mem_nil, false_imp_iff, forall_const,
    and_true]
  decide

theorem delegateCall_not_defined : ¬Defined newBaseInstructionSet DELEGATECALL := by decide

theorem extCodeHash_not_defined : ¬Defined newBaseInstructionSet EXTCODEHASH := by decide

/-! ## 段ごとの性質 -/

section stages
variable {jt : JumpTable}

theorem tangerineWhistleGas_okWith (h : ∀ op ∈ frontierPatched, Defined jt op)
    (hd : Defined jt DELEGATECALL) : OkWith (tangerineWhistleGas jt) (Grows jt) := by
  refine (modifyAll_okWith ?_).mono fun _ h => h.grows
  -- DELEGATECALL の他は Frontier の表にある
  simp only [List.mem_cons, List.not_mem_nil, or_false, forall_eq_or_imp, forall_eq]
  exact ⟨h BALANCE (by decide), h EXTCODESIZE (by decide), h SLOAD (by decide),
    h EXTCODECOPY (by decide), h CALL (by decide), h CALLCODE (by decide), hd⟩

theorem tangerineWhistleGas_error (hd : ¬Defined jt DELEGATECALL) :
    tangerineWhistleGas jt = .error .nilPointerDereference :=
  modifyAll_error ⟨(DELEGATECALL, withConstantGas vars.CallGasEIP150), by simp, hd⟩

theorem enable1884_okWith (h : ∀ op ∈ frontierPatched, Defined jt op)
    (hh : Defined jt EXTCODEHASH) : OkWith (enable1884 jt) (Grows jt) := by
  have hedits : OkWith (jt.modifyAll [(BALANCE, withConstantGas vars.BalanceGasEIP1884),
      (EXTCODEHASH, withConstantGas vars.ExtcodeHashGasEIP1884),
      (SLOAD, withConstantGas vars.SloadGasEIP1884)]) (Grows jt) := by
    refine (modifyAll_okWith ?_).mono fun _ h => h.grows
    simp only [List.mem_cons, List.not_mem_nil, or_false, forall_eq_or_imp, forall_eq]
    exact ⟨h BALANCE (by decide), hh, h SLOAD (by decide)⟩
  exact hedits.bind fun jt' hg => okWith_ok (hg.trans (grows_set _ _ _))

theorem enable1884_error (hh : ¬Defined jt EXTCODEHASH) :
    enable1884 jt = .error .nilPointerDereference := by
  have hedits : jt.modifyAll [(BALANCE, withConstantGas vars.BalanceGasEIP1884),
      (EXTCODEHASH, withConstantGas vars.ExtcodeHashGasEIP1884),
      (SLOAD, withConstantGas vars.SloadGasEIP1884)] = .error .nilPointerDereference :=
    modifyAll_error ⟨(EXTCODEHASH, withConstantGas vars.ExtcodeHashGasEIP1884), by simp, hh⟩
  simp only [enable1884, bind, hedits]
  rfl

theorem enable2200_okWith (h : ∀ op ∈ frontierPatched, Defined jt op) :
    OkWith (enable2200 jt) (Grows jt) := by
  refine (modifyAll_okWith ?_).mono fun _ h => h.grows
  simp only [List.mem_cons, List.not_mem_nil, or_false, forall_eq_or_imp, forall_eq]
  exact ⟨h SLOAD (by decide), h SSTORE (by decide)⟩

end stages

/-! ## 表が作られる条件 -/

section config
variable (config : ChainConfigurator) (bn : Option Int)

/--
EIP-150 なら EIP-7 も、EIP-1884 なら EIP-1052 も有効なら、`instructionSetForConfig` は表を
返し、その表は Frontier の命令をすべて持つ。
-/
theorem instructionSetForConfig_okWith
    (h150 : config.IsEnabled config.GetEIP150Transition bn = true →
      config.IsEnabled config.GetEIP7Transition bn = true)
    (h1884 : config.IsEnabled config.GetEIP1884Transition bn = true →
      config.IsEnabled config.GetEIP1052Transition bn = true) :
    OkWith (instructionSetForConfig config bn) (Grows newBaseInstructionSet) := by
  -- EIP-1052 の段より前の不変条件と、その段から後の不変条件
  let Inv : JumpTable → Prop := fun jt => Grows newBaseInstructionSet jt ∧
    (config.IsEnabled config.GetEIP7Transition bn = true → Defined jt DELEGATECALL)
  let Inv' : JumpTable → Prop := fun jt => Inv jt ∧
    (config.IsEnabled config.GetEIP1052Transition bn = true → Defined jt EXTCODEHASH)
  have hInv : UpClosed Inv := fun _ _ h hg => ⟨h.1.trans hg, fun he => hg _ (h.2 he)⟩
  have hInv' : UpClosed Inv' := fun _ _ h hg => ⟨hInv _ _ h.1 hg, fun he => hg _ (h.2 he)⟩
  have patched : ∀ jt, Inv jt → ∀ op ∈ frontierPatched, Defined jt op :=
    fun _ h op hop => h.1 op (frontierPatched_defined op hop)
  unfold instructionSetForConfig
  refine OkWith.mono (P := Inv') ?_ fun _ h => h.1.1
  -- EIP-2200、ECIP-1080、EIP-1884、EIP-1344
  refine OkWith.bind ?_ (onlyIf_okWith hInv' fun _ jt h => enable2200_okWith (patched jt h.1))
  refine OkWith.bind ?_ (onlyIf_set_okWith hInv' fun _ => grows_set _ _ _)
  refine OkWith.bind ?_ (onlyIf_okWith hInv' fun he jt h =>
    enable1884_okWith (patched jt h.1) (h.2 (h1884 he)))
  refine OkWith.bind ?_ (onlyIf_set_okWith hInv' fun _ => grows_set _ _ _)
  -- EIP-1052：ここから EXTCODEHASH がある
  refine OkWith.bind (P := Inv) ?_ fun jt h => ?_
  · -- EIP-1014 から EIP-7 まで
    refine OkWith.bind ?_ (onlyIf_set_okWith hInv fun _ => grows_set _ _ _)
    refine OkWith.bind ?_ (onlyIf_set_okWith hInv fun _ =>
      ((grows_set _ _ _).trans (grows_set _ _ _)).trans (grows_set _ _ _))
    refine OkWith.bind ?_ (onlyIf_set_okWith hInv fun _ => (grows_set _ _ _).trans (grows_set _ _ _))
    refine OkWith.bind ?_ (onlyIf_set_okWith hInv fun _ => grows_set _ _ _)
    refine OkWith.bind ?_ (onlyIf_set_okWith hInv fun _ => grows_set _ _ _)
    refine OkWith.bind ?_ (onlyIf_okWith hInv fun _ jt h =>
      (modifyAll_okWith (by simpa using patched jt h EXP (by decide))).mono fun _ h => h.grows)
    refine OkWith.bind ?_ (onlyIf_okWith hInv fun he jt h =>
      tangerineWhistleGas_okWith (patched jt h) (h.2 (h150 he)))
    rw [ok_bind]
    unfold onlyIf
    split
    · exact okWith_ok ⟨grows_set _ _ _, fun _ => defined_set_iff.mpr (.inl rfl)⟩
    · exact okWith_ok ⟨Grows.refl _, fun he => absurd he ‹_›⟩
  · unfold onlyIf
    split
    · exact okWith_ok ⟨hInv _ _ h (grows_set _ _ _), fun _ => defined_set_iff.mpr (.inl rfl)⟩
    · exact okWith_ok ⟨h, fun he => absurd he ‹_›⟩

/-- EIP-7 なしに EIP-150 を有効にすると、DELEGATECALL を書き換えようとして panic する。 -/
theorem instructionSetForConfig_error_of_eip150
    (h150 : config.IsEnabled config.GetEIP150Transition bn = true)
    (h7 : config.IsEnabled config.GetEIP7Transition bn = false) :
    instructionSetForConfig config bn = .error .nilPointerDereference := by
  unfold instructionSetForConfig
  -- EIP-160 から後の段は、誤りをそのまま伝える
  iterate 11 refine bind_of_error ?_ _
  rw [ok_bind]
  unfold onlyIf
  rw [h7, if_neg Bool.false_ne_true, ok_bind, h150, if_pos rfl]
  exact tangerineWhistleGas_error delegateCall_not_defined

/-- EIP-1052 なしに EIP-1884 を有効にすると、EXTCODEHASH を書き換えようとして panic する。 -/
theorem instructionSetForConfig_error_of_eip1884
    (h1884 : config.IsEnabled config.GetEIP1884Transition bn = true)
    (h1052 : config.IsEnabled config.GetEIP1052Transition bn = false) :
    instructionSetForConfig config bn = .error .nilPointerDereference := by
  -- EXTCODEHASH が入らないまま EIP-1884 の段に着く
  have keep : ∀ {op : OpCode} {o : Operation}, op ≠ EXTCODEHASH → ∀ jt : JumpTable,
      ¬Defined jt EXTCODEHASH → ¬Defined (jt.set op o) EXTCODEHASH :=
    fun hne _ h => not_defined_set (Ne.symm hne) h
  unfold instructionSetForConfig
  refine bind_of_error ?_ _
  refine bind_of_error ?_ _
  refine OkThen.bind_error (P := (¬Defined · EXTCODEHASH)) ?_ (fun jt h => ?_) fun e _ => ?_
  rotate_left
  · unfold onlyIf
    rw [if_pos h1884]
    exact enable1884_error h
  · cases e
    rfl
  -- EIP-1344 から EIP-7 までの段
  refine OkThen.bind ?_ (onlyIf_set_okThen fun jt => keep (by decide) jt)
  refine OkThen.bind ?_ (onlyIf_okThen fun he => by rw [h1052] at he; cases he)
  refine OkThen.bind ?_ (onlyIf_set_okThen fun jt => keep (by decide) jt)
  refine OkThen.bind ?_ (onlyIf_set_okThen fun jt h =>
    keep (by decide) _ (keep (by decide) _ (keep (by decide) jt h)))
  refine OkThen.bind ?_ (onlyIf_set_okThen fun jt h => keep (by decide) _ (keep (by decide) jt h))
  refine OkThen.bind ?_ (onlyIf_set_okThen fun jt => keep (by decide) jt)
  refine OkThen.bind ?_ (onlyIf_set_okThen fun jt => keep (by decide) jt)
  refine OkThen.bind ?_ (onlyIf_okThen fun _ _ h => modifyAll_okThen_not_defined h)
  refine OkThen.bind ?_ (onlyIf_okThen fun _ _ h => modifyAll_okThen_not_defined h)
  refine OkThen.bind (okThen_ok extCodeHash_not_defined) (onlyIf_set_okThen fun jt => keep (by decide) jt)

/--
`instructionSetForConfig` が表を返すのは、ちょうど EIP-150 なら EIP-7 も、EIP-1884 なら
EIP-1052 も有効なときである。それ以外の設定では、nil の要素を書き換えて panic する。
-/
theorem instructionSetForConfig_ok_iff :
    (∃ jt, instructionSetForConfig config bn = .ok jt) ↔
      (config.IsEnabled config.GetEIP150Transition bn = true →
        config.IsEnabled config.GetEIP7Transition bn = true) ∧
      (config.IsEnabled config.GetEIP1884Transition bn = true →
        config.IsEnabled config.GetEIP1052Transition bn = true) := by
  constructor
  · rintro ⟨jt, hjt⟩
    refine ⟨fun h150 => ?_, fun h1884 => ?_⟩
    · cases h7 : config.IsEnabled config.GetEIP7Transition bn with
      | false =>
        rw [instructionSetForConfig_error_of_eip150 config bn h150 h7] at hjt
        cases hjt
      | true => rfl
    · cases h1052 : config.IsEnabled config.GetEIP1052Transition bn with
      | false =>
        rw [instructionSetForConfig_error_of_eip1884 config bn h1884 h1052] at hjt
        cases hjt
      | true => rfl
  · rintro ⟨h150, h1884⟩
    obtain ⟨jt, hjt, -⟩ := instructionSetForConfig_okWith config bn h150 h1884
    exact ⟨jt, hjt⟩

end config

/-! ## 要素ごとの性質

`All p jt` は表のどの要素も `p` を満たすことを言う。命令を足す段は足す要素が `p` を満たせば、
書き換える段は書き換えが `p` を保てば、`All p` を保つ。
-/

namespace JumpTable

/-- 表のどの要素も `p` を満たす。 -/
def All (p : OpCode → Operation → Prop) (jt : JumpTable) : Prop :=
  ∀ op o, jt op = some o → p op o

section All
variable {p : OpCode → Operation → Prop} {jt : JumpTable}

theorem all_ofList {entries : List (OpCode × Operation)} (h : ∀ e ∈ entries, p e.1 e.2) :
    All p (ofList entries) := by
  intro op o ho
  induction entries with
  | nil => cases ho
  | cons e entries ih =>
    obtain ⟨k, v⟩ := e
    by_cases hk : op = k
    · subst hk
      have hv : v = o := by simpa [ofList, List.lookup] using ho
      subst hv
      exact h _ List.mem_cons_self
    · refine ih (fun e he => h e (List.mem_cons_of_mem _ he)) ?_
      have hne : (op == k) = false := by simpa using hk
      simpa [ofList, List.lookup, hne] using ho

theorem All.set (h : All p jt) {op : OpCode} {o : Operation} (ho : p op o) : All p (jt.set op o) := by
  intro op' o' ho'
  rw [set_apply] at ho'
  split at ho'
  · cases ho'
    subst op'
    exact ho
  · exact h op' o' ho'

/-- 書き換え `f` が `op` の要素について `p` を保てば、`modify` は `All p` を保つ。 -/
theorem All.modify (h : All p jt) {op : OpCode} {f : Operation → Operation}
    (hf : ∀ o, p op o → p op (f o)) : OkThen (jt.modify op f) (All p) := by
  cases hop : jt op with
  | none => rw [modify_of_none hop]; exact okThen_error _ _
  | some o => rw [modify_of_some hop]; exact okThen_ok (h.set (hf o (h op o hop)))

theorem All.modifyAll (h : All p jt) {edits : List (OpCode × (Operation → Operation))}
    (hf : ∀ e ∈ edits, ∀ o, p e.1 o → p e.1 (e.2 o)) : OkThen (jt.modifyAll edits) (All p) := by
  induction edits generalizing jt with
  | nil => exact okThen_ok h
  | cons e edits ih =>
    rw [modifyAll, List.foldlM_cons]
    refine OkThen.bind (h.modify (hf e List.mem_cons_self)) fun jt' h' => ?_
    exact ih h' fun e' he' => hf e' (List.mem_cons_of_mem _ he')

end All

end JumpTable

/-- EIP-150 だけを block 0 から有効にした設定。NetworkID は 1 で、EIP-155 は有効にしない。 -/
def tangerineOnlyConfig : ChainConfigurator where
  GetNetworkID := some 1
  GetChainID := none
  GetEIP155Transition := none
  GetEIP7Transition := none
  GetEIP150Transition := some 0
  GetEIP160Transition := none
  GetEIP140Transition := none
  GetEIP214Transition := none
  GetEIP211Transition := none
  GetEIP145Transition := none
  GetEIP1014Transition := none
  GetEIP1052Transition := none
  GetEIP1344Transition := none
  GetEIP1884Transition := none
  GetECIP1080Transition := none
  GetEIP2200Transition := none
  GetEIP2200DisableTransition := none

/--
`IsValid` は `tangerineOnlyConfig` を受け入れるが、block 0 の命令表を作ると DELEGATECALL の
書き換えで panic する。
-/
theorem tangerineOnlyConfig_valid_but_panics :
    tangerineOnlyConfig.IsValid (some 0) = none ∧
      instructionSetForConfig tangerineOnlyConfig (some 0) = .error .nilPointerDereference :=
  ⟨by decide, instructionSetForConfig_error_of_eip150 _ _ (by decide) rfl⟩

end Vm
