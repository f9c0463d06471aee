import Bullions.Vm.Interpreter
import Bullions.Vm.Properties.JumpTable
import Bullions.Vm.Properties.Memory

/-!
# `NewEVMInterpreter` の命令表の要素の不変条件

`Run` は命令の field を互いに合わせて使う：memory の大きさ（`memorySize`）を求めた命令は、
その拡張の gas を動的な gas 関数で払い、CALL 系の命令は、子に渡す gas（`CallGasTemp`）を
決める gas 関数を持つことを前提にする。`EntryOk` はこの二つの組み合わせを言う。

表は `instructionSetForConfig` と `EnableEIP` の段でしか変わらず、どの段も、足す命令は
`EntryOk` を満たし、書き換え（`constantGas` と、EXP と SSTORE の gas 関数）は `EntryOk` を
保つ（`NewEVMInterpreterJumpTable_entryOk`）。
-/

namespace Vm

open Params ExceptSpec JumpTable

/-- CALL 系の命令が前提にする gas 関数：`evm.CallGasTemp` を決めるもの。 -/
def ExecutionFunc.callGas : ExecutionFunc → Option GasFunc
  | .opCall => some .gasCall
  | .opCallCode => some .gasCallCode
  | .opDelegateCall => some .gasDelegateCall
  | .opStaticCall => some .gasStaticCall
  | .opCreate => some .gasCreate
  | .opCreate2 => some .gasCreate2
  | _ => none

/-- memory の大きさを持つ命令は、memory を広げる gas 関数を持つ。 -/
def Operation.memoryPaired (o : Operation) : Bool :=
  match o.memorySize, o.dynamicGas with
  | none, _ => true
  | some _, some g => g.usesMemory
  | some _, none => false

/-- CALL 系の命令は、子に渡す gas を決める gas 関数を持つ。 -/
def Operation.callGasPaired (o : Operation) : Bool :=
  match o.execute.callGas with
  | none => true
  | some g => o.dynamicGas == some g

/-- 表の要素の不変条件：`memoryPaired` かつ `callGasPaired` であり、gas 関数を差し替えられる
EXP と SSTORE は memory の大きさを持たず、CALL 系の命令でもない。 -/
def EntryOk (op : OpCode) (o : Operation) : Prop :=
  o.memoryPaired = true ∧ o.callGasPaired = true ∧
    (op = EXP ∨ op = SSTORE → o.memorySize = none ∧ o.execute.callGas = none)

instance (op : OpCode) (o : Operation) : Decidable (EntryOk op o) :=
  inferInstanceAs (Decidable (_ ∧ _ ∧ _))

theorem entryOk_withConstantGas {op : OpCode} {o : Operation} (gas : Nat)
    (h : EntryOk op o) : EntryOk op (withConstantGas gas o) := h

theorem entryOk_withDynamicGas {op : OpCode} {o : Operation} (hop : op = EXP ∨ op = SSTORE)
    (g : GasFunc) (h : EntryOk op o) : EntryOk op (withDynamicGas g o) := by
  obtain ⟨hnone, hcall⟩ := h.2.2 hop
  refine ⟨?_, ?_, fun _ => ⟨hnone, hcall⟩⟩
  · simp [Operation.memoryPaired, withDynamicGas, hnone]
  · simp [Operation.callGasPaired, withDynamicGas, hcall]

set_option maxRecDepth 4000 in
theorem newBaseInstructionSet_entryOk : All EntryOk newBaseInstructionSet :=
  all_ofList (by decide)

section stages
variable {jt : JumpTable}

theorem tangerineWhistleGas_entryOk (h : All EntryOk jt) :
    OkThen (tangerineWhistleGas jt) (All EntryOk) := by
  refine h.modifyAll fun e he => ?_
  simp only [List.mem_cons, List.not_mem_nil, or_false] at he
  -- 七つとも `constantGas` の書き換え
  rcases he with rfl | rfl | rfl | rfl | rfl | rfl | rfl <;>
    exact fun _ => entryOk_withConstantGas _

theorem enable1884_entryOk (h : All EntryOk jt) : OkThen (enable1884 jt) (All EntryOk) := by
  unfold enable1884
  refine OkThen.bind (h.modifyAll fun e he => ?_) fun jt' h' => okThen_ok (h'.set (by decide))
  simp only [List.mem_cons, List.not_mem_nil, or_false] at he
  rcases he with rfl | rfl | rfl <;> exact fun _ => entryOk_withConstantGas _

theorem enable2200_entryOk (h : All EntryOk jt) : OkThen (enable2200 jt) (All EntryOk) := by
  refine h.modifyAll fun e he => ?_
  simp only [List.mem_cons, List.not_mem_nil, or_false] at he
  rcases he with rfl | rfl
  · exact fun _ => entryOk_withConstantGas _
  · exact fun _ => entryOk_withDynamicGas (.inr rfl) _

theorem enable2315_entryOk (h : All EntryOk jt) : All EntryOk (enable2315 jt) :=
  ((h.set (by decide)).set (by decide)).set (by decide)

end stages

/-- `instructionSetForConfig` の表は、どの設定でも `EntryOk` を満たす。 -/
theorem instructionSetForConfig_entryOk (config : ChainConfigurator) (bn : Option Int) :
    OkThen (instructionSetForConfig config bn) (All EntryOk) := by
  unfold instructionSetForConfig
  -- 外側の段から順に：どの段も、足す命令は不変条件を満たし、書き換えは不変条件を保つ
  refine OkThen.bind ?_ (onlyIf_okThen fun _ _ h => enable2200_entryOk h)
  refine OkThen.bind ?_ (onlyIf_okThen fun _ _ h => okThen_ok (h.set (by decide)))
  refine OkThen.bind ?_ (onlyIf_okThen fun _ _ h => enable1884_entryOk h)
  refine OkThen.bind ?_ (onlyIf_okThen fun _ _ h => okThen_ok (h.set (by decide)))
  refine OkThen.bind ?_ (onlyIf_okThen fun _ _ h => okThen_ok (h.set (by decide)))
  refine OkThen.bind ?_ (onlyIf_okThen fun _ _ h => okThen_ok (h.set (by decide)))
  refine OkThen.bind ?_ (onlyIf_okThen fun _ _ h =>
    okThen_ok (((h.set (by decide)).set (by decide)).set (by decide)))
  refine OkThen.bind ?_ (onlyIf_okThen fun _ _ h =>
    okThen_ok ((h.set (by decide)).set (by decide)))
  refine OkThen.bind ?_ (onlyIf_okThen fun _ _ h => okThen_ok (h.set (by decide)))
  refine OkThen.bind ?_ (onlyIf_okThen fun _ _ h => okThen_ok (h.set (by decide)))
  refine OkThen.bind ?_ (onlyIf_okThen fun _ _ h => h.modifyAll fun e he => ?_)
  · refine OkThen.bind ?_ (onlyIf_okThen fun _ _ h => tangerineWhistleGas_entryOk h)
    refine OkThen.bind (okThen_ok newBaseInstructionSet_entryOk) ?_
    exact onlyIf_okThen fun _ _ h => okThen_ok (h.set (by decide))
  · -- EIP-160：EXP の gas 関数の差し替え
    simp only [List.mem_singleton] at he
    subst he
    exact fun _ => entryOk_withDynamicGas (.inl rfl) _

theorem EnableEIP_entryOk {jt : JumpTable} (h : All EntryOk jt) (eipNum : Int) :
    OkThen (EnableEIP eipNum jt) fun r => ∀ jt', r = .ok jt' → All EntryOk jt' := by
  unfold EnableEIP activators
  split
  · exact okThen_ok fun _ h' => by cases h'
  · rename_i enablerFn henabler
    -- 四つの EIP の書き換えは、どれも不変条件を保つ
    have hfn : OkThen (enablerFn jt) (All EntryOk) := by
      split at henabler <;> cases henabler
      · exact enable2200_entryOk h
      · exact enable1884_entryOk h
      · exact okThen_ok (h.set (by decide))
      · exact okThen_ok (enable2315_entryOk h)
    intro r hr jt' hjt'
    subst hjt'
    cases hfj : enablerFn jt with
    | error e => rw [hfj] at hr; cases hr
    | ok jt'' =>
      rw [hfj] at hr
      cases hr
      exact hfn _ hfj

theorem enableEips_entryOk {jt : JumpTable} (h : All EntryOk jt) (eips : List Int) :
    OkThen (enableEips jt eips) (All EntryOk) := by
  induction eips generalizing jt with
  | nil => exact okThen_ok h
  | cons eip eips ih =>
    unfold enableEips
    rw [List.foldlM_cons]
    refine OkThen.bind (P := All EntryOk) ?_ fun jt' h' => ih h'
    intro jt' hjt'
    cases hE : EnableEIP eip jt with
    | error e => rw [hE] at hjt'; cases hjt'
    | ok r =>
      rw [hE] at hjt'
      cases hjt'
      -- 知らない EIP なら表はそのまま
      cases r with
      | ok jt'' => exact EnableEIP_entryOk h eip _ hE jt'' rfl
      | error _ => exact h

/-- `NewEVMInterpreter` の作る表は、どの設定と EIP の列でも `EntryOk` を満たす。 -/
theorem NewEVMInterpreterJumpTable_entryOk (config : ChainConfigurator) (bn : Option Int)
    (extraEips : List Int) :
    OkThen (NewEVMInterpreterJumpTable config bn extraEips) (All EntryOk) :=
  OkThen.bind (instructionSetForConfig_entryOk config bn) fun _ h => enableEips_entryOk h _

end Vm
