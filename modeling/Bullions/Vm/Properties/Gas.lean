import Bullions.Vm.Evm
import Bullions.Vm.Properties.Run

/-!
# gas は作られない

CALL 系の命令は子に gas を渡し（`passedGas`）、子の返した gas を足し戻す。渡す gas は、その
命令の gas 関数が `CallGasTemp` として決め、動的な gas の中で先に課した額に含まれる。価値を
送る CALL と CALLCODE の stipend（2300）も、同じ gas 関数が課す価値の移転の gas（9000）に
含まれる（`dynamicGasOf_passedGas_le`）。

よって、入れ子の frame が受け取った gas より多くを返さない限り、`Run` の一回は frame の gas
を増やさず（`step_gas_le`）、`Run` の全体も増やさない（`Run_gas_le`）。`CallRuns` は入れ子の
frame の意味で、深さについての帰納法（`CallRuns` の導出についての帰納法）で、どの frame も
受け取った gas より多くは返さない（`callRuns_gas`）。
-/

namespace Vm

open Params ExceptSpec JumpTable

/-! ## 子に渡す gas と、それを課す gas 関数 -/

/-- gas 関数 `g` の命令が子に渡す gas：`g` の決めた `CallGasTemp` と、価値を送る CALL と
CALLCODE の stipend。CALL 系でない命令は何も渡さない。 -/
def passedGas (g : GasFunc) (st : Stack) (cgt : Nat) : Nat :=
  match g with
  | .gasCall | .gasCallCode => if st.Back 2 ≠ 0 then cgt + CallStipend else cgt
  | .gasDelegateCall | .gasStaticCall | .gasCreate | .gasCreate2 => cgt
  | _ => 0

/-- 命令 `fn` が足し戻してよい gas の上限：子に渡した gas。 -/
def refundBound (fn : ExecutionFunc) (f : Frame) : Nat :=
  match fn.callGas with
  | some g => passedGas g f.stack f.callGasTemp
  | none => 0

theorem checked_SafeAdd_ok {x y c : Nat} (h : checked (SafeAdd x y) = .ok c) : c = x + y := by
  unfold checked SafeAdd at h
  split at h
  · cases h
  · rename_i hov
    cases h
    simp only [decide_eq_true_eq, Nat.not_le] at hov
    exact Nat.mod_eq_of_lt hov

section gasFuncs
variable {env : GasEnv} {cg : Nat} {st : Stack} {mem : Memory} {ms cgt c : Nat}

/-- 呼び出しの gas 関数の後半は、`base` に子に渡す gas を足した額を課す。 -/
theorem callTail_ok {base : Nat} (h : (callTail env cg st mem base).result = .ok c) :
    c = base + (callTail env cg st mem base).callGasTemp := by
  revert h
  unfold callTail
  cases callGas env.eip150 cg base (st.Back 0) with
  | error e => intro h; cases h
  | ok cgt' => exact checked_SafeAdd_ok

/-- `gasCall` は、価値を送るなら 9000 以上の `base` で `callTail` に渡す。 -/
theorem gasCall_eq_callTail (h : (gasCall env cg st mem ms cgt).result = .ok c) :
    ∃ base, (st.Back 2 ≠ 0 → CallValueTransferGas ≤ base) ∧
      gasCall env cg st mem ms cgt = callTail env cg st (memoryGasCost mem ms).1 base := by
  revert h
  unfold gasCall
  cases memoryGasCost mem ms with
  | mk m' r =>
    cases r with
    | error e => intro h; cases h
    | ok memoryGas =>
      dsimp only
      split
      · intro h; cases h
      · rename_i base hbase
        intro _
        refine ⟨base, fun hv => ?_, rfl⟩
        rw [checked_SafeAdd_ok hbase, if_pos hv]
        omega

/-- `gasCallCode` も、価値を送るなら 9000 以上の `base` で `callTail` に渡す。 -/
theorem gasCallCode_eq_callTail (h : (gasCallCode env cg st mem ms cgt).result = .ok c) :
    ∃ base, (st.Back 2 ≠ 0 → CallValueTransferGas ≤ base) ∧
      gasCallCode env cg st mem ms cgt = callTail env cg st (memoryGasCost mem ms).1 base := by
  revert h
  unfold gasCallCode
  cases memoryGasCost mem ms with
  | mk m' r =>
    cases r with
    | error e => intro h; cases h
    | ok memoryGas =>
      dsimp only
      split
      · intro h; cases h
      · rename_i base hbase
        intro _
        refine ⟨base, fun hv => ?_, rfl⟩
        rw [checked_SafeAdd_ok hbase, if_pos hv]
        omega

theorem gasDelegateCall_eq_callTail (h : (gasDelegateCall env cg st mem ms cgt).result = .ok c) :
    ∃ base, gasDelegateCall env cg st mem ms cgt = callTail env cg st (memoryGasCost mem ms).1 base := by
  revert h
  unfold gasDelegateCall
  cases memoryGasCost mem ms with
  | mk m' r =>
    cases r with
    | error e => intro h; cases h
    | ok base => intro _; exact ⟨base, rfl⟩

/-- `gasCreate` は、子に渡す gas を含めて課す。 -/
theorem gasCreate_covers (h : (gasCreate env cg mem ms cgt).result = .ok c) :
    (gasCreate env cg mem ms cgt).callGasTemp ≤ c := by
  revert h
  unfold gasCreate
  cases memoryGasCost mem ms with
  | mk m' r =>
    cases r with
    | error e => intro h; cases h
    | ok gas =>
      dsimp only
      split
      · intro h; cases h
      · split
        · intro h; cases h
        · intro h
          rw [checked_SafeAdd_ok h]
          exact Nat.le_add_left _ _

theorem gasCreate2_covers (h : (gasCreate2 env cg st mem ms cgt).result = .ok c) :
    (gasCreate2 env cg st mem ms cgt).callGasTemp ≤ c := by
  revert h
  unfold gasCreate2
  cases memoryGasCost mem ms with
  | mk m' r =>
    cases r with
    | error e => intro h; cases h
    | ok gas =>
      dsimp only
      split
      · intro h; cases h
      · split
        · intro h; cases h
        · split
          · intro h; cases h
          · split
            · intro h; cases h
            · split
              · intro h; cases h
              · intro h
                rw [checked_SafeAdd_ok h]
                exact Nat.le_add_left _ _

/-- 価値を送る呼び出しの stipend は、課した価値の移転の gas に収まる。 -/
theorem valueCall_covers {base : Nat} (hv : st.Back 2 ≠ 0 → CallValueTransferGas ≤ base)
    (h : (callTail env cg st mem base).result = .ok c) :
    passedGas .gasCall st (callTail env cg st mem base).callGasTemp ≤ c := by
  rw [callTail_ok h]
  simp only [passedGas]
  by_cases hb : st.Back 2 ≠ 0
  · have hbase := hv hb
    rw [if_pos hb]
    unfold CallValueTransferGas at hbase
    unfold CallStipend
    omega
  · rw [if_neg hb]
    omega

/-- どの gas 関数も、その命令が子に渡す gas を含めて課す。 -/
theorem dynamicGasOf_passedGas_le {g : GasFunc}
    (h : (dynamicGasOf env cg st mem ms cgt g).result = .ok c) :
    passedGas g st (dynamicGasOf env cg st mem ms cgt g).callGasTemp ≤ c := by
  cases g
  case gasCall =>
    obtain ⟨base, hv, heq⟩ := gasCall_eq_callTail h
    simp only [dynamicGasOf, heq] at h ⊢
    exact valueCall_covers hv h
  case gasCallCode =>
    obtain ⟨base, hv, heq⟩ := gasCallCode_eq_callTail h
    simp only [dynamicGasOf, heq] at h ⊢
    exact valueCall_covers hv h
  case gasDelegateCall =>
    obtain ⟨base, heq⟩ := gasDelegateCall_eq_callTail h
    simp only [dynamicGasOf, heq] at h ⊢
    rw [callTail_ok h]
    exact Nat.le_add_left _ _
  case gasStaticCall =>
    obtain ⟨base, heq⟩ := gasDelegateCall_eq_callTail h
    simp only [dynamicGasOf, gasStaticCall, heq] at h ⊢
    rw [callTail_ok h]
    exact Nat.le_add_left _ _
  case gasCreate => exact gasCreate_covers h
  case gasCreate2 => exact gasCreate2_covers h
  all_goals exact Nat.zero_le _

end gasFuncs

/-! ## loop の一回と `Run` -/

/-- loop の一回の後の frame（返るときは、返した frame）。 -/
def StepResult.frame : StepResult → Frame
  | .next f => f
  | .done _ _ f => f

/-- 命令の実行が足し戻す gas は、その命令が子に渡した gas を超えない。 -/
def RefundsBounded (env : RunEnv) : Prop :=
  ∀ fn f, (env.execute fn f).2.2.gas ≤ f.gas + refundBound fn f

theorem useGas_spec {f f' : Frame} {gas : Nat} (h : useGas f gas = some f') :
    gas ≤ f.gas ∧ f' = { f with gas := f.gas - gas } := by
  unfold useGas at h
  split at h
  · cases h
  · cases h
    exact ⟨by omega, rfl⟩

/-- gas 関数がなければ、CALL 系の命令ではない。 -/
theorem callGas_none_of_paired {o : Operation} (hp : o.callGasPaired = true)
    (hg : o.dynamicGas = none) : o.execute.callGas = none := by
  unfold Operation.callGasPaired at hp
  split at hp
  · assumption
  · rw [hg] at hp
    cases hp

/-- 動的な gas を払った後の gas と、その命令が子に渡す gas の和は、払う前の gas を超えない。 -/
theorem chargeDynamic_gas {env : GasEnv} {o : Operation} {f f' : Frame} {ms : Nat}
    (hp : o.callGasPaired = true) (h : chargeDynamic env o f ms = .ok f') :
    f'.gas + refundBound o.execute f' ≤ f.gas := by
  unfold chargeDynamic at h
  split at h
  · -- gas 関数がなければ、何も払わず何も渡さない
    rename_i hg
    cases h
    simp [refundBound, callGas_none_of_paired hp hg]
  · rename_i g hg
    dsimp only at h
    split at h
    · cases h
    · rename_i c hc
      split at h
      · cases h
      · rename_i f₂ hgas
        cases h
        obtain ⟨hle, rfl⟩ := useGas_spec hgas
        dsimp only at hle
        have hpass := dynamicGasOf_passedGas_le hc
        unfold refundBound
        split
        · -- CALL 系の命令の gas 関数は `g` そのもの
          rename_i g' hg'
          unfold Operation.callGasPaired at hp
          rw [hg', hg] at hp
          have hgg : g = g' := by simpa using hp
          subst hgg
          dsimp only
          omega
        · dsimp only
          omega

theorem afterExecute_frame_gas (o : Operation) (res : Bytes × Option VmError × Frame) :
    (afterExecute o res).frame.gas = res.2.2.gas := by
  obtain ⟨ret, err, f⟩ := res
  unfold afterExecute
  cases err with
  | some e => dsimp only; split <;> rfl
  | none => dsimp only; split_ifs <;> rfl

section run
variable {env : RunEnv}

/-- loop の一回は frame の gas を増やさない：固定の gas と動的な gas を払い、CALL 系の命令が
足し戻すのは、動的な gas に含めて課した子の分だけである。 -/
theorem step_gas_le (hjt : All EntryOk env.jt) (hx : RefundsBounded env) (f : Frame) :
    (step env f).frame.gas ≤ f.gas := by
  unfold step
  dsimp only
  split
  · exact Nat.le_refl _
  · rename_i o hop
    split_ifs
    · exact Nat.le_refl _
    · exact Nat.le_refl _
    · exact Nat.le_refl _
    split
    · exact Nat.le_refl _
    · rename_i f₁ hgas
      obtain ⟨-, rfl⟩ := useGas_spec hgas
      split
      · exact Nat.sub_le _ _
      · rename_i ms hms
        split
        · exact Nat.sub_le _ _
        · rename_i f₂ hch
          have hcharge := chargeDynamic_gas (hjt _ _ hop).2.1 hch
          -- `Resize` は gas にも stack にも触れない
          have hresize : ∀ fn, refundBound fn
              (if ms > 0 then { f₂ with mem := f₂.mem.Resize ms } else f₂) = refundBound fn f₂ := by
            intro fn
            split <;> rfl
          have hgas₃ : (if ms > 0 then { f₂ with mem := f₂.mem.Resize ms } else f₂).gas = f₂.gas := by
            split <;> rfl
          rw [afterExecute_frame_gas]
          have hexec := hx o.execute (if ms > 0 then { f₂ with mem := f₂.mem.Resize ms } else f₂)
          rw [hresize, hgas₃] at hexec
          dsimp only at hcharge
          omega

/-- 燃料についての帰納法で、loop の全体も frame の gas を増やさない。 -/
theorem runLoop_gas_le (hjt : All EntryOk env.jt) (hx : RefundsBounded env) :
    ∀ (fuel : Nat) {f f' : Frame} {ret : Bytes} {err : Option VmError},
      runLoop env fuel f = some (ret, err, f') → f'.gas ≤ f.gas := by
  intro fuel
  induction fuel with
  | zero => intro f f' ret err h; cases h
  | succ fuel ih =>
    intro f f' ret err h
    unfold runLoop at h
    have hstep := step_gas_le hjt hx f
    cases hs : step env f with
    | next f₁ =>
      rw [hs] at h hstep
      exact Nat.le_trans (ih h) hstep
    | done r e f₁ =>
      rw [hs] at h hstep
      cases h
      exact hstep

theorem Run_gas_le (hjt : All EntryOk env.jt) (hx : RefundsBounded env)
    {fuel gas callGasTemp : Nat} {ret : Bytes} {err : Option VmError} {f : Frame}
    (h : Run env fuel gas callGasTemp = some (ret, err, f)) : f.gas ≤ gas := by
  unfold Run at h
  split at h
  · cases h
    exact Nat.le_refl _
  · exact runLoop_gas_le hjt hx fuel h

end run

/-! ## 呼び出しと作成の frame -/

/-- 誤りを返しても残りの gas を使い切らない誤り：巻き戻しと、子を走らせる前に返る深さと残高の
誤り、Frontier の作成で code を置く gas が足りないとき。 -/
def KeepsGas (e : VmError) : Prop :=
  e = .ErrExecutionReverted ∨ e = .ErrDepth ∨ e = .ErrInsufficientBalance ∨
    e = .ErrCodeStoreOutOfGas

section frame
variable {q : CallQuery} {cq : CreateQuery} {depth gas : Nat} {child : Bytes × Option VmError × Nat}

theorem consumeOnError_le {x : Bytes × Nat × Option VmError} (h : x.2.1 ≤ gas) :
    (consumeOnError x.1 x.2.1 x.2.2).leftOverGas ≤ gas := by
  unfold consumeOnError
  split
  · exact h
  · split
    · exact h
    · exact Nat.zero_le _

theorem consumeOnError_zero {x : Bytes × Nat × Option VmError} {e : VmError}
    (h : (consumeOnError x.1 x.2.1 x.2.2).err = some e) (he : e ≠ .ErrExecutionReverted) :
    (consumeOnError x.1 x.2.1 x.2.2).leftOverGas = 0 := by
  revert h
  unfold consumeOnError
  split
  · intro h; cases h
  · intro h
    cases h
    exact if_neg he

theorem runCallee_le (hchild : child.2.2 ≤ gas) : (runCallee q gas child).2.1 ≤ gas := by
  unfold runCallee RunPrecompiledContract
  split
  · split
    · exact Nat.zero_le _
    · exact Nat.sub_le _ _
  · exact hchild

/-- `EVM.Call` は、子が受け取った gas より多くを返さなければ、受け取った gas より多くを返さない。 -/
theorem Call_le {value : Word} (hchild : child.2.2 ≤ gas) :
    (Call q depth gas value child).leftOverGas ≤ gas := by
  unfold Call
  split_ifs
  · exact Nat.le_refl _
  · exact Nat.le_refl _
  · exact Nat.le_refl _
  · exact Nat.le_refl _
  · -- code のない口座は gas をそのまま返す
    exact consumeOnError_le (x := ([], gas, none)) (Nat.le_refl gas)
  · exact consumeOnError_le (runCallee_le hchild)

theorem callInto_le {canTransfer : Bool} (hchild : child.2.2 ≤ gas) :
    (callInto q depth gas canTransfer child).leftOverGas ≤ gas := by
  unfold callInto
  split_ifs
  · exact Nat.le_refl _
  · exact Nat.le_refl _
  · exact Nat.le_refl _
  · exact consumeOnError_le (runCallee_le hchild)

theorem create_le (hchild : child.2.2 ≤ gas) : (create cq depth gas child).leftOverGas ≤ gas := by
  obtain ⟨ret, err, contractGas⟩ := child
  unfold create
  split_ifs
  · exact Nat.le_refl _
  · exact Nat.le_refl _
  · exact Nat.zero_le _
  · exact Nat.le_refl _
  · -- code を置く gas を引くか、誤りなら 0 にするだけ
    dsimp only at hchild ⊢
    split_ifs <;> omega

theorem Call_zero {value : Word} {e : VmError} (h : (Call q depth gas value child).err = some e)
    (he : ¬KeepsGas e) : (Call q depth gas value child).leftOverGas = 0 := by
  have hr : e ≠ .ErrExecutionReverted := fun h' => he (.inl h')
  revert h
  unfold Call
  split_ifs
  · intro h; cases h
  · intro h; cases h; exact absurd (.inr (.inl rfl)) he
  · intro h; cases h; exact absurd (.inr (.inr (.inl rfl))) he
  · intro h; cases h
  · intro h; cases h
  · exact fun h => consumeOnError_zero h hr

theorem callInto_zero {canTransfer : Bool} {e : VmError}
    (h : (callInto q depth gas canTransfer child).err = some e) (he : ¬KeepsGas e) :
    (callInto q depth gas canTransfer child).leftOverGas = 0 := by
  have hr : e ≠ .ErrExecutionReverted := fun h' => he (.inl h')
  revert h
  unfold callInto
  split_ifs
  · intro h; cases h
  · intro h; cases h; exact absurd (.inr (.inl rfl)) he
  · intro h; cases h; exact absurd (.inr (.inr (.inl rfl))) he
  · exact fun h => consumeOnError_zero h hr

theorem create_zero {e : VmError} (h : (create cq depth gas child).err = some e)
    (he : ¬KeepsGas e) : (create cq depth gas child).leftOverGas = 0 := by
  have hr : e ≠ .ErrExecutionReverted := fun h' => he (.inl h')
  have hs : e ≠ .ErrCodeStoreOutOfGas := fun h' => he (.inr (.inr (.inr h')))
  obtain ⟨ret, err, contractGas⟩ := child
  revert h
  unfold create
  split_ifs
  · intro h; cases h; exact absurd (.inr (.inl rfl)) he
  · intro h; cases h; exact absurd (.inr (.inr (.inl rfl))) he
  · intro _; rfl
  · intro h; cases h
  · dsimp only
    split_ifs <;> intro h <;> simp_all

end frame

/-! ## 入れ子の frame -/

/-- frame の種類：四つの呼び出しと作成。 -/
inductive FrameKind where
  | call | callCode | delegateCall | staticCall | create

/-- 種類ごとの `evm.go` の関数で frame を走らせた結果。 -/
def frameResult (kind : FrameKind) (q : CallQuery) (cq : CreateQuery) (depth gas : Nat)
    (value : Word) (child : Bytes × Option VmError × Nat) : CallResult :=
  match kind with
  | .call => Call q depth gas value child
  | .callCode => CallCode q depth gas child
  | .delegateCall => DelegateCall q depth gas child
  | .staticCall => StaticCall q depth gas child
  | .create => create cq depth gas child

section frameResult
variable {kind : FrameKind} {q : CallQuery} {cq : CreateQuery} {depth gas : Nat} {value : Word}
  {child : Bytes × Option VmError × Nat}

theorem frameResult_le (hchild : child.2.2 ≤ gas) :
    (frameResult kind q cq depth gas value child).leftOverGas ≤ gas := by
  cases kind
  · exact Call_le hchild
  · exact callInto_le hchild
  · exact callInto_le hchild
  · exact callInto_le hchild
  · exact create_le hchild

theorem frameResult_zero {e : VmError} (h : (frameResult kind q cq depth gas value child).err = some e)
    (he : ¬KeepsGas e) : (frameResult kind q cq depth gas value child).leftOverGas = 0 := by
  cases kind
  · exact Call_zero h he
  · exact callInto_zero h he
  · exact callInto_zero h he
  · exact callInto_zero h he
  · exact create_zero h he

end frameResult

/--
深さ `depth` の frame が gas `gas` で入って返しうる結果。

* `noChild`：子の code を走らせずに返る frame（結果が子の実行によらない）
* `withChild`：子の interpreter を `NewEVMInterpreter` の表で走らせる frame。その中の CALL 系
  の命令は、深さ `depth + 1` の frame（`calls` と `creates`）を呼んで `opCall` などのとおりに
  結果を受け、他の命令は `contract.Gas` に触れない

StateDB などの答え（`CallQuery`、`CreateQuery`）と、命令の CALL 系でない部分は任意である。
-/
inductive CallRuns : Nat → Nat → CallResult → Prop
  | noChild {depth gas : Nat} (kind : FrameKind) (q : CallQuery) (cq : CreateQuery) (value : Word)
      (hindep : ∀ c c', frameResult kind q cq depth gas value c =
        frameResult kind q cq depth gas value c') :
      CallRuns depth gas (frameResult kind q cq depth gas value ([], none, 0))
  | withChild {depth gas : Nat} (kind : FrameKind) (q : CallQuery) (cq : CreateQuery)
      (value : Word) (config : ChainConfigurator) (bn : Option Int) (extraEips : List Int)
      (env : RunEnv) (hjt : NewEVMInterpreterJumpTable config bn extraEips = .ok env.jt)
      (eip2 : Bool) (calls : Frame → Nat → Word → CallResult) (creates : Frame → Nat → CallResult)
      (hcalls : ∀ f g v, CallRuns (depth + 1) g (calls f g v))
      (hcreates : ∀ f g, CallRuns (depth + 1) g (creates f g))
      (hcall : ∀ f, env.execute .opCall f = opCall (calls f) f)
      (hcallCode : ∀ f, env.execute .opCallCode f = opCallCode (calls f) f)
      (hdelegateCall : ∀ f, env.execute .opDelegateCall f = opDelegateCall (fun g => calls f g 0) f)
      (hstaticCall : ∀ f, env.execute .opStaticCall f = opStaticCall (fun g => calls f g 0) f)
      (hcreate : ∀ f, env.execute .opCreate f = opCreate eip2 (creates f) f)
      (hcreate2 : ∀ f, env.execute .opCreate2 f = opCreate2 (creates f) f)
      (hother : ∀ fn f, fn.callGas = none → (env.execute fn f).2.2.gas = f.gas)
      (fuel : Nat) (ret : Bytes) (err : Option VmError) (fr : Frame)
      (hrun : Run env fuel gas 0 = some (ret, err, fr)) :
      CallRuns depth gas (frameResult kind q cq depth gas value (ret, err, fr.gas))

theorem callReturn_gas (nArgs retPos : Nat) (f : Frame) (res : CallResult) :
    (callReturn nArgs retPos f res).2.2.gas = f.gas + res.leftOverGas := rfl

theorem createReturn_gas (nArgs : Nat) (pushAddr : Bool) (f : Frame) (res : CallResult) :
    (createReturn nArgs pushAddr f res).2.2.gas = f.gas + res.leftOverGas := rfl

/-- 入れ子の frame が受け取った gas より多くを返さなければ、CALL 系の命令が足し戻す gas は
子に渡した gas を超えない。 -/
theorem refundsBounded_of_nested {env : RunEnv} {eip2 : Bool} {calls : Frame → Nat → Word → CallResult}
    {creates : Frame → Nat → CallResult}
    (hcalls : ∀ f g v, (calls f g v).leftOverGas ≤ g) (hcreates : ∀ f g, (creates f g).leftOverGas ≤ g)
    (hcall : ∀ f, env.execute .opCall f = opCall (calls f) f)
    (hcallCode : ∀ f, env.execute .opCallCode f = opCallCode (calls f) f)
    (hdelegateCall : ∀ f, env.execute .opDelegateCall f = opDelegateCall (fun g => calls f g 0) f)
    (hstaticCall : ∀ f, env.execute .opStaticCall f = opStaticCall (fun g => calls f g 0) f)
    (hcreate : ∀ f, env.execute .opCreate f = opCreate eip2 (creates f) f)
    (hcreate2 : ∀ f, env.execute .opCreate2 f = opCreate2 (creates f) f)
    (hother : ∀ fn f, fn.callGas = none → (env.execute fn f).2.2.gas = f.gas) :
    RefundsBounded env := by
  intro fn f
  -- CALL 系の六つの命令と、それ以外
  cases fn
  case opCall =>
    rw [hcall, opCall, callReturn_gas]
    exact Nat.add_le_add_left (hcalls _ _ _) _
  case opCallCode =>
    rw [hcallCode, opCallCode, callReturn_gas]
    exact Nat.add_le_add_left (hcalls _ _ _) _
  case opDelegateCall =>
    rw [hdelegateCall, opDelegateCall, callReturn_gas]
    exact Nat.add_le_add_left (hcalls _ _ _) _
  case opStaticCall =>
    rw [hstaticCall, opStaticCall, callReturn_gas]
    exact Nat.add_le_add_left (hcalls _ _ _) _
  case opCreate =>
    rw [hcreate, opCreate, createReturn_gas]
    exact Nat.add_le_add_left (hcreates _ _) _
  case opCreate2 =>
    rw [hcreate2, opCreate2, createReturn_gas]
    exact Nat.add_le_add_left (hcreates _ _) _
  all_goals exact Nat.le_trans (Nat.le_of_eq (hother _ f rfl)) (Nat.le_add_right _ _)

/-- 深さについての帰納法：どの frame も受け取った gas より多くは返さない。 -/
theorem callRuns_le {depth gas : Nat} {r : CallResult} (h : CallRuns depth gas r) :
    r.leftOverGas ≤ gas := by
  induction h with
  | noChild kind q cq value hindep => exact frameResult_le (Nat.zero_le _)
  | withChild kind q cq value config bn extraEips env hjt eip2 calls creates hcalls hcreates
      hcall hcallCode hdelegateCall hstaticCall hcreate hcreate2 hother fuel ret err fr hrun
      ihcalls ihcreates =>
    have htable : All EntryOk env.jt :=
      NewEVMInterpreterJumpTable_entryOk config bn extraEips env.jt hjt
    have hx : RefundsBounded env :=
      refundsBounded_of_nested ihcalls ihcreates hcall hcallCode hdelegateCall hstaticCall
        hcreate hcreate2 hother
    exact frameResult_le (Run_gas_le htable hx hrun)

/--
gas は作られない：

* 深さ `depth` の frame（呼び出しか作成）は、受け取った gas より多くは返さない
* 誤りを返す frame は、誤りが巻き戻し、深さ、残高、Frontier の code を置く gas の不足で
  なければ、残りの gas を 0 にして返す
* どの gas 関数も、その命令が子に渡す gas（`CallGasTemp` と stipend）を含めて課す。よって
  CALL 系の命令が足し戻す gas（子の返した gas）は、その命令の課した gas を超えない
-/
theorem callRuns_gas :
    (∀ depth gas r, CallRuns depth gas r → r.leftOverGas ≤ gas) ∧
    (∀ depth gas r, CallRuns depth gas r →
      ∀ e, r.err = some e → ¬KeepsGas e → r.leftOverGas = 0) ∧
    (∀ (g : GasFunc) (env : GasEnv) (contractGas : Nat) (st : Stack) (mem : Memory)
      (memorySize cgt c : Nat),
      (dynamicGasOf env contractGas st mem memorySize cgt g).result = .ok c →
      passedGas g st (dynamicGasOf env contractGas st mem memorySize cgt g).callGasTemp ≤ c) := by
  refine ⟨fun _ _ _ h => callRuns_le h, fun _ _ _ h e he hk => ?_,
    fun _ _ _ _ _ _ _ _ h => dynamicGasOf_passedGas_le h⟩
  cases h with
  | noChild kind q cq value hindep => exact frameResult_zero he hk
  | withChild => exact frameResult_zero he hk

/-- StateDB の答え：口座はあり、残高は足り、precompile でなく code もない。 -/
def plainCallQuery : CallQuery :=
  ⟨false, true, true, false, none, false⟩

/-- 深さの上限を超えた呼び出しは、誤り `ErrDepth` を返しながら、受け取った gas をすべて返す。 -/
theorem callRuns_depth_error_keeps_gas :
    CallRuns 1025 100 (Call plainCallQuery 1025 100 0 ([], none, 0)) ∧
      Call plainCallQuery 1025 100 0 ([], none, 0) = ⟨[], 0, 100, some .ErrDepth⟩ :=
  ⟨CallRuns.noChild .call plainCallQuery ⟨false, true, false, 0, false, false⟩ 0 fun _ _ => rfl,
    rfl⟩

end Vm
