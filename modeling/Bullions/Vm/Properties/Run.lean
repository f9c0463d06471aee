import Bullions.Vm.Interpreter
import Bullions.Vm.Properties.Table

/-!
# `Run` の memory の不変条件

`Run` の loop が誤りなしに着くどの frame でも、memory は `Memory.Inv` を満たす：長さは 32 の
倍数で、`lastGasCost` はその長さの総額 `C(Len / 32)` に等しい（`reachable_memory_inv`）。
`Run` が誤りなしに返せば、その間に `memoryGasCost` が課した gas の合計は、最後の memory の
総額である（`Run_memory`）。

これには二つのことが要る。

* 命令表で、memory の大きさを持つ命令はどれも memory を広げる gas 関数を持つ
  （`Operation.memoryPaired`）。`NewEVMInterpreter` の作る表はどれもそうである
  （`NewEVMInterpreterJumpTable_entryOk`）
* 命令の実行は memory の長さと `lastGasCost` を変えない（`KeepsMemory`）。命令は
  `Resize` を呼ばず、`lastGasCost` を書くのは `memoryGasCost` だけである

loop の一回については、誤りなしに終わる一回が memory にすることを `step_okFrame` で一度だけ
言い、不変条件の保存（`step_memory`）はそれから導く。
-/

namespace Vm

open Params ExceptSpec JumpTable

/-! ## loop の一回 -/

/-- 誤りなしの行き先の frame：次の命令へ進むか、誤りなしに返ったところ。 -/
def StepResult.okFrame : StepResult → Option Frame
  | .next f => some f
  | .done _ none f => some f
  | .done _ (some _) _ => none

theorem useGas_eq_some {f f' : Frame} {gas : Nat} (h : useGas f gas = some f') :
    f'.mem = f.mem ∧ f'.stack = f.stack := by
  unfold useGas at h
  split at h
  · cases h
  · cases h
    exact ⟨rfl, rfl⟩

/-- 命令の memory の大きさは 32 の倍数で、memory の大きさを持たない命令では 0 である。 -/
theorem memorySizeStep_ok {o : Operation} {st : Stack} {ms : Nat}
    (h : memorySizeStep o st = .ok ms) : ms % 32 = 0 ∧ (o.memorySize = none → ms = 0) := by
  unfold memorySizeStep at h
  split at h
  · cases h
    exact ⟨rfl, fun _ => rfl⟩
  · rename_i fn hfn
    refine ⟨?_, fun hn => by rw [hfn] at hn; cases hn⟩
    generalize memorySizeOf st fn = p at h
    obtain ⟨memSize, overflow⟩ := p
    cases overflow
    · dsimp only at h
      generalize hq : SafeMul (toWordSize memSize) 32 = q at h
      obtain ⟨q, overflow⟩ := q
      cases overflow
      · -- `SafeMul` が桁あふれしなければ、積そのもの
        cases h
        have hmul := SafeMul_fst (x := toWordSize memSize) (y := 32) (by rw [hq]; simp)
        rw [hq] at hmul
        dsimp only at hmul
        omega
      · simp at h
    · simp at h

/-- 命令 `o` の一回で `memoryGasCost` が課す gas（課さなければ 0）。 -/
def memoryFee (o : Operation) (st : Stack) (mem : Memory) : Nat :=
  match o.dynamicGas, memorySizeStep o st with
  | some g, .ok ms =>
    if g.usesMemory then
      match (memoryGasCost mem ms).2 with
      | .ok fee => fee
      | .error _ => 0
    else 0
  | _, _ => 0

/-- 動的な gas を払えたなら、memory は `memoryGasCost` の返したもので、課したのは
`memoryFee` である。memory の大きさを持たない命令では、大きさ 0 の `memoryGasCost` と同じく
何も変わらない。 -/
theorem chargeDynamic_memory {env : GasEnv} {o : Operation} {f f' : Frame} {ms : Nat}
    (hp : o.memoryPaired = true) (hms : memorySizeStep o f.stack = .ok ms)
    (h : chargeDynamic env o f ms = .ok f') :
    memoryGasCost f.mem ms = (f'.mem, .ok (memoryFee o f.stack f.mem)) := by
  have hnone : o.memorySize = none → ms = 0 := (memorySizeStep_ok hms).2
  unfold chargeDynamic at h
  unfold memoryFee
  rw [hms]
  split at h
  · -- gas 関数がなければ memory の大きさもない
    rename_i hg
    cases h
    have hsize : o.memorySize = none := by
      unfold Operation.memoryPaired at hp
      rw [hg] at hp
      split at hp <;> simp_all
    rw [hg, hnone hsize, memoryGasCost_zero]
  · rename_i g hg
    rw [hg]
    dsimp only at h ⊢
    split at h
    · cases h
    · rename_i c hc
      split at h
      · cases h
      · rename_i f₂ hgas
        cases h
        have hmem := (useGas_eq_some hgas).1
        dsimp only at hmem
        by_cases hu : g.usesMemory = true
        · -- memory を広げる gas 関数
          obtain ⟨fee, hfee⟩ := dynamicGasOf_mem hu hc
          rw [if_pos hu, hfee, hmem]
        · -- 他の gas 関数の命令は memory の大きさを持たない
          have hu' : g.usesMemory = false := by simpa using hu
          have hsize : o.memorySize = none := by
            unfold Operation.memoryPaired at hp
            rw [hg] at hp
            split at hp <;> simp_all
          rw [if_neg hu, hnone hsize, memoryGasCost_zero, hmem, dynamicGasOf_mem_of_not hu']

theorem afterExecute_okFrame {o : Operation} {res : Bytes × Option VmError × Frame} {f' : Frame}
    (h : (afterExecute o res).okFrame = some f') : f'.mem = res.2.2.mem := by
  obtain ⟨ret, err, f⟩ := res
  unfold afterExecute at h
  cases err with
  | some e => cases h
  | none =>
    dsimp only at h
    split_ifs at h <;> cases h <;> rfl

/-- 誤りなしに終わる loop の一回が memory にすること：命令 `o` の memory の大きさ `ms` を
求め、動的な gas を払い（ここで `memoryGasCost` が走る）、`ms` まで広げてから実行する。 -/
theorem step_okFrame {env : RunEnv} {f f' : Frame} (h : (step env f).okFrame = some f') :
    ∃ o f₁ ms f₂, env.jt (getOp env.code f.pc) = some o ∧ f₁.mem = f.mem ∧
      f₁.stack = f.stack ∧ memorySizeStep o f.stack = .ok ms ∧
      chargeDynamic env.gasEnv o f₁ ms = .ok f₂ ∧
      f'.mem = (env.execute o.execute
        (if ms > 0 then { f₂ with mem := f₂.mem.Resize ms } else f₂)).2.2.mem := by
  unfold step at h
  dsimp only at h
  split at h
  · cases h
  · rename_i o hop
    -- stack と書き込みの検査で返る三つの分岐
    split_ifs at h
    · cases h
    · cases h
    · cases h
    split at h
    · cases h
    · rename_i f₁ hgas
      obtain ⟨hmem₁, hst₁⟩ := useGas_eq_some hgas
      split at h
      · cases h
      · rename_i ms hms
        split at h
        · cases h
        · rename_i f₂ hch
          exact ⟨o, f₁, ms, f₂, hop, hmem₁, hst₁, hst₁ ▸ hms, hch, afterExecute_okFrame h⟩

/-- loop の一回で `memoryGasCost` が課す gas。 -/
def stepMemoryFee (env : RunEnv) (f : Frame) : Nat :=
  match env.jt (getOp env.code f.pc) with
  | none => 0
  | some o => memoryFee o f.stack f.mem

/-- 命令の実行は memory の長さと、拡張の gas の総額 `lastGasCost` を変えない。 -/
def KeepsMemory (env : RunEnv) : Prop :=
  ∀ fn f, (env.execute fn f).2.2.mem.Len = f.mem.Len ∧
    (env.execute fn f).2.2.mem.lastGasCost = f.mem.lastGasCost

section run
variable {env : RunEnv}

/-- 誤りなしに終わる一回は memory の不変条件を保ち、`lastGasCost` は課した gas だけ増える。 -/
theorem step_memory (hjt : All EntryOk env.jt) (hk : KeepsMemory env) {f f' : Frame}
    (hm : f.mem.Inv) (h : (step env f).okFrame = some f') :
    f'.mem.Inv ∧ f'.mem.lastGasCost = f.mem.lastGasCost + stepMemoryFee env f := by
  obtain ⟨o, f₁, ms, f₂, hop, hmem₁, hst₁, hms, hch, hf'⟩ := step_okFrame h
  have hcost := chargeDynamic_memory (hjt _ _ hop).1 (hst₁ ▸ hms) hch
  rw [hmem₁, hst₁] at hcost
  have hfee : stepMemoryFee env f = memoryFee o f.stack f.mem := by
    simp only [stepMemoryFee, hop]
  obtain ⟨hinv, hlast⟩ :=
    hm.expand (memorySizeStep_ok hms).1 (by rw [hcost] : (memoryGasCost f.mem ms).2 = _)
  -- 実行の直前の memory は `Memory.expand` のもの
  have h₃ : (if ms > 0 then { f₂ with mem := f₂.mem.Resize ms } else f₂).mem = f.mem.expand ms := by
    unfold Memory.expand
    rw [hcost]
    split <;> rfl
  obtain ⟨hl, hc⟩ := hk o.execute (if ms > 0 then { f₂ with mem := f₂.mem.Resize ms } else f₂)
  rw [← hf', h₃] at hl hc
  refine ⟨hinv.of_eq hl hc, ?_⟩
  rw [hc, hlast, hfee]

/-- `Run` の loop が誤りなしに着く frame。 -/
inductive Reachable (env : RunEnv) (gas callGasTemp : Nat) : Frame → Prop
  | init : Reachable env gas callGasTemp (Frame.init gas callGasTemp)
  | next {f f' : Frame} : Reachable env gas callGasTemp f → step env f = .next f' →
      Reachable env gas callGasTemp f'

theorem reachable_memory_inv (hjt : All EntryOk env.jt) (hk : KeepsMemory env)
    {gas callGasTemp : Nat} {f : Frame} (h : Reachable env gas callGasTemp f) : f.mem.Inv := by
  induction h with
  | init => exact Memory.inv_New
  | next _ hstep ih => exact (step_memory hjt hk ih (by rw [hstep]; rfl)).1

/-- loop が `fuel` 回の間に `memoryGasCost` で課した gas の合計。 -/
def loopMemoryFee (env : RunEnv) : Nat → Frame → Nat
  | 0, _ => 0
  | fuel + 1, f =>
    stepMemoryFee env f +
      match step env f with
      | .next f' => loopMemoryFee env fuel f'
      | .done _ _ _ => 0

/-- `Run` の間に `memoryGasCost` で課した gas の合計。 -/
def runMemoryFee (env : RunEnv) (fuel gas callGasTemp : Nat) : Nat :=
  if env.code.length = 0 then 0 else loopMemoryFee env fuel (Frame.init gas callGasTemp)

/-- 誤りなしに返る loop は memory の不変条件を保ち、`lastGasCost` は課した gas の合計だけ
増える。燃料についての帰納法で、一回ごとに `step_memory` を使う。 -/
theorem runLoop_memory (hjt : All EntryOk env.jt) (hk : KeepsMemory env) :
    ∀ (fuel : Nat) {f f' : Frame} {ret : Bytes}, f.mem.Inv →
      runLoop env fuel f = some (ret, none, f') →
      f'.mem.Inv ∧ f'.mem.lastGasCost = f.mem.lastGasCost + loopMemoryFee env fuel f := by
  intro fuel
  induction fuel with
  | zero => intro f f' ret _ h; cases h
  | succ fuel ih =>
    intro f f' ret hm h
    unfold runLoop at h
    unfold loopMemoryFee
    cases hs : step env f with
    | next f₁ =>
      rw [hs] at h
      obtain ⟨hm₁, hc₁⟩ := step_memory hjt hk hm (by rw [hs]; rfl)
      obtain ⟨hm', hc'⟩ := ih hm₁ h
      refine ⟨hm', ?_⟩
      dsimp only
      omega
    | done r e f₁ =>
      rw [hs] at h
      cases h
      obtain ⟨hm', hc'⟩ := step_memory hjt hk hm (by rw [hs]; rfl)
      exact ⟨hm', by simpa using hc'⟩

theorem Run_memory (hjt : All EntryOk env.jt) (hk : KeepsMemory env)
    {fuel gas callGasTemp : Nat} {ret : Bytes} {f : Frame}
    (h : Run env fuel gas callGasTemp = some (ret, none, f)) :
    f.mem.Inv ∧ runMemoryFee env fuel gas callGasTemp = memCost (f.mem.Len / 32) := by
  unfold Run at h
  unfold runMemoryFee
  split at h
  · -- code が空なら、始めの frame のまま
    cases h
    exact ⟨Memory.inv_New, by rw [if_pos ‹_›]; simp [Frame.init, memCost_zero]⟩
  · rename_i hcode
    rw [if_neg hcode]
    obtain ⟨hm, hc⟩ := runLoop_memory hjt hk fuel Memory.inv_New h
    refine ⟨hm, ?_⟩
    rw [← hm.lastGasCost_eq, hc]
    simp [Frame.init]

end run

/-! ## memory の gas の不変条件 -/

/--
`NewEVMInterpreter` の作る表で、命令の実行が memory の長さと `lastGasCost` を変えなければ：

* `Run` の loop が誤りなしに着くどの frame でも、memory の長さは 32 の倍数で、
  `lastGasCost` はその長さの総額 `C(Len / 32)` である
* `Run` が誤りなしに返せば、その間に課した memory の gas の合計は、最後の memory の総額である
* 不変条件を満たす memory への `memoryGasCost` は、ちょうど新旧の総額の差を課し、引き算は
  回り込まない
* `memoryGasCost` が `ErrGasUintOverflow` を返すのは、ちょうど大きさが `0x1FFFFFFFE0` を
  超えるときである
-/
theorem run_memory_gas_invariant (config : ChainConfigurator) (bn : Option Int)
    (extraEips : List Int) (env : RunEnv)
    (hjt : NewEVMInterpreterJumpTable config bn extraEips = .ok env.jt) (hk : KeepsMemory env)
    (gas callGasTemp : Nat) :
    (∀ f, Reachable env gas callGasTemp f → f.mem.Inv) ∧
    (∀ fuel ret f, Run env fuel gas callGasTemp = some (ret, none, f) →
      f.mem.Inv ∧ runMemoryFee env fuel gas callGasTemp = memCost (f.mem.Len / 32)) ∧
    (∀ (m : Memory) (n fee : Nat), m.Inv → (memoryGasCost m n).2 = .ok fee →
      fee = memCost (max (toWordSize n) (m.Len / 32)) - memCost (m.Len / 32) ∧
        memCost (m.Len / 32) ≤ memCost (max (toWordSize n) (m.Len / 32))) ∧
    (∀ (m : Memory) (n : Nat),
      (memoryGasCost m n).2 = .error .ErrGasUintOverflow ↔ 0x1FFFFFFFE0 < n) := by
  have htable : All EntryOk env.jt :=
    NewEVMInterpreterJumpTable_entryOk config bn extraEips env.jt hjt
  refine ⟨fun f hf => reachable_memory_inv htable hk hf, fun fuel ret f h => Run_memory htable hk h,
    fun m n fee hm h => memoryGasCost_fee hm h, memoryGasCost_error_iff⟩

/-- どの EIP も有効にしない設定。 -/
def frontierConfig : ChainConfigurator where
  GetNetworkID := some 1
  GetChainID := none
  GetEIP155Transition := none
  GetEIP7Transition := none
  GetEIP150Transition := none
  GetEIP160Transition := none
  GetEIP140Transition := none
  GetEIP214Transition := none
  GetEIP211Transition := none
  GetEIP145Transition := none
  GetEIP1014Transition := none
  GetEIP1052Transition := none
  GetEIP1344Transition := none
  GetEIP1884Transition := none
  GetECIP1080Transition := none
  GetEIP2200Transition := none
  GetEIP2200DisableTransition := none

/--
Frontier の表で、code は `ADDRESS ADDRESS MSTORE`。命令の実行は stack に 0 を積むだけとする
（`ADDRESS` が口座 0 の address を積む）。`MSTORE` は番地 0 に書くので、memory を 32 byte に広げる。
-/
def frontierRunEnv : RunEnv where
  jt := newBaseInstructionSet
  code := [ADDRESS, ADDRESS, MSTORE]
  readOnly := false
  eip214 := false
  gasEnv := ⟨false, false, fun _ => false, fun _ => true, fun _ _ _ => .ok 0⟩
  execute := fun _ f => ([], none, { f with stack := ⟨0 :: f.stack.data⟩ })

theorem run_memory_gas_invariant_frontier :
    NewEVMInterpreterJumpTable frontierConfig (some 0) [] = .ok frontierRunEnv.jt ∧
      KeepsMemory frontierRunEnv ∧
      ((∀ f, Reachable frontierRunEnv 100 0 f → f.mem.Inv) ∧
        (∀ fuel ret f, Run frontierRunEnv fuel 100 0 = some (ret, none, f) →
          f.mem.Inv ∧ runMemoryFee frontierRunEnv fuel 100 0 = memCost (f.mem.Len / 32)) ∧
        (∀ (m : Memory) (n fee : Nat), m.Inv → (memoryGasCost m n).2 = .ok fee →
          fee = memCost (max (toWordSize n) (m.Len / 32)) - memCost (m.Len / 32) ∧
            memCost (m.Len / 32) ≤ memCost (max (toWordSize n) (m.Len / 32))) ∧
        (∀ (m : Memory) (n : Nat),
          (memoryGasCost m n).2 = .error .ErrGasUintOverflow ↔ 0x1FFFFFFFE0 < n)) :=
  have hjt : NewEVMInterpreterJumpTable frontierConfig (some 0) [] = .ok frontierRunEnv.jt := rfl
  have hk : KeepsMemory frontierRunEnv := fun _ _ => ⟨rfl, rfl⟩
  ⟨hjt, hk, run_memory_gas_invariant frontierConfig (some 0) [] frontierRunEnv hjt hk 100 0⟩

/-- 三つの命令で gas を 10 使い、memory は 32 byte になる。 -/
example : (Run frontierRunEnv 4 100 0).map (fun r => (r.2.2.mem.Len, r.2.2.gas)) = some (32, 90) := by
  rfl

end Vm
