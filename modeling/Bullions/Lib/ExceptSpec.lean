import Mathlib

/-!
# `Except` で書いた手続きの事前・事後条件

失敗しうる更新を `α → Except ε β` と書き、それを `>>=` でつないだものについて、

* `OkWith x Q`：`x` は成功し、その値は `Q` を満たす（停止と正しさ）
* `OkThen x Q`：`x` が成功したなら、その値は `Q` を満たす（成功したときの正しさ）
* `FailsOnly x P`：`x` が失敗したなら、その誤りは `P` を満たす

を定める。どれも `>>=` について合成でき（`OkWith.bind`、`OkThen.bind`、`FailsOnly.bind`）、失敗は `>>=` の
後ろへそのまま伝わる（`error_bind`）。

状態を持つ手続き `EStateM ε σ α` は、誤りを返しても状態の書き換えを残す。成功した実行は
`run_bind_eq_ok` で一段ずつ取り出し、どの誤りを返しうるかは `ThrowsOnly` で言う。
-/

universe u

namespace ExceptSpec

variable {ε : Type*} {α β : Type u}

@[simp] theorem ok_bind (a : α) (f : α → Except ε β) : (Except.ok a >>= f) = f a := rfl

@[simp] theorem error_bind (e : ε) (f : α → Except ε β) : (Except.error e >>= f) = .error e := rfl

theorem bind_eq_ok {x : Except ε α} {f : α → Except ε β} {b : β} :
    x >>= f = .ok b ↔ ∃ a, x = .ok a ∧ f a = .ok b := by
  cases x with
  | error e => simp
  | ok a => simp

/-- `x` は成功し、その値は `Q` を満たす。 -/
def OkWith (x : Except ε α) (Q : α → Prop) : Prop := ∃ a, x = .ok a ∧ Q a

/-- `x` が成功したなら、その値は `Q` を満たす。 -/
def OkThen (x : Except ε α) (Q : α → Prop) : Prop := ∀ a, x = .ok a → Q a

theorem okWith_ok {a : α} {Q : α → Prop} (h : Q a) : OkWith (.ok a : Except ε α) Q := ⟨a, rfl, h⟩

theorem okThen_ok {a : α} {Q : α → Prop} (h : Q a) : OkThen (.ok a : Except ε α) Q := by
  rintro _ ⟨⟩
  exact h

theorem okThen_error (e : ε) (Q : α → Prop) : OkThen (.error e) Q := by
  rintro _ ⟨⟩

theorem OkWith.mono {x : Except ε α} {P Q : α → Prop} (h : OkWith x P) (hPQ : ∀ a, P a → Q a) :
    OkWith x Q := by
  obtain ⟨a, hx, ha⟩ := h
  exact ⟨a, hx, hPQ a ha⟩

theorem OkThen.mono {x : Except ε α} {P Q : α → Prop} (h : OkThen x P) (hPQ : ∀ a, P a → Q a) :
    OkThen x Q :=
  fun a hx => hPQ a (h a hx)

theorem OkWith.bind {x : Except ε α} {f : α → Except ε β} {P : α → Prop} {Q : β → Prop}
    (hx : OkWith x P) (hf : ∀ a, P a → OkWith (f a) Q) : OkWith (x >>= f) Q := by
  obtain ⟨a, rfl, ha⟩ := hx
  exact hf a ha

theorem OkThen.bind {x : Except ε α} {f : α → Except ε β} {P : α → Prop} {Q : β → Prop}
    (hx : OkThen x P) (hf : ∀ a, P a → OkThen (f a) Q) : OkThen (x >>= f) Q := by
  intro b hb
  obtain ⟨a, hxa, hfa⟩ := bind_eq_ok.mp hb
  exact hf a (hx a hxa) b hfa

/-- 失敗した `x` の後は、何をつないでも同じ誤りで失敗する。 -/
theorem bind_of_error {x : Except ε α} {e : ε} (h : x = .error e) (f : α → Except ε β) :
    x >>= f = .error e := by
  subst h
  rfl

/-- 成功した `x` の値で `f` が失敗すれば、`x >>= f` は同じ誤りで失敗する。 -/
theorem OkThen.bind_error {x : Except ε α} {f : α → Except ε β} {P : α → Prop} {e : ε}
    (hx : OkThen x P) (hf : ∀ a, P a → f a = .error e) (hxe : ∀ e', x = .error e' → e' = e) :
    x >>= f = .error e := by
  cases x with
  | error e' => rw [hxe e' rfl]; rfl
  | ok a => exact hf a (hx a rfl)

/-- `x` が失敗したなら、その誤りは `P` を満たす。 -/
def FailsOnly (x : Except ε α) (P : ε → Prop) : Prop := ∀ e, x = .error e → P e

theorem failsOnly_ok (a : α) (P : ε → Prop) : FailsOnly (.ok a : Except ε α) P := by
  rintro _ ⟨⟩

theorem failsOnly_error {e : ε} {P : ε → Prop} (he : P e) : FailsOnly (.error e : Except ε α) P := by
  rintro _ ⟨⟩
  exact he

theorem FailsOnly.bind {x : Except ε α} {f : α → Except ε β} {P : ε → Prop}
    (hx : FailsOnly x P) (hf : ∀ a, x = .ok a → FailsOnly (f a) P) : FailsOnly (x >>= f) P := by
  intro e he
  cases hxa : x with
  | error e' =>
    rw [hxa] at he
    cases he
    exact hx _ hxa
  | ok a =>
    rw [hxa] at he
    exact hf a hxa e he

/--
誤りと値が比べられれば、結果も比べられる。具体的な走りを `decide` で確かめるときに、その証明の
中だけで instance として使う。
-/
def decEq [DecidableEq ε] [DecidableEq α] : DecidableEq (Except ε α)
  | .ok a, .ok b => decidable_of_iff (a = b) ⟨fun h => h ▸ rfl, Except.ok.inj⟩
  | .error a, .error b => decidable_of_iff (a = b) ⟨fun h => h ▸ rfl, Except.error.inj⟩
  | .ok _, .error _ => isFalse nofun
  | .error _, .ok _ => isFalse nofun

/-! ## 状態を持つ手続き -/

section EStateM

variable {ε σ : Type u} {α β : Type u}

theorem run_map (f : α → β) (x : EStateM ε σ α) (s : σ) :
    (f <$> x).run s =
      match x.run s with
      | .ok a s' => .ok (f a) s'
      | .error e s' => .error e s' := rfl

theorem run_throw (e : ε) (s : σ) : (throw e : EStateM ε σ α).run s = .error e s := rfl

/-- 誤りを受けても、状態は巻き戻さない。 -/
theorem run_tryCatch (x : EStateM ε σ α) (h : ε → EStateM ε σ α) (s : σ) :
    (tryCatch x h).run s =
      match x.run s with
      | .ok a s' => .ok a s'
      | .error e s' => (h e).run s' := by
  simp only [EStateM.run]
  show EStateM.tryCatch x h s = _
  unfold EStateM.tryCatch
  cases x s <;> rfl

theorem run_bind_eq_ok {x : EStateM ε σ α} {f : α → EStateM ε σ β} {s s'' : σ} {b : β} :
    (x >>= f).run s = .ok b s'' ↔ ∃ a s', x.run s = .ok a s' ∧ (f a).run s' = .ok b s'' := by
  rw [EStateM.run_bind]
  cases h : x.run s with
  | ok a s' =>
    refine ⟨fun hf => ⟨a, s', rfl, hf⟩, ?_⟩
    rintro ⟨_, _, ⟨⟩, hf⟩
    exact hf
  | error e s' => simp

theorem run_bind_eq_error {x : EStateM ε σ α} {f : α → EStateM ε σ β} {s s'' : σ} {e : ε} :
    (x >>= f).run s = .error e s'' ↔
      x.run s = .error e s'' ∨ ∃ a s', x.run s = .ok a s' ∧ (f a).run s' = .error e s'' := by
  rw [EStateM.run_bind]
  cases h : x.run s with
  | ok a s' =>
    refine ⟨fun hf => .inr ⟨a, s', rfl, hf⟩, ?_⟩
    rintro (hx | ⟨_, _, hx, hf⟩)
    · cases hx
    · cases hx
      exact hf
  | error e' s' => simp

/-- `x` の返す誤りは、どれも `P` を満たす。 -/
def ThrowsOnly (x : EStateM ε σ α) (P : ε → Prop) : Prop :=
  ∀ s e s', x.run s = .error e s' → P e

theorem throwsOnly_pure (a : α) (P : ε → Prop) : ThrowsOnly (pure a : EStateM ε σ α) P := by
  intro s e s' h
  cases h

theorem throwsOnly_get (P : ε → Prop) : ThrowsOnly (get : EStateM ε σ σ) P := by
  intro s e s' h
  cases h

theorem throwsOnly_set (t : σ) (P : ε → Prop) : ThrowsOnly (set t : EStateM ε σ PUnit) P := by
  intro s e s' h
  cases h

theorem throwsOnly_modify (f : σ → σ) (P : ε → Prop) :
    ThrowsOnly (modify f : EStateM ε σ PUnit) P := by
  intro s e s' h
  cases h

theorem throwsOnly_throw {e : ε} {P : ε → Prop} (he : P e) :
    ThrowsOnly (throw e : EStateM ε σ α) P := by
  intro s e' s' h
  cases h
  exact he

theorem ThrowsOnly.bind {x : EStateM ε σ α} {f : α → EStateM ε σ β} {P : ε → Prop}
    (hx : ThrowsOnly x P) (hf : ∀ a, ThrowsOnly (f a) P) : ThrowsOnly (x >>= f) P := by
  intro s e s'' h
  rcases run_bind_eq_error.mp h with h | ⟨a, s', -, h⟩
  · exact hx s e s'' h
  · exact hf a s' e s'' h

theorem ThrowsOnly.mono {x : EStateM ε σ α} {P Q : ε → Prop} (hx : ThrowsOnly x P)
    (hPQ : ∀ e, P e → Q e) : ThrowsOnly x Q :=
  fun s e s' h => hPQ e (hx s e s' h)

theorem ThrowsOnly.map {x : EStateM ε σ α} {P : ε → Prop} (hx : ThrowsOnly x P) (f : α → β) :
    ThrowsOnly (f <$> x) P := by
  intro s e s' h
  rw [run_map] at h
  cases hr : x.run s with
  | ok a t => rw [hr] at h; cases h
  | error e' t => rw [hr] at h; cases h; exact hx s _ _ hr

/-- 受けた誤りは出ていかない。出ていくのは、`x` の誤りを受けた受け手の誤りだけ。 -/
theorem ThrowsOnly.tryCatch {x : EStateM ε σ α} {h : ε → EStateM ε σ α} {P Q : ε → Prop}
    (hx : ThrowsOnly x Q) (hh : ∀ e, Q e → ThrowsOnly (h e) P) : ThrowsOnly (tryCatch x h) P := by
  intro s e s' hrun
  rw [run_tryCatch] at hrun
  cases hr : x.run s with
  | ok a t => rw [hr] at hrun; cases hrun
  | error e' t => rw [hr] at hrun; exact hh e' (hx s e' t hr) t e s' hrun

end EStateM

end ExceptSpec
