import Mathlib

/-!
# 一つの読み書き lock を共有する goroutine の交互実行

一つの `sync.RWMutex` を共有する goroutine の並びを、一歩ずつ交互に進める模型。各 goroutine は
操作の列を頭から実行する。操作は lock の四つ（`Lock`・`Unlock`・`RLock`・`RUnlock`）と、
場所 `l` の読み（`read l`）と書き（`write l`）である。

lock の状態は Go と同じく持ち主を持たず、書き手がいるかと読み手の数だけである。`Lock` は誰も
持っていないときだけ、`RLock` は書き手がいないときだけ進む。Go は待っている書き手がいれば
新しい読み手も待たせるが、それは交互実行を減らすだけなので、ここでは許す側に広げる。
持たれていない lock を外すのは Go では致命的な誤りで、ここでは進まない。

各 goroutine が lock をどう持っているか（`Thread.held`）は Go には無い幽霊の値で、
「その goroutine が lock を持っている」を言うためにある。

主な結果（`raceFree_of_bracketed`）：どの goroutine の列も `Bracketed`（読みは lock の内、
書きは排他の lock の内）なら、初めの状態から届くどの状態でも、次の読み書きはどれも lock の内
（`Guarded`）で、二つの goroutine が同じ場所を一方は書いて触ろうとしていること（`Race`）は
無い。
-/

namespace RWMutex

/-- 場所の読みと書き。 -/
inductive Access (L : Type) where
  | read (l : L)
  | write (l : L)
deriving DecidableEq, Repr

/-- goroutine の一つの操作。 -/
inductive Op (L : Type) where
  | lock
  | unlock
  | rLock
  | rUnlock
  | acc (a : Access L)
deriving DecidableEq, Repr

/-- goroutine が lock をどう持っているか。 -/
inductive Mode where
  | free
  | shared
  | exclusive
deriving DecidableEq, Repr

/-- goroutine：残りの操作と、lock の持ち方。 -/
structure Thread (L : Type) where
  rest : List (Op L)
  held : Mode
deriving DecidableEq, Repr

/-- goroutine の並びと lock の状態。 -/
structure Conf (L : Type) where
  threads : List (Thread L)
  writer : Bool
  readers : Nat
deriving DecidableEq, Repr

variable {L : Type}

/-- 同じ場所を触り、少なくとも一方が書き。 -/
def Access.Conflict : Access L → Access L → Prop
  | .read l, .write l' => l = l'
  | .write l, .read l' => l = l'
  | .write l, .write l' => l = l'
  | .read _, .read _ => False

/-- 初めの状態：どの goroutine も列の頭にいて、lock は空いている。 -/
def Conf.init (progs : List (List (Op L))) : Conf L where
  threads := progs.map fun p => ⟨p, .free⟩
  writer := false
  readers := 0

/-- goroutine `i` が次の操作を一つ進める。進めないとき（その goroutine がいない、終わった、
lock を待つ、持たれていない lock を外す）は `none`。 -/
def Conf.step (c : Conf L) (i : Nat) : Option (Conf L) :=
  match c.threads[i]? with
  | none => none
  | some th =>
    match th.rest with
    | [] => none
    | .lock :: ops =>
      if c.writer = false ∧ c.readers = 0 then
        some { c with threads := c.threads.set i ⟨ops, .exclusive⟩, writer := true }
      else none
    | .unlock :: ops =>
      if c.writer = true then
        some { c with threads := c.threads.set i ⟨ops, .free⟩, writer := false }
      else none
    | .rLock :: ops =>
      if c.writer = false then
        some { c with threads := c.threads.set i ⟨ops, .shared⟩, readers := c.readers + 1 }
      else none
    | .rUnlock :: ops =>
      if 0 < c.readers then
        some { c with threads := c.threads.set i ⟨ops, .free⟩, readers := c.readers - 1 }
      else none
    | .acc _ :: ops => some { c with threads := c.threads.set i ⟨ops, th.held⟩ }

/-- 順番 `sched` に goroutine を進める。 -/
def Conf.run (c : Conf L) : List Nat → Option (Conf L)
  | [] => some c
  | i :: sched => (c.step i).bind fun c' => c'.run sched

/-- `c₀` から何歩かで届く状態。 -/
inductive Reachable (c₀ : Conf L) : Conf L → Prop
  | refl : Reachable c₀ c₀
  | step {c c' : Conf L} {i : Nat} : Reachable c₀ c → c.step i = some c' → Reachable c₀ c'

/-- goroutine `i` の次の操作。 -/
def Conf.next? (c : Conf L) (i : Nat) : Option (Op L) :=
  c.threads[i]?.bind fun th => th.rest.head?

/-- 次の操作が読み書きなら、lock の内で（書きなら排他の lock の内で）する。 -/
def Thread.Guarded (th : Thread L) : Prop :=
  match th.rest with
  | .acc (.read _) :: _ => th.held ≠ .free
  | .acc (.write _) :: _ => th.held = .exclusive
  | _ => True

/-- 二つの goroutine が、ぶつかる読み書きを次にしようとしている。 -/
def Conf.Race (c : Conf L) : Prop :=
  ∃ i j a b, i ≠ j ∧ c.next? i = some (.acc a) ∧ c.next? j = some (.acc b) ∧ a.Conflict b

/-- `Bracketed m ops`：lock を `m` で持つ goroutine が `ops` を実行して、読みは lock の内、
書きは排他の lock の内でだけし、lock を持ったまま終わらない。 -/
def Bracketed : Mode → List (Op L) → Bool
  | .free, [] => true
  | .free, .lock :: ops => Bracketed .exclusive ops
  | .free, .rLock :: ops => Bracketed .shared ops
  | .exclusive, .unlock :: ops => Bracketed .free ops
  | .exclusive, .acc _ :: ops => Bracketed .exclusive ops
  | .shared, .rUnlock :: ops => Bracketed .free ops
  | .shared, .acc (.read _) :: ops => Bracketed .shared ops
  | _, _ => false

/-! ## 列の組み立て -/

theorem bracketed_append {m : Mode} {p q : List (Op L)} (hp : Bracketed m p = true)
    (hq : Bracketed .free q = true) : Bracketed m (p ++ q) = true := by
  induction p generalizing m with
  | nil =>
    cases m <;> simp_all [Bracketed]
  | cons op p ih =>
    cases op with
    | acc a => cases m <;> cases a <;> simp_all [Bracketed]
    | _ => cases m <;> simp_all [Bracketed]

theorem bracketed_flatten {ps : List (List (Op L))} (h : ∀ p ∈ ps, Bracketed .free p = true) :
    Bracketed .free ps.flatten = true := by
  induction ps with
  | nil => rfl
  | cons p ps ih =>
    rw [List.flatten_cons]
    exact bracketed_append (h p (by simp)) (ih fun q hq => h q (by simp [hq]))

/-- 排他の lock の内の読み書きは、どれも許される。 -/
theorem bracketed_accs {as : List (Access L)} {q : List (Op L)}
    (hq : Bracketed .exclusive q = true) : Bracketed .exclusive (as.map .acc ++ q) = true := by
  induction as with
  | nil => exact hq
  | cons a as ih => simpa [Bracketed] using ih

/-- 排他の lock を取って読み書きし、外す列。 -/
theorem bracketed_locked (as : List (Access L)) :
    Bracketed .free (.lock :: (as.map .acc ++ [.unlock])) = true :=
  bracketed_accs (L := L) (q := [.unlock]) rfl

/-- 共有の lock を取って読むだけの列。 -/
theorem bracketed_rLocked (ls : List L) :
    Bracketed .free (.rLock :: ((ls.map fun l => .acc (.read l)) ++ [.rUnlock])) = true := by
  show Bracketed .shared _ = true
  induction ls with
  | nil => rfl
  | cons l ls ih => simpa [Bracketed] using ih

/-! ## 列の頭の形 -/

theorem held_of_bracketed_lock {m : Mode} {ops : List (Op L)}
    (h : Bracketed m (.lock :: ops) = true) : m = .free := by
  cases m <;> simp_all [Bracketed]

theorem held_of_bracketed_unlock {m : Mode} {ops : List (Op L)}
    (h : Bracketed m (.unlock :: ops) = true) : m = .exclusive := by
  cases m <;> simp_all [Bracketed]

theorem held_of_bracketed_rLock {m : Mode} {ops : List (Op L)}
    (h : Bracketed m (.rLock :: ops) = true) : m = .free := by
  cases m <;> simp_all [Bracketed]

theorem held_of_bracketed_rUnlock {m : Mode} {ops : List (Op L)}
    (h : Bracketed m (.rUnlock :: ops) = true) : m = .shared := by
  cases m <;> simp_all [Bracketed]

theorem held_of_bracketed_acc {m : Mode} {a : Access L} {ops : List (Op L)}
    (h : Bracketed m (.acc a :: ops) = true) : m ≠ .free := by
  rintro rfl
  simp [Bracketed] at h

theorem held_of_bracketed_write {m : Mode} {l : L} {ops : List (Op L)}
    (h : Bracketed m (.acc (.write l) :: ops) = true) : m = .exclusive := by
  cases m <;> simp_all [Bracketed]

/-- 読み書きの後も、同じ持ち方で `Bracketed`。 -/
theorem bracketed_of_acc {m : Mode} {a : Access L} {ops : List (Op L)}
    (h : Bracketed m (.acc a :: ops) = true) : Bracketed m ops = true := by
  cases m <;> cases a <;> simp_all [Bracketed]

/-! ## 不変条件 -/

/-- 届く状態の不変条件：どの goroutine の残りも今の持ち方で `Bracketed`、書き手の印は排他で
持つ goroutine の数（0 か 1）、読み手の数は共有で持つ goroutine の数、書き手がいれば読み手は
いない。 -/
structure Conf.Inv (c : Conf L) : Prop where
  bracketed : ∀ th ∈ c.threads, Bracketed th.held th.rest = true
  writers : c.threads.countP (·.held == .exclusive) = if c.writer then 1 else 0
  readers : c.threads.countP (·.held == .shared) = c.readers
  writer_alone : c.writer = true → c.readers = 0

theorem Conf.Inv.init {progs : List (List (Op L))} (h : ∀ p ∈ progs, Bracketed .free p = true) :
    (Conf.init progs).Inv where
  bracketed := by simpa [Conf.init] using h
  writers := by simp [Conf.init, List.countP_eq_zero]
  readers := by simp [Conf.init, List.countP_eq_zero]
  writer_alone := by simp [Conf.init]

/-- 一つの goroutine の持ち方を `m` に替えると、持ち方 `m'` の数は前の持ち方の分だけ減り、
`m` の分だけ増える。 -/
theorem countP_set_held {ths : List (Thread L)} {i : Nat} {th : Thread L}
    (hi : ths[i]? = some th) (ops : List (Op L)) (m m' : Mode) :
    (ths.set i ⟨ops, m⟩).countP (·.held == m') =
      ths.countP (·.held == m') - (if th.held = m' then 1 else 0) + (if m = m' then 1 else 0) := by
  obtain ⟨hlt, rfl⟩ := List.getElem?_eq_some_iff.mp hi
  rw [List.countP_set hlt]
  simp

/-- 持ち方 `m'` の goroutine が一つあれば、その数は正。 -/
theorem countP_held_pos {ths : List (Thread L)} {i : Nat} {th : Thread L}
    (hi : ths[i]? = some th) : 0 < ths.countP (·.held == th.held) :=
  List.countP_pos_iff.mpr ⟨th, List.mem_of_getElem? hi, by simp⟩

theorem mem_set_of_mem {ths : List (Thread L)} {i : Nat} {th : Thread L}
    (h : th ∈ ths.set i th') : th ∈ ths ∨ th = th' :=
  List.mem_or_eq_of_mem_set h

/-- 一歩は不変条件を保つ。 -/
theorem Conf.Inv.step {c c' : Conf L} {i : Nat} (hc : c.Inv) (h : c.step i = some c') :
    c'.Inv := by
  unfold Conf.step at h
  split at h
  · cases h
  rename_i th hth
  have hbr := hc.bracketed th (List.mem_of_getElem? hth)
  -- 残りの列は、新しい持ち方で `Bracketed`
  have hrest : ∀ ops m, Bracketed m ops = true →
      ∀ t ∈ c.threads.set i ⟨ops, m⟩, Bracketed t.held t.rest = true := by
    intro ops m hops t ht
    rcases mem_set_of_mem ht with ht | rfl
    · exact hc.bracketed t ht
    · exact hops
  have hcnt := countP_set_held hth
  split at h
  · cases h
  · -- Lock：誰も持っていないので、この goroutine だけが排他で持つ
    rename_i ops hr
    rw [hr] at hbr
    have hfree := held_of_bracketed_lock hbr
    split_ifs at h with hok
    cases h
    have hw := hc.writers
    rw [hok.1] at hw
    have hs := hc.readers
    rw [hok.2] at hs
    refine ⟨hrest ops _ (by simpa [Bracketed, hfree] using hbr), ?_, ?_, by simp [hok.2]⟩
    · rw [hcnt]; simp [hfree, hw]
    · rw [hcnt]; simp [hfree, hs, hok.2]
  · -- Unlock：排他で持っていた goroutine が外す
    rename_i ops hr
    rw [hr] at hbr
    have hex := held_of_bracketed_unlock hbr
    split_ifs at h with hok
    cases h
    have hw := hc.writers
    rw [hok] at hw
    refine ⟨hrest ops _ (by simpa [Bracketed, hex] using hbr), ?_, ?_, by simp⟩
    · rw [hcnt]; simp [hex, hw]
    · rw [hcnt]; simp [hex, hc.readers]
  · -- RLock：書き手がいないので、共有で持つ goroutine が一つ増える
    rename_i ops hr
    rw [hr] at hbr
    have hfree := held_of_bracketed_rLock hbr
    split_ifs at h with hok
    cases h
    refine ⟨hrest ops _ (by simpa [Bracketed, hfree] using hbr), ?_, ?_, by simp [hok]⟩
    · rw [hcnt]; simp [hfree, hc.writers, hok]
    · rw [hcnt]; simp [hfree, hc.readers]
  · -- RUnlock：共有で持っていた goroutine が外す
    rename_i ops hr
    rw [hr] at hbr
    have hsh := held_of_bracketed_rUnlock hbr
    split_ifs at h with hok
    cases h
    have hpos := countP_held_pos hth
    rw [hsh, hc.readers] at hpos
    refine ⟨hrest ops _ (by simpa [Bracketed, hsh] using hbr), ?_, ?_, ?_⟩
    · rw [hcnt]; simp [hsh, hc.writers]
    · rw [hcnt]; simp [hsh, hc.readers]
    · intro hw
      have := hc.writer_alone hw
      omega
  · -- 読み書き：持ち方は変わらない
    rename_i a ops hr
    rw [hr] at hbr
    cases h
    have hsame : ∀ m', (c.threads.set i ⟨ops, th.held⟩).countP (·.held == m') =
        c.threads.countP (·.held == m') := by
      intro m'
      rw [hcnt]
      have : (if th.held = m' then 1 else 0) ≤ c.threads.countP (·.held == m') := by
        split_ifs with hm
        · subst hm; exact countP_held_pos hth
        · exact Nat.zero_le _
      omega
    exact ⟨hrest ops _ (bracketed_of_acc hbr), by rw [hsame, hc.writers],
      by rw [hsame, hc.readers], hc.writer_alone⟩

theorem Reachable.inv {c₀ c : Conf L} (h : Reachable c₀ c) (h₀ : c₀.Inv) : c.Inv := by
  induction h with
  | refl => exact h₀
  | step _ hs ih => exact ih.step hs

theorem Reachable.of_run {c₀ c : Conf L} {sched : List Nat} (h : c₀.run sched = some c) :
    Reachable c₀ c := by
  induction sched generalizing c₀ with
  | nil =>
    cases h
    exact .refl
  | cons i sched ih =>
    simp only [Conf.run, Option.bind_eq_some_iff] at h
    obtain ⟨c₁, h₁, h₂⟩ := h
    have hr := ih h₂
    -- `c₀` から一歩の `c₁` を頭に足す
    clear h₂ ih
    induction hr with
    | refl => exact .step .refl h₁
    | step _ hs ih' => exact .step ih' hs

/-! ## lock の内の読み書きと、ぶつからないこと -/

/-- 排他で持つ goroutine がいれば、ほかの goroutine はどれも持っていない。 -/
theorem Conf.Inv.others_free {c : Conf L} (hc : c.Inv) {i j : Nat} {thi thj : Thread L}
    (hij : i ≠ j) (hi : c.threads[i]? = some thi) (hex : thi.held = .exclusive)
    (hj : c.threads[j]? = some thj) : thj.held = .free := by
  have hpos := countP_held_pos hi
  rw [hex, hc.writers] at hpos
  have hw : c.writer = true := by
    cases hw : c.writer
    · simp [hw] at hpos
    · rfl
  have hnr := hc.writer_alone hw
  -- 排他で持つのは `i` だけ：`j` も排他なら数が 2 以上になる
  cases hm : thj.held with
  | free => rfl
  | shared =>
    have := countP_held_pos hj
    rw [hm, hc.readers, hnr] at this
    omega
  | exclusive =>
    -- `j` を外しても `i` が排他で残るので、排他の数は 2 以上になる
    have hdrop := countP_set_held hj thj.rest .free .exclusive
    have hi' : (c.threads.set j ⟨thj.rest, .free⟩)[i]? = some thi := by
      rw [List.getElem?_set_ne (Ne.symm hij)]; exact hi
    have hleft := countP_held_pos hi'
    rw [hex, hdrop, hc.writers, hw, hm] at hleft
    simp at hleft

/-- 届く状態では、どの goroutine の次の読み書きも lock の内。 -/
theorem Conf.Inv.guarded {c : Conf L} (hc : c.Inv) : ∀ th ∈ c.threads, th.Guarded := by
  intro th hth
  have hbr := hc.bracketed th hth
  unfold Thread.Guarded
  split
  · exact held_of_bracketed_acc (by simpa [*] using hbr)
  · exact held_of_bracketed_write (by simpa [*] using hbr)
  · trivial

theorem Access.conflict_write {a b : Access L} (h : a.Conflict b) :
    (∃ l, a = .write l) ∨ ∃ l, b = .write l := by
  cases a <;> cases b <;> simp_all [Access.Conflict]

theorem next?_eq_some {c : Conf L} {i : Nat} {op : Op L} (h : c.next? i = some op) :
    ∃ th ops, c.threads[i]? = some th ∧ th.rest = op :: ops := by
  simp only [Conf.next?, Option.bind_eq_some_iff] at h
  obtain ⟨th, hth, hop⟩ := h
  obtain ⟨ops, hops⟩ : ∃ ops, th.rest = op :: ops := by
    cases hr : th.rest with
    | nil => simp [hr] at hop
    | cons op' ops => simp [hr] at hop; exact ⟨ops, by rw [hop]⟩
  exact ⟨th, ops, hth, hops⟩

/-- 書く goroutine は排他で持ち、ほかは持たないので読み書きに来られない。 -/
theorem Conf.Inv.no_race_of_write {c : Conf L} (hc : c.Inv) {i j : Nat} {l : L} {b : Access L}
    (hij : i ≠ j) (hi : c.next? i = some (.acc (.write l))) (hj : c.next? j = some (.acc b)) :
    False := by
  obtain ⟨thi, opsi, hthi, hri⟩ := next?_eq_some hi
  obtain ⟨thj, opsj, hthj, hrj⟩ := next?_eq_some hj
  have hbi := hc.bracketed thi (List.mem_of_getElem? hthi)
  have hbj := hc.bracketed thj (List.mem_of_getElem? hthj)
  rw [hri] at hbi
  rw [hrj] at hbj
  exact held_of_bracketed_acc hbj (hc.others_free hij hthi (held_of_bracketed_write hbi) hthj)

theorem Conf.Inv.no_race {c : Conf L} (hc : c.Inv) : ¬ c.Race := by
  rintro ⟨i, j, a, b, hij, hi, hj, hab⟩
  rcases Access.conflict_write hab with ⟨l, rfl⟩ | ⟨l, rfl⟩
  · exact hc.no_race_of_write hij hi hj
  · exact hc.no_race_of_write (Ne.symm hij) hj hi

/-- どの goroutine の列も `Bracketed` なら、どの交互実行でも、次の読み書きはどれも lock の内で、
ぶつかる読み書きが同時に来ることは無い。 -/
theorem raceFree_of_bracketed {progs : List (List (Op L))}
    (h : ∀ p ∈ progs, Bracketed .free p = true) {c : Conf L}
    (hc : Reachable (Conf.init progs) c) : (∀ th ∈ c.threads, th.Guarded) ∧ ¬ c.Race := by
  have hinv := hc.inv (Conf.Inv.init h)
  exact ⟨hinv.guarded, hinv.no_race⟩

/-! ## 読み書きだけの区間を進める -/

/-- 次の操作が読み書きだけの区間 `as` なら、その goroutine は続けて `as` を実行できる。ほかの
goroutine と lock は変わらない。 -/
theorem run_accs {c : Conf L} {i : Nat} {th : Thread L} (as : List (Access L)) {ops : List (Op L)}
    (hi : c.threads[i]? = some th) (hr : th.rest = as.map .acc ++ ops) :
    c.run (List.replicate as.length i) =
      some { c with threads := c.threads.set i ⟨ops, th.held⟩ } := by
  induction as generalizing c th with
  | nil =>
    obtain ⟨hlt, rfl⟩ := List.getElem?_eq_some_iff.mp hi
    have hself : (⟨ops, c.threads[i].held⟩ : Thread L) = c.threads[i] := by
      cases hth : c.threads[i]; simp_all
    simp [Conf.run, hself]
  | cons a as ih =>
    have hlt : i < c.threads.length := (List.getElem?_eq_some_iff.mp hi).1
    have hstep : c.step i = some { c with threads := c.threads.set i ⟨as.map .acc ++ ops, th.held⟩ } := by
      simp [Conf.step, hi, hr]
    have hi' : ({ c with threads := c.threads.set i ⟨as.map .acc ++ ops, th.held⟩ } : Conf L).threads[i]? =
        some ⟨as.map .acc ++ ops, th.held⟩ := by
      simp [hlt]
    rw [List.length_cons, List.replicate_succ, Conf.run, hstep, Option.bind_some, ih hi' rfl]
    simp

/-- 列の結合に沿って進める。 -/
theorem run_append (c : Conf L) (s₁ s₂ : List Nat) :
    c.run (s₁ ++ s₂) = (c.run s₁).bind fun c' => c'.run s₂ := by
  induction s₁ generalizing c with
  | nil => rfl
  | cons i s₁ ih =>
    simp only [List.cons_append, Conf.run]
    cases c.step i with
    | none => rfl
    | some c' => exact ih c'

/-! ## lock を取らない goroutine -/

/-- 読み書きだけの列を走らせる goroutine は、どの交互実行でも lock を持たず、残りはその列の
後ろの部分である。 -/
theorem Reachable.thread_of_accs {progs : List (List (Op L))} {i : Nat} {as : List (Access L)}
    (hi : progs[i]? = some (as.map .acc)) {c : Conf L} (hc : Reachable (Conf.init progs) c) :
    ∃ bs, bs <:+ as ∧ c.threads[i]? = some ⟨bs.map .acc, .free⟩ := by
  induction hc with
  | refl => exact ⟨as, List.suffix_refl as, by simp [Conf.init, hi]⟩
  | @step c c' j _ hs ih =>
    obtain ⟨bs, hsuf, hth⟩ := ih
    unfold Conf.step at hs
    split at hs
    · cases hs
    rename_i th hth'
    by_cases hji : j = i
    · -- 進んだのがこの goroutine なら、読み書きを一つ終える
      subst hji
      rw [hth] at hth'
      cases hth'
      cases bs with
      | nil => simp at hs
      | cons b bs =>
        simp only [List.map_cons] at hs
        cases hs
        have hlt : j < c.threads.length := (List.getElem?_eq_some_iff.mp hth).1
        exact ⟨bs, (List.suffix_cons b bs).trans hsuf, by simp [hlt]⟩
    · -- ほかの goroutine が進んでも、この goroutine は変わらない
      refine ⟨bs, hsuf, ?_⟩
      split at hs <;> (try split_ifs at hs) <;> cases hs <;>
        simpa [List.getElem?_set_ne hji] using hth

/-- lock を持たない goroutine の次の読み書きは、lock の内でない。 -/
theorem not_guarded_of_free {a : Access L} {ops : List (Op L)} :
    ¬ (⟨.acc a :: ops, .free⟩ : Thread L).Guarded := by
  cases a <;> simp [Thread.Guarded]

end RWMutex
