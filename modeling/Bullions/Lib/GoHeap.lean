import Mathlib

/-!
# Go の `container/heap`

Go の標準の `container/heap` を、slice を表す列 `List α` の上に写す。`h.Less(i, j)` は
`h[i] < h[j]`、`h.Swap(i, j)` は `swap`、`h.Push(x)` は末尾に足し、`h.Pop()` は末尾を外す。
`Init`・`Push`・`Pop`・`Remove` は Go と同じく `up` と `down` で組み立てる。`up` と `down` の
loop は、位置が下がる（`up`）か、`n` に近づく（`down`）ことで止まる。

`h[i]` は `a.getD i default` と読む。どの呼び手も範囲の内だけを読むが、空の heap の
`Pop` は Go では範囲の外を読んで panic する。ここではその場合も値を返し、呼び手が空でない
ときだけ呼ぶことを別に示す。

heap の順は `HeapFrom a k n`：先頭 `n` 個のうち、親の位置が `k` 以上の親子は親が子より
大きくない。`IsHeap a` は全体でそうであること。`up` と `down` の loop の不変条件は、動いて
いる位置の周りだけが崩れている形（`UpInv`・`DownInv`）で、一つの swap を進める `move` と、
止まったところで順が戻る `finish` から、関数の帰納法で loop 全体を示す。
-/

namespace GoHeap

variable {α : Type} [Inhabited α]

/-- `h.Swap(i, j)`。 -/
def swap (a : List α) (i j : Nat) : List α :=
  (a.set i (a.getD j default)).set j (a.getD i default)

@[simp] theorem length_swap (a : List α) (i j : Nat) : (swap a i j).length = a.length := by
  simp [swap]

theorem getD_swap {a : List α} {i j : Nat} (hi : i < a.length) (hj : j < a.length) (k : Nat) :
    (swap a i j).getD k default =
      if k = j then a.getD i default else if k = i then a.getD j default else a.getD k default := by
  simp only [swap, List.getD_eq_getElem?_getD, List.getElem?_set, List.length_set]
  by_cases hkj : k = j
  · subst hkj; simp [hj, List.getElem?_eq_getElem hi]
  · by_cases hki : k = i
    · subst hki; simp [hkj, Ne.symm hkj, hi, List.getElem?_eq_getElem hj]
    · simp [Ne.symm hkj, Ne.symm hki, hkj, hki]

theorem getD_swap_of_ne {a : List α} {i j k : Nat} (hki : k ≠ i) (hkj : k ≠ j) :
    (swap a i j).getD k default = a.getD k default := by
  simp [swap, List.getD_eq_getElem?_getD, Ne.symm hki, Ne.symm hkj]

theorem swap_perm {a : List α} {i j : Nat} (hi : i < a.length) (hj : j < a.length) :
    List.Perm (swap a i j) a := by
  have := List.set_set_perm hi hj
  simpa [swap, List.getD_eq_getElem?_getD, hi, hj] using this

theorem getD_take {a : List α} {n c : Nat} (hc : c < n) :
    (a.take n).getD c default = a.getD c default := by
  simp [List.getD_eq_getElem?_getD, hc]

theorem take_append_getD {b : List α} {n : Nat} (h : b.length = n + 1) :
    b.take n ++ [b.getD n default] = b := by
  have hn : n < b.length := by omega
  rw [List.getD_eq_getElem?_getD, List.getElem?_eq_getElem hn, Option.getD_some]
  conv => rhs; rw [← List.take_append_drop n b]
  congr
  rw [List.drop_eq_getElem_cons hn, List.drop_eq_nil_of_le (by omega)]

theorem getD_append_left {a : List α} {x : α} {c : Nat} (hc : c < a.length) :
    (a ++ [x]).getD c default = a.getD c default := by
  simp [List.getD_eq_getElem?_getD, List.getElem?_append_left hc]

section Order

variable [LinearOrder α]

/-- `down` の中の子の選び方：右の子が範囲の内で左より小さければ右、でなければ左。 -/
def smallerChild (a : List α) (i n : Nat) : Nat :=
  if 2 * i + 2 < n ∧ a.getD (2 * i + 2) default < a.getD (2 * i + 1) default then 2 * i + 2
  else 2 * i + 1

/-- `down(h, i0, n)` の loop。今の位置 `i` の小さい方の子が小さければ入れ替えて下る。
終わった列と止まった位置を返す。 -/
def downLoop (a : List α) (i n : Nat) : List α × Nat :=
  if 2 * i + 1 < n then
    if a.getD (smallerChild a i n) default < a.getD i default then
      downLoop (swap a i (smallerChild a i n)) (smallerChild a i n) n
    else (a, i)
  else (a, i)
termination_by n - i
decreasing_by unfold smallerChild; split <;> omega

/-- `down(h, i0, n)`：動いたか（`i > i0`）を返す。 -/
def down (a : List α) (i0 n : Nat) : List α × Bool :=
  ((downLoop a i0 n).1, decide ((downLoop a i0 n).2 > i0))

/-- `up(h, j)`。親の位置は `(j - 1) / 2` で、`j = 0` では Go でも `i == j` で止まる。 -/
def up (a : List α) (j : Nat) : List α :=
  if j = 0 then a
  else if a.getD j default < a.getD ((j - 1) / 2) default then
    up (swap a ((j - 1) / 2) j) ((j - 1) / 2)
  else a
termination_by j
decreasing_by omega

/-- `Init` の loop：`i = k - 1, …, 0` の順に `down(h, i, n)`。 -/
def initLoop (n : Nat) : Nat → List α → List α
  | 0, a => a
  | k + 1, a => initLoop n k (down a k n).1

/-- `heap.Init(h)`。 -/
def init (a : List α) : List α := initLoop a.length (a.length / 2) a

/-- `heap.Push(h, x)`。 -/
def push (a : List α) (x : α) : List α := up (a ++ [x]) a.length

/-- `heap.Pop(h)`：根を末尾と入れ替え、先頭 `n` 個で `down` し、末尾を外して返す。 -/
def pop (a : List α) : List α × α :=
  let n := a.length - 1
  let b := (down (swap a 0 n) 0 n).1
  (b.take n, b.getD n default)

/-- `heap.Remove(h, i)`。 -/
def remove (a : List α) (i : Nat) : List α × α :=
  let n := a.length - 1
  let b :=
    if n ≠ i then
      if (down (swap a i n) i n).2 then (down (swap a i n) i n).1
      else up (down (swap a i n) i n).1 i
    else a
  (b.take n, b.getD n default)

/-- 先頭 `n` 個のうち、親の位置が `k` 以上の親子は親が子より大きくない。 -/
def HeapFrom (a : List α) (k n : Nat) : Prop :=
  ∀ c, c < n → 0 < c → k ≤ (c - 1) / 2 → a.getD ((c - 1) / 2) default ≤ a.getD c default

/-- heap の順。 -/
def IsHeap (a : List α) : Prop := HeapFrom a 0 a.length

/-! ## 子の選び方 -/

theorem smallerChild_parent (a : List α) (i n : Nat) : (smallerChild a i n - 1) / 2 = i := by
  unfold smallerChild; split <;> omega

theorem smallerChild_pos (a : List α) (i n : Nat) : 0 < smallerChild a i n := by
  unfold smallerChild; split <;> omega

theorem smallerChild_lt {a : List α} {i n : Nat} (h : 2 * i + 1 < n) : smallerChild a i n < n := by
  unfold smallerChild; split <;> omega

/-- 選んだ子は、範囲の内のどの子よりも大きくない。 -/
theorem smallerChild_le {a : List α} {i n c : Nat} (hc : c < n) (hc0 : 0 < c)
    (hp : (c - 1) / 2 = i) :
    a.getD (smallerChild a i n) default ≤ a.getD c default := by
  have hcases : c = 2 * i + 1 ∨ c = 2 * i + 2 := by omega
  unfold smallerChild
  split
  · rename_i h
    rcases hcases with rfl | rfl
    · exact le_of_lt h.2
    · exact le_rfl
  · rename_i h
    rcases hcases with rfl | rfl
    · exact le_rfl
    · exact not_lt.mp fun hlt => h ⟨hc, hlt⟩

/-! ## `down` -/

theorem downLoop_of_lt {a : List α} {k n : Nat} (h1 : 2 * k + 1 < n)
    (hlt : a.getD (smallerChild a k n) default < a.getD k default) :
    downLoop a k n = downLoop (swap a k (smallerChild a k n)) (smallerChild a k n) n := by
  rw [downLoop, if_pos h1, if_pos hlt]

theorem downLoop_of_not_lt {a : List α} {k n : Nat} (h1 : 2 * k + 1 < n)
    (hlt : ¬ a.getD (smallerChild a k n) default < a.getD k default) :
    downLoop a k n = (a, k) := by
  rw [downLoop, if_pos h1, if_neg hlt]

theorem downLoop_of_ge {a : List α} {k n : Nat} (h1 : ¬ 2 * k + 1 < n) : downLoop a k n = (a, k) := by
  rw [downLoop, if_neg h1]

/-- `down` の loop の不変条件：`i0` から始めて今 `k` にいる。`k` を親に持つ組のほかは
（親が `i0` 以上の範囲で）順に並び、`k` の子は `k` の親より小さくない。 -/
structure DownInv (a : List α) (i0 k n : Nat) : Prop where
  except : ∀ c, c < n → 0 < c → i0 ≤ (c - 1) / 2 → (c - 1) / 2 ≠ k →
    a.getD ((c - 1) / 2) default ≤ a.getD c default
  grand : k ≠ i0 → ∀ c, c < n → 0 < c → (c - 1) / 2 = k →
    a.getD ((k - 1) / 2) default ≤ a.getD c default
  pos : k = i0 ∨ (0 < k ∧ i0 ≤ (k - 1) / 2)
  bound : n ≤ a.length

/-- 始めの位置では、親が `i0` より大きい組が順に並んでいれば足りる。 -/
theorem DownInv.start {a : List α} {i0 n : Nat} (h : HeapFrom a (i0 + 1) n) (hn : n ≤ a.length) :
    DownInv a i0 i0 n where
  except c hc hc0 hk hne := h c hc hc0 (by omega)
  grand h := absurd rfl h
  pos := .inl rfl
  bound := hn

/-- 小さい方の子と入れ替えて、一つ下る。 -/
theorem DownInv.move {a : List α} {i0 k n : Nat} (hinv : DownInv a i0 k n) (h1 : 2 * k + 1 < n)
    (hlt : a.getD (smallerChild a k n) default < a.getD k default) :
    DownInv (swap a k (smallerChild a k n)) i0 (smallerChild a k n) n := by
  set j := smallerChild a k n with hjdef
  have hjp : (j - 1) / 2 = k := smallerChild_parent a k n
  have hj0 : 0 < j := smallerChild_pos a k n
  have hjn : j < n := smallerChild_lt h1
  have hkn : k < a.length := by have := hinv.bound; omega
  have hjl : j < a.length := by have := hinv.bound; omega
  have hsw := getD_swap (a := a) hkn hjl
  have hk0 := hinv.pos
  refine ⟨?_, ?_, .inr ⟨hj0, by omega⟩, by simpa using hinv.bound⟩
  · intro c hc hc0 hpc hne
    by_cases hpk : (c - 1) / 2 = k
    · -- `k` の子：入れ替えた子と、その兄弟
      rw [hsw, hsw, hpk]
      by_cases hcj : c = j
      · simp only [hcj, if_true, show k ≠ j by omega, if_false]
        exact le_of_lt hlt
      · have hck : c ≠ k := by omega
        simp only [hcj, hck, if_false, if_true, show k ≠ j by omega]
        exact smallerChild_le hc hc0 hpk
    · by_cases hck : c = k
      · -- `k` 自身と、その親
        subst hck
        have hne' : c ≠ i0 := by
          rintro rfl; omega
        rw [hsw, hsw]
        simp only [show (c - 1) / 2 ≠ j by omega, show (c - 1) / 2 ≠ c by omega, show c ≠ j by omega,
          if_false, if_true]
        exact hinv.grand hne' j hjn hj0 hjp
      · have hcj : c ≠ j := by omega
        rw [getD_swap_of_ne (by omega) (by omega), getD_swap_of_ne hck hcj]
        exact hinv.except c hc hc0 hpc hpk
  · intro hne c hc hc0 hpc
    -- 下った先の子は、前の列で `j` の子
    rw [hsw, hsw, hjp]
    simp only [show c ≠ j by omega, show c ≠ k by omega, show k ≠ j by omega, if_true, if_false]
    have := hinv.except c hc hc0 (by omega) (by omega)
    rwa [hpc] at this

/-- 止まったところで、親が `i0` 以上の組はどれも順に並ぶ。 -/
theorem DownInv.finish {a : List α} {i0 k n : Nat} (hinv : DownInv a i0 k n)
    (hstop : 2 * k + 1 < n → ¬ a.getD (smallerChild a k n) default < a.getD k default) :
    HeapFrom a i0 n := by
  intro c hc hc0 hpc
  by_cases hpk : (c - 1) / 2 = k
  · rw [hpk]
    have h1 : 2 * k + 1 < n := by omega
    exact le_trans (not_lt.mp (hstop h1)) (smallerChild_le hc hc0 hpk)
  · exact hinv.except c hc hc0 hpc hpk

/-- `i0` でも、親が `i0` より小さい位置でもない所（`i0` の下の木の外）。 -/
def Outside (i0 c : Nat) : Prop := c ≠ i0 ∧ (c = 0 ∨ (c - 1) / 2 < i0)

/-- `down` の loop：親が `i0` 以上の組を順に並べ、`i0` の下の木の外と `n` から先は変えない。
動かなければ列は元のまま。 -/
theorem downLoop_spec {n : Nat} {i0 : Nat} : ∀ (a : List α) (k : Nat), DownInv a i0 k n →
    HeapFrom (downLoop a k n).1 i0 n ∧ List.Perm (downLoop a k n).1 a ∧
    (∀ c, n ≤ c → (downLoop a k n).1.getD c default = a.getD c default) ∧
    (∀ c, Outside i0 c → (downLoop a k n).1.getD c default = a.getD c default) ∧
    k ≤ (downLoop a k n).2 ∧ ((downLoop a k n).2 = k → (downLoop a k n).1 = a) := by
  intro a k
  induction a, k using @downLoop.induct α _ _ n with
  | case1 a k h1 hlt ih =>
    intro hinv
    rw [downLoop_of_lt h1 hlt]
    set j := smallerChild a k n with hjdef
    have hjp : (j - 1) / 2 = k := smallerChild_parent a k n
    have hj0 : 0 < j := smallerChild_pos a k n
    have hjn : j < n := smallerChild_lt h1
    have hkl : k < a.length := by have := hinv.bound; omega
    have hjl : j < a.length := by have := hinv.bound; omega
    obtain ⟨hheap, hperm, hhi, hout, hmono, -⟩ := ih (hinv.move h1 hlt)
    refine ⟨hheap, hperm.trans (swap_perm hkl hjl), ?_, ?_, by omega, by omega⟩
    · intro c hc
      rw [hhi c hc, getD_swap_of_ne (by omega) (by omega)]
    · intro c hc
      have hk0 := hinv.pos
      obtain ⟨hci, hcp⟩ := hc
      rw [hout c ⟨by omega, by omega⟩, getD_swap_of_ne ?_ (by omega)]
      rintro rfl; omega
  | case2 a k h1 hstop =>
    intro hinv
    rw [downLoop_of_not_lt h1 hstop]
    exact ⟨hinv.finish fun _ => hstop, .refl a, fun _ _ => rfl, fun _ _ => rfl, Nat.le_refl k,
      fun _ => rfl⟩
  | case3 a k h1 =>
    intro hinv
    rw [downLoop_of_ge h1]
    exact ⟨hinv.finish fun h => absurd h h1, .refl a, fun _ _ => rfl, fun _ _ => rfl, Nat.le_refl k,
      fun _ => rfl⟩

/-- `down` が動いたなら、`i0` には範囲の内の子の一つが上がっている。 -/
theorem down_moved {a : List α} {i0 n : Nat} (hinv : DownInv a i0 i0 n)
    (h : (down a i0 n).2 = true) :
    ∃ j, j < n ∧ 0 < j ∧ (j - 1) / 2 = i0 ∧
      (down a i0 n).1.getD i0 default = a.getD j default := by
  simp only [down, decide_eq_true_eq] at h ⊢
  by_cases h1 : 2 * i0 + 1 < n
  · by_cases hlt : a.getD (smallerChild a i0 n) default < a.getD i0 default
    · have hloop := downLoop_of_lt h1 hlt
      set j := smallerChild a i0 n
      have hjp : (j - 1) / 2 = i0 := smallerChild_parent a i0 n
      have hjn : j < n := smallerChild_lt h1
      have hl : i0 < a.length ∧ j < a.length := by have := hinv.bound; omega
      -- 下った先から見れば `i0` は木の外なので、入れ替えた値のまま残る
      obtain ⟨-, -, -, hout, -, -⟩ :=
        @downLoop_spec _ _ _ _ j _ _ (DownInv.start (fun c hc _ hpc => by
          have := (hinv.move h1 hlt).except c hc (by omega) (by omega) (by omega)
          exact this) (by simpa using hinv.bound))
      have hj0 : 0 < j := smallerChild_pos a i0 n
      have hne : i0 ≠ j := by omega
      have hi0 : Outside j i0 := ⟨hne, by omega⟩
      refine ⟨j, hjn, hj0, hjp, ?_⟩
      rw [hloop, hout i0 hi0, getD_swap hl.1 hl.2]
      simp [hne]
    · rw [downLoop_of_not_lt h1 hlt] at h
      exact absurd h (Nat.lt_irrefl i0)
  · rw [downLoop_of_ge h1] at h
    exact absurd h (Nat.lt_irrefl i0)

/-! ## `up` -/

/-- `up` の loop の不変条件：今の位置 `j` とその親の組のほかは順に並び、`j` の子は `j` の親より
小さくない。 -/
structure UpInv (a : List α) (j n : Nat) : Prop where
  except : ∀ c, c < n → 0 < c → c ≠ j → a.getD ((c - 1) / 2) default ≤ a.getD c default
  grand : 0 < j → ∀ c, c < n → 0 < c → (c - 1) / 2 = j →
    a.getD ((j - 1) / 2) default ≤ a.getD c default
  lt : j < n
  bound : n ≤ a.length

/-- 親と入れ替えて、一つ上る。 -/
theorem UpInv.move {a : List α} {j n : Nat} (hinv : UpInv a j n) (hj : j ≠ 0)
    (hlt : a.getD j default < a.getD ((j - 1) / 2) default) :
    UpInv (swap a ((j - 1) / 2) j) ((j - 1) / 2) n := by
  set i := (j - 1) / 2 with hidef
  have hij : i < j := by omega
  have hjl : j < a.length := by have := hinv.bound; have := hinv.lt; omega
  have hil : i < a.length := by omega
  have hsw := getD_swap (a := a) hil hjl
  refine ⟨?_, ?_, by have := hinv.lt; omega, by simpa using hinv.bound⟩
  · intro c hc hc0 hci
    rw [hsw, hsw]
    by_cases hcj : c = j
    · -- 入れ替えた組
      subst hcj
      simp only [← hidef, if_true, show i ≠ c by omega, if_false]
      exact le_of_lt hlt
    · by_cases hpi : (c - 1) / 2 = i
      · -- `j` の兄弟
        simp only [hpi, hcj, hci, if_true, if_false, show i ≠ j by omega]
        have := hinv.except c hc hc0 hcj
        rw [hpi] at this
        exact le_trans (le_of_lt hlt) this
      · by_cases hpj : (c - 1) / 2 = j
        · -- `j` の子
          simp only [hpj, hcj, hci, if_true, if_false]
          exact hinv.grand (by omega) c hc hc0 hpj
        · simp only [hpi, hpj, hcj, hci, if_false]
          exact hinv.except c hc hc0 hcj
  · intro hi0 c hc hc0 hpc
    rw [hsw, hsw]
    have hpi : (i - 1) / 2 ≠ i := by omega
    have hpj : (i - 1) / 2 ≠ j := by omega
    simp only [hpi, hpj, if_false]
    have hgi := hinv.except i (by omega) hi0 (by omega)
    by_cases hcj : c = j
    · simp [hcj]
      exact hgi
    · simp only [hcj, show c ≠ i by omega, if_false]
      have := hinv.except c hc hc0 hcj
      rw [hpc] at this
      exact le_trans hgi this

theorem UpInv.finish {a : List α} {j n : Nat} (hinv : UpInv a j n)
    (hstop : j ≠ 0 → ¬ a.getD j default < a.getD ((j - 1) / 2) default) :
    HeapFrom a 0 n := by
  intro c hc hc0 _
  by_cases hcj : c = j
  · subst hcj
    exact not_lt.mp (hstop (by omega))
  · exact hinv.except c hc hc0 hcj

/-- `up`：全体を順に並べ、`j` より後ろは変えない。 -/
theorem up_spec {n : Nat} : ∀ (a : List α) (j : Nat), UpInv a j n →
    HeapFrom (up a j) 0 n ∧ List.Perm (up a j) a ∧
    ∀ c, j < c → (up a j).getD c default = a.getD c default := by
  intro a j
  induction a, j using @up.induct α _ _ with
  | case1 a =>
    intro hinv
    rw [up, if_pos rfl]
    exact ⟨hinv.finish fun h => absurd rfl h, .refl a, fun _ _ => rfl⟩
  | case2 a j hj hlt ih =>
    intro hinv
    rw [up, if_neg hj, if_pos hlt]
    have hjl : j < a.length := by have := hinv.bound; have := hinv.lt; omega
    have hil : (j - 1) / 2 < a.length := by omega
    obtain ⟨hheap, hperm, hfr⟩ := ih (hinv.move hj hlt)
    refine ⟨hheap, hperm.trans (swap_perm hil hjl), fun c hc => ?_⟩
    rw [hfr c (by omega), getD_swap_of_ne (by omega) (by omega)]
  | case3 a j hj hstop =>
    intro hinv
    rw [up, if_neg hj, if_neg hstop]
    exact ⟨hinv.finish fun _ => hstop, .refl a, fun _ _ => rfl⟩

/-! ## 根・先頭の部分・末尾を外す -/

/-- heap の根は、先頭 `n` 個のどれよりも大きくない。 -/
theorem HeapFrom.root_le {a : List α} {n : Nat} (h : HeapFrom a 0 n) :
    ∀ c, c < n → a.getD 0 default ≤ a.getD c default := by
  intro c
  induction c using Nat.strongRecOn with
  | _ c ih =>
    intro hc
    rcases Nat.eq_zero_or_pos c with rfl | hc0
    · exact le_rfl
    · exact le_trans (ih ((c - 1) / 2) (by omega) (by omega)) (h c hc hc0 (Nat.zero_le _))

/-- 先頭 `n` 個が heap の順で `a` と同じ要素の列から末尾を外すと、heap が残り、外した末尾と
合わせて `a` の並べ替え。 -/
theorem heap_of_take {a b : List α} {n : Nat} (hb : HeapFrom b 0 n) (hp : List.Perm b a)
    (hlen : a.length = n + 1) :
    IsHeap (b.take n) ∧ List.Perm (b.take n ++ [b.getD n default]) a ∧
      (b.take n).length = a.length - 1 := by
  have hbl : b.length = n + 1 := by rw [hp.length_eq, hlen]
  have htl : (b.take n).length = n := by simp [hbl]
  refine ⟨?_, by rw [take_append_getD hbl]; exact hp, by omega⟩
  intro c hc hc0 _
  rw [htl] at hc
  rw [getD_take hc, getD_take (by omega)]
  exact hb c hc hc0 (Nat.zero_le _)

/-! ## `Init`・`Push`・`Pop`・`Remove` -/

theorem initLoop_spec (n : Nat) : ∀ (k : Nat) (a : List α), n ≤ a.length → HeapFrom a k n →
    HeapFrom (initLoop n k a) 0 n ∧ List.Perm (initLoop n k a) a
  | 0, a, _, h => ⟨h, .refl a⟩
  | k + 1, a, hn, h => by
    -- `k` から `down` して、親が `k` 以上の組を順に並べる
    obtain ⟨hd, hp, -⟩ := downLoop_spec a k (DownInv.start h hn)
    have hn' : n ≤ (down a k n).1.length := by rw [down, hp.length_eq]; exact hn
    obtain ⟨hh, hp'⟩ := initLoop_spec n k (down a k n).1 hn' hd
    exact ⟨hh, hp'.trans hp⟩

/-- `heap.Init` は並べ替えて heap にする。 -/
theorem init_spec (a : List α) : IsHeap (init a) ∧ List.Perm (init a) a := by
  have hstart : HeapFrom a (a.length / 2) a.length := by
    intro c hc hc0 hk; omega
  obtain ⟨hh, hp⟩ := initLoop_spec a.length (a.length / 2) a (Nat.le_refl _) hstart
  exact ⟨by unfold IsHeap; rw [init, hp.length_eq]; exact hh, hp⟩

/-- `heap.Push` は末尾に足して heap に戻す。 -/
theorem push_spec {a : List α} (ha : IsHeap a) (x : α) :
    IsHeap (push a x) ∧ List.Perm (push a x) (a ++ [x]) := by
  have hinv : UpInv (a ++ [x]) a.length (a.length + 1) := by
    refine ⟨fun c hc hc0 hcj => ?_, fun _ c hc hc0 hpc => by omega, by omega, by simp⟩
    -- 足した末尾のほかの親子は、元の heap のまま
    rw [getD_append_left (by omega), getD_append_left (by omega)]
    exact ha c (by omega) hc0 (Nat.zero_le _)
  obtain ⟨hh, hp, -⟩ := up_spec _ _ hinv
  refine ⟨?_, hp⟩
  unfold IsHeap push
  rw [hp.length_eq, List.length_append, List.length_singleton]
  exact hh

/-- `heap.Pop` は根を返し、残りは heap。 -/
theorem pop_spec {a : List α} (ha : IsHeap a) (hne : a ≠ []) :
    IsHeap (pop a).1 ∧ List.Perm ((pop a).1 ++ [(pop a).2]) a ∧
      (pop a).2 = a.getD 0 default ∧ (pop a).1.length = a.length - 1 := by
  have hl : 0 < a.length := List.length_pos_iff.mpr hne
  set n := a.length - 1 with hn
  have hsw := getD_swap (a := a) (i := 0) (j := n) hl (by omega)
  -- 根と末尾を入れ替えても、根のほかの親子は元のまま
  have hstart : HeapFrom (swap a 0 n) 1 n := by
    intro c hc hc0 hk
    rw [getD_swap_of_ne (by omega) (by omega), getD_swap_of_ne (by omega) (by omega)]
    exact ha c (by omega) hc0 (Nat.zero_le _)
  obtain ⟨hd, hp, hhi, -⟩ := downLoop_spec _ _ (DownInv.start hstart (by simp; omega))
  have hlast : (downLoop (swap a 0 n) 0 n).1.getD n default = a.getD 0 default := by
    rw [hhi n (Nat.le_refl n), hsw]; simp
  obtain ⟨hh, hp', hlen⟩ := heap_of_take hd (hp.trans (swap_perm hl (by omega))) (by omega)
  exact ⟨hh, hp', hlast, hlen⟩

/-- `Remove` で末尾と入れ替えた後、`down` が動かなかったときの `up` の始め：`i` より下は
`down` が順を確かめ、`i` の子は元の heap で `i` の親より小さくない。 -/
theorem UpInv.of_down_stuck {a : List α} (ha : IsHeap a) {i n : Nat} (hn : n + 1 = a.length)
    (hin : i < n) (hd : HeapFrom (swap a i n) i n) : UpInv (swap a i n) i n := by
  have hsw := getD_swap (a := a) (i := i) (j := n) (by omega) (by omega)
  refine ⟨fun c hc hc0 hci => ?_, fun hi0 c hc hc0 hpc => ?_, hin, by simp; omega⟩
  · by_cases hpi : i ≤ (c - 1) / 2
    · exact hd c hc hc0 hpi
    · rw [getD_swap_of_ne (by omega) (by omega), getD_swap_of_ne hci (by omega)]
      exact ha c (by omega) hc0 (Nat.zero_le _)
  · rw [getD_swap_of_ne (by omega) (by omega), getD_swap_of_ne (by omega) (by omega)]
    have h1 := ha i (by omega) hi0 (Nat.zero_le _)
    have h2 := ha c (by omega) hc0 (Nat.zero_le _)
    rw [hpc] at h2
    exact le_trans h1 h2

/-- `Remove` で末尾と入れ替えた後に `down` が動いたなら、`i` の親より上は元の heap のまま順。 -/
theorem heap_of_down_moved {a : List α} (ha : IsHeap a) {i n : Nat} (hn : n + 1 = a.length)
    (hin : i < n) (hmoved : (down (swap a i n) i n).2 = true) :
    HeapFrom (down (swap a i n) i n).1 0 n := by
  have hsw := getD_swap (a := a) (i := i) (j := n) (by omega) (by omega)
  have hstart : HeapFrom (swap a i n) (i + 1) n := by
    intro c hc hc0 hk
    rw [getD_swap_of_ne (by omega) (by omega), getD_swap_of_ne (by omega) (by omega)]
    exact ha c (by omega) hc0 (Nat.zero_le _)
  have hinv := DownInv.start hstart (by simp; omega)
  obtain ⟨hd, -, -, hout, -⟩ := downLoop_spec _ _ hinv
  obtain ⟨j, hjn, hj0, hjp, hij⟩ := down_moved hinv hmoved
  -- 木の外は入れ替える前の値のまま
  have hkeep : ∀ c, Outside i c → (down (swap a i n) i n).1.getD c default = a.getD c default := by
    intro c hc
    rw [down, hout c hc, getD_swap_of_ne hc.1 (by have := hc.2; omega)]
  intro c hc hc0 _
  by_cases hpi : i ≤ (c - 1) / 2
  · exact hd c hc hc0 hpi
  · by_cases hci : c = i
    · -- `i` に上がった子は、元の heap で `i` より、したがって `i` の親より小さくない
      subst hci
      rw [hkeep _ ⟨by omega, by omega⟩, hij, getD_swap_of_ne (by omega) (by omega)]
      have h1 := ha c (by omega) hc0 (Nat.zero_le _)
      have h2 := ha j (by omega) hj0 (Nat.zero_le _)
      rw [hjp] at h2
      exact le_trans h1 h2
    · rw [hkeep _ ⟨by omega, by omega⟩, hkeep _ ⟨hci, .inr (by omega)⟩]
      exact ha c (by omega) hc0 (Nat.zero_le _)

/-- `heap.Remove` は `i` 番目を返し、残りは heap。 -/
theorem remove_spec {a : List α} (ha : IsHeap a) {i : Nat} (hi : i < a.length) :
    IsHeap (remove a i).1 ∧ List.Perm ((remove a i).1 ++ [(remove a i).2]) a ∧
      (remove a i).2 = a.getD i default ∧ (remove a i).1.length = a.length - 1 := by
  set n := a.length - 1 with hn
  have hn1 : n + 1 = a.length := by omega
  by_cases hni : n = i
  · -- 末尾を外すだけ
    have hr : remove a i = (a.take n, a.getD n default) := by simp [remove, ← hn, hni]
    rw [hr]
    obtain ⟨hh, hp, hlen⟩ := heap_of_take (n := n) (fun c hc hc0 _ => ha c (by omega) hc0 (Nat.zero_le _))
      (.refl a) hn1.symm
    exact ⟨hh, hp, by rw [hni], hlen⟩
  · have hin : i < n := by omega
    have hsw := getD_swap (a := a) (i := i) (j := n) hi (by omega)
    have hperm := swap_perm (a := a) (i := i) (j := n) hi (by omega)
    have hstart : HeapFrom (swap a i n) (i + 1) n := by
      intro c hc hc0 hk
      rw [getD_swap_of_ne (by omega) (by omega), getD_swap_of_ne (by omega) (by omega)]
      exact ha c (by omega) hc0 (Nat.zero_le _)
    have hinv := DownInv.start hstart (by simp; omega)
    obtain ⟨hd, hp, hhi, -, hmono, hsame⟩ := downLoop_spec _ _ hinv
    -- 動いても動かなくても、末尾には外す値が残り、先頭 `n` 個は heap
    obtain ⟨b, hb, hheap, hbp, hblast⟩ : ∃ b, remove a i = (b.take n, b.getD n default) ∧
        HeapFrom b 0 n ∧ List.Perm b a ∧ b.getD n default = a.getD i default := by
      by_cases hmoved : (down (swap a i n) i n).2 = true
      · refine ⟨(down (swap a i n) i n).1, by simp [remove, ← hn, hni, hmoved],
          heap_of_down_moved ha hn1 hin hmoved, hp.trans hperm, ?_⟩
        rw [down, hhi n (Nat.le_refl n), hsw]; simp
      · have hstay : (downLoop (swap a i n) i n).2 = i := by
          simp only [down, decide_eq_true_eq] at hmoved; omega
        have hb : (down (swap a i n) i n).1 = swap a i n := by rw [down, hsame hstay]
        have hup := UpInv.of_down_stuck ha hn1 hin (by rw [← hsame hstay]; exact hd)
        obtain ⟨huh, hup_p, hup_fr⟩ := up_spec _ _ hup
        refine ⟨up (swap a i n) i, by simp [remove, ← hn, hni, hmoved, hb], huh,
          hup_p.trans hperm, ?_⟩
        rw [hup_fr n hin, hsw]; simp
    rw [hb]
    obtain ⟨hh, hp', hlen⟩ := heap_of_take hheap hbp hn1.symm
    exact ⟨hh, hp', hblast, hlen⟩

/-! ## 長さ -/

theorem length_downLoop (n : Nat) : ∀ (a : List α) (k : Nat), (downLoop a k n).1.length = a.length := by
  intro a k
  induction a, k using @downLoop.induct α _ _ n with
  | case1 a k h1 hlt ih => rw [downLoop_of_lt h1 hlt, ih, length_swap]
  | case2 a k h1 hstop => rw [downLoop_of_not_lt h1 hstop]
  | case3 a k h1 => rw [downLoop_of_ge h1]

theorem length_up : ∀ (a : List α) (j : Nat), (up a j).length = a.length := by
  intro a j
  induction a, j using @up.induct α _ _ with
  | case1 a => rw [up, if_pos rfl]
  | case2 a j hj hlt ih => rw [up, if_neg hj, if_pos hlt, ih, length_swap]
  | case3 a j hj hstop => rw [up, if_neg hj, if_neg hstop]

/-- `Pop` は一つ短くする。loop の止まることに使う。 -/
@[simp] theorem length_pop (a : List α) : (pop a).1.length = a.length - 1 := by
  simp [pop, down, length_downLoop]

end Order

end GoHeap
