import Mathlib

/-!
# 書き込みの記録

key から値への写像に、書き込み `(k, v)` を順に当てる。`v = none` は消去である。
後の書き込みが勝つので、列を当て終えた写像の `k` の値は「`k` への最後の書き込みの値、
書き込みが無ければ初めの値」である（`foldl_write`）。

store を列の操作で動かすモデルは、状態が表す写像がこの `foldl` に従うことを示せば、
最後の書き込みという仕様に結びつく。
-/

namespace WriteLog

variable {κ ν : Type*} [DecidableEq κ]

/-- 写像に書き込みを一つ当てる。 -/
def write (m : κ → Option ν) (w : κ × Option ν) : κ → Option ν :=
  Function.update m w.1 w.2

/-- `ws` の中で `k` への最後の書き込み。 -/
def lastWriteTo (ws : List (κ × Option ν)) (k : κ) : Option (κ × Option ν) :=
  ws.reverse.find? (fun w => w.1 = k)

/-- `m` に `ws` を当てた後の `k` の値：最後の書き込みの値、無ければ `m k`。 -/
def valueAfter (m : κ → Option ν) (ws : List (κ × Option ν)) (k : κ) : Option ν :=
  match lastWriteTo ws k with
  | some w => w.2
  | none => m k

@[simp] theorem valueAfter_nil (m : κ → Option ν) (k : κ) : valueAfter m [] k = m k := rfl

/-- 先頭の書き込みは、後ろに同じ key への書き込みが無いときだけ残る。 -/
theorem valueAfter_cons (m : κ → Option ν) (w : κ × Option ν) (ws : List (κ × Option ν))
    (k : κ) : valueAfter m (w :: ws) k = valueAfter (write m w) ws k := by
  unfold valueAfter lastWriteTo
  rw [List.reverse_cons, List.find?_append]
  cases ws.reverse.find? (fun w => w.1 = k) with
  | some w' => rfl
  | none =>
    by_cases hk : w.1 = k
    · simp [hk, write]
    · simp [hk, write, Function.update_of_ne (Ne.symm hk)]

/-- **後の書き込みが勝つ。** 列を順に当てた写像は、各 key の最後の書き込みを持つ。 -/
theorem foldl_write (m : κ → Option ν) (ws : List (κ × Option ν)) (k : κ) :
    ws.foldl write m k = valueAfter m ws k := by
  induction ws generalizing m with
  | nil => rfl
  | cons w ws ih => rw [List.foldl_cons, ih, valueAfter_cons]

end WriteLog
