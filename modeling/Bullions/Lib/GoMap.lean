import Mathlib

/-!
# Go の map と、map を値に持つ map

Go の `map[K]V` を、key の重複しない組の列 `AList` で表す。`range` はこの列の順に回る。
Go の `range` の順は決まっていないので、列の順はその一つである。

`map[K]struct{}`（集合）は `GoSet K`：`none` は nil の map、`some l` は重複のない列 `l`。
nil の map は読めば空で、`delete` しても何も起こらない。map を値に持つ map では、
key が無いことと値が nil であることはどちらも `m[k] == nil` になる（`GoMap.get`）。
`if s := m[k]; s != nil { s[x] = {} } else { m[k] = {x: {}} }` は `addTo`、
`delete(m[k], x)` は `deleteFrom` で、どちらも元の位置の値を書き換える。

key を集めて `sort.Slice` で昇順に並べる書き方は `sortedKeys` である。key は重複しないので、
並べた列は並べ方によらず一つに決まり（`sortedKeys_congr`）、狭義に増える（`sortedKeys_sorted`）。
-/

/-- Go の `map[K]V`。 -/
abbrev GoMap (K V : Type*) := AList (fun _ : K => V)

/-- Go の `map[K]struct{}`：`none` は nil の map。 -/
abbrev GoSet (K : Type*) := Option (List K)

namespace GoSet

variable {K : Type*}

/-- `len(s)`。 -/
def len (s : GoSet K) : Nat := (s.getD []).length

/-- `range s` で回る key。 -/
def toList (s : GoSet K) : List K := s.getD []

/-- `_, ok := s[k]`。 -/
def mem [DecidableEq K] (s : GoSet K) (k : K) : Bool := decide (k ∈ s.toList)

/-- `delete(s, k)`。nil の map では何もしない。 -/
def delete [DecidableEq K] (s : GoSet K) (k : K) : GoSet K := s.map (·.erase k)

@[simp] theorem len_none : len (none : GoSet K) = 0 := rfl

@[simp] theorem toList_some (l : List K) : toList (some l) = l := rfl

@[simp] theorem toList_none : toList (none : GoSet K) = [] := rfl

theorem len_eq_length (s : GoSet K) : s.len = s.toList.length := rfl

@[simp] theorem mem_iff [DecidableEq K] (s : GoSet K) (k : K) : s.mem k = true ↔ k ∈ s.toList := by
  simp [mem]

end GoSet

namespace GoMap

variable {K V W : Type*} [DecidableEq K]

/-! ### 値の書き換え

`AList.replace` は key の位置を変えずに値を書き換える。読むと `insert` と同じで、key が
無ければ何もしない。 -/

theorem dlookup_kreplace_ne {k k' : K} (v : W) (hne : k' ≠ k) :
    ∀ l : List (Σ _ : K, W), (l.kreplace k v).dlookup k' = l.dlookup k'
  | [] => rfl
  | ⟨c, w⟩ :: l => by
    by_cases hc : k = c
    · subst hc
      rw [List.kreplace, List.lookmap_cons_some _ (b := ⟨k, v⟩) l (by simp),
        List.dlookup_cons_ne l ⟨k, v⟩ hne, List.dlookup_cons_ne l ⟨k, w⟩ hne]
    · rw [List.kreplace, List.lookmap_cons_none _ l (by simp [hc])]
      by_cases hk : k' = c
      · subst hk
        rw [List.dlookup_cons_eq, List.dlookup_cons_eq]
      · rw [List.dlookup_cons_ne _ _ hk, List.dlookup_cons_ne _ _ hk]
        exact dlookup_kreplace_ne v hne l

theorem dlookup_kreplace_self {k : K} (v : W) :
    ∀ l : List (Σ _ : K, W), k ∈ l.keys → (l.kreplace k v).dlookup k = some v
  | [], h => absurd h (by simp)
  | ⟨c, w⟩ :: l, h => by
    by_cases hc : k = c
    · subst hc
      rw [List.kreplace, List.lookmap_cons_some _ (b := ⟨k, v⟩) l (by simp), List.dlookup_cons_eq]
    · rw [List.kreplace, List.lookmap_cons_none _ l (by simp [hc]), List.dlookup_cons_ne _ _ hc]
      simp only [List.keys_cons, List.mem_cons, hc, false_or] at h
      exact dlookup_kreplace_self v l h

theorem lookup_replace_ne {m : GoMap K W} {k k' : K} (v : W) (hne : k' ≠ k) :
    (m.replace k v).lookup k' = m.lookup k' :=
  dlookup_kreplace_ne v hne m.entries

theorem lookup_replace_self {m : GoMap K W} {k : K} (v : W) (h : k ∈ m) :
    (m.replace k v).lookup k = some v :=
  dlookup_kreplace_self v m.entries (AList.mem_keys.mp h)

theorem replace_of_not_mem {m : GoMap K W} {k : K} (v : W) (h : k ∉ m) : m.replace k v = m := by
  apply AList.ext
  apply List.kreplace_of_forall_not
  intro b hb
  exact h (AList.mem_keys.mpr (List.mem_keys_of_mem hb))

/-- `len(m)`。 -/
def len (m : GoMap K W) : Nat := m.keys.length

/-- map を値に持つ map の `m[k]`：key が無ければ nil。 -/
def get (m : GoMap K (GoSet V)) (k : K) : GoSet V := (m.lookup k).getD none

/-- `if s := m[k]; s != nil { s[x] = {} } else { m[k] = {x: {}} }`。 -/
def addTo [DecidableEq V] (m : GoMap K (GoSet V)) (k : K) (x : V) : GoMap K (GoSet V) :=
  match m.get k with
  | some s => m.replace k (some (s.insert x))
  | none => m.insert k (some [x])

/-- `delete(m[k], x)`：`m[k]` が nil なら何もしない。 -/
def deleteFrom [DecidableEq V] (m : GoMap K (GoSet V)) (k : K) (x : V) : GoMap K (GoSet V) :=
  m.replace k ((m.get k).delete x)

/-- `delete(m[k], x)` の後に、空になれば `delete(m, k)`。 -/
def deletePrune [DecidableEq V] (m : GoMap K (GoSet V)) (k : K) (x : V) : GoMap K (GoSet V) :=
  let m := m.deleteFrom k x
  if (m.get k).len = 0 then m.erase k else m

/-- `for _, k := range ks { m[k] = f(k) }`：列の key には `f k`、ほかは元のまま。 -/
theorem lookup_foldl_insert (f : K → W) :
    ∀ (ks : List K) (m : GoMap K W) (k : K),
      (ks.foldl (fun m k => m.insert k (f k)) m).lookup k =
        if k ∈ ks then some (f k) else m.lookup k
  | [], m, k => by simp
  | x :: ks, m, k => by
    rw [List.foldl_cons, lookup_foldl_insert f ks _ k]
    by_cases hk : k ∈ ks
    · simp [hk]
    · by_cases hx : k = x
      · subst hx
        simp [hk, AList.lookup_insert]
      · simp [hk, hx, AList.lookup_insert_ne hx]

/-! ### map を値に持つ map の読み -/

theorem mem_of_get_ne_none {m : GoMap K (GoSet V)} {k : K} (h : m.get k ≠ none) : k ∈ m := by
  by_contra hn
  exact h (by simp [get, AList.lookup_eq_none.mpr hn])

theorem get_of_not_mem {m : GoMap K (GoSet V)} {k : K} (h : k ∉ m) : m.get k = none := by
  simp [get, AList.lookup_eq_none.mpr h]

theorem get_insert (m : GoMap K (GoSet V)) (k k' : K) (s : GoSet V) :
    GoMap.get (m.insert k s) k' = if k' = k then s else m.get k' := by
  by_cases h : k' = k
  · subst h
    simp [get, AList.lookup_insert]
  · simp [get, AList.lookup_insert_ne h, h]

theorem get_erase (m : GoMap K (GoSet V)) (k k' : K) :
    GoMap.get (m.erase k) k' = if k' = k then none else m.get k' := by
  by_cases h : k' = k
  · subst h
    simp [get, AList.lookup_erase]
  · simp [get, AList.lookup_erase_ne h, h]

theorem get_replace (m : GoMap K (GoSet V)) (k k' : K) (s : GoSet V) (hmem : k ∈ m) :
    GoMap.get (m.replace k s) k' = if k' = k then s else m.get k' := by
  by_cases h : k' = k
  · subst h
    simp [get, lookup_replace_self s hmem]
  · simp [get, lookup_replace_ne s h, h]

@[simp] theorem get_addTo [DecidableEq V] (m : GoMap K (GoSet V)) (k k' : K) (x : V) :
    (m.addTo k x).get k' = if k' = k then some ((m.get k).toList.insert x) else m.get k' := by
  unfold addTo
  cases hg : m.get k with
  | some s =>
    rw [get_replace m k k' _ (mem_of_get_ne_none (by simp [hg]))]
    simp
  | none =>
    rw [get_insert]
    simp

@[simp] theorem get_deleteFrom [DecidableEq V] (m : GoMap K (GoSet V)) (k k' : K) (x : V) :
    (m.deleteFrom k x).get k' = if k' = k then (m.get k).delete x else m.get k' := by
  unfold deleteFrom
  by_cases hmem : k ∈ m
  · rw [get_replace m k k' _ hmem]
  · rw [replace_of_not_mem _ hmem]
    by_cases h : k' = k
    · subst h
      simp [get_of_not_mem hmem, GoSet.delete]
    · simp [h]

@[simp] theorem get_deletePrune [DecidableEq V] (m : GoMap K (GoSet V)) (k k' : K) (x : V) :
    (m.deletePrune k x).get k' =
      if k' = k then (if ((m.get k).delete x).len = 0 then none else (m.get k).delete x)
      else m.get k' := by
  unfold deletePrune
  dsimp only
  split
  · rw [get_erase]
    by_cases h : k' = k
    · simp_all
    · simp [h]
  · rename_i hlen
    simp only [get_deleteFrom, if_true] at hlen ⊢
    by_cases h : k' = k
    · simp [h, hlen]
    · simp [h]

end GoMap

namespace GoMap

/-! ### 昇順に並べた key -/

variable {K V W : Type*} [LinearOrder K]

/-- key を集めて昇順に並べる（`sl = append(sl, k)` の後の `sort.Slice(sl, sl[i] < sl[j])`）。 -/
def sortedKeys (m : GoMap K V) : List K := m.keys.insertionSort (· ≤ ·)

theorem mem_sortedKeys {m : GoMap K V} {k : K} : k ∈ sortedKeys m ↔ k ∈ m := by
  rw [sortedKeys, List.mem_insertionSort, AList.mem_keys]

theorem sortedKeys_sorted (m : GoMap K V) : (sortedKeys m).Pairwise (· < ·) := by
  have hle : (sortedKeys m).Pairwise (· ≤ ·) := List.pairwise_insertionSort _ _
  have hnd : (sortedKeys m).Nodup := (List.perm_insertionSort _ _).nodup_iff.mpr m.nodupKeys
  exact (hle.and hnd).imp fun h => lt_of_le_of_ne h.1 h.2

/-- key の同じ二つの map は、並べた key も同じ。 -/
theorem sortedKeys_congr {m : GoMap K V} {m' : GoMap K W} (h : ∀ k, k ∈ m ↔ k ∈ m') :
    sortedKeys m = sortedKeys m' := by
  have hperm : List.Perm (sortedKeys m) (sortedKeys m') := by
    refine (List.perm_ext_iff_of_nodup ?_ ?_).mpr fun k => ?_
    · exact (sortedKeys_sorted m).imp ne_of_lt
    · exact (sortedKeys_sorted m').imp ne_of_lt
    · rw [mem_sortedKeys, mem_sortedKeys, h]
  exact hperm.eq_of_pairwise (fun _ _ _ _ hab hba => absurd hab (lt_asymm hba))
    (sortedKeys_sorted m) (sortedKeys_sorted m')

end GoMap
