import Bullions.Trie.Properties.Delete
import Bullions.Lib.WriteLog

set_option linter.dupNamespace false

/-!
# 更新と削除の列を当てた trie

`runRandTest`（`trie/trie_test.go`）は空の trie に `Update` と `Delete` を順に当て、
`Get` の値を Go の map と比べる。ここではその列を `TrieOp` で表し、

* 列のどの段でも、trie は正準で読み込みの要らない root を持ち、書き込みを当てた写像を
  表す（`Represents`、一段は `Represents.apply`、列は `Represents.runOps`）
* したがって最後に `TryGet` は各 key の最後の書き込みの値を返し、木は `ShapeOk` である
  （`runOps_lastWrite_canonical`）

ことを示す。写像の側は `WriteLog` の `foldl_write` で最後の書き込みに結びつく。
-/

namespace Trie

/-- `runRandTest` の操作のうち、trie を書き換えるもの。 -/
inductive TrieOp where
  /-- `TryUpdate(key, value)`。 -/
  | update (key value : Bytes)
  /-- `TryDelete(key)`。 -/
  | delete (key : Bytes)

namespace TrieOp

/-- 操作が写像に当てる書き込み。空の値での更新は削除である。 -/
def write : TrieOp → Bytes × Option Bytes
  | update key value => (key, if value.length ≠ 0 then some value else none)
  | delete key => (key, none)

end TrieOp

/-- 操作を一つ当てる。 -/
def apply (t : Trie) : TrieOp → Except TrieError Trie
  | .update key value => t.TryUpdate key value
  | .delete key => t.TryDelete key

/-- 操作の列を順に当てる。途中で失敗したらそこで止まる。 -/
def runOps (t : Trie) (ops : List TrieOp) : Except TrieError Trie :=
  ops.foldlM Trie.apply t

/--
正準で読み込みの要らない root を持ち、byte 列の key の写像 `m` を表す trie。値のある
HEX の key は、どれも byte 列の key から来たものである。
-/
structure Represents (t : Trie) (m : Bytes → Option Bytes) : Prop where
  canon : RootCanon t.root
  hashFree : t.root.HashFree
  get : ∀ k, t.root.get (keybytesToHex k) = m k
  keys : ∀ r, t.root.get r ≠ none → ∃ k, r = keybytesToHex k

theorem represents_empty (db : NodeReader) : Represents (Trie.empty db) (fun _ => none) :=
  ⟨Or.inl rfl, trivial, fun _ => rfl, fun _ h => absurd rfl h⟩

namespace Represents

variable {t : Trie} {m : Bytes → Option Bytes}

/-- HEX の key の上で一つだけ変わった写像は、byte 列の key の上でも一つだけ変わる。 -/
theorem get_update (h : Represents t m) {n : Node} (key : Bytes) (o : Option Bytes)
    (hget : ∀ r, n.get r = if r = keybytesToHex key then o else t.root.get r) (k : Bytes) :
    n.get (keybytesToHex k) = Function.update m key o k := by
  rw [hget]
  by_cases hk : k = key
  · subst hk
    simp
  · rw [if_neg (fun he => hk (keybytesToHex_injective he)), Function.update_of_ne hk, h.get]

/-- 一つの byte 列の key だけを書き換えても、値のある key は byte 列の key から来る。 -/
theorem keys_update (h : Represents t m) {n : Node} (key : Bytes) (o : Option Bytes)
    (hget : ∀ r, n.get r = if r = keybytesToHex key then o else t.root.get r) (r : Nibbles)
    (hr : n.get r ≠ none) : ∃ k, r = keybytesToHex k := by
  rw [hget] at hr
  by_cases he : r = keybytesToHex key
  · exact ⟨key, he⟩
  · rw [if_neg he] at hr
    exact h.keys r hr

/-- `insert` は失敗せず、写像に値を一つ書き込む。 -/
theorem insert (h : Represents t m) (key value : Bytes) :
    ∃ d n, Trie.insert t.db (resolveFuel (keybytesToHex key)) t.root [] (keybytesToHex key)
        (.value value) = .ok (d, n) ∧
      Represents { t with root := n } (Function.update m key (some value)) := by
  obtain ⟨again, he⟩ := insert_eq_step t.db (resolveFuel (keybytesToHex key))
  have hkey := keybytesToHex_term key
  obtain ⟨d, n, hrun, hins⟩ :=
    @insertStep_inserted t.db again value t.root [] (keybytesToHex key)
      (Or.inr ⟨hkey, h.canon⟩) h.hashFree
  exact ⟨d, n, by rw [he]; exact hrun,
    ⟨hins.fits.of_term hkey, hins.hashFree, h.get_update key _ hins.get_eq,
      h.keys_update key _ hins.get_eq⟩⟩

/-- `delete` は失敗せず、写像から key を一つ消す。 -/
theorem delete (h : Represents t m) (key : Bytes) :
    ∃ d n, Trie.delete t.db (resolveFuel (keybytesToHex key)) t.root [] (keybytesToHex key) =
        .ok (d, n) ∧
      Represents { t with root := n } (Function.update m key none) := by
  obtain ⟨again, he⟩ := delete_eq_step t.db (resolveFuel (keybytesToHex key))
  have hkey := keybytesToHex_term key
  obtain ⟨d, n, hrun, hdel⟩ :=
    @deleteStep_deleted t.db again t.root [] (keybytesToHex key)
      (Or.inr ⟨hkey, h.canon⟩) h.hashFree
  exact ⟨d, n, by rw [he]; exact hrun,
    ⟨hdel.fits.of_term hkey, hdel.hashFree, h.get_update key _ hdel.get_eq,
      h.keys_update key _ hdel.get_eq⟩⟩

/-- **一段。** どの操作も失敗せず、写像にその書き込みを当てた trie になる。 -/
theorem apply (h : Represents t m) (op : TrieOp) :
    ∃ t', t.apply op = .ok t' ∧ Represents t' (WriteLog.write m op.write) := by
  cases op with
  | update key value =>
    by_cases hv : value.length = 0
    · -- 空の値の更新は削除である
      obtain ⟨d, n, hrun, hrep⟩ := h.delete key
      refine ⟨{ t with root := n }, ?_, ?_⟩
      · simp [Trie.apply, Trie.TryUpdate, hv, hrun]
      · simpa [TrieOp.write, WriteLog.write, hv] using hrep
    · obtain ⟨d, n, hrun, hrep⟩ := h.insert key value
      refine ⟨{ t with root := n }, ?_, ?_⟩
      · simp [Trie.apply, Trie.TryUpdate, hv, hrun]
      · simpa [TrieOp.write, WriteLog.write, hv] using hrep
  | delete key =>
    obtain ⟨d, n, hrun, hrep⟩ := h.delete key
    exact ⟨{ t with root := n }, by simp [Trie.apply, Trie.TryDelete, hrun], hrep⟩

/-- **列。** 操作の列は失敗せず、写像に書き込みを順に当てた trie になる。 -/
theorem runOps (h : Represents t m) (ops : List TrieOp) :
    ∃ t', Trie.runOps t ops = .ok t' ∧
      Represents t' ((ops.map TrieOp.write).foldl WriteLog.write m) := by
  induction ops generalizing t m with
  | nil => exact ⟨t, rfl, h⟩
  | cons op ops ih =>
    obtain ⟨t₁, h₁, hr₁⟩ := h.apply op
    obtain ⟨t₂, h₂, hr₂⟩ := ih hr₁
    refine ⟨t₂, ?_, hr₂⟩
    rw [Trie.runOps, List.foldlM_cons, h₁]
    exact h₂

end Represents

/--
空の trie に更新と削除の列を当てると失敗せず、その後 `TryGet` はどの key にも最後の
書き込みの値（空の値の更新と削除は値なし）を返して trie を変えず、木のどの node も
`ShapeOk` である。
-/
theorem runOps_lastWrite_canonical (db : NodeReader) (ops : List TrieOp) :
    ∃ t, runOps (Trie.empty db) ops = .ok t ∧
      (∀ k, t.TryGet k = .ok (WriteLog.valueAfter (fun _ => none) (ops.map TrieOp.write) k, t)) ∧
      t.root.Everywhere ShapeOk := by
  obtain ⟨t, hrun, hrep⟩ := (represents_empty db).runOps ops
  refine ⟨t, hrun, fun k => ?_, hrep.canon.everywhere_shapeOk⟩
  rw [Trie.TryGet_get t k hrep.canon hrep.hashFree, hrep.get, WriteLog.foldl_write]

end Trie
