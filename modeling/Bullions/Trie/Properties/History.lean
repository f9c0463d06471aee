import Bullions.Trie.Properties.Run
import Bullions.Trie.Properties.Unique
import Bullions.Trie.Hasher

set_option linter.dupNamespace false

/-!
# root hash は履歴によらない

更新と削除の列を空の trie に当てた結果は、最後に表す写像だけで決まる。列の途中で何度
枝分かれを作って消したかによらず、木そのものが同じになり、したがって `Hash` も同じに
なる。

`Represents` の四つの事実（正準形、読み込み不要、byte 列の key の写像、値のある key は
byte 列の key から来る）から、二つの木は HEX のすべての key で同じ値を引く。あとは
`RootCanon.eq_of_get` である。
-/

namespace Trie

/-- 同じ写像を表す二つの trie は、同じ root を持つ。 -/
theorem Represents.root_eq {t₁ t₂ : Trie} {m : Bytes → Option Bytes} (h₁ : Represents t₁ m)
    (h₂ : Represents t₂ m) : t₁.root = t₂.root := by
  refine RootCanon.eq_of_get h₁.canon h₂.canon (funext fun r => ?_)
  by_cases hr : ∃ k, r = keybytesToHex k
  · obtain ⟨k, rfl⟩ := hr
    rw [h₁.get, h₂.get]
  · -- byte 列の key から来ない HEX の key には、どちらの木も値を持たない
    have e₁ : t₁.root.get r = none := by
      by_contra hn
      exact hr (h₁.keys r hn)
    have e₂ : t₂.root.get r = none := by
      by_contra hn
      exact hr (h₂.keys r hn)
    rw [e₁, e₂]

/--
同じ写像に行き着く二つの更新と削除の列は、空の trie から（database が何であっても）
同じ木を作り、`Hash` も同じ値を返す。
-/
theorem runOps_history_independent (keccak : Bytes → Bytes) (db₁ db₂ : NodeReader)
    (ops₁ ops₂ : List TrieOp)
    (hsame : WriteLog.valueAfter (fun _ => none) (ops₁.map TrieOp.write) =
      WriteLog.valueAfter (fun _ => none) (ops₂.map TrieOp.write)) :
    ∃ t₁ t₂, runOps (Trie.empty db₁) ops₁ = .ok t₁ ∧ runOps (Trie.empty db₂) ops₂ = .ok t₂ ∧
      t₁.root = t₂.root ∧ t₁.Hash keccak = t₂.Hash keccak := by
  obtain ⟨t₁, hrun₁, hrep₁⟩ := (represents_empty db₁).runOps ops₁
  obtain ⟨t₂, hrun₂, hrep₂⟩ := (represents_empty db₂).runOps ops₂
  have hm : (ops₁.map TrieOp.write).foldl WriteLog.write (fun _ => none) =
      (ops₂.map TrieOp.write).foldl WriteLog.write (fun _ => none) := by
    funext k
    rw [WriteLog.foldl_write, WriteLog.foldl_write, hsame]
  rw [hm] at hrep₁
  have hroot := hrep₁.root_eq hrep₂
  exact ⟨t₁, t₂, hrun₁, hrun₂, hroot, by simp only [Trie.Hash, hroot]⟩

/-- 二つの key を逆の順に入れても、同じ木と同じ hash になる。 -/
theorem runOps_history_independent_swap :
    WriteLog.valueAfter (fun _ => none) ([TrieOp.update [1] [5], .update [2] [6]].map TrieOp.write) =
      WriteLog.valueAfter (fun _ => none) ([TrieOp.update [2] [6], .update [1] [5]].map TrieOp.write) ∧
    ∃ t₁ t₂, runOps (Trie.empty fun _ => none) [.update [1] [5], .update [2] [6]] = .ok t₁ ∧
      runOps (Trie.empty fun _ => none) [.update [2] [6], .update [1] [5]] = .ok t₂ ∧
      t₁.root = t₂.root ∧ t₁.Hash id = t₂.Hash id := by
  have hsame : WriteLog.valueAfter (fun _ => none)
      ([TrieOp.update [1] [5], .update [2] [6]].map TrieOp.write) =
      WriteLog.valueAfter (fun _ => none)
        ([TrieOp.update [2] [6], .update [1] [5]].map TrieOp.write) := by
    funext k
    by_cases h₁ : [(1 : UInt8)] = k
    · subst h₁
      simp [WriteLog.valueAfter, WriteLog.lastWriteTo, TrieOp.write]
    · by_cases h₂ : [(2 : UInt8)] = k
      · subst h₂
        simp [WriteLog.valueAfter, WriteLog.lastWriteTo, TrieOp.write]
      · simp [WriteLog.valueAfter, WriteLog.lastWriteTo, TrieOp.write, h₁, h₂]
  exact ⟨hsame, runOps_history_independent id _ _ _ _ hsame⟩

end Trie
