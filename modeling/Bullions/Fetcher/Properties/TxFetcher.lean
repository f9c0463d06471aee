import Bullions.Fetcher.TxFetcher

/-!
# fetcher の知らせの上限と、切断した peer の残り

* `notify` は知らせの数を `maxTxAnnounces` で抑えるつもりで、超える分 `want - maxTxAnnounces`
  個だけを残す。残すべきは `maxTxAnnounces - used` 個なので、`used` が大きいと上限を超える
  （`notify_fresh_count`、`notify_exceeds_maxTxAnnounces`）。
* `drop` は、ほかの peer から取りに行っている hash の取り先（`alternates`）から切断した peer を
  消さない。その要求が時間切れになると、切断した peer が `announced` に戻り、`announces` には
  無いまま残る（`drop_then_timeout_breaks_announced`）。
-/

namespace Fetcher

variable {Peer Hash : Type} [DecidableEq Peer] [DecidableEq Hash]

theorem run_cons (f : TxFetcher Peer Hash) (e : Nat × TxEvent Peer Hash) (es) :
    run f (e :: es) = (loop f e.1 e.2 >>= fun f' => run f' es) := rfl

/-- `notify` が上限と比べる数：`len(waitslots[p]) + len(announces[p])`。 -/
def announceCount (f : TxFetcher Peer Hash) (p : Peer) : Nat :=
  (f.waitslots.get p).len + (f.announces.get p).len

/-- fetcher がまだ知らない hash：どの段にも無く、`origin` の待ち枠にも無い。 -/
structure Fresh (f : TxFetcher Peer Hash) (origin : Peer) (hash : Hash) : Prop where
  alternates : f.alternates.get hash = none
  announced : f.announced.get hash = none
  waitlist : f.waitlist.get hash = none
  slot : hash ∉ (f.waitslots.get origin).toList

theorem Fresh.init (origin : Peer) (hash : Hash) :
    Fresh (NewTxFetcher : TxFetcher Peer Hash) origin hash :=
  ⟨rfl, rfl, rfl, by simp [NewTxFetcher, GoMap.get]⟩

/-- 知らない hash は待ち行列に入り、`origin` の待ち枠が一つ増える。 -/
theorem announceHash_of_fresh {f : TxFetcher Peer Hash} {origin : Peer} {hash : Hash} (now : Nat)
    (hf : Fresh f origin hash) :
    announceHash origin now f hash =
      { f with waitlist := f.waitlist.insert hash (some [origin]),
               waittime := f.waittime.insert hash now,
               waitslots := f.waitslots.addTo origin hash } := by
  simp [announceHash, hf.alternates, hf.announced, hf.waitlist]

theorem Fresh.announceHash {f : TxFetcher Peer Hash} {origin : Peer} {h x : Hash} (now : Nat)
    (hf : Fresh f origin h) (hx : Fresh f origin x) (hne : h ≠ x) :
    Fresh (announceHash origin now f x) origin h := by
  rw [announceHash_of_fresh now hx]
  refine ⟨hf.alternates, hf.announced, ?_, ?_⟩
  · show GoMap.get (f.waitlist.insert x (some [origin])) h = none
    rw [GoMap.get_insert, if_neg hne, hf.waitlist]
  · simp only [GoMap.get_addTo, if_true, GoSet.toList_some, List.mem_insert_iff, hne, false_or]
    exact hf.slot

/-- run lemma：重ならない知らない hash を順に知らせると、待ち枠は hash の数だけ増え、
`announces` は変わらず、ほかの知らない hash は知らないままである。 -/
theorem foldl_announceHash_fresh (origin : Peer) (now : Nat) :
    ∀ (hs : List Hash) (f : TxFetcher Peer Hash), hs.Nodup → (∀ h ∈ hs, Fresh f origin h) →
      ((hs.foldl (announceHash origin now) f).waitslots.get origin).len =
          (f.waitslots.get origin).len + hs.length ∧
        (hs.foldl (announceHash origin now) f).announces = f.announces ∧
        ∀ h, h ∉ hs → Fresh f origin h → Fresh (hs.foldl (announceHash origin now) f) origin h
  | [], f, _, _ => ⟨rfl, rfl, fun _ _ hf => hf⟩
  | x :: xs, f, hnd, hfresh => by
    obtain ⟨hx, hxs⟩ := List.nodup_cons.mp hnd
    have hfx : Fresh f origin x := hfresh x (by simp)
    -- 一つ目の hash の後も、残りの hash は知らないまま
    have hrest : ∀ h ∈ xs, Fresh (announceHash origin now f x) origin h := fun h hh =>
      (hfresh h (by simp [hh])).announceHash now hfx (fun he => hx (he ▸ hh))
    obtain ⟨hlen, hann, hpres⟩ := foldl_announceHash_fresh origin now xs _ hxs hrest
    have hlen1 : ((announceHash origin now f x).waitslots.get origin).len =
        (f.waitslots.get origin).len + 1 := by
      rw [announceHash_of_fresh now hfx]
      simp only [GoMap.get_addTo, if_true, GoSet.len_eq_length, GoSet.toList_some]
      exact List.length_insert_of_not_mem hfx.slot
    refine ⟨?_, ?_, ?_⟩
    · rw [List.foldl_cons, hlen, hlen1, List.length_cons]
      omega
    · rw [List.foldl_cons, hann, announceHash_of_fresh now hfx]
    · intro h hh hf
      simp only [List.mem_cons, not_or] at hh
      exact hpres h hh.2 (hf.announceHash now hfx hh.1)

omit [DecidableEq Hash] in
/-- 要求を始めるのは、知らせた peer が新しく、`announces` に hash があるときだけ。 -/
theorem not_oldPeer_and_pos (m : GoMap Peer (GoSet Hash)) (origin : Peer) :
    (!(m.lookup origin).isSome && decide ((m.get origin).len > 0)) = false := by
  cases h : m.lookup origin with
  | none => simp [GoMap.get, h]
  | some s => simp

/-- 知らない hash だけの知らせでは、`notify` は上限を超える分 `want - maxTxAnnounces` 個を
残す。したがって `used` が上限の半分を超えていれば、知らせの後の数は上限を超えうる。 -/
theorem notify_fresh_count {f : TxFetcher Peer Hash} {origin : Peer} {hashes : List Hash}
    (now : Nat) (hused : announceCount f origin < maxTxAnnounces) (hnd : hashes.Nodup)
    (hfresh : ∀ h ∈ hashes, Fresh f origin h) :
    ∃ f', notify origin hashes now f = .ok f' ∧
      announceCount f' origin = announceCount f origin +
        (if maxTxAnnounces < announceCount f origin + hashes.length
          then announceCount f origin + hashes.length - maxTxAnnounces else hashes.length) ∧
      ∀ h, h ∉ hashes → Fresh f origin h → Fresh f' origin h := by
  unfold announceCount at hused ⊢
  -- 捨てた後に残る知らせ
  set bs := if maxTxAnnounces < (f.waitslots.get origin).len + (f.announces.get origin).len +
      hashes.length then hashes.take ((f.waitslots.get origin).len + (f.announces.get origin).len +
      hashes.length - maxTxAnnounces) else hashes with hbs
  have hsub : bs.Sublist hashes := by
    rw [hbs]
    split
    · exact List.take_sublist _ _
    · exact List.Sublist.refl _
  have hbslen : bs.length = if maxTxAnnounces < (f.waitslots.get origin).len +
      (f.announces.get origin).len + hashes.length then (f.waitslots.get origin).len +
      (f.announces.get origin).len + hashes.length - maxTxAnnounces else hashes.length := by
    rw [hbs]
    split
    · rw [List.length_take]
      omega
    · rfl
  obtain ⟨hlen, hann, hpres⟩ := foldl_announceHash_fresh origin now bs f (hnd.sublist hsub)
    (fun h hh => hfresh h (hsub.subset hh))
  refine ⟨bs.foldl (announceHash origin now) f, ?_, ?_, ?_⟩
  · simp only [notify, if_neg (Nat.not_le.mpr hused), gt_iff_lt, ← hbs, hann,
      not_oldPeer_and_pos, Bool.false_eq_true, if_false]
  · rw [hlen, hann, ← hbslen]
    omega
  · intro h hh hf
    exact hpres h (fun hb => hh (hsub.subset hb)) hf

/-- 4095 個の知らせの後、さらに 3 個の知らない hash を知らせると、上限 4096 を超えて 4097 に
なる。残すべきは 1 個だが、`want - maxTxAnnounces = 2` 個を残す。 -/
theorem notify_exceeds_maxTxAnnounces :
    ∃ f1 f2 : TxFetcher Nat Nat,
      run NewTxFetcher [(0, .notify 1 (List.range 4095))] = .ok f1 ∧
      announceCount f1 1 ≤ maxTxAnnounces ∧
      loop f1 0 (.notify 1 [4095, 4096, 4097]) = .ok f2 ∧
      maxTxAnnounces < announceCount f2 1 := by
  obtain ⟨f1, h1, hc1, hp1⟩ := @notify_fresh_count Nat Nat _ _ NewTxFetcher 1 (List.range 4095) 0
    (by decide) List.nodup_range (fun h _ => Fresh.init 1 h)
  have hfresh2 : ∀ h ∈ [4095, 4096, 4097], Fresh f1 1 h := by
    intro h hh
    refine hp1 h ?_ (Fresh.init 1 h)
    simp only [List.mem_cons, List.not_mem_nil, or_false] at hh
    simp only [List.mem_range]
    omega
  have h0 : announceCount (NewTxFetcher : TxFetcher Nat Nat) 1 = 0 := rfl
  have hc1' : announceCount f1 1 = 4095 := by
    rw [hc1, h0, List.length_range]
    decide
  obtain ⟨f2, h2, hc2, -⟩ := notify_fresh_count 0 (by rw [hc1']; decide) (by decide) hfresh2
  refine ⟨f1, f2, ?_, by rw [hc1']; decide, h2, ?_⟩
  · rw [run_cons]
    show (notify 1 (List.range 4095) 0 NewTxFetcher >>= fun f => run f []) = .ok f1
    rw [h1]
    rfl
  · rw [hc2, hc1']
    decide

/-! ## 切断した peer が `announced` に残る -/

/-- `TxFetcher` の文書の不変条件の一つ：`announced[h]` にいる peer の `announces` には `h` が
ある。 -/
def AnnouncedTracked (f : TxFetcher Peer Hash) : Prop :=
  ∀ h p, p ∈ (f.announced.get h).toList → h ∈ (f.announces.get p).toList

/-- peer 1 が hash 7 を知らせ、待ち時間が切れて peer 1 に要求し、peer 2 も 7 を知らせてから
切断し、peer 1 への要求が時間切れになる。 -/
def dropThenTimeout : List (Nat × TxEvent Nat Nat) :=
  [(0, .notify 1 [7]), (500000000, .waitTrigger), (600000000, .notify 2 [7]),
    (700000000, .drop 2), (5500000000, .timeoutTrigger)]

/-- `drop` は peer 2 を 7 の取り先から消さないので、時間切れの後 7 は切断した peer 2 だけを
取り先として `announced` に残り、どの peer の `announces` にも無い。 -/
theorem drop_then_timeout_breaks_announced :
    ∃ f, run NewTxFetcher dropThenTimeout = .ok f ∧ ¬AnnouncedTracked f ∧
      f.announced.get 7 = some [2] ∧ f.announces.keys = [] := by
  refine ⟨_, rfl, ?_, by decide, by decide⟩
  intro htracked
  have h := htracked 7 2 (by decide)
  revert h
  decide

end Fetcher
