import BancuhDns.QueryLog
import Mathlib.Data.Finset.Card

/-!
# How long the store keeps an entry

Entries leave the store only when something is inserted for the same address, and an
address never leaves it. So ten minutes is not a bound on what the store holds: an
address that falls silent keeps its queue (`BancuhDns.retention_silent_address`).

When every entry is stamped with the instant of its insert, what is still held of an
insert is decided by the inserts for its address that came later: it is *superseded*
once one of them came more than ten minutes after it, or once there are 1000 of them.
The store holds nothing older than ten minutes exactly when all the inserts older than
that are superseded (`BancuhDns.retention_iff`), and it then holds no more queues than
addresses were heard from in the ten minutes.
-/

namespace BancuhDns

/-- **Ten-minute retention** at an instant: no entry held is older, and there are no
more queues than addresses inserted for since. -/
structure TenMinuteRetention (t : ℤ) (calls : List Insert) : Prop where
  entries_fresh : ∀ ip entries, (insertAll calls).logs.lookup ip = some entries →
    ∀ e ∈ entries, t - maxAge ≤ e.queryTime
  queues_le : (insertAll calls).logs.keys.length ≤
    ((calls.filter fun c => t - maxAge ≤ c.now).map Insert.ip).toFinset.card

/-- An insert whose entry the inserts that came after it have pushed out: one for the
same address more than ten minutes later, or 1000 for the same address. -/
def Superseded (c : Insert) (later : List Insert) : Prop :=
  (∃ c' ∈ callsFor c.ip later, c.now < c'.now - maxAge) ∨
    maxPerIp ≤ (callsFor c.ip later).length

/-! ### What a queue holds -/

/-- The end of a queue that starts with a given insert. -/
theorem suffix_queueOf_iff {pre post : List Insert} {c : Insert}
    (hclock : (pre ++ c :: post).Pairwise fun c c' => c.now ≤ c'.now)
    (hstamped : ∀ c' ∈ pre ++ c :: post, c'.log.queryTime = c'.now) :
    c.log :: post.map Insert.log <:+ queueOf (pre ++ c :: post) ↔
      (∀ c' ∈ post, c'.now - maxAge ≤ c.now) ∧ post.length < maxPerIp := by
  have hstamps : (pre.map Insert.push ++ c.push :: post.map Insert.push).Pairwise
      fun a b => a.2.queryTime ≤ b.2.queryTime := by
    rw [← List.map_cons, ← List.map_append, List.pairwise_map]
    refine hclock.imp_of_mem fun ha hb hab => ?_
    simpa only [Insert.push, hstamped _ ha, hstamped _ hb] using hab
  have hc : c.log.queryTime = c.now := hstamped c (by simp)
  have hmain := Window.suffix_contents_iff maxPerIp_pos hstamps
  rw [map_snd_push, ← List.map_cons, ← List.map_append, List.length_map] at hmain
  simpa [queueOf, Insert.push, hc] using hmain

/-- An entry in a queue is the entry of an insert that it still starts an end of. -/
theorem exists_suffix_of_mem_queueOf {calls : List Insert} {e : QueryLog}
    (he : e ∈ queueOf calls) :
    ∃ pre c post, calls = pre ++ c :: post ∧ c.log = e ∧
      c.log :: post.map Insert.log <:+ queueOf calls := by
  obtain ⟨before, after, hqueue⟩ := List.append_of_mem he
  obtain ⟨gone, hgone⟩ := Window.contents_suffix QueryLog.queryTime maxPerIp
    (calls.map Insert.push)
  rw [map_snd_push, ← queueOf, hqueue, ← List.append_assoc] at hgone
  obtain ⟨pre, rest, rfl, -, hrest⟩ := List.map_eq_append_iff.mp hgone.symm
  obtain ⟨c, post, rfl, rfl, rfl⟩ := List.map_eq_cons_iff.mp hrest
  exact ⟨pre, c, post, rfl, rfl, hqueue ▸ List.suffix_append before _⟩

section Stamped

variable {calls : List Insert} (hclock : calls.Pairwise fun c c' => c.now ≤ c'.now)
  (hstamped : ∀ c ∈ calls, c.log.queryTime = c.now)

include hclock hstamped

/-- **What the store holds** of stamped inserts: the entries that nothing supersedes. -/
theorem mem_queueOf_callsFor_iff {ip : IpAddr} {e : QueryLog} :
    e ∈ queueOf (callsFor ip calls) ↔
      ∃ pre c post, calls = pre ++ c :: post ∧ c.ip = ip ∧ c.log = e ∧
        ¬Superseded c post := by
  have hclock' := hclock.sublist (callsFor_sublist ip calls)
  have hstamped' : ∀ c ∈ callsFor ip calls, c.log.queryTime = c.now := fun c hc =>
    hstamped c (mem_callsFor.mp hc).1
  constructor
  -- the inserts for the address that stand after `c` are those among the inserts after it
  · intro he
    obtain ⟨pre', c, post', hsplit, hlog, hheld⟩ := exists_suffix_of_mem_queueOf he
    obtain ⟨pre, rest, rfl, -, hrest⟩ := List.filter_eq_append_iff.mp hsplit
    obtain ⟨skipped, post, rfl, -, hip, rfl⟩ := List.filter_eq_cons_iff.mp hrest
    have hip : c.ip = ip := by simpa using hip
    rw [hsplit] at hclock' hstamped' hheld
    obtain ⟨hfresh, hlen⟩ := (suffix_queueOf_iff hclock' hstamped').mp hheld
    refine ⟨pre ++ skipped, c, post, by simp, hip, hlog, ?_⟩
    rw [Superseded, hip]
    rintro (⟨c', hc', hlate⟩ | hmany)
    · exact absurd (hfresh c' hc') (not_le.mpr hlate)
    · exact absurd hlen (not_lt.mpr hmany)
  · rintro ⟨pre, c, post, rfl, rfl, rfl, hnot⟩
    have hsplit : callsFor c.ip (pre ++ c :: post) =
        callsFor c.ip pre ++ c :: callsFor c.ip post := by
      rw [callsFor_append]
      exact congrArg _ (List.filter_cons_of_pos (by simp))
    rw [hsplit] at hclock' hstamped' ⊢
    rw [Superseded, not_or] at hnot
    push Not at hnot
    exact ((suffix_queueOf_iff hclock' hstamped').mpr hnot).subset List.mem_cons_self

/-- With only fresh entries in them, the queues belong to addresses heard from. -/
theorem queues_le_of_entries_fresh {t : ℤ}
    (hfresh : ∀ ip entries, (insertAll calls).logs.lookup ip = some entries →
      ∀ e ∈ entries, t - maxAge ≤ e.queryTime) :
    (insertAll calls).logs.keys.length ≤
      ((calls.filter fun c => t - maxAge ≤ c.now).map Insert.ip).toFinset.card := by
  rw [← List.toFinset_card_of_nodup (AList.keys_nodup _)]
  refine Finset.card_le_card fun ip hip => ?_
  rw [List.mem_toFinset, ← AList.mem_keys, ← AList.lookup_isSome] at hip
  obtain ⟨entries, hentries⟩ := Option.isSome_iff_exists.mp hip
  have hqueue := hentries
  rw [lookup_insertAll] at hqueue
  split_ifs at hqueue with hnone
  obtain rfl := Option.some.inj hqueue
  -- a queue is never empty, so its address was heard from as late as some entry says
  obtain ⟨e, he⟩ : ∃ e, e ∈ queueOf (callsFor ip calls) :=
    Window.exists_mem_contents _ (by simpa using hnone)
  obtain ⟨pre, c, post, rfl, rfl, rfl, -⟩ := (mem_queueOf_callsFor_iff hclock hstamped).mp he
  have hc := hfresh c.ip _ hentries c.log he
  rw [hstamped c (by simp)] at hc
  simp only [List.mem_toFinset, List.mem_map, List.mem_filter]
  exact ⟨c, ⟨by simp, by simpa using hc⟩, rfl⟩

end Stamped

/-- **When ten-minute retention holds.** Under a clock that never goes back, with each
entry stamped with the instant of its insert: right after an insert the store meets
the retention exactly when every insert that is older than ten minutes was superseded. -/
theorem retention_iff (before : List Insert) (last : Insert)
    (hclock : (before ++ [last]).Pairwise fun c c' => c.now ≤ c'.now)
    (hstamped : ∀ c ∈ before ++ [last], c.log.queryTime = c.now) :
    TenMinuteRetention last.now (before ++ [last]) ↔
      ∀ pre c post, before ++ [last] = pre ++ c :: post → c.now < last.now - maxAge →
        Superseded c post := by
  constructor
  · rintro ⟨hfresh, -⟩ pre c post hsplit hold
    by_contra hnot
    have hheld := (mem_queueOf_callsFor_iff hclock hstamped).mpr
      ⟨pre, c, post, hsplit, rfl, rfl, hnot⟩
    have hmem : c ∈ before ++ [last] := by simp [hsplit]
    have hlookup := lookup_insertAll c.ip (before ++ [last])
    rw [if_neg (List.ne_nil_of_mem (mem_callsFor.mpr ⟨hmem, rfl⟩))] at hlookup
    have hc := hfresh c.ip _ hlookup c.log hheld
    rw [hstamped c hmem] at hc
    exact absurd hold (not_lt.mpr hc)
  · intro hsup
    have hfresh : ∀ ip entries, (insertAll (before ++ [last])).logs.lookup ip = some entries →
        ∀ e ∈ entries, last.now - maxAge ≤ e.queryTime := by
      intro ip entries hentries e he
      rw [lookup_insertAll] at hentries
      split_ifs at hentries
      obtain rfl := Option.some.inj hentries
      obtain ⟨pre, c, post, hsplit, -, rfl, hnot⟩ :=
        (mem_queueOf_callsFor_iff hclock hstamped).mp he
      rw [hstamped c (by simp [hsplit])]
      exact not_lt.mp fun hold => hnot (hsup pre c post hsplit hold)
    exact ⟨hfresh, queues_le_of_entries_fresh hclock hstamped hfresh⟩

/-- An entry stamped with the instant of its insert. -/
def stampedInsert (now : ℤ) (ip : IpAddr) : Insert :=
  ⟨now, ip, ⟨now, "a.com. A".toList, "forwarded".toList⟩⟩

theorem retention_iff_one_address :
    TenMinuteRetention (maxAge + 1) [stampedInsert 0 (.v4 1), stampedInsert (maxAge + 1) (.v4 1)] :=
  (retention_iff [stampedInsert 0 (.v4 1)] (stampedInsert (maxAge + 1) (.v4 1))
    (by decide) (by decide)).mpr fun pre c post hsplit hold => by
      rw [List.singleton_append, List.cons_eq_append_iff] at hsplit
      rcases hsplit with ⟨rfl, hsplit⟩ | ⟨pre', rfl, hsplit⟩
      · obtain ⟨rfl, rfl⟩ := List.cons.inj hsplit
        refine Or.inl ⟨stampedInsert (maxAge + 1) (.v4 1), ?_, by decide⟩
        exact mem_callsFor.mpr ⟨List.mem_singleton_self _, rfl⟩
      · have hmem : c ∈ [stampedInsert (maxAge + 1) (.v4 1)] :=
          hsplit ▸ List.mem_append_right _ List.mem_cons_self
        rw [List.mem_singleton.mp hmem] at hold
        exact absurd hold (by decide)

/-- **A silent address keeps its queue.** One insert for each of two addresses, ten
minutes and a nanosecond apart: right after the second, the first is still held. -/
theorem retention_silent_address :
    ¬∀ (before : List Insert) (last : Insert),
      ((before ++ [last]).Pairwise fun c c' => c.now ≤ c'.now) →
      (∀ c ∈ before ++ [last], c.log.queryTime = c.now) →
        TenMinuteRetention last.now (before ++ [last]) := by
  intro h
  have hret := h [stampedInsert 0 (.v4 1)] (stampedInsert (maxAge + 1) (.v4 2))
    (by decide) (by decide)
  exact absurd hret.queues_le (by decide)

end BancuhDns
