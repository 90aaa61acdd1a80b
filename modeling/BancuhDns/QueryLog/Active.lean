import BancuhDns.QueryLog
import BancuhDns.Lib.Runs
import Mathlib.Data.Set.Card

/-!
# Counting the active addresses

A handler task stamps its entry first and inserts it later, under the lock; in between,
other tasks for the same address may stamp and insert. So the entries of a queue need
not be in the order of their stamps. The count of active addresses reads the entry at
the back of each queue, a reader all of them: the two agree at an instant when no queue
has a stale entry at its back and a fresh one before it
(`BancuhDns.QueryLogStore.activeIps_eq_loggedIps_iff`).

Over a run of tasks they agree at every instant exactly when no insert leaves in the
queue of its address an entry with a later stamp than its own; and at every instant at
which a reader can still come, exactly when none leaves one with a later stamp that is
not older than ten minutes (`BancuhDns.LogTasks.activeIps_agrees_iff`). A task that is
overtaken for long enough makes an address vanish from the count while its entries are
still shown (`BancuhDns.LogTasks.activeIps_overtaken`).
-/

namespace BancuhDns

namespace QueryLogStore

/-- The number of addresses that have entries to show. -/
noncomputable def loggedIps (now : ℤ) (self : QueryLogStore) : ℕ :=
  {ip | self.getLogs now ip ≠ []}.ncard

/-- What an insert keeps of the queue of its address. -/
def kept (now : ℤ) (self : QueryLogStore) (ip : IpAddr) : List QueryLog :=
  Window.makeRoom maxPerIp
    (Window.expire QueryLog.queryTime (now - maxAge) ((self.logs.lookup ip).getD []))

theorem lookup_insert_eq_kept (now : ℤ) (self : QueryLogStore) (ip : IpAddr) (log : QueryLog) :
    (self.insert now ip log).logs.lookup ip = some (self.kept now ip ++ [log]) :=
  lookup_insert_self now self ip log

/-! ### One instant -/

theorem getLogs_ne_nil_iff {now : ℤ} {self : QueryLogStore} {ip : IpAddr} :
    self.getLogs now ip ≠ [] ↔
      ∃ entries, self.logs.lookup ip = some entries ∧
        ∃ e ∈ entries, now - maxAge ≤ e.queryTime := by
  rw [getLogs]
  cases self.logs.lookup ip with
  | none => simp
  | some entries => simp [List.filter_eq_nil_iff]

/-- The count is that of the addresses whose queue has a fresh entry at its back. -/
theorem activeIps_eq_ncard (now : ℤ) (self : QueryLogStore) :
    self.activeIps now =
      {ip | ∃ entries, self.logs.lookup ip = some entries ∧
        ∃ e ∈ entries.getLast?, now - maxAge ≤ e.queryTime}.ncard := by
  set active := self.logs.entries.filter fun entry =>
    entry.2.getLast?.any fun e => now - maxAge ≤ e.queryTime with hactive
  have hnodup : (active.map Sigma.fst).Nodup :=
    self.logs.nodupKeys.sublist List.filter_sublist
  have hset : {ip | ∃ entries, self.logs.lookup ip = some entries ∧
      ∃ e ∈ entries.getLast?, now - maxAge ≤ e.queryTime} =
        ((active.map Sigma.fst).toFinset : Set IpAddr) := by
    ext ip
    simp only [Set.mem_ofPred_eq, List.coe_toFinset, List.mem_map, hactive, List.mem_filter,
      Option.any_eq_true, decide_eq_true_eq]
    constructor
    · rintro ⟨entries, hlookup, e, he, hfresh⟩
      exact ⟨⟨ip, entries⟩, ⟨AList.mem_lookup_iff.mp hlookup, e, he, hfresh⟩, rfl⟩
    · rintro ⟨⟨_, entries⟩, ⟨hmem, e, he, hfresh⟩, rfl⟩
      exact ⟨entries, AList.mem_lookup_iff.mpr hmem, e, he, hfresh⟩
  rw [hset, Set.ncard_coe_finset, List.toFinset_card_of_nodup hnodup, List.length_map, activeIps]

/-- **When the count agrees with the logs**: when an address with a fresh entry has one
at the back of its queue. -/
theorem activeIps_eq_loggedIps_iff {now : ℤ} {self : QueryLogStore} :
    self.activeIps now = self.loggedIps now ↔
      ∀ ip entries, self.logs.lookup ip = some entries →
        (∃ e ∈ entries, now - maxAge ≤ e.queryTime) →
          ∃ e ∈ entries.getLast?, now - maxAge ≤ e.queryTime := by
  have hfinite : {ip | self.getLogs now ip ≠ []}.Finite := by
    refine (self.logs.keys.toFinset.finite_toSet).subset fun ip hip => ?_
    obtain ⟨entries, hlookup, -⟩ := getLogs_ne_nil_iff.mp hip
    simp [← AList.mem_keys, ← AList.lookup_isSome, hlookup]
  have hsubset : {ip | ∃ entries, self.logs.lookup ip = some entries ∧
      ∃ e ∈ entries.getLast?, now - maxAge ≤ e.queryTime} ⊆ {ip | self.getLogs now ip ≠ []} := by
    rintro ip ⟨entries, hlookup, e, he, hfresh⟩
    exact getLogs_ne_nil_iff.mpr ⟨entries, hlookup, e, List.mem_of_getLast? he, hfresh⟩
  rw [activeIps_eq_ncard, loggedIps]
  constructor
  · intro hcard ip entries hlookup hshown
    -- the addresses counted are among those with logs, and as many
    have heq := Set.eq_of_subset_of_ncard_le hsubset hcard.ge hfinite
    obtain ⟨entries', hlookup', hback⟩ : ip ∈ {ip | ∃ entries, self.logs.lookup ip = some entries ∧
        ∃ e ∈ entries.getLast?, now - maxAge ≤ e.queryTime} := by
      rw [heq]
      exact getLogs_ne_nil_iff.mpr ⟨entries, hlookup, hshown⟩
    rwa [Option.some.inj (hlookup.symm.trans hlookup')]
  · intro hback
    refine congrArg Set.ncard (hsubset.antisymm fun ip hip => ?_)
    obtain ⟨entries, hlookup, hshown⟩ := getLogs_ne_nil_iff.mp hip
    exact ⟨entries, hlookup, hback ip entries hlookup hshown⟩

end QueryLogStore

/-! ### Tasks -/

namespace LogTasks

/-- How far a handler task has got. -/
inductive Phase where
  | answering
  | stamped (ip : IpAddr) (log : QueryLog)
  | done
  deriving DecidableEq

/-- The clock, the tasks and the store. -/
structure State where
  clock : ℤ
  tasks : ℕ → Phase
  store : QueryLogStore

/-- What can happen next: time passes, a task that has answered its query stamps an
entry, or a task that has stamped one inserts it. -/
inductive Event where
  | tick (now : ℤ)
  | stamp (task : ℕ) (ip : IpAddr) (question answer : Text)
  | insert (task : ℕ)

/-- One step. The clock never goes back. -/
def step (s : State) : Event → Option State
  | .tick now => if s.clock ≤ now then some { s with clock := now } else none
  | .stamp task ip question answer =>
    match s.tasks task with
    | .answering =>
      let log : QueryLog := ⟨s.clock, question, answer⟩
      some { s with tasks := Function.update s.tasks task (.stamped ip log) }
    | _ => none
  | .insert task =>
    match s.tasks task with
    | .stamped ip log =>
      some { s with
        tasks := Function.update s.tasks task .done
        store := s.store.insert s.clock ip log }
    | _ => none

/-- Tasks that have not stamped anything, and an empty store. -/
def State.init (start : ℤ) : State := ⟨start, fun _ => .answering, .new⟩

/-- An insert that leaves in the queue of its address, among the entries that `counts`
says to look at, none with a later stamp than its own. -/
def InOrder (counts : ℤ → QueryLog → Prop) (s : State) : Event → Prop
  | .insert task => ∀ ip log, s.tasks task = .stamped ip log →
      ∀ e ∈ s.store.kept s.clock ip, counts s.clock e → e.queryTime ≤ log.queryTime
  | _ => True

/-- All inserts of a run are in order. -/
def AllInOrder (counts : ℤ → QueryLog → Prop) (start : ℤ) (es : List Event) : Prop :=
  ∀ es₁ e es₂ s, es = es₁ ++ e :: es₂ → Runs.run step (.init start) es₁ = some s →
    InOrder counts s e

/-- All entries. -/
def every (_ : ℤ) (_ : QueryLog) : Prop := True

/-- The entries that are not older than ten minutes. -/
def fresh (clock : ℤ) (e : QueryLog) : Prop := clock - maxAge ≤ e.queryTime

/-- In no queue does an entry that counts have a later stamp than the one at the back. -/
def BackLatest (counts : ℤ → QueryLog → Prop) (s : State) : Prop :=
  ∀ ip entries log, s.store.logs.lookup ip = some (entries ++ [log]) →
    ∀ e ∈ entries, counts s.clock e → e.queryTime ≤ log.queryTime

variable {counts : ℤ → QueryLog → Prop} {s s' : State} {e : Event} {start : ℤ}

/-- **Steps in order keep the latest stamp at the back.** -/
theorem BackLatest.step
    (hcounts : ∀ clock clock' e, clock ≤ clock' → counts clock' e → counts clock e)
    (hinv : BackLatest counts s) (hin : InOrder counts s e) (hstep : step s e = some s') :
    BackLatest counts s' := by
  cases e with
  | tick now =>
    obtain ⟨hle, hs'⟩ := Option.ite_none_right_eq_some.mp hstep
    obtain rfl := Option.some.inj hs'
    exact fun ip entries log hlookup e he hc =>
      hinv ip entries log hlookup e he (hcounts s.clock now e hle hc)
  | stamp task ip question answer =>
    rw [LogTasks.step] at hstep
    split at hstep
    · obtain rfl := Option.some.inj hstep
      exact hinv
    · cases hstep
  | insert task =>
    rw [LogTasks.step] at hstep
    split at hstep
    next ip log htask =>
      obtain rfl := Option.some.inj hstep
      intro ip' entries log' hlookup
      by_cases hip : ip' = ip
      · rw [hip, QueryLogStore.lookup_insert_eq_kept] at hlookup
        obtain ⟨rfl, hlog⟩ := List.append_inj' (Option.some.inj hlookup) rfl
        rw [← (List.cons.inj hlog).1]
        exact hin ip log htask
      · rw [QueryLogStore.lookup_insert_of_ne _ _ _ hip] at hlookup
        exact hinv ip' entries log' hlookup
    next => cases hstep

/-- **Runs in order keep it there.** -/
theorem backLatest_of_run
    (hcounts : ∀ clock clock' e, clock ≤ clock' → counts clock' e → counts clock e)
    {es : List Event} (hrun : Runs.run LogTasks.step (.init start) es = some s) :
    AllInOrder counts start es → BackLatest counts s := by
  refine Runs.invariant (fun es s => AllInOrder counts start es → BackLatest counts s) ?_ ?_ hrun
  · intro _ ip entries log hlookup
    cases hlookup
  · intro es s e s' hs ih hstep hall
    have hbefore : AllInOrder counts start es := fun es₁ e₁ es₂ s₁ hes hs₁ =>
      hall es₁ e₁ (es₂ ++ [e]) s₁ (by rw [hes]; simp) hs₁
    exact (ih hbefore).step hcounts (hall es e [] s rfl hs) hstep

/-- With the latest stamp at the back, the count agrees with the logs at an instant at
which only entries that count can be shown. -/
theorem BackLatest.agrees (hinv : BackLatest counts s) {now : ℤ}
    (hnow : ∀ e : QueryLog, now - maxAge ≤ e.queryTime → counts s.clock e) :
    s.store.activeIps now = s.store.loggedIps now := by
  refine QueryLogStore.activeIps_eq_loggedIps_iff.mpr ?_
  rintro ip entries hlookup ⟨e, he, hfresh⟩
  rcases List.eq_nil_or_concat entries with rfl | ⟨entries, log, rfl⟩
  · cases he
  · rw [List.concat_eq_append] at hlookup he ⊢
    refine ⟨log, by simp, ?_⟩
    rcases List.mem_append.mp he with he | he
    · exact hfresh.trans (hinv ip entries log hlookup e he (hnow e hfresh))
    · rwa [← List.mem_singleton.mp he]

/-- Over a run, the count agrees with the logs in every state, at the instants that
`reads` says a reader can come at. -/
def AllAgree (reads : ℤ → ℤ → Prop) (start : ℤ) (es : List Event) : Prop :=
  ∀ es₁ es₂ s, es = es₁ ++ es₂ → Runs.run step (.init start) es₁ = some s →
    ∀ now, reads s.clock now → s.store.activeIps now = s.store.loggedIps now

/-- An insert out of order is seen at once, by a reader who comes ten minutes after the
stamp that it leaves behind. -/
theorem inOrder_of_agrees {reads : ℤ → ℤ → Prop}
    (hreads : ∀ clock e, counts clock e → reads clock (e.queryTime + maxAge))
    (hagrees : ∀ s', step s e = some s' → ∀ now, reads s'.clock now →
      s'.store.activeIps now = s'.store.loggedIps now) : InOrder counts s e := by
  cases e with
  | tick _ => trivial
  | stamp _ _ _ _ => trivial
  | insert task =>
    intro ip log htask e he hcounts
    have hstep : step s (.insert task) = some ⟨s.clock,
        Function.update s.tasks task .done, s.store.insert s.clock ip log⟩ := by
      rw [step, htask]
    have hnow := hagrees _ hstep (e.queryTime + maxAge) (hreads s.clock e hcounts)
    obtain ⟨back, hback, hfresh⟩ := QueryLogStore.activeIps_eq_loggedIps_iff.mp hnow ip _
      (QueryLogStore.lookup_insert_eq_kept s.clock s.store ip log)
      ⟨e, List.mem_append_left _ he, by omega⟩
    have heq : log = back := by simpa using hback
    rw [heq]
    omega

/-- The instants to read at and the entries that count belong together when an entry
can be shown at some of them exactly as long as it counts. -/
theorem allAgree_iff {reads : ℤ → ℤ → Prop}
    (hcounts : ∀ clock clock' e, clock ≤ clock' → counts clock' e → counts clock e)
    (hreads : ∀ clock e, counts clock e → reads clock (e.queryTime + maxAge))
    (hshown : ∀ clock now e, reads clock now → now - maxAge ≤ e.queryTime → counts clock e)
    (es : List Event) : AllAgree reads start es ↔ AllInOrder counts start es := by
  constructor
  · rintro hagree es₁ e es₂ s rfl hs
    refine inOrder_of_agrees hreads fun s' hstep => hagree (es₁ ++ [e]) es₂ s' (by simp) ?_
    rw [Runs.run_concat, hs]
    exact hstep
  · rintro hall es₁ es₂ s rfl hs now hnow
    have hbefore : AllInOrder counts start es₁ := fun es₁' e es₂' s' hes =>
      hall es₁' e (es₂' ++ es₂) s' (by rw [hes]; simp)
    exact (backLatest_of_run hcounts hs hbefore).agrees fun e => hshown s.clock now e hnow

/-- **When the count of active addresses agrees with the logs.** Over every run of
tasks: in all its states and at all instants, exactly when every insert is in order
with the entries that it keeps; in all its states and at the instants from their clock
on, exactly when every insert is in order with those that are not older than ten
minutes. -/
theorem activeIps_agrees_iff (start : ℤ) (es : List Event) :
    (AllAgree (fun _ _ => True) start es ↔ AllInOrder every start es) ∧
      (AllAgree (fun clock now => clock ≤ now) start es ↔ AllInOrder fresh start es) := by
  refine ⟨allAgree_iff (fun _ _ _ _ h => h) (fun _ _ _ => trivial) (fun _ _ _ _ _ => trivial) es,
    allAgree_iff (fun clock clock' e hle h => ?_) (fun clock e h => ?_)
      (fun clock now e hnow h => ?_) es⟩
  · exact (Int.sub_le_sub_right hle maxAge).trans h
  · exact Int.le_add_of_sub_right_le h
  · exact (Int.sub_le_sub_right hnow maxAge).trans h

/-- One task stamps at once; another one stamps and inserts 100 seconds later, and is
followed by the first 100 seconds after that. -/
def overtaken : List Event :=
  [.stamp 0 (.v4 1) "a.com. A".toList "forwarded".toList, .tick (100 * 1000000000),
    .stamp 1 (.v4 1) "b.com. A".toList "forwarded".toList, .insert 1, .tick (200 * 1000000000),
    .insert 0]

/-- **An address that vanishes.** Eleven minutes after the start, no address is active,
and one has an entry to show. -/
theorem activeIps_overtaken :
    ¬∀ (start : ℤ) (es : List Event) (s : State),
      Runs.run step (.init start) es = some s →
        ∀ now, s.clock ≤ now → s.store.activeIps now = s.store.loggedIps now := by
  intro h
  obtain ⟨s, hs⟩ : ∃ s, Runs.run step (.init 0) overtaken = some s := ⟨_, rfl⟩
  have hagrees := h 0 overtaken s hs (660 * 1000000000)
  obtain rfl := Option.some.inj hs
  have hback := QueryLogStore.activeIps_eq_loggedIps_iff.mp (hagrees (by decide)) (.v4 1) _ rfl
    (by decide)
  exact absurd hback (by decide)

end LogTasks

end BancuhDns
