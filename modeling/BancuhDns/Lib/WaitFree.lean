import BancuhDns.Lib.Atomic

/-!
# Calls that wait for nobody

What tasks share, as it is implemented (`Atomic.Implementation`), may hold a task up: a call
could wait for another to return. Those of a kind do not when each can go on by itself, whatever
the others are in the middle of, and is over after so many steps taken for it, however many are
taken for the others in between (`Atomic.WaitFree`). Each step for a call brings it to a higher
stage, and there are so many stages.

Then a call of that kind that a task has come to can be brought to its return at any moment,
by steps that are taken for it alone, and the whole call takes no more of them than there are
stages (`Atomic.exists_return_of_run`). Nothing is said of the calls of other kinds, which may
wait for each other and hold up the tasks that make them.
-/

namespace Atomic

variable {S X Env Q R T I : Type} {A : Q → Type}

/-- The call that is made. -/
def CallStatus.call : CallStatus A → Option Q
  | .idle => none
  | .begun q => some q
  | .effected e => some e.1

/-- A step that is taken for a task: it makes a call or returns from one, or something is done
for it. -/
def Event.concerns (takenFor : I → ℕ → Bool) (i : ℕ) : Event X I → Bool
  | .start _ _ => false
  | .enter j | .leave j => j == i
  | .work ι => takenFor ι i

variable (impl : Implementation T I A) (sys : Tasks S X Env A R) (status : T → ℕ → CallStatus A)
  (Ok : T → Prop) (Kind : Q → Prop) (takenFor : I → ℕ → Bool) (stage : T → ℕ → ℕ) (bound : ℕ)

/-- **Calls of a kind that wait for nobody**: the stages that such a call goes through, up to a
bound, and the steps that bring it from one to the next. -/
structure WaitFree : Prop where
  stage_le : ∀ t i, stage t i ≤ bound
  enter : ∀ {t t' i q}, Ok t → Kind q → impl.enter t i q = some t' → stage t i < stage t' i
  work : ∀ {t t' ι i}, Ok t → (∀ q ∈ (status t i).call, Kind q) → impl.work t ι = some t' →
    takenFor ι i = true → stage t i < stage t' i
  enter_of_ne : ∀ {t t' i j q}, Ok t → impl.enter t j q = some t' → i ≠ j →
    stage t' i = stage t i
  work_of_not : ∀ {t t' ι i}, Ok t → impl.work t ι = some t' → takenFor ι i = false →
    stage t' i = stage t i
  leave_of_ne : ∀ {t t' i j q a}, Ok t → impl.leave t j q = some (a, t') → i ≠ j →
    stage t' i = stage t i
  /-- A task that is not in the middle of a call can make one of the kind. -/
  can_enter : ∀ {t i q}, Ok t → Kind q → status t i = .idle → ∃ t', impl.enter t i q = some t'
  /-- One that is can go on with it. -/
  can_go_on : ∀ {t i q}, Ok t → Kind q → (status t i).call = some q →
    (∃ a t', impl.leave t i q = some (a, t')) ∨ ∃ ι t', takenFor ι i = true ∧
      impl.work t ι = some t'

variable {impl sys status Ok Kind takenFor stage bound} {abs : T → S}
  {s s₁ : Tasks.State T X A R} {s' : Tasks.State S X A R} {es es' : List (Event X I)} {t₀ : T}
  {i : ℕ} {x : X} {q : Q} {next : A q → Dialog Q A R}

/-- A task that has come to a call is not in the middle of another. -/
theorem Sim.idle_or_call (h : Sim abs status Ok s s') (hi : s.tasks i = some (x, .ask q next)) :
    status s.shared i = .idle ∨ (status s.shared i).call = some q := by
  have hagree := h.tasks i
  rw [hi] at hagree
  generalize status s.shared i = c at hagree ⊢
  generalize s'.tasks i = t' at hagree
  cases hagree with
  | idle => exact Or.inl rfl
  | begun => exact Or.inr rfl
  | effected => exact Or.inr rfl

/-- **A task that has come to such a call can go on**: the call returns, or a step is taken for
it. -/
theorem Sim.exists_step (hfree : WaitFree impl status Ok Kind takenFor stage bound)
    (h : Sim abs status Ok s s') (hi : s.tasks i = some (x, .ask q next)) (hq : Kind q) :
    (∃ a s₁, Atomic.step impl sys s (.leave i) = some s₁ ∧ s₁.tasks i = some (x, next a)) ∨
      ∃ (e : Event X I) (s₁ : Tasks.State T X A R), e.concerns takenFor i = true ∧
        e ≠ .leave i ∧ Atomic.step impl sys s e = some s₁ := by
  rcases h.idle_or_call hi with hidle | hcall
  · obtain ⟨shared, henter⟩ := hfree.can_enter h.ok hq hidle
    exact Or.inr ⟨.enter i, _, beq_self_eq_true i, by simp, (Moves.enter hi henter).step_eq⟩
  · rcases hfree.can_go_on h.ok hq hcall with ⟨a, shared, hleave⟩ | ⟨ι, shared, hι, hwork⟩
    · exact Or.inl ⟨a, _, (Moves.leave hi hleave).step_eq, Function.update_self _ _ _⟩
    · exact Or.inr ⟨.work ι, _, hι, by simp, (Moves.work hwork).step_eq⟩

/-- **The step lemma**: a step that is taken for a call brings it to a higher stage, and one that
is not leaves it where it is. -/
theorem Sim.stage_step (hfree : WaitFree impl status Ok Kind takenFor stage bound)
    (h : Sim abs status Ok s s') (hi : s.tasks i = some (x, .ask q next)) (hq : Kind q)
    {e : Event X I} (he : e ≠ .leave i) (hstep : Atomic.step impl sys s e = some s₁) :
    s₁.tasks i = some (x, .ask q next) ∧
      stage s.shared i + [e].countP (Event.concerns takenFor i) ≤ stage s₁.shared i := by
  rw [List.countP_singleton]
  cases moves_of_step hstep with
  | @start j y hj =>
    have hne : i ≠ j := fun heq => by simp [heq ▸ hi] at hj
    exact ⟨(Function.update_of_ne hne _ _).trans hi, Nat.le_refl _⟩
  | @enter j y q' next' shared hj henter =>
    refine ⟨hi, ?_⟩
    rcases eq_or_ne i j with rfl | hne
    · -- the call that is made is the one that the task has come to
      obtain ⟨rfl, hask⟩ := Prod.mk.inj (Option.some.inj (hi.symm.trans hj))
      cases hask
      have hconcerns : Event.concerns takenFor i (.enter i : Event X I) = true :=
        beq_self_eq_true i
      rw [if_pos hconcerns]
      exact hfree.enter h.ok hq henter
    · have hnot : ¬Event.concerns takenFor i (.enter j : Event X I) = true := by
        simpa [Event.concerns] using hne.symm
      rw [if_neg hnot]
      exact Nat.le_of_eq (hfree.enter_of_ne h.ok henter hne).symm
  | @work ι shared hwork =>
    refine ⟨hi, ?_⟩
    by_cases hι : takenFor ι i = true
    · have hkind : ∀ q' ∈ (status s.shared i).call, Kind q' := by
        intro q' hq'
        rcases h.idle_or_call hi with hidle | hcall
        · rw [hidle] at hq'
          cases hq'
        · rw [hcall] at hq'
          exact Option.some.inj hq' ▸ hq
      have hconcerns : Event.concerns takenFor i (.work ι : Event X I) = true := hι
      rw [if_pos hconcerns]
      exact hfree.work h.ok hkind hwork hι
    · have hconcerns : ¬Event.concerns takenFor i (.work ι : Event X I) = true := hι
      rw [if_neg hconcerns]
      exact Nat.le_of_eq (hfree.work_of_not h.ok hwork (Bool.eq_false_iff.mpr hι)).symm
  | @leave j y q' next' a shared hj hleave =>
    have hne : i ≠ j := fun heq => he (by rw [heq])
    have hnot : ¬Event.concerns takenFor i (.leave j : Event X I) = true := by
      simpa [Event.concerns] using hne.symm
    rw [if_neg hnot]
    exact ⟨(Function.update_of_ne hne _ _).trans hi,
      Nat.le_of_eq (hfree.leave_of_ne h.ok hleave hne).symm⟩

variable [DecidableEq Q]

/-- At every moment there is a system that agrees. -/
theorem exists_sim (href : Refines impl sys abs status Ok) (hok : Ok t₀)
    (hidle : ∀ i, status t₀ i = .idle)
    (hrun : Runs.run (Atomic.step impl sys) (.init t₀) es = some s) :
    ∃ s', Sim abs status Ok s s' := by
  obtain ⟨labels, -, hlabels⟩ := exists_labels href hok hidle hrun
  obtain ⟨s₁, s', hs₁, -, hsim⟩ := hlabels es.length
  rw [List.take_length] at hs₁
  obtain rfl := Option.some.inj (hs₁.symm.trans hrun)
  exact ⟨s', hsim⟩

/-- **The run lemma**: as long as such a call has not returned, the task is still there, and the
call is as many stages higher as steps have been taken for it. -/
theorem stage_of_run (hfree : WaitFree impl status Ok Kind takenFor stage bound)
    (href : Refines impl sys abs status Ok) (hok : Ok t₀) (hidle : ∀ i, status t₀ i = .idle)
    (hrun : Runs.run (Atomic.step impl sys) (.init t₀) es = some s)
    (hi : s.tasks i = some (x, .ask q next)) (hq : Kind q)
    (hrun' : Runs.run (Atomic.step impl sys) (.init t₀) (es ++ es') = some s₁)
    (hleave : .leave i ∉ es') :
    s₁.tasks i = some (x, .ask q next) ∧
      stage s.shared i + es'.countP (Event.concerns takenFor i) ≤ stage s₁.shared i := by
  induction es' using List.reverseRecOn generalizing s₁ with
  | nil =>
    rw [List.append_nil] at hrun'
    obtain rfl := Option.some.inj (hrun.symm.trans hrun')
    exact ⟨hi, Nat.le_refl _⟩
  | append_singleton es' e ih =>
    rw [← List.append_assoc, Runs.run_concat, Option.bind_eq_some_iff] at hrun'
    obtain ⟨s₂, hs₂, hstep⟩ := hrun'
    simp only [List.mem_append, List.mem_singleton, not_or] at hleave
    obtain ⟨hi₂, hle₂⟩ := ih hs₂ hleave.1
    obtain ⟨s', hsim⟩ := exists_sim href hok hidle hs₂
    obtain ⟨hi₁, hle₁⟩ := hsim.stage_step hfree hi₂ hq (Ne.symm hleave.2) hstep
    refine ⟨hi₁, ?_⟩
    rw [List.countP_append]
    omega

/-- **Such a call can be brought to its return** by steps that are taken for it alone. -/
theorem exists_return (hfree : WaitFree impl status Ok Kind takenFor stage bound)
    (href : Refines impl sys abs status Ok) (hok : Ok t₀) (hidle : ∀ i, status t₀ i = .idle)
    (hrun : Runs.run (Atomic.step impl sys) (.init t₀) es = some s)
    (hi : s.tasks i = some (x, .ask q next)) (hq : Kind q) :
    ∃ own s₁ a, (∀ e ∈ own, Event.concerns takenFor i e = true) ∧
      Runs.run (Atomic.step impl sys) (.init t₀) (es ++ own) = some s₁ ∧
      s₁.tasks i = some (x, next a) ∧ stage s.shared i + own.length ≤ bound + 1 := by
  -- by the number of stages that are left
  induction hk : bound - stage s.shared i using Nat.strongRecOn generalizing es s with
  | ind k ih =>
    obtain ⟨s', hsim⟩ := exists_sim href hok hidle hrun
    rcases hsim.exists_step hfree hi hq with
      ⟨a, s₁, hstep, hs₁⟩ | ⟨e, s₁, he, hne, hstep⟩
    · refine ⟨[.leave i], s₁, a, ?_, ?_, hs₁, ?_⟩
      · intro e he
        obtain rfl := List.mem_singleton.mp he
        exact beq_self_eq_true i
      · rw [Runs.run_concat, hrun, Option.bind_some, hstep]
      · exact Nat.add_le_add_right (hfree.stage_le _ _) 1
    · obtain ⟨hi₁, hle⟩ := hsim.stage_step hfree hi hq hne hstep
      rw [List.countP_singleton, if_pos he] at hle
      have hbound := hfree.stage_le s₁.shared i
      have hrun₁ : Runs.run (Atomic.step impl sys) (.init t₀) (es ++ [e]) = some s₁ := by
        rw [Runs.run_concat, hrun, Option.bind_some, hstep]
      obtain ⟨own, s₂, a, hown, hrun₂, hs₂, hlength⟩ := ih _ (by omega) hrun₁ hi₁ rfl
      refine ⟨e :: own, s₂, a, ?_, ?_, hs₂, ?_⟩
      · rintro e' (_ | ⟨_, he'⟩)
        · exact he
        · exact hown e' he'
      · rw [← hrun₂, List.append_assoc]
        rfl
      · rw [List.length_cons]
        omega

/-- **A call that waits for nobody.** Whatever has happened since a task has come to it, it can
be brought to its return by steps that are taken for it alone, and of these there are no more
than so many in all. -/
theorem exists_return_of_run (hfree : WaitFree impl status Ok Kind takenFor stage bound)
    (href : Refines impl sys abs status Ok) (hok : Ok t₀) (hidle : ∀ i, status t₀ i = .idle)
    (hrun : Runs.run (Atomic.step impl sys) (.init t₀) es = some s)
    (hi : s.tasks i = some (x, .ask q next)) (hq : Kind q)
    (hrun' : Runs.run (Atomic.step impl sys) (.init t₀) (es ++ es') = some s₁)
    (hleave : .leave i ∉ es') :
    ∃ own s₂ a, (∀ e ∈ own, Event.concerns takenFor i e = true) ∧
      Runs.run (Atomic.step impl sys) (.init t₀) (es ++ es' ++ own) = some s₂ ∧
      s₂.tasks i = some (x, next a) ∧
      es'.countP (Event.concerns takenFor i) + own.length ≤ bound + 1 := by
  obtain ⟨hi₁, hle⟩ := stage_of_run hfree href hok hidle hrun hi hq hrun' hleave
  obtain ⟨own, s₂, a, hown, hrun₂, hs₂, hlength⟩ :=
    exists_return hfree href hok hidle hrun' hi₁ hq
  exact ⟨own, s₂, a, hown, hrun₂, hs₂, by omega⟩

end Atomic
