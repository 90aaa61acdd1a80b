import BancuhDns.Lib.Dialog
import BancuhDns.Lib.Runs
import Mathlib.Logic.Function.Basic

/-!
# Tasks that share a state

Any number of tasks, each a program that asks (`Dialog`), are started one after the other and
then run at the same time: in each step one of them gets the answer to its question from a
shared state, which may change by it, and between the steps the surroundings may change the
shared state too (`Tasks.step`).

Two projections take such a run apart again. What happened to one task is what its program
does when it is answered like that (`Tasks.leads_of_run`); and what happened to the shared
state are the changes that all tasks and the surroundings made, in the order of the run, the
programs being forgotten (`Tasks.shared_of_run`).
-/

/-- **A system of tasks**: its tasks do the program of what they are started with, `X`. -/
structure Tasks (S X Env : Type) {Q : Type} (A : Q → Type) (R : Type) where
  /-- What a task does. -/
  program : X → Dialog Q A R
  /-- The shared state after a question has been given an answer, if it can be given it. -/
  answer : S → (q : Q) → A q → Option S
  /-- The shared state after a change of the surroundings, if there can be one. -/
  environment : S → Env → Option S

namespace Tasks

variable {S X Env Q R : Type} {A : Q → Type}

/-- The shared state, and the tasks: what each was started with and has left to do. -/
structure State (S X : Type) {Q : Type} (A : Q → Type) (R : Type) where
  shared : S
  tasks : ℕ → Option (X × Dialog Q A R)

/-- Nothing has been started. -/
def State.init (shared : S) : State S X A R := ⟨shared, fun _ => none⟩

/-- What can happen next. -/
inductive Event (X Env : Type) {Q : Type} (A : Q → Type) where
  /-- A task is started. -/
  | start (i : ℕ) (x : X)
  /-- A task asks a question and is answered. -/
  | exchange (i : ℕ) (e : Dialog.Exchange A)
  /-- The surroundings change. -/
  | environment (e : Env)

variable {sys : Tasks S X Env A R} {s s' : State S X A R} {e : Event X Env A}

/-- **The moves of the system.** -/
inductive Moves (sys : Tasks S X Env A R) (s : State S X A R) :
    Event X Env A → State S X A R → Prop
  | start {i : ℕ} {x : X} (h : s.tasks i = none) : Moves sys s (.start i x)
      { s with tasks := Function.update s.tasks i (some (x, sys.program x)) }
  | exchange {i : ℕ} {x : X} {q : Q} {a : A q} {next : A q → Dialog Q A R} {shared : S}
      (h : s.tasks i = some (x, .ask q next)) (hanswer : sys.answer s.shared q a = some shared) :
      Moves sys s (.exchange i ⟨q, a⟩)
      { s with shared := shared, tasks := Function.update s.tasks i (some (x, next a)) }
  | environment {e : Env} {shared : S} (h : sys.environment s.shared e = some shared) :
      Moves sys s (.environment e) { s with shared := shared }

/-! ### One task -/

/-- The exchanges of one task. -/
def exchangesOf (i : ℕ) (es : List (Event X Env A)) : List (Dialog.Exchange A) :=
  es.filterMap fun
    | .exchange j e => if j = i then some e else none
    | _ => none

theorem exchangesOf_concat (i : ℕ) (es : List (Event X Env A)) (e : Event X Env A) :
    exchangesOf i (es ++ [e]) = exchangesOf i es ++ exchangesOf i [e] :=
  List.filterMap_append

theorem mem_exchangesOf {i : ℕ} {es : List (Event X Env A)} {e : Dialog.Exchange A} :
    e ∈ exchangesOf i es ↔ .exchange i e ∈ es := by
  rw [exchangesOf, List.mem_filterMap]
  constructor
  · rintro ⟨_ | ⟨j, e'⟩ | _, hmem, he⟩
    · cases he
    · by_cases hj : j = i
      · subst hj
        have heq : e' = e := Option.some.inj ((if_pos rfl).symm.trans he)
        rwa [← heq]
      · cases (if_neg hj).symm.trans he
    · cases he
  · exact fun hmem => ⟨_, hmem, if_pos rfl⟩

/-- What a run says of one task: it has not been started, or it has done what its program
does when it is answered like that. -/
def TaskOk (sys : Tasks S X Env A R) (es : List (Event X Env A)) (i : ℕ) :
    Option (X × Dialog Q A R) → Prop
  | none => exchangesOf i es = [] ∧ ∀ x, .start i x ∉ es
  | some (x, p) => (sys.program x).Leads (exchangesOf i es) p ∧
      ∀ x', .start i x' ∈ es ↔ x' = x

/-- What happens to others changes nothing for a task. -/
theorem TaskOk.concat {es : List (Event X Env A)} {i : ℕ} {t : Option (X × Dialog Q A R)}
    (h : TaskOk sys es i t) (hexchange : exchangesOf i [e] = []) (hstart : ∀ x, e ≠ .start i x) :
    TaskOk sys (es ++ [e]) i t := by
  have hmem : ∀ x, .start i x ∈ es ++ [e] ↔ .start i x ∈ es := by
    intro x
    rw [List.mem_append, List.mem_singleton]
    exact or_iff_left fun heq => hstart x heq.symm
  cases t with
  | none =>
    refine ⟨?_, fun x => ?_⟩
    · rw [exchangesOf_concat, hexchange, h.1]
      rfl
    · rw [hmem]
      exact h.2 x
  | some t =>
    refine ⟨?_, fun x => ?_⟩
    · rw [exchangesOf_concat, hexchange, List.append_nil]
      exact h.1
    · rw [hmem]
      exact h.2 x

/-- The step lemma for the tasks. -/
theorem Moves.taskOk {es : List (Event X Env A)} (hm : Moves sys s e s')
    (h : ∀ i, TaskOk sys es i (s.tasks i)) (i : ℕ) : TaskOk sys (es ++ [e]) i (s'.tasks i) := by
  cases hm with
  | @start j x hj =>
    rcases eq_or_ne i j with rfl | hne
    · have hi := h i
      rw [hj] at hi
      simp only [Function.update_self]
      refine ⟨?_, fun x' => ?_⟩
      · rw [exchangesOf_concat, hi.1]
        exact .nil _
      · rw [List.mem_append, List.mem_singleton]
        constructor
        · rintro (hmem | heq)
          · exact absurd hmem (hi.2 x')
          · cases heq
            rfl
        · rintro rfl
          exact Or.inr rfl
    · simp only [Function.update_of_ne hne]
      refine (h i).concat rfl fun x' heq => hne ?_
      cases heq
      rfl
  | @exchange j x q a next shared hj hanswer =>
    rcases eq_or_ne i j with rfl | hne
    · have hi := h i
      rw [hj] at hi
      have hone : exchangesOf i [(.exchange i ⟨q, a⟩ : Event X Env A)] = [⟨q, a⟩] := by
        simp [exchangesOf]
      simp only [Function.update_self]
      refine ⟨?_, fun x' => ?_⟩
      · rw [exchangesOf_concat, hone]
        exact hi.1.concat a
      · rw [List.mem_append, List.mem_singleton, ← hi.2 x']
        exact or_iff_left nofun
    · simp only [Function.update_of_ne hne]
      exact (h i).concat (by simp [exchangesOf, Ne.symm hne]) nofun
  | environment henv => exact (h i).concat rfl nofun

/-! ### The shared state -/

/-- What happens to the shared state: an answer, or a change of the surroundings. -/
abbrev Change (Env : Type) {Q : Type} (A : Q → Type) := Dialog.Exchange A ⊕ Env

/-- One change of the shared state. -/
def change (sys : Tasks S X Env A R) (shared : S) : Change Env A → Option S
  | .inl e => sys.answer shared e.1 e.2
  | .inr e => sys.environment shared e

/-- The changes of the shared state in a run. -/
def changes (es : List (Event X Env A)) : List (Change Env A) :=
  es.filterMap fun
    | .start _ _ => none
    | .exchange _ e => some (.inl e)
    | .environment e => some (.inr e)

theorem changes_append (es es' : List (Event X Env A)) :
    changes (es ++ es') = changes es ++ changes es' :=
  List.filterMap_append

/-! ### Runs -/

variable [DecidableEq Q]

/-- **One step of the system.** -/
def step (sys : Tasks S X Env A R) (s : State S X A R) : Event X Env A → Option (State S X A R)
  | .start i x =>
    match s.tasks i with
    | none => some { s with tasks := Function.update s.tasks i (some (x, sys.program x)) }
    | some _ => none
  | .exchange i e =>
    match s.tasks i with
    | some (x, .ask q next) =>
      -- a task can be answered only what it asks
      if h : e.1 = q then
        (sys.answer s.shared e.1 e.2).map fun shared =>
          { s with
            shared := shared
            tasks := Function.update s.tasks i (some (x, next (h ▸ e.2))) }
      else none
    | _ => none
  | .environment e => (sys.environment s.shared e).map fun shared => { s with shared := shared }

theorem moves_of_step (h : sys.step s e = some s') : Moves sys s e s' := by
  cases e with
  | start i x =>
    rw [step] at h
    split at h
    next hi =>
      obtain rfl := Option.some.inj h
      exact .start hi
    next => cases h
  | exchange i e =>
    obtain ⟨q', a⟩ := e
    rw [step] at h
    split at h
    next x q next hi =>
      split at h
      next heq =>
        obtain rfl : q' = q := heq
        obtain ⟨shared, hanswer, rfl⟩ := Option.map_eq_some_iff.mp h
        exact .exchange hi hanswer
      next => cases h
    next => cases h
  | environment e =>
    obtain ⟨shared, henv, rfl⟩ := Option.map_eq_some_iff.mp h
    exact .environment henv

/-- **What happened to one task** is what its program does when it is answered like that. -/
theorem taskOk_of_run {shared : S} {es : List (Event X Env A)}
    (hrun : Runs.run sys.step (.init shared) es = some s) (i : ℕ) :
    TaskOk sys es i (s.tasks i) := by
  have hinit : ∀ i, TaskOk sys [] i ((State.init shared : State S X A R).tasks i) :=
    fun _ => ⟨rfl, fun _ => List.not_mem_nil⟩
  exact Runs.invariant (fun es s => ∀ i, TaskOk sys es i (s.tasks i)) hinit
    (fun _ _ _ _ _ h hstep => (moves_of_step hstep).taskOk h) hrun i

theorem leads_of_run {shared : S} {es : List (Event X Env A)} {i : ℕ} {x : X}
    {p : Dialog Q A R} (hrun : Runs.run sys.step (.init shared) es = some s)
    (hi : s.tasks i = some (x, p)) : (sys.program x).Leads (exchangesOf i es) p := by
  have h := taskOk_of_run hrun i
  rw [hi] at h
  exact h.1

/-- **What is guaranteed of a program is guaranteed of its tasks**, at every moment of a run. -/
theorem wp_of_run {P : List (Dialog.Exchange A) → Q → Prop}
    {post : List (Dialog.Exchange A) → R → Prop} {shared : S} {es : List (Event X Env A)} {i : ℕ}
    {x : X} {p : Dialog Q A R} (hrun : Runs.run sys.step (.init shared) es = some s)
    (hi : s.tasks i = some (x, p)) (h : (sys.program x).wp P post []) :
    p.wp P post (exchangesOf i es) := (leads_of_run hrun hi).wp h

/-- **A task that is answered** has asked, and the shared state can give the answer. -/
theorem exists_of_run_exchange {shared : S} {es₁ es₂ : List (Event X Env A)} {i : ℕ}
    {e : Dialog.Exchange A}
    (hrun : Runs.run sys.step (.init shared) (es₁ ++ .exchange i e :: es₂) = some s) :
    ∃ s₁ x next shared', Runs.run sys.step (.init shared) es₁ = some s₁ ∧
      s₁.tasks i = some (x, .ask e.1 next) ∧ sys.answer s₁.shared e.1 e.2 = some shared' := by
  rw [Runs.run_append, Option.bind_eq_some_iff] at hrun
  obtain ⟨s₁, hs₁, hrun⟩ := hrun
  rw [Runs.run_cons, Option.bind_eq_some_iff] at hrun
  obtain ⟨s₂, hstep, -⟩ := hrun
  cases moves_of_step hstep with
  | exchange hi hanswer => exact ⟨s₁, _, _, _, hs₁, hi, hanswer⟩

/-- **What happened to the shared state** are the changes that the tasks and the surroundings
made, in order. -/
theorem shared_of_run {shared : S} {es : List (Event X Env A)}
    (hrun : Runs.run sys.step (.init shared) es = some s) :
    Runs.run sys.change shared (changes es) = some s.shared := by
  refine Runs.invariant
    (fun es s => Runs.run sys.change shared (changes es) = some s.shared) rfl ?_ hrun
  intro es s e s' _ ih hstep
  rw [changes_append, Runs.run_append, ih, Option.bind_some]
  cases moves_of_step hstep with
  | start => rfl
  | @exchange i x q a next shared' hi hanswer =>
    have hone : changes [(.exchange i ⟨q, a⟩ : Event X Env A)] = [.inl ⟨q, a⟩] := rfl
    rw [hone, Runs.run_cons, change, hanswer]
    rfl
  | @environment e shared' henv =>
    have hone : changes [(.environment e : Event X Env A)] = [.inr e] := rfl
    rw [hone, Runs.run_cons, change, henv]
    rfl

end Tasks
