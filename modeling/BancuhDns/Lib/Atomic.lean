import BancuhDns.Lib.Tasks
import Mathlib.Data.List.ReduceOption

/-!
# Calls that take time

In a system of tasks (`Tasks`) a question is asked and answered in one step. In the program it
stands for, a call is made, several steps are taken on its behalf and on that of others, and at
last the call returns (`Atomic.Implementation`). It makes no difference when each call takes its
effect at one of these steps: when the steps can be labelled, each with what happens in the
system of tasks, if anything does (`Atomic.Refines`). Then every run of the implementation keeps
pace with a run of the system (`Atomic.exists_labels`), and what is known of the runs of the
system is known of the implementation.

At each moment the two agree on the shared state and on every task that is not in the middle of
a call; a task that is, is one step ahead in the system once its call has taken effect
(`Atomic.Agree`). So each call takes effect between the moment it is made and the moment it
returns.
-/

namespace Atomic

variable {S X Env Q R T I : Type} {A : Q → Type}

/-- How far the call of a task has got. -/
inductive CallStatus (A : Q → Type) where
  /-- The task is not in the middle of a call. -/
  | idle
  /-- The call is made. -/
  | begun (q : Q)
  /-- It has taken effect, and will return this. -/
  | effected (e : Dialog.Exchange A)

/-- **An implementation of what tasks share**: calls are made and return, and in between there
are steps of its own. -/
structure Implementation (T I : Type) (A : Q → Type) where
  /-- A task makes a call. -/
  enter : T → ℕ → Q → Option T
  /-- Something is done. -/
  work : T → I → Option T
  /-- The call of a task returns. -/
  leave : T → ℕ → (q : Q) → Option (A q × T)

/-- What can happen next. -/
inductive Event (X I : Type) where
  /-- A task is started. -/
  | start (i : ℕ) (x : X)
  /-- A task makes the call that it has come to. -/
  | enter (i : ℕ)
  /-- Something is done. -/
  | work (ι : I)
  /-- The call of a task returns. -/
  | leave (i : ℕ)

variable (impl : Implementation T I A) (sys : Tasks S X Env A R)

/-- **One step of the tasks over an implementation.** -/
def step (s : Tasks.State T X A R) : Event X I → Option (Tasks.State T X A R)
  | .start i x =>
    match s.tasks i with
    | none => some { s with tasks := Function.update s.tasks i (some (x, sys.program x)) }
    | some _ => none
  | .enter i =>
    match s.tasks i with
    | some (_, .ask q _) => (impl.enter s.shared i q).map fun shared => { s with shared := shared }
    | _ => none
  | .work ι => (impl.work s.shared ι).map fun shared => { s with shared := shared }
  | .leave i =>
    match s.tasks i with
    | some (x, .ask q next) => (impl.leave s.shared i q).map fun r =>
        { s with shared := r.2, tasks := Function.update s.tasks i (some (x, next r.1)) }
    | _ => none

/-- **The moves of the tasks over an implementation.** -/
inductive Moves (s : Tasks.State T X A R) : Event X I → Tasks.State T X A R → Prop
  | start {i : ℕ} {x : X} (h : s.tasks i = none) : Moves s (.start i x)
      { s with tasks := Function.update s.tasks i (some (x, sys.program x)) }
  | enter {i : ℕ} {x : X} {q : Q} {next : A q → Dialog Q A R} {shared : T}
      (h : s.tasks i = some (x, .ask q next)) (henter : impl.enter s.shared i q = some shared) :
      Moves s (.enter i) { s with shared := shared }
  | work {ι : I} {shared : T} (h : impl.work s.shared ι = some shared) :
      Moves s (.work ι) { s with shared := shared }
  | leave {i : ℕ} {x : X} {q : Q} {next : A q → Dialog Q A R} {a : A q} {shared : T}
      (h : s.tasks i = some (x, .ask q next))
      (hleave : impl.leave s.shared i q = some (a, shared)) :
      Moves s (.leave i) ⟨shared, Function.update s.tasks i (some (x, next a))⟩

variable {impl sys} in
theorem moves_of_step {s s₁ : Tasks.State T X A R} {e : Event X I}
    (h : step impl sys s e = some s₁) : Moves impl sys s e s₁ := by
  cases e with
  | start i x =>
    rw [step] at h
    split at h
    next hi =>
      obtain rfl := Option.some.inj h
      exact .start hi
    next => cases h
  | enter i =>
    rw [step] at h
    split at h
    next x q next hi =>
      obtain ⟨shared, henter, rfl⟩ := Option.map_eq_some_iff.mp h
      exact .enter hi henter
    next => cases h
  | work ι =>
    obtain ⟨shared, hwork, rfl⟩ := Option.map_eq_some_iff.mp h
    exact .work hwork
  | leave i =>
    rw [step] at h
    split at h
    next x q next hi =>
      obtain ⟨⟨a, shared⟩, hleave, rfl⟩ := Option.map_eq_some_iff.mp h
      exact .leave hi hleave
    next => cases h

variable {impl sys} in
theorem Moves.step_eq {s s₁ : Tasks.State T X A R} {e : Event X I} (h : Moves impl sys s e s₁) :
    step impl sys s e = some s₁ := by
  cases h with
  | start hi => simp only [step, hi]
  | enter hi henter => simp only [step, hi, henter, Option.map_some]
  | work hwork => simp only [step, hwork, Option.map_some]
  | leave hi hleave => simp only [step, hi, hleave, Option.map_some]

/-! ### Refinement -/

variable (abs : T → S) (status : T → ℕ → CallStatus A)

/-- **What a step shows**: nothing, the effect of a call, or a change of the surroundings. -/
inductive Shows (t t' : T) : Option (Tasks.Event X Env A) → Prop
  | nothing (habs : abs t' = abs t) (hstatus : status t' = status t) : Shows t t' none
  | exchange {i : ℕ} {q : Q} {a : A q} (h : status t i = .begun q)
      (hanswer : sys.answer (abs t) q a = some (abs t'))
      (hstatus : status t' = Function.update (status t) i (.effected ⟨q, a⟩)) :
      Shows t t' (some (.exchange i ⟨q, a⟩))
  | environment {e : Env} (h : sys.environment (abs t) e = some (abs t'))
      (hstatus : status t' = status t) : Shows t t' (some (.environment e))

/-- **A refinement**: what stands for the shared state of the tasks, how far each call has got,
and an invariant, such that every step shows something. -/
structure Refines (Ok : T → Prop) : Prop where
  enter : ∀ {t t' i q}, Ok t → impl.enter t i q = some t' → Ok t' ∧ abs t' = abs t ∧
    status t i = .idle ∧ status t' = Function.update (status t) i (.begun q)
  work : ∀ {t t' ι}, Ok t → impl.work t ι = some t' → Ok t' ∧ ∃ l, Shows sys abs status t t' l
  leave : ∀ {t t' i q a}, Ok t → impl.leave t i q = some (a, t') → Ok t' ∧ abs t' = abs t ∧
    status t i = .effected ⟨q, a⟩ ∧ status t' = Function.update (status t) i .idle

/-- **Where a task is** over the implementation, and where it is in the system. -/
inductive Agree : CallStatus A → Option (X × Dialog Q A R) → Option (X × Dialog Q A R) → Prop
  | idle {t : Option (X × Dialog Q A R)} : Agree .idle t t
  | begun {x : X} {q : Q} {next : A q → Dialog Q A R} :
      Agree (.begun q) (some (x, .ask q next)) (some (x, .ask q next))
  | effected {x : X} {q : Q} {a : A q} {next : A q → Dialog Q A R} :
      Agree (.effected ⟨q, a⟩) (some (x, .ask q next)) (some (x, next a))

/-- **The two agree.** -/
structure Sim (Ok : T → Prop) (s : Tasks.State T X A R) (s' : Tasks.State S X A R) : Prop where
  ok : Ok s.shared
  shared : s'.shared = abs s.shared
  tasks : ∀ i, Agree (status s.shared i) (s.tasks i) (s'.tasks i)

variable {impl sys abs status} {Ok : T → Prop} {s s₁ : Tasks.State T X A R}
  {s' : Tasks.State S X A R}

/-- A task that has moved on in both agrees, and so do the others. -/
theorem Sim.of_update (h : Sim abs status Ok s s') {i : ℕ} {shared : T} {shared' : S}
    {c : CallStatus A} {t t' : Option (X × Dialog Q A R)} (hok : Ok shared)
    (hshared : shared' = abs shared)
    (hstatus : status shared = Function.update (status s.shared) i c) (hi : Agree c t t') :
    Sim abs status Ok ⟨shared, Function.update s.tasks i t⟩
      ⟨shared', Function.update s'.tasks i t'⟩ where
  ok := hok
  shared := hshared
  tasks j := by
    simp only [hstatus]
    rcases eq_or_ne j i with rfl | hne
    · simp only [Function.update_self]
      exact hi
    · simp only [Function.update_of_ne hne]
      exact h.tasks j

variable [DecidableEq Q] {e : Event X I} {es : List (Event X I)} {t₀ : T}

/-- The step lemma: the system can do what a step shows. -/
theorem Sim.step (href : Refines impl sys abs status Ok) (h : Sim abs status Ok s s')
    (hstep : step impl sys s e = some s₁) :
    ∃ (l : Option (Tasks.Event X Env A)) (s₁' : Tasks.State S X A R),
      Runs.run sys.step s' l.toList = some s₁' ∧ Sim abs status Ok s₁ s₁' := by
  cases moves_of_step hstep with
  | @start i x hi =>
    have hagree := h.tasks i
    rw [hi] at hagree
    generalize hc : status s.shared i = c at hagree
    generalize hi' : s'.tasks i = t at hagree
    cases hagree with
    | idle =>
      have hstep' : sys.step s' (.start i x) = some
          ⟨s'.shared, Function.update s'.tasks i (some (x, sys.program x))⟩ := by
        rw [Tasks.step, hi']
      refine ⟨some (.start i x), _, (Runs.run_singleton _ _).trans hstep',
        h.of_update h.ok h.shared ?_ .idle⟩
      rw [← hc, Function.update_eq_self]
  | @enter i x q next shared hi henter =>
    obtain ⟨hok, habs, hidle, hstatus⟩ := href.enter h.ok henter
    have hagree := h.tasks i
    rw [hi, hidle] at hagree
    generalize hi' : s'.tasks i = t at hagree
    cases hagree with
    | idle =>
      have hbegun : Agree (.begun q) (some (x, .ask q next)) (some (x, .ask q next)) := .begun
      have hsim := h.of_update hok (h.shared.trans habs.symm) hstatus hbegun
      rw [Function.update_eq_self_iff.mpr hi.symm, Function.update_eq_self_iff.mpr hi'.symm] at hsim
      exact ⟨none, s', rfl, hsim⟩
  | @work ι shared hwork =>
    obtain ⟨hok, l, hshows⟩ := href.work h.ok hwork
    cases hshows with
    | nothing habs hstatus =>
      exact ⟨none, s', rfl, hok, h.shared.trans habs.symm, fun i => by
        simp only [hstatus]
        exact h.tasks i⟩
    | @exchange i q a hbegun hanswer hstatus =>
      have hagree := h.tasks i
      rw [hbegun] at hagree
      generalize hi : s.tasks i = t at hagree
      generalize hi' : s'.tasks i = t' at hagree
      cases hagree with
      | @begun x _ next =>
        have hstep' : sys.step s' (.exchange i ⟨q, a⟩) = some
            ⟨abs shared, Function.update s'.tasks i (some (x, next a))⟩ := by
          rw [Tasks.step, hi', h.shared]
          simp only [dif_pos, hanswer]
          rfl
        have hagree : Agree (.effected ⟨q, a⟩) (some (x, .ask q next)) (some (x, next a)) :=
          .effected
        have hsim := h.of_update hok rfl hstatus hagree
        rw [Function.update_eq_self_iff.mpr hi.symm] at hsim
        exact ⟨some (.exchange i ⟨q, a⟩), _, (Runs.run_singleton _ _).trans hstep', hsim⟩
    | @environment e henv hstatus =>
      have hstep' : sys.step s' (.environment e) = some { s' with shared := abs shared } := by
        rw [Tasks.step, h.shared, henv]
        rfl
      exact ⟨some (.environment e), _, (Runs.run_singleton _ _).trans hstep', hok, rfl,
        fun i => by
          simp only [hstatus]
          exact h.tasks i⟩
  | @leave i x q next a shared hi hleave =>
    obtain ⟨hok, habs, heffected, hstatus⟩ := href.leave h.ok hleave
    have hagree := h.tasks i
    rw [hi, heffected] at hagree
    generalize hi' : s'.tasks i = t at hagree
    cases hagree with
    | effected =>
      have hsim := h.of_update hok (h.shared.trans habs.symm) hstatus
        (.idle (t := some (x, next a)))
      have hsame : Function.update s'.tasks i (some (x, next a)) = s'.tasks :=
        Function.update_eq_self_iff.mpr hi'.symm
      rw [hsame] at hsim
      exact ⟨none, s', rfl, hsim⟩

/-- **A run of an implementation keeps pace with a run of the system**: its steps can be
labelled, each with what it shows, such that at every moment the two agree. -/
theorem exists_labels (href : Refines impl sys abs status Ok) (hok : Ok t₀)
    (hidle : ∀ i, status t₀ i = .idle)
    (hrun : Runs.run (Atomic.step impl sys) (.init t₀) es = some s) :
    ∃ labels : List (Option (Tasks.Event X Env A)), labels.length = es.length ∧
      ∀ n, ∃ s₁ s₁', Runs.run (Atomic.step impl sys) (.init t₀) (es.take n) = some s₁ ∧
        Runs.run sys.step (.init (abs t₀)) (labels.take n).reduceOption = some s₁' ∧
        Sim abs status Ok s₁ s₁' := by
  induction es using List.reverseRecOn generalizing s with
  | nil =>
    refine ⟨[], rfl, fun n => ⟨_, _, by rw [List.take_nil, Runs.run_nil],
      by rw [List.take_nil, List.reduceOption_nil, Runs.run_nil], hok, rfl, fun i => ?_⟩⟩
    simp only [Tasks.State.init, hidle i]
    exact .idle
  | append_singleton es e ih =>
    have hwhole := hrun
    rw [Runs.run_concat, Option.bind_eq_some_iff] at hrun
    obtain ⟨s₀, hs₀, hstep⟩ := hrun
    obtain ⟨labels, hlength, hlabels⟩ := ih hs₀
    obtain ⟨s₁, s₁', hs₁, hs₁', hsim⟩ := hlabels es.length
    rw [List.take_length] at hs₁
    rw [← hlength, List.take_length] at hs₁'
    obtain rfl := Option.some.inj (hs₁.symm.trans hs₀)
    obtain ⟨l, s', hl, hsim'⟩ := hsim.step href hstep
    refine ⟨labels ++ [l], by rw [List.length_append, List.length_append, hlength]; rfl,
      fun n => ?_⟩
    rcases Nat.lt_or_ge es.length n with hlt | hle
    · have hall : es.length + 1 ≤ n := hlt
      rw [List.take_of_length_le (by rwa [List.length_append]),
        List.take_of_length_le (by rwa [List.length_append, hlength])]
      refine ⟨s, s', hwhole, ?_, hsim'⟩
      have hlast : [l].reduceOption = l.toList := by cases l <;> rfl
      rw [List.reduceOption_append, hlast, Runs.run_append, hs₁', Option.bind_some, hl]
    · -- an earlier moment, of the run without the last step
      rw [List.take_append_of_le_length hle, List.take_append_of_le_length (hlength ▸ hle)]
      exact hlabels n

end Atomic
