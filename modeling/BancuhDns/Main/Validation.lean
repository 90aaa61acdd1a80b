import BancuhDns.Engine.Update
import BancuhDns.Lib.Retry
import BancuhDns.Main

/-!
# Before the first task

Before it starts anything, `main` loads the configuration, and throws away what it has loaded:
this is to find out whether there is one. It tries again when it fails, with longer and longer
delays, and gives up after the fifth time. What happens after that is the subject of
`BancuhDns.Main.step`; here the two are put together (`BancuhDns.Main.Program`).

So a run of the whole program is a validation and then a run of the program as it is described
there, if the validation has come to its end, and then the last of its loads has succeeded
(`BancuhDns.Main.validated`).
-/

namespace BancuhDns

namespace Main

/-- How often the configuration is loaded, and the delays in between, in seconds. -/
def validation : Retry.Policy ℕ where
  last := 5
  delay := 5
  nextDelay delay := min (delay * 2) 60

/-- **The whole program**: it validates the configuration, has given up doing so, or runs. -/
inductive Program where
  | validating (phase : Retry.Phase LoadConfigError ℕ)
  | running (s : State)

/-- What can happen next in it. A load of the configuration comes with the world as it sees
it. -/
inductive ProgramEvent where
  | validate (e : Retry.Event Env ℕ)
  | main (e : Event)

variable (pf : Platform) (configUrl : FileOrUrl) (args : Args)

/-- One step of the validation. -/
def validate : Retry.Phase LoadConfigError ℕ → Retry.Event Env ℕ →
    Option (Retry.Phase LoadConfigError ℕ) :=
  Retry.step (fun env => Config.load pf env configUrl) validation

/-- **One step of the whole program.** -/
def Program.step : Program → ProgramEvent → Option Program
  | .validating phase, .validate e =>
    match validate pf configUrl phase e with
    | some .succeeded => some (.running (.init args))
    | some phase' => some (.validating phase')
    | none => none
  | .running s, .main e => (Main.step args s e).map .running
  | _, _ => none

/-- A run of the whole program. -/
def Program.Run (es : List ProgramEvent) (s : Program) : Prop :=
  Runs.run (Program.step pf configUrl args)
    (.validating (.trying 1 validation.delay)) es = some s

/-- **What a run says of the program**: it consists of a run of the validation and, when this
has succeeded, a run of the rest. -/
inductive Program.RunOk : List ProgramEvent → Program → Prop
  | validating {vs : List (Retry.Event Env ℕ)} {phase : Retry.Phase LoadConfigError ℕ}
      (h : Retry.Run (fun env => Config.load pf env configUrl) validation vs phase)
      (hphase : phase ≠ .succeeded) : RunOk (vs.map .validate) (.validating phase)
  | running {vs : List (Retry.Event Env ℕ)} {ms : List Event} {s : State}
      (h : Retry.Run (fun env => Config.load pf env configUrl) validation vs .succeeded)
      (hmain : Main.Run args ms s) : RunOk (vs.map .validate ++ ms.map .main) (.running s)

variable {pf configUrl args} {es : List ProgramEvent} {s s' : Program}

/-- The step lemma. -/
theorem Program.RunOk.step (h : Program.RunOk pf configUrl args es s) {e : ProgramEvent}
    (hstep : Program.step pf configUrl args s e = some s') :
    Program.RunOk pf configUrl args (es ++ [e]) s' := by
  cases h with
  | @validating vs phase h hphase =>
    cases e with
    | main e => cases hstep
    | validate e =>
      have hvs : vs.map ProgramEvent.validate ++ [.validate e] =
          (vs ++ [e]).map .validate := by simp
      have hrun : ∀ phase', validate pf configUrl phase e = some phase' →
          Retry.Run (fun env => Config.load pf env configUrl) validation (vs ++ [e]) phase' := by
        intro phase' hphase'
        rw [Retry.Run, Runs.run_concat, h, Option.bind_some]
        exact hphase'
      rw [hvs]
      rw [Program.step] at hstep
      split at hstep
      next hsucceeded =>
        obtain rfl := Option.some.inj hstep
        have hnothing : Program.RunOk pf configUrl args
            ((vs ++ [e]).map .validate ++ ([] : List Event).map .main) (.running (.init args)) :=
          .running (hrun _ hsucceeded) rfl
        rwa [List.map_nil, List.append_nil] at hnothing
      next phase' hne hphase' =>
        obtain rfl := Option.some.inj hstep
        exact .validating (hrun _ hphase') hne
      next => cases hstep
  | @running vs ms s h hmain =>
    cases e with
    | validate e => cases hstep
    | main e =>
      obtain ⟨s', hmain', rfl⟩ := Option.map_eq_some_iff.mp hstep
      have hms : vs.map ProgramEvent.validate ++ ms.map .main ++ [.main e] =
          vs.map .validate ++ (ms ++ [e]).map .main := by simp
      rw [hms]
      refine .running h ?_
      rw [Main.Run, Runs.run_concat, hmain, Option.bind_some]
      exact hmain'

theorem Program.runOk_of_run (hrun : Program.Run pf configUrl args es s) :
    Program.RunOk pf configUrl args es s := by
  have hstart : Program.RunOk pf configUrl args ([].map .validate)
      (.validating (.trying 1 validation.delay)) := .validating rfl (by simp)
  exact Runs.invariant (Program.RunOk pf configUrl args) hstart
    (fun es s e s' _ h hstep => h.step hstep) hrun

/-- What the loads of a validation have come to, when they are `envs` and the phase is this. -/
inductive LoadsOk (pf : Platform) (configUrl : FileOrUrl) (envs : List Env) :
    Retry.Phase LoadConfigError ℕ → Prop
  | trying {n delay : ℕ} (hlt : envs.length < 5) (h : ∀ env ∈ envs, LoadFails pf env configUrl) :
      LoadsOk pf configUrl envs (.trying n delay)
  | sleeping {n delay : ℕ} (hlt : envs.length < 5)
      (h : ∀ env ∈ envs, LoadFails pf env configUrl) :
      LoadsOk pf configUrl envs (.sleeping n delay)
  | succeeded {env : Env} {config : Config} (hlast : env ∈ envs.getLast?)
      (h : Config.load pf env configUrl = .ok config) : LoadsOk pf configUrl envs .succeeded
  | failed {env : Env} {err : LoadConfigError} (hall : envs.length = 5)
      (hlast : env ∈ envs.getLast?) (h : Config.load pf env configUrl = .error err) :
      LoadsOk pf configUrl envs (.failed err)

theorem loadsOk_of_run {vs : List (Retry.Event Env ℕ)}
    {phase : Retry.Phase LoadConfigError ℕ}
    (h : Retry.Run (fun env => Config.load pf env configUrl) validation vs phase) :
    LoadsOk pf configUrl (Retry.attempts vs) phase := by
  have hok := Retry.runOk_of_run (Nat.succ_pos 4) h
  generalize Retry.attempts vs = envs at hok
  generalize Retry.slept vs = delays at hok
  cases hok with
  | trying hall hlt =>
    exact .trying hlt fun env henv => (load_error_iff _ _ _).mp (hall env henv)
  | sleeping hall hlt =>
    refine .sleeping ?_ fun env henv => (load_error_iff _ _ _).mp (hall env henv)
    rw [List.length_append, List.length_singleton]
    exact hlt
  | succeeded hall hlt hw => exact .succeeded (List.getLast?_concat ..) hw
  | failed hall hlast hw =>
    refine .failed ?_ (List.getLast?_concat ..) hw
    rw [List.length_append, List.length_singleton]
    exact hlast

/-- A configuration that is not there at first. -/
def retried : List ProgramEvent :=
  [.validate (.attempt AdblockEngine.missingWorld.config), .validate (.slept 5),
    .validate (.attempt (AdblockEngine.worldWith (fileEnv [])).config), .main .started]

end Main

end BancuhDns
