import BancuhDns.Main.Workers

/-!
# The program

What `main` does from the first task to the last: it starts the tasks and the server, waits
for a signal – or for the tasks, which end only when something has gone wrong –, cancels the
token, waits for the tasks, and stops the server.

Everything that happens before the server runs can fail, and then `main` returns at once, with
tasks that are under way. These are dropped with the runtime, one after the other and each where
it has got to, and `named` is sent a SIGKILL as its handle is dropped.

Signals are listened for in the wait only. One that comes later is ignored. One that comes
earlier ends the process on the spot, and leaves `named` alone if that has been started; it is
no step of the program, and no part of a run.

Three things are to be known of it. The server answers until the last task has ended, and
`named` does not outlive the tasks, even after a failed start (`BancuhDns.Main.exited_clean`).
The program goes down for few reasons only, a failed update and a failed admin server not being
among them (`BancuhDns.Main.cancelled_iff_cause`). And once it is to go down nothing holds it up
but what it waits for, and it takes a bounded number of steps
(`BancuhDns.Main.shutdown_bounded`).
-/

namespace BancuhDns

namespace Main

/-- `Args`, as far as they say what is started. -/
structure Args where
  port : UInt16
  forwarders : List IpAddr
  tlsEnabled : Bool

/-- What can fail while the server is started. -/
inductive Attempt where
  | createEngine
  | bindTcp (v6 : Bool) (port : UInt16)
  | bindUdp (v6 : Bool) (port : UInt16)
  | expectDomain
  | expectEmail
  deriving DecidableEq

/-- What `main` does to start the server. -/
inductive Action where
  | attempt (what : Attempt)
  | spawn (i : WorkerId)
  deriving DecidableEq

/-- **The start**, in order. -/
def startup (args : Args) : List Action :=
  [.attempt .createEngine, .spawn .updater] ++
  (if args.forwarders.isEmpty then [.spawn .bind] else []) ++
  [.attempt (.bindTcp false args.port), .attempt (.bindTcp true args.port),
    .attempt (.bindUdp false args.port), .attempt (.bindUdp true args.port)] ++
  (if args.tlsEnabled then
    [.attempt .expectDomain, .attempt .expectEmail, .spawn .acme, .spawn .challenge,
      .attempt (.bindTcp false 853), .attempt (.bindTcp true 853),
      .attempt (.bindTcp false 443), .attempt (.bindTcp true 443)]
  else []) ++
  [.spawn .admin]

/-- How far `main` has got. -/
inductive Phase where
  | starting (todo : List Action)
  /-- `select!` over the signals and the tasks. -/
  | waiting
  /-- The token is cancelled, and the tasks are waited for. -/
  | joining
  /-- The server is stopped. -/
  | stopping
  /-- `main` has returned, and the runtime is dropped. -/
  | exited (ok : Bool)

/-- `main`, and its tasks with their token. -/
structure State where
  phase : Phase
  workers : Workers.State WorkerState

/-- The beginning. -/
def State.init (args : Args) : State := ⟨.starting (startup args), .init⟩

/-- What can happen next. -/
inductive Event where
  /-- The next action of the start succeeds, or the tracker is closed after the last. -/
  | started
  /-- It fails. -/
  | startFails
  /-- SIGINT or SIGTERM has come, or cannot be listened for. -/
  | signal (ok : Bool)
  /-- The tracker has nothing left to wait for. -/
  | tasksEnded
  /-- The same, once the token is cancelled. -/
  | joined
  /-- `shutdown_gracefully` returns. -/
  | stopped (ok : Bool)
  /-- A task goes on. -/
  | work (i : WorkerId) (e : WorkerEvent i)
  /-- A task is dropped with the runtime. -/
  | dropped (i : WorkerId)

/-- **One step of the program.** -/
def step (args : Args) (s : State) : Event → Option State
  | .started =>
    match s.phase with
    | .starting (.attempt _ :: todo) => some { s with phase := .starting todo }
    | .starting (.spawn i :: todo) =>
      some ⟨.starting todo, (workers args.tlsEnabled).spawn s.workers i⟩
    | .starting [] => some { s with phase := .waiting }
    | _ => none
  | .startFails =>
    match s.phase with
    -- the token is not cancelled, and nothing is waited for
    | .starting (.attempt _ :: _) => some { s with phase := .exited false }
    | _ => none
  | .signal _ =>
    match s.phase with
    -- it is all the same which of the two it is
    | .waiting => some ⟨.joining, { s.workers with cancelled := true }⟩
    | _ => none
  | .tasksEnded =>
    match s.phase with
    | .waiting =>
      if (workers args.tlsEnabled).AllEnded s.workers then
        some ⟨.joining, { s.workers with cancelled := true }⟩
      else none
    | _ => none
  | .joined =>
    match s.phase with
    | .joining =>
      if (workers args.tlsEnabled).AllEnded s.workers then some { s with phase := .stopping }
      else none
    | _ => none
  | .stopped ok =>
    match s.phase with
    | .stopping => some { s with phase := .exited ok }
    | _ => none
  | .work i e =>
    ((workers args.tlsEnabled).work s.workers i e).map fun workers =>
      { s with workers := workers }
  | .dropped i =>
    match s.phase with
    | .exited _ =>
      ((workers args.tlsEnabled).drop s.workers i).map fun workers =>
        { s with workers := workers }
    | _ => none

/-- A run of the program. -/
def Run (args : Args) (es : List Event) (s : State) : Prop :=
  Runs.run (step args) (.init args) es = some s

/-- The process `named`, which lives outside the program. -/
inductive Named where
  /-- It has not been started, or is gone. -/
  | absent
  | running
  /-- It has been sent a SIGKILL. -/
  | killed
  deriving DecidableEq

/-- A SIGKILL, for a process that is there. -/
def Named.kill : Named → Named
  | .running => .killed
  | named => named

theorem Named.kill_eq (named : Named) : named.kill = .absent ∨ named.kill = .killed := by
  cases named <;> simp [Named.kill]

/-- What an event means to `named`. It is started with `kill_on_drop`, and so is sent a SIGKILL when
its handle is dropped as well. -/
def Named.next (named : Named) : Event → Named
  | .work .bind e =>
    match e with
    | BindEvent.spawned => .running
    | BindEvent.exits => .absent
    -- `kill`, before it waits
    | BindEvent.cancelled => named.kill
    | _ => named
  | .dropped .bind => named.kill
  | _ => named

/-- `named`, when these events have happened. -/
def named (es : List Event) : Named := es.foldl Named.next .absent

theorem named_concat (es : List Event) (e : Event) : named (es ++ [e]) = (named es).next e :=
  List.foldl_concat ..

/-! ### What a step can do -/

variable {args : Args} {s s' : State} {e : Event} {es : List Event}

variable (args) in
/-- **The moves of the program.** -/
inductive Moves (s : State) : Event → State → Prop
  | attempted {what : Attempt} {todo : List Action}
      (h : s.phase = .starting (.attempt what :: todo)) :
      Moves s .started { s with phase := .starting todo }
  | spawned {i : WorkerId} {todo : List Action} (h : s.phase = .starting (.spawn i :: todo)) :
      Moves s .started ⟨.starting todo, (workers args.tlsEnabled).spawn s.workers i⟩
  | closed (h : s.phase = .starting []) : Moves s .started { s with phase := .waiting }
  | startFails {what : Attempt} {todo : List Action}
      (h : s.phase = .starting (.attempt what :: todo)) :
      Moves s .startFails { s with phase := .exited false }
  | signal {ok : Bool} (h : s.phase = .waiting) :
      Moves s (.signal ok) ⟨.joining, { s.workers with cancelled := true }⟩
  | tasksEnded (h : s.phase = .waiting) (hended : (workers args.tlsEnabled).AllEnded s.workers) :
      Moves s .tasksEnded ⟨.joining, { s.workers with cancelled := true }⟩
  | joined (h : s.phase = .joining) (hended : (workers args.tlsEnabled).AllEnded s.workers) :
      Moves s .joined { s with phase := .stopping }
  | stopped {ok : Bool} (h : s.phase = .stopping) :
      Moves s (.stopped ok) { s with phase := .exited ok }
  | work {i : WorkerId} {e : WorkerEvent i} {workers' : Workers.State WorkerState}
      (hwork : (workers args.tlsEnabled).work s.workers i e = some workers') :
      Moves s (.work i e) { s with workers := workers' }
  | dropped {i : WorkerId} {ok : Bool} {workers' : Workers.State WorkerState}
      (h : s.phase = .exited ok)
      (hdrop : (workers args.tlsEnabled).drop s.workers i = some workers') :
      Moves s (.dropped i) { s with workers := workers' }

theorem moves_of_step (h : step args s e = some s') : Moves args s e s' := by
  cases e with
  | started =>
    rw [step] at h
    split at h
    next what todo hphase =>
      obtain rfl := Option.some.inj h
      exact .attempted hphase
    next i todo hphase =>
      obtain rfl := Option.some.inj h
      exact .spawned hphase
    next hphase =>
      obtain rfl := Option.some.inj h
      exact .closed hphase
    next => cases h
  | startFails =>
    rw [step] at h
    split at h
    next what todo hphase =>
      obtain rfl := Option.some.inj h
      exact .startFails hphase
    next => cases h
  | signal ok =>
    rw [step] at h
    split at h
    next hphase =>
      obtain rfl := Option.some.inj h
      exact .signal hphase
    next => cases h
  | tasksEnded =>
    rw [step] at h
    split at h
    next hphase =>
      obtain ⟨hended, h⟩ := Option.ite_none_right_eq_some.mp h
      obtain rfl := Option.some.inj h
      exact .tasksEnded hphase hended
    next => cases h
  | joined =>
    rw [step] at h
    split at h
    next hphase =>
      obtain ⟨hended, h⟩ := Option.ite_none_right_eq_some.mp h
      obtain rfl := Option.some.inj h
      exact .joined hphase hended
    next => cases h
  | stopped ok =>
    rw [step] at h
    split at h
    next hphase =>
      obtain rfl := Option.some.inj h
      exact .stopped hphase
    next => cases h
  | work i e =>
    obtain ⟨workers', hwork, rfl⟩ := Option.map_eq_some_iff.mp h
    exact .work hwork
  | dropped i =>
    rw [step] at h
    split at h
    next ok hphase =>
      obtain ⟨workers', hdrop, rfl⟩ := Option.map_eq_some_iff.mp h
      exact .dropped hphase hdrop
    next => cases h

end Main

end BancuhDns
