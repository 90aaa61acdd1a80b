import BancuhDns.Engine
import BancuhDns.Lib.Runs

/-!
# Updates and calls, interleaved

The engine as a concurrent system: any number of `run_update` tasks, each filling
three private stores one write at a time and then swapping the published pointer,
and any number of `is_blocked` and `get_redirect` calls, each loading that pointer
once and then reading the stores behind it – the whitelist and the blacklist in
two separate steps.

The databases live in a heap, and what makes the interleavings harmless is a
property of addresses. An address is *owned* while some task still writes to it,
and *sealed* once it is allocated and owned by nobody. The pointer is sealed, a
loaded pointer stays sealed, and **no step changes what is behind a sealed
address** (`BancuhDns.Publication.step_sealed`). So a call reads, in its several
steps, the one database that was published when it loaded the pointer.

Which database that was is read off the events: `BancuhDns.Publication.publishedDb`
is what the last task to publish compiled. That a task with nothing in between its steps
is `run_update` is `BancuhDns.Publication.run_updateEvents`.
-/

namespace BancuhDns

namespace Publication

variable {σ : Type}

/-! ### The system -/

/-- Three stores with nothing in them. -/
abbrev FreshDB (kv : RocksDB σ) := {db : AdblockDB σ // db.Empty kv}

/-- A call of the engine. -/
inductive Question where
  | isBlocked (name : Text)
  | getRedirect (name : Text)

/-- What a call returns. -/
inductive Answer where
  | blocked (r : Except EngineError Bool)
  | redirect (r : Except EngineError (Option Text))

/-- The answer one database gives. -/
def answerOf (kv : RocksDB σ) (configUrl : FileOrUrl) (db : AdblockDB σ) : Question → Answer
  | .isBlocked name => .blocked ((⟨db, configUrl⟩ : AdblockEngine σ).isBlocked kv name)
  | .getRedirect name => .redirect ((⟨db, configUrl⟩ : AdblockEngine σ).getRedirect kv name)

/-- How far a `run_update` has got. -/
inductive UpdateTask where
  /-- Not started. -/
  | idle
  /-- Its stores are at `addr`, empty. -/
  | created (addr : ℕ)
  /-- The configuration is loaded, and these writes are still to be made. -/
  | writing (addr : ℕ) (todo : List AdblockCompiler.Write)
  /-- Returned an error. -/
  | failed
  /-- Published its stores and returned. -/
  | done

/-- The address a task writes to. -/
def UpdateTask.addr : UpdateTask → Option ℕ
  | .created a => some a
  | .writing a _ => some a
  | _ => none

/-- How far a call has got. -/
inductive Call where
  /-- Not started. -/
  | idle
  /-- The pointer is loaded. -/
  | loaded (q : Question) (addr : ℕ)
  /-- The whitelist does not have the name. -/
  | notWhitelisted (name : Text) (addr : ℕ)
  /-- Returned. -/
  | answered (q : Question) (a : Answer)

/-- The engine and everything that runs on it. -/
structure System (σ : Type) where
  /-- The databases. -/
  heap : ℕ → AdblockDB σ
  /-- The next address. -/
  fresh : ℕ
  /-- The published pointer. -/
  pointer : ℕ
  /-- The updates. -/
  updates : ℕ → UpdateTask
  /-- The calls. -/
  calls : ℕ → Call

/-- The engine just created, with an empty database and nothing running. -/
def System.init (db₀ : AdblockDB σ) : System σ where
  heap _ := db₀
  fresh := 1
  pointer := 0
  updates _ := .idle
  calls _ := .idle

/-- What can happen next. -/
inductive Event (kv : RocksDB σ) where
  /-- Update `u` creates its stores. -/
  | create (u : ℕ) (db : FreshDB kv)
  /-- Update `u` cannot create its stores. -/
  | createFails (u : ℕ)
  /-- Update `u` loads a configuration, with the sources it names. -/
  | loadConfig (u : ℕ) (config : Config) (srcs : Sources)
  /-- Update `u` cannot load the configuration. -/
  | loadFails (u : ℕ)
  /-- Update `u` makes its next write. -/
  | write (u : ℕ)
  /-- Update `u` publishes its stores. -/
  | publish (u : ℕ)
  /-- Call `c` loads the pointer. -/
  | ask (c : ℕ) (q : Question)
  /-- Call `c` reads its next store. -/
  | read (c : ℕ)

variable (kv : RocksDB σ) (cr : Crates) (configUrl : FileOrUrl)

/-- The next read of a call, in the database it has loaded. -/
def Call.read (heap : ℕ → AdblockDB σ) : Call → Option Call
  | .loaded (.isBlocked name) a =>
    match (heap a).whitelist.contains kv name with
    | .error e => some (.answered (.isBlocked name) (.blocked (.error (.db e))))
    | .ok true => some (.answered (.isBlocked name) (.blocked (.ok false)))
    | .ok false => some (.notWhitelisted name a)
  | .loaded (.getRedirect name) a =>
    match (heap a).rewrites.get kv name with
    | .error e => some (.answered (.getRedirect name) (.redirect (.error (.db e))))
    | .ok found => some (.answered (.getRedirect name) (.redirect (.ok found)))
  | .notWhitelisted name a =>
    match (heap a).blacklist.contains kv name with
    | .error e => some (.answered (.isBlocked name) (.blocked (.error (.db e))))
    | .ok b => some (.answered (.isBlocked name) (.blocked (.ok b)))
  | _ => none

/-- **One step of the system.** -/
def step (s : System σ) : Event kv → Option (System σ)
  | .create u db =>
    match s.updates u with
    | .idle => some { s with
        heap := Function.update s.heap s.fresh db.1
        fresh := s.fresh + 1
        updates := Function.update s.updates u (.created s.fresh) }
    | _ => none
  | .createFails u =>
    match s.updates u with
    | .idle => some { s with updates := Function.update s.updates u .failed }
    | _ => none
  | .loadConfig u config srcs =>
    match s.updates u with
    | .created a => some { s with
        updates := Function.update s.updates u
          (.writing a ((AdblockCompiler.fromConfig config).writes cr srcs)) }
    | _ => none
  | .loadFails u =>
    match s.updates u with
    | .created _ => some { s with updates := Function.update s.updates u .failed }
    | _ => none
  | .write u =>
    match s.updates u with
    -- the outcome of the write is dropped
    | .writing a (w :: todo) => some { s with
        heap := Function.update s.heap a (w.apply kv (s.heap a))
        updates := Function.update s.updates u (.writing a todo) }
    | _ => none
  | .publish u =>
    match s.updates u with
    -- with every write made, the swap
    | .writing a [] => some { s with
        pointer := a
        updates := Function.update s.updates u .done }
    | _ => none
  | .ask c q =>
    match s.calls c with
    | .idle => some { s with calls := Function.update s.calls c (.loaded q s.pointer) }
    | _ => none
  | .read c =>
    match (s.calls c).read kv s.heap with
    | some call => some { s with calls := Function.update s.calls c call }
    | none => none

/-! ### What the events say is published -/

variable {kv}

/-- The stores an update created. -/
def createdBy (u : ℕ) (es : List (Event kv)) : Option (AdblockDB σ) :=
  es.findSome? fun
    | .create v db => if v = u then some db.1 else none
    | _ => none

/-- The configuration and the sources an update loaded. -/
def configuredBy (u : ℕ) (es : List (Event kv)) : Option (Config × Sources) :=
  es.findSome? fun
    | .loadConfig v config srcs => if v = u then some (config, srcs) else none
    | _ => none

/-- **What an update compiles**: its configuration and sources, into the empty
stores it created. -/
def builtBy (u : ℕ) (es : List (Event kv)) : Option (AdblockDB σ) :=
  (createdBy u es).bind fun db => (configuredBy u es).map fun c =>
    (AdblockCompiler.fromConfig c.1).compile kv cr c.2 db

/-- The update that published last. -/
def publisher (es : List (Event kv)) : Option ℕ :=
  es.reverse.findSome? fun
    | .publish u => some u
    | _ => none

/-- **The published database**: what the last update to publish compiled, or the
initial one. -/
def publishedDb (db₀ : AdblockDB σ) (es : List (Event kv)) : AdblockDB σ :=
  ((publisher es).bind fun u => builtBy cr u es).getD db₀

/-- The update an event belongs to. -/
def Event.task : Event kv → Option ℕ
  | .create u _ | .createFails u | .loadConfig u _ _ | .loadFails u | .write u | .publish u =>
      some u
  | .ask _ _ | .read _ => none

section Trace

variable {es : List (Event kv)} {e : Event kv} {u : ℕ}

theorem createdBy_concat :
    createdBy u (es ++ [e]) = (createdBy u es).or (createdBy u [e]) := by
  rw [createdBy, List.findSome?_append]
  rfl

theorem configuredBy_concat :
    configuredBy u (es ++ [e]) = (configuredBy u es).or (configuredBy u [e]) := by
  rw [configuredBy, List.findSome?_append]
  rfl

theorem createdBy_of_task (h : e.task ≠ some u) : createdBy u [e] = none := by
  cases e <;> simp_all [createdBy, Event.task]

theorem configuredBy_of_task (h : e.task ≠ some u) : configuredBy u [e] = none := by
  cases e <;> simp_all [configuredBy, Event.task]

/-- What an update has compiled stays what it has compiled. -/
theorem builtBy_concat_of_eq_some {db : AdblockDB σ} (h : builtBy cr u es = some db) :
    builtBy cr u (es ++ [e]) = some db := by
  rw [builtBy, Option.bind_eq_some_iff] at h
  obtain ⟨db', hdb', hc⟩ := h
  obtain ⟨c, hc, hdb⟩ := Option.map_eq_some_iff.mp hc
  rw [builtBy, createdBy_concat, configuredBy_concat, hdb', hc, Option.some_or, Option.some_or,
    ← hdb]
  rfl

theorem builtBy_concat_of_task (h : e.task ≠ some u) :
    builtBy cr u (es ++ [e]) = builtBy cr u es := by
  rw [builtBy, builtBy, createdBy_concat, configuredBy_concat, createdBy_of_task h,
    configuredBy_of_task h, Option.or_none, Option.or_none]

theorem publisher_concat_publish : publisher (es ++ [.publish u]) = some u := by
  rw [publisher, List.reverse_append]
  rfl

theorem publisher_concat (h : ∀ u, e ≠ .publish u) : publisher (es ++ [e]) = publisher es := by
  rw [publisher, List.reverse_append, publisher]
  cases e <;> first | rfl | exact absurd rfl (h _)

theorem publish_mem_of_publisher (h : publisher es = some u) : .publish u ∈ es := by
  obtain ⟨e, he, hu⟩ := List.exists_of_findSome?_eq_some h
  have he := List.mem_reverse.mp he
  cases e <;> simp_all

end Trace

/-! ### What a step can do

One inversion for all the proofs below: a step that is not refused is one of the
moves of its task or of its call. -/

variable (kv) in
/-- **The moves of the system.** -/
inductive Moves (s : System σ) : Event kv → System σ → Prop
  | create {u : ℕ} {db : FreshDB kv} (h : s.updates u = .idle) : Moves s (.create u db)
      { s with
        heap := Function.update s.heap s.fresh db.1
        fresh := s.fresh + 1
        updates := Function.update s.updates u (.created s.fresh) }
  | createFails {u : ℕ} (h : s.updates u = .idle) : Moves s (.createFails u)
      { s with updates := Function.update s.updates u .failed }
  | loadConfig {u a : ℕ} {config : Config} {srcs : Sources} (h : s.updates u = .created a) :
      Moves s (.loadConfig u config srcs)
      { s with
        updates := Function.update s.updates u
          (.writing a ((AdblockCompiler.fromConfig config).writes cr srcs)) }
  | loadFails {u a : ℕ} (h : s.updates u = .created a) : Moves s (.loadFails u)
      { s with updates := Function.update s.updates u .failed }
  | write {u a : ℕ} {w : AdblockCompiler.Write} {todo : List AdblockCompiler.Write}
      (h : s.updates u = .writing a (w :: todo)) : Moves s (.write u)
      { s with
        heap := Function.update s.heap a (w.apply kv (s.heap a))
        updates := Function.update s.updates u (.writing a todo) }
  | publish {u a : ℕ} (h : s.updates u = .writing a []) : Moves s (.publish u)
      { s with pointer := a, updates := Function.update s.updates u .done }
  | ask {c : ℕ} {q : Question} (h : s.calls c = .idle) : Moves s (.ask c q)
      { s with calls := Function.update s.calls c (.loaded q s.pointer) }
  | read {c : ℕ} {call : Call} (h : (s.calls c).read kv s.heap = some call) : Moves s (.read c)
      { s with calls := Function.update s.calls c call }

theorem moves_of_step {s s' : System σ} {e : Event kv} (h : step kv cr s e = some s') :
    Moves kv cr s e s' := by
  cases e with
  | create u db =>
    rw [step] at h
    split at h
    · rename_i hu
      obtain rfl := Option.some.inj h
      exact .create hu
    · cases h
  | createFails u =>
    rw [step] at h
    split at h
    · rename_i hu
      obtain rfl := Option.some.inj h
      exact .createFails hu
    · cases h
  | loadConfig u config srcs =>
    rw [step] at h
    split at h
    · rename_i a hu
      obtain rfl := Option.some.inj h
      exact .loadConfig hu
    · cases h
  | loadFails u =>
    rw [step] at h
    split at h
    · rename_i a hu
      obtain rfl := Option.some.inj h
      exact .loadFails hu
    · cases h
  | write u =>
    rw [step] at h
    split at h
    · rename_i a w todo hu
      obtain rfl := Option.some.inj h
      exact .write hu
    · cases h
  | publish u =>
    rw [step] at h
    split at h
    · rename_i a hu
      obtain rfl := Option.some.inj h
      exact .publish hu
    · cases h
  | ask c q =>
    rw [step] at h
    split at h
    · rename_i hc
      obtain rfl := Option.some.inj h
      exact .ask hc
    · cases h
  | read c =>
    rw [step] at h
    split at h
    · rename_i call hc
      obtain rfl := Option.some.inj h
      exact .read hc
    · cases h

/-! ### Ownership -/

/-- A task still writes to the address. -/
def Owns (s : System σ) (u a : ℕ) : Prop := (s.updates u).addr = some a

/-- The address is allocated, and no task writes to it any more. -/
def Sealed (s : System σ) (a : ℕ) : Prop := a < s.fresh ∧ ∀ u, ¬Owns s u a

variable {cr}
variable {s s' : System σ} {e : Event kv}

/-- When one task moves on, an address is owned by it in its new place, or by another
as before. -/
theorem addr_update {updates : ℕ → UpdateTask} {u v a : ℕ} {t : UpdateTask}
    (h : (Function.update updates v t u).addr = some a) :
    (u = v ∧ t.addr = some a) ∨ (updates u).addr = some a := by
  rcases eq_or_ne u v with rfl | hne
  · rw [Function.update_self] at h
    exact Or.inl ⟨rfl, h⟩
  · rw [Function.update_of_ne hne] at h
    exact Or.inr h

/-- A step gives a task no address but a fresh one. -/
theorem Moves.owns (h : Moves kv cr s e s') {u a : ℕ} (ho : Owns s' u a) :
    Owns s u a ∨ (a = s.fresh ∧ s'.fresh = s.fresh + 1 ∧ ∃ db, e = .create u db) := by
  cases h with
  | @create v db hv =>
    rcases addr_update ho with ⟨rfl, ha⟩ | ho
    · exact Or.inr ⟨(Option.some.inj ha).symm, rfl, db, rfl⟩
    · exact Or.inl ho
  | loadConfig hv =>
    rcases addr_update ho with ⟨rfl, ha⟩ | ho
    · exact Or.inl (by rwa [Owns, hv])
    · exact Or.inl ho
  | write hv =>
    rcases addr_update ho with ⟨rfl, ha⟩ | ho
    · exact Or.inl (by rwa [Owns, hv])
    · exact Or.inl ho
  | createFails hv => exact Or.inl ((addr_update ho).resolve_left fun h => (nomatch h.2))
  | loadFails hv => exact Or.inl ((addr_update ho).resolve_left fun h => (nomatch h.2))
  | publish hv => exact Or.inl ((addr_update ho).resolve_left fun h => (nomatch h.2))
  | ask hc => exact Or.inl ho
  | read hc => exact Or.inl ho

theorem Moves.fresh_le (h : Moves kv cr s e s') : s.fresh ≤ s'.fresh := by
  cases h <;> simp

/-- **No step changes what is behind a sealed address**, and it stays sealed. -/
theorem Moves.of_sealed (h : Moves kv cr s e s') {a : ℕ} (ha : Sealed s a) :
    Sealed s' a ∧ s'.heap a = s.heap a := by
  refine ⟨⟨ha.1.trans_le h.fresh_le, fun u ho => ?_⟩, ?_⟩
  · rcases h.owns ho with ho | ⟨rfl, -, -⟩
    · exact ha.2 u ho
    · exact lt_irrefl _ ha.1
  · cases h with
    | create hu => exact Function.update_of_ne ha.1.ne _ _
    | @write u b w todo hu =>
      have hne : a ≠ b := by
        rintro rfl
        exact ha.2 u (by rw [Owns, hu, UpdateTask.addr])
      exact Function.update_of_ne hne _ _
    | _ => rfl

/-- Two tasks that own no address in common still own none. -/
theorem Moves.owns_inj (h : Moves kv cr s e s') (hlt : ∀ u a, Owns s u a → a < s.fresh)
    (hinj : ∀ u v a, Owns s u a → Owns s v a → u = v) {u v a : ℕ} (hu : Owns s' u a)
    (hv : Owns s' v a) : u = v := by
  rcases h.owns hu with hu | ⟨rfl, -, db, rfl⟩ <;> rcases h.owns hv with hv | ⟨ha, -, db', he⟩
  · exact hinj u v a hu hv
  · exact absurd (hlt u a hu) (by omega)
  · exact absurd (hlt v _ hv) (lt_irrefl _)
  · cases he
    rfl

theorem Moves.owns_lt (h : Moves kv cr s e s') (hlt : ∀ u a, Owns s u a → a < s.fresh)
    {u a : ℕ} (ho : Owns s' u a) : a < s'.fresh := by
  rcases h.owns ho with ho | ⟨rfl, hf, -⟩
  · exact (hlt u a ho).trans_le h.fresh_le
  · omega

/-- A step of one task leaves another where it is, and what it writes to alone. -/
theorem Moves.of_task_ne (h : Moves kv cr s e s') (hlt : ∀ u a, Owns s u a → a < s.fresh)
    (hinj : ∀ u v a, Owns s u a → Owns s v a → u = v) {v : ℕ} (hv : e.task ≠ some v) :
    s'.updates v = s.updates v ∧ ∀ a, Owns s v a → s'.heap a = s.heap a := by
  cases h with
  | @create u db hu =>
    have hne : v ≠ u := fun heq => hv (congrArg some heq.symm)
    exact ⟨Function.update_of_ne hne _ _,
      fun a ho => Function.update_of_ne (hlt v a ho).ne _ _⟩
  | @write u b w todo hu =>
    have hne : v ≠ u := fun heq => hv (congrArg some heq.symm)
    refine ⟨Function.update_of_ne hne _ _, fun a ho => Function.update_of_ne ?_ _ _⟩
    rintro rfl
    exact hne (hinj v u a ho (by rw [Owns, hu, UpdateTask.addr]))
  | ask hc => exact ⟨rfl, fun _ _ => rfl⟩
  | read hc => exact ⟨rfl, fun _ _ => rfl⟩
  | @createFails u hu =>
    exact ⟨Function.update_of_ne (fun heq => hv (congrArg some heq.symm)) _ _, fun _ _ => rfl⟩
  | @loadConfig u b config srcs hu =>
    exact ⟨Function.update_of_ne (fun heq => hv (congrArg some heq.symm)) _ _, fun _ _ => rfl⟩
  | @loadFails u b hu =>
    exact ⟨Function.update_of_ne (fun heq => hv (congrArg some heq.symm)) _ _, fun _ _ => rfl⟩
  | @publish u b hu =>
    exact ⟨Function.update_of_ne (fun heq => hv (congrArg some heq.symm)) _ _, fun _ _ => rfl⟩

/-! ### The invariant -/

variable (cr) in
/-- What the events say of a task that has got this far, its stores being as the
heap has them. -/
def Progress (es : List (Event kv)) (heap : ℕ → AdblockDB σ) (u : ℕ) : UpdateTask → Prop
  | .idle => createdBy u es = none ∧ configuredBy u es = none ∧ .publish u ∉ es
  | .created a =>
      createdBy u es = some (heap a) ∧ configuredBy u es = none ∧ .publish u ∉ es
  | .writing a todo =>
      builtBy cr u es = some (todo.foldl (AdblockCompiler.Write.apply kv) (heap a)) ∧
        .publish u ∉ es
  | .failed => .publish u ∉ es
  | .done => (builtBy cr u es).isSome

variable (cr) (configUrl : FileOrUrl) (db₀ : AdblockDB σ)

/-- The call asked once, and the address it loaded has what was published then. -/
def LoadedFrom (es : List (Event kv)) (s : System σ) (c : ℕ) (q : Question) (a : ℕ) : Prop :=
  Sealed s a ∧ ∃ es₁ es₂, es = es₁ ++ .ask c q :: es₂ ∧
    (∀ q', .ask c q' ∉ es₁ ∧ .ask c q' ∉ es₂) ∧ s.heap a = publishedDb cr db₀ es₁

/-- **The call asked once, and its answer is that of the database published
then.** -/
def AnsweredFrom (es : List (Event kv)) (c : ℕ) (q : Question) (ans : Answer) : Prop :=
  ∃ es₁ es₂, es = es₁ ++ .ask c q :: es₂ ∧
    (∀ q', .ask c q' ∉ es₁ ∧ .ask c q' ∉ es₂) ∧
    ans = answerOf kv configUrl (publishedDb cr db₀ es₁) q

/-- What the events say of a call that has got this far. -/
def CallOk (es : List (Event kv)) (s : System σ) (c : ℕ) : Call → Prop
  | .idle => ∀ q, .ask c q ∉ es
  | .loaded q a => LoadedFrom cr db₀ es s c q a
  | .notWhitelisted name a => LoadedFrom cr db₀ es s c (.isBlocked name) a ∧
      (s.heap a).whitelist.contains kv name = .ok false
  | .answered q ans => AnsweredFrom cr configUrl db₀ es c q ans

/-- **The invariant of the system.** -/
structure Inv (es : List (Event kv)) (s : System σ) : Prop where
  /-- The published database is written to by nobody. -/
  pointer_sealed : Sealed s s.pointer
  /-- The published database is what the last update to publish compiled. -/
  pointer_eq : s.heap s.pointer = publishedDb cr db₀ es
  /-- The stores being written are allocated. -/
  owns_lt : ∀ u a, Owns s u a → a < s.fresh
  /-- No two tasks write to the same stores. -/
  owns_inj : ∀ u v a, Owns s u a → Owns s v a → u = v
  /-- Every task is where the events have it. -/
  progress : ∀ u, Progress cr es s.heap u (s.updates u)
  /-- Every call is where the events have it. -/
  call : ∀ c, CallOk cr configUrl db₀ es s c (s.calls c)

variable {cr} {configUrl} {db₀}
variable {es : List (Event kv)}

theorem Progress.of_task_ne {heap heap' : ℕ → AdblockDB σ} {u : ℕ} {t : UpdateTask}
    (h : Progress cr es heap u t) (he : e.task ≠ some u)
    (hheap : ∀ a, t.addr = some a → heap' a = heap a) : Progress cr (es ++ [e]) heap' u t := by
  have hpub : .publish u ∉ es → .publish u ∉ es ++ [e] := by
    intro hes hmem
    rcases List.mem_append.mp hmem with hmem | hmem
    · exact hes hmem
    · exact he (by rw [← List.mem_singleton.mp hmem]; rfl)
  cases t with
  | idle =>
    obtain ⟨hc, hf, hp⟩ := h
    refine ⟨?_, ?_, hpub hp⟩
    · rw [createdBy_concat, hc, createdBy_of_task he, Option.or_none]
    · rw [configuredBy_concat, hf, configuredBy_of_task he, Option.or_none]
  | created a =>
    obtain ⟨hc, hf, hp⟩ := h
    refine ⟨?_, ?_, hpub hp⟩
    · rw [createdBy_concat, hc, Option.some_or, hheap a rfl]
    · rw [configuredBy_concat, hf, configuredBy_of_task he, Option.or_none]
  | writing a todo =>
    obtain ⟨hb, hp⟩ := h
    refine ⟨?_, hpub hp⟩
    rw [builtBy_concat_of_task cr he, hb, hheap a rfl]
  | failed => exact hpub h
  | done => exact (congrArg Option.isSome (builtBy_concat_of_task cr he)).trans h

/-- A task that has published is done. -/
theorem Inv.updates_of_publish (h : Inv cr configUrl db₀ es s) {u : ℕ} (hu : .publish u ∈ es) :
    s.updates u = .done := by
  have hp := h.progress u
  cases ht : s.updates u with
  | done => rfl
  | _ =>
    rw [ht] at hp
    first
    | exact absurd hu hp
    | exact absurd hu hp.2
    | exact absurd hu hp.2.2

/-- **Only a publication changes what is published.** -/
theorem Inv.publishedDb_concat (h : Inv cr configUrl db₀ es s) (he : ∀ u, e ≠ .publish u) :
    publishedDb cr db₀ (es ++ [e]) = publishedDb cr db₀ es := by
  rw [publishedDb, publisher_concat he, publishedDb]
  cases hu : publisher es with
  | none => rfl
  | some u =>
    have hdone := h.progress u
    rw [h.updates_of_publish (publish_mem_of_publisher hu)] at hdone
    obtain ⟨db, hdb⟩ := Option.isSome_iff_exists.mp hdone
    rw [Option.bind_some, Option.bind_some, builtBy_concat_of_eq_some cr hdb, hdb]

/-- The step lemma for the tasks. -/
theorem Inv.progress_step (h : Inv cr configUrl db₀ es s) (hm : Moves kv cr s e s') (u : ℕ) :
    Progress cr (es ++ [e]) s'.heap u (s'.updates u) := by
  by_cases he : e.task = some u
  · -- the event is the task's own, and moves it to its next place
    have hp := h.progress u
    cases hm with
    | @create v db hv =>
      obtain rfl : v = u := Option.some.inj he
      rw [hv] at hp
      obtain ⟨hc, hf, hpub⟩ := hp
      simp only [Function.update_self]
      refine ⟨?_, ?_, by simpa using hpub⟩
      · rw [createdBy_concat, hc, Option.none_or, Function.update_self]
        simp [createdBy]
      · rw [configuredBy_concat, hf]
        rfl
    | @createFails v hv =>
      obtain rfl : v = u := Option.some.inj he
      rw [hv] at hp
      simp only [Function.update_self]
      exact fun hmem => hp.2.2 (by simpa using hmem)
    | @loadConfig v a config srcs hv =>
      obtain rfl : v = u := Option.some.inj he
      rw [hv] at hp
      obtain ⟨hc, hf, hpub⟩ := hp
      simp only [Function.update_self]
      refine ⟨?_, by simpa using hpub⟩
      have hthis : configuredBy v [(.loadConfig v config srcs : Event kv)] =
          some (config, srcs) := by simp [configuredBy]
      rw [builtBy, createdBy_concat, configuredBy_concat, hc, hf, Option.some_or, Option.none_or,
        hthis, Option.bind_some, Option.map_some, AdblockCompiler.compile_eq_foldl]
    | @loadFails v a hv =>
      obtain rfl : v = u := Option.some.inj he
      rw [hv] at hp
      simp only [Function.update_self]
      exact fun hmem => hp.2.2 (by simpa using hmem)
    | @write v a w todo hv =>
      obtain rfl : v = u := Option.some.inj he
      rw [hv] at hp
      obtain ⟨hb, hpub⟩ := hp
      simp only [Function.update_self]
      refine ⟨?_, by simpa using hpub⟩
      rw [builtBy_concat_of_eq_some cr hb, Function.update_self, List.foldl_cons]
    | @publish v a hv =>
      obtain rfl : v = u := Option.some.inj he
      rw [hv] at hp
      simp only [Function.update_self]
      exact Option.isSome_iff_exists.mpr ⟨_, builtBy_concat_of_eq_some cr hp.1⟩
    | ask hc => cases he
    | read hc => cases he
  · -- any other event leaves the task, and the stores it owns, alone
    obtain ⟨hsame, hheap⟩ := hm.of_task_ne h.owns_lt h.owns_inj he
    rw [hsame]
    exact (h.progress u).of_task_ne he hheap

/-- The step lemma for the pointer. -/
theorem Inv.pointer_step (h : Inv cr configUrl db₀ es s) (hm : Moves kv cr s e s') :
    Sealed s' s'.pointer ∧ s'.heap s'.pointer = publishedDb cr db₀ (es ++ [e]) := by
  by_cases he : ∃ u, e = .publish u
  · obtain ⟨u, rfl⟩ := he
    have hprog := h.progress u
    cases hm with
    | @publish u a hu =>
      rw [hu] at hprog
      have ho : Owns s u a := by rw [Owns, hu, UpdateTask.addr]
      -- the task gives up what it owned, and nobody else owned it
      refine ⟨⟨h.owns_lt u a ho, fun v hv => ?_⟩, ?_⟩
      · rcases eq_or_ne v u with rfl | hne
        · simp [Owns, UpdateTask.addr] at hv
        · have hv' : Owns s v a := by simpa [Owns, Function.update_of_ne hne] using hv
          exact hne (h.owns_inj v u a hv' ho)
      · rw [publishedDb, publisher_concat_publish, Option.bind_some,
          builtBy_concat_of_eq_some cr hprog.1]
        rfl
  · have hne : ∀ u, e ≠ .publish u := fun u heq => he ⟨u, heq⟩
    have hsame : s'.pointer = s.pointer := by
      cases hm with
      | @publish u => exact absurd rfl (hne u)
      | _ => rfl
    obtain ⟨hseal, hheap⟩ := hm.of_sealed h.pointer_sealed
    rw [hsame, hheap, h.publishedDb_concat hne]
    exact ⟨hseal, h.pointer_eq⟩

theorem LoadedFrom.step {c : ℕ} {q : Question} {a : ℕ} (h : LoadedFrom cr db₀ es s c q a)
    (hm : Moves kv cr s e s') (he : ∀ q', e ≠ .ask c q') :
    LoadedFrom cr db₀ (es ++ [e]) s' c q a := by
  obtain ⟨hseal, es₁, es₂, rfl, hask, hheap⟩ := h
  obtain ⟨hseal', hheap'⟩ := hm.of_sealed hseal
  refine ⟨hseal', es₁, es₂ ++ [e], by simp, fun q' => ⟨(hask q').1, ?_⟩, hheap'.trans hheap⟩
  intro hmem
  rcases List.mem_append.mp hmem with hmem | hmem
  · exact (hask q').2 hmem
  · exact he q' (List.mem_singleton.mp hmem).symm

theorem AnsweredFrom.step {c : ℕ} {q : Question} {ans : Answer}
    (h : AnsweredFrom cr configUrl db₀ es c q ans) (he : ∀ q', e ≠ .ask c q') :
    AnsweredFrom cr configUrl db₀ (es ++ [e]) c q ans := by
  obtain ⟨es₁, es₂, rfl, hask, hans⟩ := h
  refine ⟨es₁, es₂ ++ [e], by simp, fun q' => ⟨(hask q').1, ?_⟩, hans⟩
  intro hmem
  rcases List.mem_append.mp hmem with hmem | hmem
  · exact (hask q').2 hmem
  · exact he q' (List.mem_singleton.mp hmem).symm

/-- A call that an event does not start is where it was. -/
theorem CallOk.step {c : ℕ} {call : Call} (h : CallOk cr configUrl db₀ es s c call)
    (hm : Moves kv cr s e s') (he : ∀ q', e ≠ .ask c q') :
    CallOk cr configUrl db₀ (es ++ [e]) s' c call := by
  cases call with
  | idle =>
    intro q hmem
    rcases List.mem_append.mp hmem with hmem | hmem
    · exact h q hmem
    · exact he q (List.mem_singleton.mp hmem).symm
  | loaded q a => exact LoadedFrom.step h hm he
  | notWhitelisted name a =>
    obtain ⟨hl, hw⟩ := h
    refine ⟨LoadedFrom.step hl hm he, ?_⟩
    rw [(hm.of_sealed hl.1).2]
    exact hw
  | answered q ans => exact AnsweredFrom.step h he

variable (configUrl) in
/-- What a call has loaded answers as the database published then does. -/
theorem LoadedFrom.answered {c : ℕ} {q : Question} {a : ℕ} (h : LoadedFrom cr db₀ es s c q a) :
    AnsweredFrom cr configUrl db₀ es c q (answerOf kv configUrl (s.heap a) q) := by
  obtain ⟨-, es₁, es₂, hes, hask, hheap⟩ := h
  exact ⟨es₁, es₂, hes, hask, by rw [hheap]⟩

/-- **The reads of a call**: what they come to is the answer of the database
loaded. -/
theorem CallOk.read {c : ℕ} {call call' : Call} (h : CallOk cr configUrl db₀ es s c call)
    (hread : call.read kv s.heap = some call') : CallOk cr configUrl db₀ es s c call' := by
  cases call with
  | idle => cases hread
  | answered q ans => cases hread
  | loaded q a =>
    have hans := LoadedFrom.answered configUrl h
    cases q with
    | isBlocked name =>
      rw [answerOf, AdblockEngine.isBlocked] at hans
      rw [Call.read] at hread
      cases hw : (s.heap a).whitelist.contains kv name with
      | error err =>
        rw [hw] at hread hans
        obtain rfl := Option.some.inj hread
        exact hans
      | ok b =>
        rw [hw] at hread hans
        cases b with
        | true =>
          obtain rfl := Option.some.inj hread
          exact hans
        | false =>
          obtain rfl := Option.some.inj hread
          exact ⟨h, hw⟩
    | getRedirect name =>
      rw [answerOf, AdblockEngine.getRedirect] at hans
      rw [Call.read] at hread
      cases hg : (s.heap a).rewrites.get kv name with
      | error err =>
        rw [hg] at hread hans
        obtain rfl := Option.some.inj hread
        exact hans
      | ok found =>
        rw [hg] at hread hans
        obtain rfl := Option.some.inj hread
        exact hans
  | notWhitelisted name a =>
    obtain ⟨hl, hw⟩ := h
    have hans := LoadedFrom.answered configUrl hl
    rw [answerOf, AdblockEngine.isBlocked] at hans
    simp only [hw] at hans
    rw [Call.read] at hread
    cases hb : (s.heap a).blacklist.contains kv name with
    | error err =>
      rw [hb] at hread hans
      obtain rfl := Option.some.inj hread
      exact hans
    | ok b =>
      rw [hb] at hread hans
      obtain rfl := Option.some.inj hread
      cases b with
      | true => exact hans
      | false => exact hans

/-- The step lemma for the calls. -/
theorem Inv.call_step (h : Inv cr configUrl db₀ es s) (hm : Moves kv cr s e s') (c : ℕ) :
    CallOk cr configUrl db₀ (es ++ [e]) s' c (s'.calls c) := by
  have hc := h.call c
  cases hm with
  | @ask c' q hc' =>
    rcases eq_or_ne c c' with rfl | hne
    · -- the pointer loaded is sealed, and stays so for as long as the call reads
      rw [hc'] at hc
      simp only [Function.update_self]
      exact ⟨h.pointer_sealed, es, [], rfl, fun q' => ⟨hc q', by simp⟩, h.pointer_eq⟩
    · simp only [Function.update_of_ne hne]
      refine hc.step (.ask hc') fun q' heq => hne ?_
      cases heq
      rfl
  | @read c' call hc' =>
    rcases eq_or_ne c c' with rfl | hne
    · simp only [Function.update_self]
      exact (hc.read hc').step (.read hc') fun q' heq => by cases heq
    · simp only [Function.update_of_ne hne]
      exact hc.step (.read hc') fun q' heq => by cases heq
  | create hu => exact hc.step (.create hu) fun q' heq => by cases heq
  | createFails hu => exact hc.step (.createFails hu) fun q' heq => by cases heq
  | loadConfig hu => exact hc.step (.loadConfig hu) fun q' heq => by cases heq
  | loadFails hu => exact hc.step (.loadFails hu) fun q' heq => by cases heq
  | write hu => exact hc.step (.write hu) fun q' heq => by cases heq
  | publish hu => exact hc.step (.publish hu) fun q' heq => by cases heq

theorem inv_init : Inv cr configUrl db₀ ([] : List (Event kv)) (.init db₀) where
  pointer_sealed := ⟨Nat.zero_lt_one, fun u ho => by cases ho⟩
  pointer_eq := rfl
  owns_lt u a ho := by cases ho
  owns_inj u v a ho := by cases ho
  progress u := ⟨rfl, rfl, by simp⟩
  call c q := by simp

/-- **The step lemma**: every move keeps the invariant. -/
theorem Inv.step (h : Inv cr configUrl db₀ es s) (hm : Moves kv cr s e s') :
    Inv cr configUrl db₀ (es ++ [e]) s' where
  pointer_sealed := (h.pointer_step hm).1
  pointer_eq := (h.pointer_step hm).2
  owns_lt _ _ ho := hm.owns_lt h.owns_lt ho
  owns_inj _ _ _ hu hv := hm.owns_inj h.owns_lt h.owns_inj hu hv
  progress := h.progress_step hm
  call := h.call_step hm

/-- The run lemma. -/
theorem inv_of_run (hrun : Runs.run (step kv cr) (.init db₀) es = some s) :
    Inv cr configUrl db₀ es s :=
  Runs.invariant (Inv cr configUrl db₀) inv_init
    (fun _ _ _ _ _ h hs => h.step (moves_of_step cr hs)) hrun

/-! ### What a call is answered -/

theorem create_mem_of_createdBy {u : ℕ} {db : AdblockDB σ} (h : createdBy u es = some db) :
    ∃ new : FreshDB kv, .create u new ∈ es ∧ new.1 = db := by
  obtain ⟨e, he, hdb⟩ := List.exists_of_findSome?_eq_some h
  cases e with
  | create v new =>
    simp only [Option.ite_none_right_eq_some, Option.some.injEq] at hdb
    obtain ⟨rfl, rfl⟩ := hdb
    exact ⟨new, he, rfl⟩
  | _ => cases hdb

theorem loadConfig_mem_of_configuredBy {u : ℕ} {c : Config × Sources}
    (h : configuredBy u es = some c) : .loadConfig u c.1 c.2 ∈ es := by
  obtain ⟨e, he, hc⟩ := List.exists_of_findSome?_eq_some h
  cases e with
  | loadConfig v config srcs =>
    simp only [Option.ite_none_right_eq_some, Option.some.injEq] at hc
    obtain ⟨rfl, rfl⟩ := hc
    exact he
  | _ => cases hc

variable (cr) (db₀) in
/-- **The database published after some events**: the initial one when no update
has published, and otherwise the complete result of compiling the configuration
and the sources of the update that published last, into the empty stores that
update created. -/
def Published (es : List (Event kv)) (db : AdblockDB σ) : Prop :=
  (publisher es = none ∧ db = db₀) ∨
    ∃ u config srcs, ∃ new : FreshDB kv, publisher es = some u ∧ .create u new ∈ es ∧
      .loadConfig u config srcs ∈ es ∧
      db = (AdblockCompiler.fromConfig config).compile kv cr srcs new.1

theorem Inv.published (h : Inv cr configUrl db₀ es s) :
    Published cr db₀ es (publishedDb cr db₀ es) := by
  rw [publishedDb]
  cases hu : publisher es with
  | none => exact Or.inl ⟨hu, rfl⟩
  | some u =>
    have hdone := h.progress u
    rw [h.updates_of_publish (publish_mem_of_publisher hu)] at hdone
    obtain ⟨db, hdb⟩ := Option.isSome_iff_exists.mp hdone
    have hbuilt := hdb
    rw [builtBy, Option.bind_eq_some_iff] at hbuilt
    obtain ⟨db', hdb', hc⟩ := hbuilt
    obtain ⟨c, hconf, hcompile⟩ := Option.map_eq_some_iff.mp hc
    obtain ⟨new, hnew, rfl⟩ := create_mem_of_createdBy hdb'
    refine Or.inr ⟨u, c.1, c.2, new, hu, hnew, loadConfig_mem_of_configuredBy hconf, ?_⟩
    rw [Option.bind_some, hdb, Option.getD_some, hcompile]

/-- A publication is the last one until another follows it. -/
theorem publisher_append_publish (u : ℕ) (es₁ es₂ : List (Event kv)) :
    publisher (es₁ ++ .publish u :: es₂) = some u ∨
      ∃ v, publisher (es₁ ++ .publish u :: es₂) = some v ∧ .publish v ∈ es₂ := by
  rw [publisher, List.reverse_append, List.reverse_cons, List.append_assoc, List.findSome?_append]
  cases hp : publisher es₂ with
  | none =>
    rw [publisher] at hp
    rw [hp]
    exact Or.inl rfl
  | some v =>
    have hv := publish_mem_of_publisher hp
    rw [publisher] at hp
    rw [hp]
    exact Or.inr ⟨v, rfl, hv⟩

variable (kv cr configUrl) in
/-- **Single calls see whole databases only.** In every run, a call that has
returned asked once, and its answer is that of the one database published when it
asked; an update that has failed is never the one that published last; and an
update that has published stays the last until another one publishes. -/
theorem answers_from_published (db₀ : FreshDB kv) {es : List (Event kv)} {s : System σ}
    (hrun : Runs.run (step kv cr) (.init db₀.1) es = some s) :
    (∀ c q ans, s.calls c = .answered q ans →
      ∃ es₁ es₂ db, es = es₁ ++ .ask c q :: es₂ ∧
        (∀ q', .ask c q' ∉ es₁ ∧ .ask c q' ∉ es₂) ∧ Published cr db₀.1 es₁ db ∧
        ans = answerOf kv configUrl db q) ∧
    (∀ u, s.updates u = .failed → ∀ es₁ es₂, es = es₁ ++ es₂ → publisher es₁ ≠ some u) ∧
    ∀ u es₁ es₂, es = es₁ ++ .publish u :: es₂ →
      publisher es = some u ∨ ∃ v, publisher es = some v ∧ .publish v ∈ es₂ := by
  have hinv : Inv cr configUrl db₀.1 es s := inv_of_run hrun
  refine ⟨fun c q ans hc => ?_, fun u hu es₁ es₂ hes hpub => ?_, fun u es₁ es₂ hes => ?_⟩
  · have hcall := hinv.call c
    rw [hc] at hcall
    obtain ⟨es₁, es₂, rfl, hask, hans⟩ := hcall
    -- the prefix up to the call is a run of its own, with its own invariant
    rw [Runs.run_append, Option.bind_eq_some_iff] at hrun
    obtain ⟨s₁, hs₁, -⟩ := hrun
    have hprefix : Inv cr configUrl db₀.1 es₁ s₁ := inv_of_run hs₁
    exact ⟨es₁, es₂, _, rfl, hask, hprefix.published, hans⟩
  · -- a task that has published is done, and has not failed
    have hmem : .publish u ∈ es := by
      rw [hes]
      exact List.mem_append_left _ (publish_mem_of_publisher hpub)
    rw [hinv.updates_of_publish hmem] at hu
    cases hu
  · rw [hes]
    exact publisher_append_publish u es₁ es₂

/-! ### An update on its own

The steps of one update, with nothing in between, are `run_update`. -/

/-- The events of an update that nothing stops. -/
def updateEvents (kv : RocksDB σ) (cr : Crates) (u : ℕ) (db : FreshDB kv) (config : Config)
    (srcs : Sources) : List (Event kv) :=
  [.create u db, .loadConfig u config srcs] ++
    List.replicate ((AdblockCompiler.fromConfig config).writes cr srcs).length (.write u) ++
      [.publish u]

/-- The writes of an update, one after the other. -/
theorem run_writes {u a : ℕ} {todo : List AdblockCompiler.Write} {s : System σ}
    (h : s.updates u = .writing a todo) :
    ∃ s', Runs.run (step kv cr) s (List.replicate todo.length (.write u)) = some s' ∧
      s'.updates u = .writing a [] ∧
      s'.heap a = todo.foldl (AdblockCompiler.Write.apply kv) (s.heap a) := by
  induction todo generalizing s with
  | nil => exact ⟨s, rfl, h, rfl⟩
  | cons w todo ih =>
    let s₁ : System σ := { s with
      heap := Function.update s.heap a (w.apply kv (s.heap a))
      updates := Function.update s.updates u (.writing a todo) }
    have hstep : step kv cr s (.write u) = some s₁ := by
      rw [step, h]
    have hheap₁ : s₁.heap a = w.apply kv (s.heap a) := Function.update_self ..
    obtain ⟨s', hrun, hupdate, hheap⟩ := ih (s := s₁) (Function.update_self ..)
    refine ⟨s', ?_, hupdate, by rw [hheap, hheap₁, List.foldl_cons]⟩
    rw [List.length_cons, List.replicate_succ, Runs.run_cons, hstep]
    exact hrun

/-- **An update on its own publishes what `run_update` leaves.** -/
theorem run_updateEvents (pf : Platform) (w : World σ) (self : AdblockEngine σ) {new : FreshDB kv}
    (hcreate : AdblockDB.create w.opened = .ok new.1) {config : Config}
    (hload : Config.load pf w.config self.configUrl = .ok config) {u : ℕ} {s : System σ}
    (hidle : s.updates u = .idle) :
    ∃ s', Runs.run (step kv cr) s (updateEvents kv cr u new config w.sources) = some s' ∧
      s'.heap s'.pointer = (self.runUpdate kv cr pf w).2.db := by
  have hresult : (self.runUpdate kv cr pf w).2.db =
      (AdblockCompiler.fromConfig config).compile kv cr w.sources new.1 := by
    rw [AdblockEngine.runUpdate, hcreate]
    simp only [loadDefinition, hload]
    rfl
  set todo := (AdblockCompiler.fromConfig config).writes cr w.sources with htodo
  let s₁ : System σ := { s with
    heap := Function.update s.heap s.fresh new.1
    fresh := s.fresh + 1
    updates := Function.update (Function.update s.updates u (.created s.fresh)) u
      (.writing s.fresh todo) }
  have hstart : Runs.run (step kv cr) s [.create u new, .loadConfig u config w.sources] =
      some s₁ := by
    simp only [Runs.run_cons, step, hidle, Option.bind_some, Function.update_self, Runs.run_nil]
    rfl
  have hheap₁ : s₁.heap s.fresh = new.1 := Function.update_self ..
  obtain ⟨s₂, hwrites, hupdate, hheap⟩ : ∃ s₂,
      Runs.run (step kv cr) s₁ (List.replicate todo.length (.write u)) = some s₂ ∧
        s₂.updates u = .writing s.fresh [] ∧
        s₂.heap s.fresh = todo.foldl (AdblockCompiler.Write.apply kv) (s₁.heap s.fresh) :=
    run_writes (Function.update_self ..)
  refine ⟨{ s₂ with pointer := s.fresh, updates := Function.update s₂.updates u .done }, ?_, ?_⟩
  · rw [updateEvents, Runs.run_append, Runs.run_append, hstart, Option.bind_some, ← htodo,
      hwrites, Option.bind_some, Runs.run_cons, step, hupdate]
    rfl
  · rw [hresult, AdblockCompiler.compile_eq_foldl, ← htodo, ← hheap₁]
    exact hheap

/-- A call about a listed name loads the pointer before an update publishes its list, another one
after that, and both read the stores at the end. A second update has failed meanwhile. -/
def overlappingRun : List (Event (KeyValue.assoc Text Text RocksError)) :=
  [.create 0 ⟨.assoc, AdblockDB.assoc_empty⟩,
    .loadConfig 0 ⟨[⟨.domains, .file ⟨[]⟩⟩], [], []⟩
      ⟨fun _ => fileEnv "aa.com".toList, fun _ => fileEnv [], fun _ => fileEnv []⟩,
    .ask 0 (.isBlocked "aa.com.".toList), .write 0, .createFails 1, .publish 0,
    .ask 1 (.isBlocked "aa.com.".toList), .read 0, .read 0, .read 1, .read 1]

theorem answers_from_published_overlapping :
    ∃ s, Runs.run (step (KeyValue.assoc Text Text RocksError) .lenient)
        (.init AdblockDB.assoc) overlappingRun = some s ∧
      s.calls 0 = .answered (.isBlocked "aa.com.".toList) (.blocked (.ok false)) ∧
      s.calls 1 = .answered (.isBlocked "aa.com.".toList) (.blocked (.ok true)) ∧
      (∀ c ans, s.calls c = .answered (.isBlocked "aa.com.".toList) ans →
        ∃ es₁ es₂ db, overlappingRun = es₁ ++ .ask c (.isBlocked "aa.com.".toList) :: es₂ ∧
          Published .lenient AdblockDB.assoc es₁ db ∧
          ans = answerOf (KeyValue.assoc Text Text RocksError) (.file ⟨[]⟩) db
            (.isBlocked "aa.com.".toList)) ∧
      s.updates 1 = .failed ∧
      (∀ es₁ es₂, overlappingRun = es₁ ++ es₂ → publisher es₁ ≠ some 1) ∧
      (publisher overlappingRun = some 0 ∨ ∃ v, publisher overlappingRun = some v ∧
        .publish v ∈ overlappingRun.drop 6) := by
  obtain ⟨s, hs⟩ : ∃ s, Runs.run (step (KeyValue.assoc Text Text RocksError) .lenient)
      (.init AdblockDB.assoc) overlappingRun = some s := ⟨_, rfl⟩
  obtain ⟨hfirst, hsecond, hfailed⟩ :
      s.calls 0 = .answered (.isBlocked "aa.com.".toList) (.blocked (.ok false)) ∧
      s.calls 1 = .answered (.isBlocked "aa.com.".toList) (.blocked (.ok true)) ∧
      s.updates 1 = .failed := by
    obtain rfl := Option.some.inj hs
    exact ⟨rfl, rfl, rfl⟩
  obtain ⟨hanswers, hfails, hstays⟩ := answers_from_published
    (KeyValue.assoc Text Text RocksError) .lenient (.file ⟨[]⟩)
    ⟨.assoc, AdblockDB.assoc_empty⟩ hs
  refine ⟨s, hs, hfirst, hsecond, fun c ans hc => ?_, hfailed, hfails 1 hfailed,
    hstays 0 (overlappingRun.take 5) _ rfl⟩
  obtain ⟨es₁, es₂, db, hes, -, hpublished, hans⟩ := hanswers c _ ans hc
  exact ⟨es₁, es₂, db, hes, hpublished, hans⟩

end Publication

end BancuhDns
