import BancuhDns.Engine
import BancuhDns.Lib.Runs

/-!
# One request, two loads

For one request the handler asks the engine twice: `get_redirect` first and, when
there is no alias, `is_blocked`. Each call loads the published database for itself,
and an update may publish another one in between. So the decision can be one that no
database published during the request stands for: the first says that the name is not
rewritten, the last that it is blocked (`BancuhDns.Request.one_snapshot_mixed`).

When that happens is decided at the second load. The decision is that of one database
exactly when some database published since the first load leaves the name alone in
its rewrites and says about blocking what the last one says
(`BancuhDns.Request.one_snapshot_iff`).
-/

namespace BancuhDns

/-- What the handler does with a query. -/
inductive Decision where
  | rewritten (aliasName : Text)
  | blocked
  | forwarded
  deriving DecidableEq

variable {σ : Type}

/-- The decision for a name when both calls see the same database. -/
def AdblockEngine.decision (kv : RocksDB σ) (self : AdblockEngine σ) (name : Text) :
    Except EngineError Decision := do
  match ← self.getRedirect kv name with
  | some found => return .rewritten found
  | none => return if ← self.isBlocked kv name then .blocked else .forwarded

namespace Request

/-- How far the handler has got with a request. -/
inductive Phase where
  | waiting
  | notRewritten
  | decided (d : Decision)
  | failed (e : EngineError)

/-- A request on an engine: the engine with the database published now, the phase the
request is in, and the engines published since its first load. -/
structure State (σ : Type) where
  engine : AdblockEngine σ
  phase : Phase
  seen : List (AdblockEngine σ)

/-- What can happen next: an update publishes, or the handler makes its next call. -/
inductive Event (σ : Type) where
  | swap (db : AdblockDB σ)
  | getRedirect
  | isBlocked

variable (kv : RocksDB σ) (name : Text)

/-- The phase after `get_redirect`. -/
def afterGetRedirect (engine : AdblockEngine σ) : Phase :=
  match engine.getRedirect kv name with
  | .error e => .failed e
  | .ok (some found) => .decided (.rewritten found)
  | .ok none => .notRewritten

/-- The phase after `is_blocked`. -/
def afterIsBlocked (engine : AdblockEngine σ) : Phase :=
  match engine.isBlocked kv name with
  | .error e => .failed e
  | .ok true => .decided .blocked
  | .ok false => .decided .forwarded

/-- One step. A database published between the two calls of the request is seen by
it; one published before the first or after the last is not. -/
def step (s : State σ) : Event σ → Option (State σ)
  | .swap db =>
    let engine := { s.engine with db := db }
    match s.phase with
    -- what is published between the calls is published during the request
    | .notRewritten => some { s with engine := engine, seen := s.seen ++ [engine] }
    | _ => some { s with engine := engine }
  | .getRedirect =>
    match s.phase with
    | .waiting =>
      some { s with phase := afterGetRedirect kv name s.engine, seen := [s.engine] }
    | _ => none
  | .isBlocked =>
    match s.phase with
    | .notRewritten => some { s with phase := afterIsBlocked kv name s.engine }
    | _ => none

/-- An engine with a request that has not started. -/
def State.init (engine : AdblockEngine σ) : State σ := ⟨engine, .waiting, []⟩

/-- **One request, one snapshot**: a decision is that of one engine published during
the request. -/
def OneSnapshot (s : State σ) : Prop :=
  ∀ d, s.phase = .decided d → ∃ engine ∈ s.seen, engine.decision kv name = .ok d

/-- Some engine published since the first load does not rewrite the name, and says
about blocking it what the engine published now says. -/
def Consistent (s : State σ) : Prop :=
  ∀ b, s.engine.isBlocked kv name = .ok b →
    ∃ engine ∈ s.seen, engine.getRedirect kv name = .ok none ∧ engine.isBlocked kv name = .ok b

variable {kv name} {s s' : State σ} {e : Event σ} {es : List (Event σ)}

/-! ### Decisions -/

theorem decision_eq_rewritten {engine : AdblockEngine σ} {found : Text}
    (h : engine.getRedirect kv name = .ok (some found)) :
    engine.decision kv name = .ok (.rewritten found) := by
  rw [AdblockEngine.decision, h]
  rfl

/-- The decision for a blocking verdict. -/
def verdict (b : Bool) : Decision := if b then .blocked else .forwarded

/-- A database decides by its blocking verdict exactly when it has no alias. -/
theorem decision_eq_verdict_iff {engine : AdblockEngine σ} {b : Bool} :
    engine.decision kv name = .ok (verdict b) ↔
      engine.getRedirect kv name = .ok none ∧ engine.isBlocked kv name = .ok b := by
  rw [AdblockEngine.decision]
  constructor
  · intro h
    rcases hg : engine.getRedirect kv name with err | _ | found <;> rw [hg] at h
    · cases h
    · rcases hb : engine.isBlocked kv name with err | b' <;> rw [hb] at h
      · cases h
      · have hverdict : verdict b' = verdict b := Except.ok.inj h
        refine ⟨rfl, congrArg _ ?_⟩
        cases b <;> cases b' <;> first | rfl | cases hverdict
    · have hverdict : Decision.rewritten found = verdict b := Except.ok.inj h
      cases b <;> cases hverdict
  · rintro ⟨hg, hb⟩
    rw [hg, hb]
    rfl

theorem afterIsBlocked_eq (engine : AdblockEngine σ) :
    afterIsBlocked kv name engine =
      match engine.isBlocked kv name with
      | .error err => .failed err
      | .ok b => .decided (verdict b) := by
  rw [afterIsBlocked]
  rcases engine.isBlocked kv name with err | b
  · rfl
  · cases b <;> rfl

/-! ### Steps -/

/-- `is_blocked` reaches a decision that one database stands for exactly when the
state before it is consistent. -/
theorem oneSnapshot_isBlocked_iff (h : step kv name s .isBlocked = some s') :
    OneSnapshot kv name s' ↔ Consistent kv name s := by
  rw [step] at h
  split at h
  · obtain rfl := Option.some.inj h
    rw [OneSnapshot, Consistent, afterIsBlocked_eq]
    rcases s.engine.isBlocked kv name with err | b
    · exact ⟨fun _ b hb => (nomatch hb), fun _ d hd => (nomatch hd)⟩
    · constructor
      · intro hone b' hb'
        obtain rfl := Except.ok.inj hb'
        obtain ⟨engine, hseen, hdec⟩ := hone _ rfl
        exact ⟨engine, hseen, decision_eq_verdict_iff.mp hdec⟩
      · intro hcons d hd
        obtain rfl := Phase.decided.inj hd
        obtain ⟨engine, hseen, hans⟩ := hcons b rfl
        exact ⟨engine, hseen, decision_eq_verdict_iff.mpr hans⟩
  · cases h

/-- The first call decides by the database that it loads. -/
theorem oneSnapshot_getRedirect_iff (h : step kv name s .getRedirect = some s') :
    OneSnapshot kv name s' ↔ OneSnapshot kv name s := by
  rw [step] at h
  split at h
  next hphase =>
    obtain rfl := Option.some.inj h
    refine iff_of_true (fun d hd => ?_) fun d hd => by simp [hphase] at hd
    rw [afterGetRedirect] at hd
    rcases hg : s.engine.getRedirect kv name with err | _ | found
    · simp only [hg, reduceCtorEq] at hd
    · simp only [hg, reduceCtorEq] at hd
    · simp only [hg] at hd
      obtain rfl := Phase.decided.inj hd
      exact ⟨s.engine, List.mem_singleton_self _, decision_eq_rewritten hg⟩
  next => cases h

/-- A publication changes nothing for a request that has been decided. -/
theorem oneSnapshot_swap_iff {db : AdblockDB σ} (h : step kv name s (.swap db) = some s') :
    OneSnapshot kv name s' ↔ OneSnapshot kv name s := by
  rw [step] at h
  split at h
  next hphase =>
    obtain rfl := Option.some.inj h
    exact iff_of_true (fun d hd => by simp [hphase] at hd) fun d hd => by simp [hphase] at hd
  next =>
    obtain rfl := Option.some.inj h
    exact Iff.rfl

/-- A request that has not been decided, nor failed. -/
def Phase.isOpen : Phase → Bool
  | .waiting => true
  | .notRewritten => true
  | _ => false

/-- A request that is open after a step was open before it, and the step was not its
last call. -/
theorem isOpen_of_step (h : step kv name s e = some s') (hopen : s'.phase.isOpen) :
    s.phase.isOpen ∧ e ≠ .isBlocked := by
  rcases e with db | _ | _ <;> rw [step] at h
  · refine ⟨?_, by simp⟩
    split at h <;>
      · obtain rfl := Option.some.inj h
        exact hopen
  · refine ⟨?_, by simp⟩
    split at h
    next hphase => rw [hphase]; rfl
    next => cases h
  · split at h
    next =>
      obtain rfl := Option.some.inj h
      rw [afterIsBlocked_eq] at hopen
      split at hopen <;> cases hopen
    next => cases h

/-! ### Runs -/

variable {engine : AdblockEngine σ}

theorem isBlocked_notMem_of_isOpen (hrun : Runs.run (step kv name) (.init engine) es = some s) :
    s.phase.isOpen → .isBlocked ∉ es := by
  refine Runs.invariant (fun es s => s.phase.isOpen → .isBlocked ∉ es) (fun _ => by simp) ?_ hrun
  intro es s e s' _ ih hstep hopen hmem
  obtain ⟨hbefore, hne⟩ := isOpen_of_step hstep hopen
  rcases List.mem_append.mp hmem with hmem | hmem
  · exact ih hbefore hmem
  · exact hne (List.mem_singleton.mp hmem).symm

/-- The call that `is_blocked` makes is the only one of its kind. -/
theorem isBlocked_notMem_of_step (hrun : Runs.run (step kv name) (.init engine) es = some s)
    (h : step kv name s .isBlocked = some s') : .isBlocked ∉ es := by
  refine isBlocked_notMem_of_isOpen hrun ?_
  rw [step] at h
  split at h
  next hphase => rw [hphase]; rfl
  next => cases h

variable (kv name engine) in
/-- The states in which `is_blocked` is called, among those of a run, are consistent. -/
def ConsistentCalls (es : List (Event σ)) : Prop :=
  ∀ es₁ es₂ s, es = es₁ ++ .isBlocked :: es₂ →
    Runs.run (step kv name) (.init engine) es₁ = some s → Consistent kv name s

theorem consistentCalls_concat_iff (he : e ≠ .isBlocked) :
    ConsistentCalls kv name engine (es ++ [e]) ↔ ConsistentCalls kv name engine es := by
  constructor
  · rintro hall es₁ es₂ s rfl hs
    exact hall es₁ (es₂ ++ [e]) s (by simp) hs
  · rintro hall es₁ es₂ s hes hs
    rcases Runs.concat_eq_append_cons_iff.mp hes with ⟨-, hlast, -⟩ | ⟨es₂', hes', -⟩
    · exact absurd hlast he
    · exact hall es₁ es₂' s hes' hs

theorem consistentCalls_isBlocked_iff
    (hrun : Runs.run (step kv name) (.init engine) es = some s)
    (h : step kv name s .isBlocked = some s') :
    ConsistentCalls kv name engine (es ++ [.isBlocked]) ↔ Consistent kv name s := by
  refine ⟨fun hall => hall es [] s rfl hrun, fun hcons es₁ es₂ s₁ hes hs₁ => ?_⟩
  rcases Runs.concat_eq_append_cons_iff.mp hes with ⟨rfl, -, -⟩ | ⟨es₂', rfl, -⟩
  · rwa [← Option.some.inj (hrun.symm.trans hs₁)]
  · exact absurd (by simp) (isBlocked_notMem_of_step hrun h)

/-- **One request, one snapshot, when.** In every run, whatever is published when, the
decision of the request is that of one database published during it exactly when the
state in which it calls `is_blocked` – if it does – is consistent. -/
theorem one_snapshot_iff (hrun : Runs.run (step kv name) (.init engine) es = some s) :
    OneSnapshot kv name s ↔ ConsistentCalls kv name engine es := by
  refine Runs.invariant
    (fun es s => OneSnapshot kv name s ↔ ConsistentCalls kv name engine es) ?_ ?_ hrun
  · refine iff_of_true (fun d hd => (nomatch hd)) fun es₁ es₂ s hes => ?_
    simp at hes
  · intro es s e s' hs ih hstep
    -- only the second call can make a difference, and it comes once
    rcases e with db | _ | _
    · rw [oneSnapshot_swap_iff hstep, consistentCalls_concat_iff (by simp), ih]
    · rw [oneSnapshot_getRedirect_iff hstep, consistentCalls_concat_iff (by simp), ih]
    · rw [oneSnapshot_isBlocked_iff hstep, consistentCalls_isBlocked_iff hs hstep]

/-- A request is safe from a publication that brings it no alias. -/
theorem consistent_of_getRedirect (hseen : s.engine ∈ s.seen)
    (h : s.engine.getRedirect kv name = .ok none) : Consistent kv name s :=
  fun _ hb => ⟨s.engine, hseen, h, hb⟩

/-- The engine before the first update. -/
def emptyEngine : AdblockEngine (List (Text × Text)) := ⟨.assoc, .file ⟨[]⟩⟩

/-- The database of a configuration that both rewrites and blocks `aa.com`. -/
def rewrittenAndBlocked : AdblockDB (List (Text × Text)) :=
  (AdblockCompiler.fromConfig
    ⟨[⟨.domains, .file ⟨[]⟩⟩], [], [⟨.cname, .file ⟨[]⟩⟩]⟩).compile (.assoc _ _ _) .lenient
      ⟨fun _ => fileEnv "aa.com".toList, fun _ => fileEnv [],
        fun _ => fileEnv "aa.com CNAME bb.com.".toList⟩ .assoc

/-- An update publishes that database once the request has been decided. -/
def lateRun : List (Event (List (Text × Text))) :=
  [.getRedirect, .isBlocked, .swap rewrittenAndBlocked]

/-- An update publishes that database between the two calls of the request. -/
def mixedRun : List (Event (List (Text × Text))) :=
  [.getRedirect, .swap rewrittenAndBlocked, .isBlocked]

theorem one_snapshot_iff_late :
    ∃ s, Runs.run (step (.assoc _ _ _) "aa.com.".toList) (.init emptyEngine) lateRun = some s ∧
      OneSnapshot (.assoc _ _ _) "aa.com.".toList s := by
  obtain ⟨s, hs⟩ : ∃ s, Runs.run (step (.assoc _ _ _) "aa.com.".toList) (.init emptyEngine)
      lateRun = some s := ⟨_, rfl⟩
  have hcall : ConsistentCalls (.assoc _ _ _) "aa.com.".toList emptyEngine
      ([.getRedirect] ++ [.isBlocked]) :=
    (consistentCalls_isBlocked_iff rfl rfl).mpr
      (consistent_of_getRedirect (List.mem_singleton_self _) rfl)
  have hlate : ConsistentCalls (.assoc _ _ _) "aa.com.".toList emptyEngine lateRun :=
    (consistentCalls_concat_iff (by simp)).mpr hcall
  exact ⟨s, hs, (one_snapshot_iff hs).mpr hlate⟩

/-- **A mixed view.** The empty database has no alias for `aa.com`, and would have it
forwarded; the one published next rewrites it. The request answers that it is blocked. -/
theorem one_snapshot_mixed :
    ∃ s, Runs.run (step (.assoc _ _ _) "aa.com.".toList) (.init emptyEngine) mixedRun = some s ∧
      s.phase = .decided .blocked ∧ ¬OneSnapshot (.assoc _ _ _) "aa.com.".toList s := by
  refine ⟨_, rfl, rfl, fun hone => ?_⟩
  obtain ⟨engine, hseen, hdec⟩ := hone .blocked rfl
  -- the old database forwards the name, the new one rewrites it
  rcases List.mem_cons.mp hseen with rfl | hseen
  · exact absurd hdec (by decide)
  · rw [List.mem_singleton.mp hseen] at hdec
    exact absurd hdec (by decide)

end Request

end BancuhDns
