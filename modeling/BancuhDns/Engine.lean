import BancuhDns.Compiler.Compile

/-!
# The adblock engine

The engine publishes one compiled database and answers from it. An update
compiles the configuration into three fresh stores and, when nothing failed on
the way, publishes them in the place of the old ones; the old database is dropped
there and then, as far as the engine is concerned.

Each call of the engine loads the published pointer once. A value of
`BancuhDns.AdblockEngine` is the engine between two swaps.
-/

namespace BancuhDns

/-- An error of the engine. -/
inductive EngineError where
  | db (e : DBError)
  | loadConfig (e : LoadConfigError)
  deriving DecidableEq

/-- The outside world as one update sees it. -/
structure World (σ : Type) where
  /-- The databases opened for it. -/
  opened : Opened σ
  /-- While the configuration is fetched. -/
  config : Env
  /-- While the sources are loaded. -/
  sources : Sources

/-- `AdblockEngine`, with the database it publishes. -/
structure AdblockEngine (σ : Type) where
  db : AdblockDB σ
  configUrl : FileOrUrl

variable {σ : Type}

/-- `load_definition`: the database written to is handed back. -/
def loadDefinition (kv : RocksDB σ) (cr : Crates) (pf : Platform) (w : World σ)
    (db : AdblockDB σ) (configUrl : FileOrUrl) : Except LoadConfigError (AdblockDB σ) := do
  let config ← Config.load pf w.config configUrl
  let compiler := AdblockCompiler.fromConfig config
  return compiler.compile kv cr w.sources db

namespace AdblockEngine

/-- `AdblockEngine::run_update`: its result, and the engine it leaves. -/
def runUpdate (kv : RocksDB σ) (cr : Crates) (pf : Platform) (w : World σ)
    (self : AdblockEngine σ) : Except EngineError Unit × AdblockEngine σ :=
  match AdblockDB.create w.opened with
  | .error e => (.error (.db e), self)
  | .ok newDb =>
    match loadDefinition kv cr pf w newDb self.configUrl with
    | .error e => (.error (.loadConfig e), self)
    -- the swap, after which nothing can fail
    | .ok newDb => (.ok (), { self with db := newDb })

/-- `AdblockEngine::get_redirect`. -/
def getRedirect (kv : RocksDB σ) (self : AdblockEngine σ) (name : Text) :
    Except EngineError (Option Text) :=
  match self.db.rewrites.get kv name with
  | .ok found => .ok found
  | .error e => .error (.db e)

/-- `AdblockEngine::is_blocked`. -/
def isBlocked (kv : RocksDB σ) (self : AdblockEngine σ) (name : Text) :
    Except EngineError Bool :=
  match self.db.whitelist.contains kv name with
  | .error e => .error (.db e)
  -- a whitelisted name is not looked for in the blacklist
  | .ok true => .ok false
  | .ok false =>
    match self.db.blacklist.contains kv name with
    | .error e => .error (.db e)
    | .ok true => .ok true
    | .ok false => .ok false

/-! ### What the engine answers from its maps -/

variable {kv : RocksDB σ} {self : AdblockEngine σ}

theorem getRedirect_eq {m : Text → Option Text} (h : self.db.rewrites.Holds kv m)
    (name : Text) : self.getRedirect kv name = .ok ((keys name).findSome? m) := by
  rw [getRedirect, DomainStore.get_eq h]

/-- **Blocking**: in the blacklist and not in the whitelist. -/
theorem isBlocked_eq {w b : Text → Option Text} (hw : self.db.whitelist.Holds kv w)
    (hb : self.db.blacklist.Holds kv b) (name : Text) :
    self.isBlocked kv name =
      .ok (((keys name).findSome? b).isSome && !((keys name).findSome? w).isSome) := by
  rw [isBlocked, DomainStore.contains_eq hw, DomainStore.contains_eq hb]
  cases ((keys name).findSome? w).isSome <;> cases ((keys name).findSome? b).isSome <;> rfl

end AdblockEngine

end BancuhDns
