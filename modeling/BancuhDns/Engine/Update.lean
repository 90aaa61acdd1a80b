import BancuhDns.Engine

/-!
# What an update does when something fails

An update has two kinds of failure. A store that cannot be created and a
configuration that cannot be loaded end it: it returns the error, and the engine
keeps the database it had. Everything after that is carried on with: a source that
cannot be fetched is *skipped*, as is one whose parsing task does not come back, and
the outcome of a write is dropped. Such an update publishes what it has got
(`BancuhDns.AdblockEngine.runUpdate_spec`), and a list that was down for a moment is
missing from the answers until the next update
(`BancuhDns.AdblockEngine.runUpdate_skips_blacklist`).

The status of an HTTP response plays no role here: the body is the text.
-/

namespace BancuhDns

variable {σ : Type}

/-! ### The failures that end an update -/

/-- One of the three new stores cannot be created. -/
def CreateFails (opened : Opened σ) : Prop :=
  (∃ e, opened.blacklist = .error e) ∨ (∃ e, opened.whitelist = .error e) ∨
    ∃ e, opened.rewrites = .error e

/-- The configuration cannot be loaded: it cannot be fetched, it is not the document
expected, or one of the sources it names cannot be resolved. -/
inductive LoadFails (pf : Platform) (env : Env) (configUrl : FileOrUrl) : Prop where
  | fetch (h : FetchFails env configUrl.toFetch)
  | yaml {content : Text} {e : YamlError} (hfetch : configUrl.toFetch.fetch env = .ok content)
      (h : pf.fromYaml content = .error e)
  | fromSource {content : Text} {raw : RawConfig} {e : FromRawSourceError}
      (hfetch : configUrl.toFetch.fetch env = .ok content) (hyaml : pf.fromYaml content = .ok raw)
      (h : Config.tryFromRawConfig pf configUrl raw = .error e)

theorem create_error_iff (opened : Opened σ) :
    (∃ e, AdblockDB.create opened = .error e) ↔ CreateFails opened := by
  obtain ⟨b, w, r⟩ := opened
  rw [CreateFails, AdblockDB.create]
  rcases b with e | b
  · exact iff_of_true ⟨_, rfl⟩ (Or.inl ⟨e, rfl⟩)
  rcases w with e | w
  · exact iff_of_true ⟨_, rfl⟩ (Or.inr (Or.inl ⟨e, rfl⟩))
  rcases r with e | r
  · exact iff_of_true ⟨_, rfl⟩ (Or.inr (Or.inr ⟨e, rfl⟩))
  · refine iff_of_false (fun ⟨e, he⟩ => (nomatch he)) ?_
    rintro (⟨e, he⟩ | ⟨e, he⟩ | ⟨e, he⟩) <;> cases he

theorem load_error_iff (pf : Platform) (env : Env) (configUrl : FileOrUrl) :
    (∃ e, Config.load pf env configUrl = .error e) ↔ LoadFails pf env configUrl := by
  rw [Config.load]
  constructor
  · rintro ⟨e, he⟩
    rcases hfetch : configUrl.toFetch.fetch env with err | content
    · exact .fetch ((fetch_error_iff env _).mp ⟨err, hfetch⟩)
    rcases hyaml : pf.fromYaml content with err | raw
    · exact .yaml hfetch hyaml
    rcases hraw : Config.tryFromRawConfig pf configUrl raw with err | config
    · exact .fromSource hfetch hyaml hraw
    · simp only [hfetch, hyaml, hraw, reduceCtorEq] at he
  · rintro (h | ⟨hfetch, h⟩ | ⟨hfetch, hyaml, h⟩)
    · obtain ⟨err, hfetch⟩ := (fetch_error_iff env _).mpr h
      exact ⟨.fetch err, by rw [hfetch]⟩
    · simp only [hfetch, h]
      exact ⟨_, rfl⟩
    · simp only [hfetch, hyaml, h]
      exact ⟨_, rfl⟩

/-! ### The failures that do not -/

/-- A source that is skipped: it cannot be fetched, or its parsing task does not come
back. -/
def Skipped (env : Env) (source : FileOrUrl) : Prop :=
  FetchFails env source.toFetch ∨ env.joins = false

/-- **A skipped source contributes nothing.** -/
theorem loadSource_of_skipped {α : Type} {env : Env} {source : FileOrUrl} (h : Skipped env source)
    (parse : Text → Option α) : loadSource env source parse = [] := by
  rw [loadSource]
  rcases hfetch : source.toFetch.fetch env with err | text
  · rfl
  · have hfails : ¬FetchFails env source.toFetch := fun hfails => by
      obtain ⟨err, herr⟩ := (fetch_error_iff env _).mpr hfails
      rw [hfetch] at herr
      cases herr
    have hjoins : env.joins = false := h.resolve_left hfails
    simp [spawnBlocking, hjoins]

/-- A configuration's skipped sources contribute nothing to what is written. -/
structure SkipsSources (cr : Crates) (srcs : Sources) (config : Config) : Prop where
  blacklist : ∀ i bl, config.blacklist[i]? = some bl →
    Skipped (srcs.blacklist i) bl.fileOrUrl →
      (BlacklistCompiler.ofSource bl).loadBlacklist cr (srcs.blacklist i) = []
  whitelist : ∀ i wl, config.whitelist[i]? = some wl →
    Skipped (srcs.whitelist i) wl.fileOrUrl →
      (WhitelistCompiler.ofSource wl).loadWhitelist cr (srcs.whitelist i) = []
  overrides : ∀ i rw, config.overrides[i]? = some rw →
    Skipped (srcs.overrides i) rw.fileOrUrl →
      (RewritesCompiler.ofSource rw).loadRewrites cr (srcs.overrides i) = []

theorem skipsSources (cr : Crates) (srcs : Sources) (config : Config) :
    SkipsSources cr srcs config where
  blacklist _ _ _ h := loadSource_of_skipped h _
  whitelist _ _ _ h := loadSource_of_skipped h _
  overrides _ _ _ h := loadSource_of_skipped h _

/-! ### An update -/

namespace AdblockEngine

/-- An update has no effect on where the configuration is. -/
theorem configUrl_runUpdate {kv : RocksDB σ} {cr : Crates} {pf : Platform} {w : World σ}
    {self : AdblockEngine σ} : (self.runUpdate kv cr pf w).2.configUrl = self.configUrl := by
  rw [runUpdate]
  rcases AdblockDB.create w.opened with err | db
  · rfl
  · simp only
    rcases loadDefinition kv cr pf w db self.configUrl with err | db' <;> rfl

/-- **What an update does.** It fails exactly when a store cannot be created or the
configuration cannot be loaded, and then leaves the engine as it was. Otherwise it
succeeds and publishes the new stores with the writes carried out that the sources of
the configuration give, the skipped ones giving none and the outcome of a write
deciding nothing about the next. -/
theorem runUpdate_spec (kv : RocksDB σ) (cr : Crates) (pf : Platform) (w : World σ)
    (self : AdblockEngine σ) :
    ((∃ e, (self.runUpdate kv cr pf w).1 = .error e) ↔
        CreateFails w.opened ∨ LoadFails pf w.config self.configUrl) ∧
      (CreateFails w.opened ∨ LoadFails pf w.config self.configUrl →
        (self.runUpdate kv cr pf w).2 = self) ∧
      (¬(CreateFails w.opened ∨ LoadFails pf w.config self.configUrl) →
        ∃ newDb config, AdblockDB.create w.opened = .ok newDb ∧
          Config.load pf w.config self.configUrl = .ok config ∧
          SkipsSources cr w.sources config ∧
          self.runUpdate kv cr pf w = (.ok (), { self with
            db := ((AdblockCompiler.fromConfig config).writes cr w.sources).foldl
              (AdblockCompiler.Write.apply kv) newDb })) := by
  rw [← create_error_iff, ← load_error_iff, runUpdate]
  -- the three ways through the update: no stores, no configuration, or a publication
  rcases AdblockDB.create w.opened with err | newDb
  · have hfails : ∃ e, (Except.error err : Except DBError (AdblockDB σ)) = .error e := ⟨err, rfl⟩
    exact ⟨iff_of_true ⟨_, rfl⟩ (Or.inl hfails), fun _ => rfl,
      fun hnot => absurd (Or.inl hfails) hnot⟩
  simp only [loadDefinition]
  rcases Config.load pf w.config self.configUrl with err | config
  · have hfails : ∃ e, (Except.error err : Except LoadConfigError Config) = .error e := ⟨err, rfl⟩
    exact ⟨iff_of_true ⟨_, rfl⟩ (Or.inr hfails), fun _ => rfl,
      fun hnot => absurd (Or.inr hfails) hnot⟩
  · have hnone : ¬((∃ e, (Except.ok newDb : Except DBError (AdblockDB σ)) = .error e) ∨
        ∃ e, (Except.ok config : Except LoadConfigError Config) = .error e) := by
      rintro (⟨e, he⟩ | ⟨e, he⟩) <;> cases he
    refine ⟨iff_of_false (fun ⟨e, he⟩ => (nomatch he)) hnone, fun h => absurd h hnone,
      fun _ => ⟨newDb, config, rfl, rfl, skipsSources cr w.sources config, ?_⟩⟩
    rw [← AdblockCompiler.compile_eq_foldl]
    rfl

/-- The document of a configuration with one blacklist, at a URL. -/
def oneBlacklistYaml : Text :=
  "blacklist: [{format: domains, path: https://a.com/l}]\nwhitelist: []\noverrides: []".toList

/-- A platform on which that document reads as what it says. -/
def oneBlacklistPlatform : Platform where
  parseUrl s := if startsWith "https:".toList s then some ⟨s⟩ else none
  joinUrl u _ := .ok u
  parent _ := none
  joinPath p _ := p
  pathExists _ := false
  fromYaml content :=
    if content = oneBlacklistYaml then .ok ⟨[⟨.domains, "https://a.com/l".toList⟩], [], []⟩
    else .error ⟨[]⟩

/-- An engine that blocks `aa.com`. -/
def blockingEngine : AdblockEngine (List (Text × Text)) where
  db := (AdblockCompiler.fromConfig ⟨[⟨.domains, .file ⟨[]⟩⟩], [], []⟩).compile (.assoc _ _ _)
    .lenient ⟨fun _ => fileEnv "aa.com".toList, fun _ => fileEnv [], fun _ => fileEnv []⟩ .assoc
  configUrl := .file ⟨"configuration.yaml".toList⟩

/-- The world in which the configuration is there, its sources being as an environment has
them. -/
def worldWith (env : Env) : World (List (Text × Text)) where
  opened := ⟨.ok [], .ok [], .ok []⟩
  config := fileEnv oneBlacklistYaml
  sources := ⟨fun _ => env, fun _ => env, fun _ => env⟩

/-- Every server answers, with a status and a text. -/
def serverEnv (status : ℕ) (text : Text) : Env where
  send _ _ := .ok ⟨status, .ok text⟩
  readToString _ := .error ⟨[]⟩
  joins := true

/-- The store that refuses every write. -/
def refusing : RocksDB (List (Text × Text)) :=
  { KeyValue.assoc Text Text RocksError with put := fun s _ _ => (s, .error ⟨[]⟩) }

/-- The world in which the configuration is not there. -/
def missingWorld : World (List (Text × Text)) :=
  { worldWith (fileEnv []) with config := ⟨fun _ _ => .error ⟨[]⟩, fun _ => .error ⟨[]⟩, true⟩ }

theorem runUpdate_spec_missing_config :
    (∃ e, (blockingEngine.runUpdate (.assoc _ _ _) .lenient oneBlacklistPlatform missingWorld).1 =
        .error e) ∧
      (blockingEngine.runUpdate (.assoc _ _ _) .lenient oneBlacklistPlatform missingWorld).2 =
        blockingEngine := by
  have hfails : CreateFails missingWorld.opened ∨
      LoadFails oneBlacklistPlatform missingWorld.config blockingEngine.configUrl :=
    Or.inr (.fetch (.unreadableFile rfl))
  obtain ⟨herr, hkeeps, -⟩ := runUpdate_spec (.assoc _ _ _) .lenient oneBlacklistPlatform
    missingWorld blockingEngine
  exact ⟨herr.mpr hfails, hkeeps hfails⟩

/-- **A list that was down is missing from the answers.** No attempt to fetch the only
blacklist succeeds, or it is answered with an error page, or the task that parses it does
not come back, or the store refuses the write: the update succeeds, and a name that was
blocked is not any more. -/
theorem runUpdate_skips_blacklist :
    (∃ config bl, Config.load oneBlacklistPlatform (worldWith (fileEnv [])).config
        blockingEngine.configUrl = .ok config ∧ config.blacklist[0]? = some bl ∧
        FetchFails (fileEnv []) bl.fileOrUrl.toFetch) ∧
      blockingEngine.isBlocked (.assoc _ _ _) "aa.com.".toList = .ok true ∧
      (∀ env, env = fileEnv [] ∨ env = serverEnv 500 "Internal Server Error".toList ∨
          env = { serverEnv 200 "aa.com".toList with joins := false } →
        (blockingEngine.runUpdate (.assoc _ _ _) .lenient oneBlacklistPlatform
            (worldWith env)).1 = .ok () ∧
          (blockingEngine.runUpdate (.assoc _ _ _) .lenient oneBlacklistPlatform
            (worldWith env)).2.isBlocked (.assoc _ _ _) "aa.com.".toList = .ok false) ∧
      (blockingEngine.runUpdate refusing .lenient oneBlacklistPlatform
          (worldWith (serverEnv 200 "aa.com".toList))).1 = .ok () ∧
        (blockingEngine.runUpdate refusing .lenient oneBlacklistPlatform
          (worldWith (serverEnv 200 "aa.com".toList))).2.isBlocked refusing "aa.com.".toList =
            .ok false := by
  refine ⟨⟨_, _, rfl, rfl, .noConnection fun i _ _ => ⟨⟨[]⟩, rfl⟩⟩, by decide, ?_, rfl,
    by decide⟩
  rintro env (rfl | rfl | rfl)
  · exact ⟨rfl, by decide⟩
  · exact ⟨rfl, by decide⟩
  · exact ⟨rfl, by decide⟩

end AdblockEngine

end BancuhDns
