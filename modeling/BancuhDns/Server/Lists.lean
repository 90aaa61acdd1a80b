import BancuhDns.Engine.Update
import BancuhDns.Server.Log

/-!
# What the lists say, and what the server replies

An update that succeeds compiles the lists of a configuration, and from then on the engine
answers as the lists say: a name is rewritten to the alias of the last most specific override
that matches it, and blocked when a blacklist matches it and no whitelist does
(`BancuhDns.Verdicts.ofLists`). In every run, at every moment, the published engine follows
the lists of the last update that succeeded, or none before the first
(`BancuhDns.Server.engine_follows`).

So each entry of the log – and with it the reply that the client got – is justified by lists
that were in force while the request was under way (`BancuhDns.Server.reply_follows_lists`).
Nothing is blocked that no list blocks, and nothing rewritten that no list rewrites.
-/

namespace BancuhDns

/-- What some lists say about names. -/
structure Verdicts where
  blocks : Name → Prop
  rewrites : Name → Text → Prop

/-- No lists at all. -/
def Verdicts.none : Verdicts := ⟨fun _ => False, fun _ _ => False⟩

/-- What the lists of a configuration say, with the lines that its sources have. -/
def Verdicts.ofLists (cr : Crates) (srcs : Sources) (config : Config) : Verdicts where
  blocks n := BlacklistMatches cr srcs config n ∧ ¬WhitelistMatches cr srcs config n
  rewrites n a := ∃ c,
    LastMostSpecific ((AdblockCompiler.fromConfig config).rewritten cr srcs) n c ∧
      normalizeName c.aliasName.val = a

variable {σ L : Type}

/-- **An engine that follows some lists**: it answers about every name, and as they say. -/
structure AdblockEngine.Follows (kv : RocksDB σ) (engine : AdblockEngine σ) (v : Verdicts) :
    Prop where
  isBlocked : ∀ n : Name, ∃ b, engine.isBlocked kv n.text = .ok b ∧ (b = true ↔ v.blocks n)
  getRedirect : ∀ n : Name, ∃ r, engine.getRedirect kv n.text = .ok r ∧
    ∀ a, r = some a ↔ v.rewrites n a

/-- An engine without entries follows no lists. -/
theorem AdblockEngine.follows_none {kv : RocksDB σ} {engine : AdblockEngine σ}
    (h : engine.db.Empty kv) : engine.Follows kv .none where
  isBlocked n := by
    refine ⟨_, AdblockEngine.isBlocked_eq h.whitelist h.blacklist n.text, ?_⟩
    simp [Verdicts.none, List.findSome?_eq_none_iff.mpr]
  getRedirect n := by
    refine ⟨_, AdblockEngine.getRedirect_eq h.rewrites n.text, fun a => ?_⟩
    simp [Verdicts.none, List.findSome?_eq_none_iff.mpr]

/-- **A compiled engine follows the lists** that it was compiled from. -/
theorem follows_compiledEngine {kv : RocksDB σ} (hkv : kv.LastWriteWins) (cr : Crates)
    (srcs : Sources) (config : Config) (configUrl : FileOrUrl) {db : AdblockDB σ}
    (hdb : db.Empty kv) :
    (compiledEngine kv cr srcs config db configUrl).Follows kv (.ofLists cr srcs config) where
  isBlocked := isBlocked_compiledEngine hkv cr srcs config configUrl hdb
  getRedirect n := ⟨_, getRedirect_compiledEngine hkv cr srcs config configUrl hdb n.text,
    fun _ => findSome?_rewriteMap_iff⟩

/-- **A reply that some lists justify**, those of the two calls of the engine. -/
inductive Justified (v v' : Verdicts) (n : Name) : Text → Prop
  | rewritten {a : Text} (h : v.rewrites n a) : Justified v v' n ("rewritten: ".toList ++ a)
  | blocked (h : ∀ a, ¬v.rewrites n a) (hblocks : v'.blocks n) :
      Justified v v' n "blocked".toList
  | forwarded (h : ∀ a, ¬v.rewrites n a) (hblocks : ¬v'.blocks n) :
      Justified v v' n "forwarded".toList

/-- What is replied by engines that follow some lists is justified by them. -/
theorem Justified.of_replies {kv : RocksDB σ} {engine engine' : AdblockEngine σ} {v v' : Verdicts}
    (h : engine.Follows kv v) (h' : engine'.Follows kv v') {answers : Answers}
    (hredirect : answers.getRedirect = engine.getRedirect kv)
    (hblocked : answers.isBlocked = engine'.isBlocked kv) {query : Query} {n : Name}
    (hname : query.name = n.text) {records : List Record} {answer : Text}
    (hreplies : Handler.Replies answers query records answer) : Justified v v' n answer := by
  obtain ⟨r, hr, hrewrites⟩ := h.getRedirect n
  obtain ⟨b, hb, hblocks⟩ := h'.isBlocked n
  have hr' : answers.getRedirect query.name = .ok r := by rw [hredirect, hname, hr]
  have hb' : answers.isBlocked query.name = .ok b := by rw [hblocked, hname, hb]
  have hnone : answers.getRedirect query.name = .ok none → ∀ a, ¬v.rewrites n a := by
    intro hnone a ha
    obtain rfl := (hrewrites a).mpr ha
    cases hr'.symm.trans hnone
  cases hreplies with
  | rewritten hsome => exact .rewritten ((hrewrites _).mp (Except.ok.inj (hr'.symm.trans hsome)))
  | blockedA h₀ h₁ => exact .blocked (hnone h₀) (hblocks.mp (Except.ok.inj (hb'.symm.trans h₁)))
  | blockedAaaa h₀ h₁ => exact .blocked (hnone h₀) (hblocks.mp (Except.ok.inj (hb'.symm.trans h₁)))
  | forwarded h₀ h₁ =>
    refine .forwarded (hnone h₀) fun hyes => ?_
    cases (hblocks.mpr hyes).symm.trans (Except.ok.inj (hb'.symm.trans h₁))

namespace Server

/-- **What is said after an update**: what its lists say, when it succeeds. -/
def verdictsOf (srv : Server σ L) (configUrl : FileOrUrl) (w : World σ) (v : Verdicts) :
    Verdicts :=
  match AdblockDB.create w.opened, Config.load srv.platform w.config configUrl with
  | .ok _, .ok config => .ofLists srv.crates w.sources config
  | _, _ => v

/-- **What is said at the end of a run**: what the lists of the last update say that
succeeded. -/
def verdictsAfter (srv : Server σ L) (configUrl : FileOrUrl) (es : List (Event σ)) : Verdicts :=
  es.foldl (fun v e =>
    match e with
    | .environment (.update w) => srv.verdictsOf configUrl w v
    | _ => v) .none

variable {srv : Server σ L} {start : Shared σ L} {es : List (Event σ)} {s : State σ L} {i : ℕ}
  {call : Insert}

/-- An answer leaves the engine as it is. -/
theorem engine_of_answer {shared shared' : Shared σ L} {q : Call} {a : q.Answer}
    (h : srv.answer shared q a = some shared') : shared'.engine = shared.engine := by
  cases q with
  | lookup name queryType => rw [Option.some.inj h]
  | send response => rw [Option.some.inj h]
  | _ =>
    obtain ⟨-, h⟩ := Option.ite_none_right_eq_some.mp h
    rw [← Option.some.inj h]

/-- The stores that an update creates are empty. -/
def Fresh (srv : Server σ L) (es : List (Event σ)) : Prop :=
  ∀ w, .environment (.update w) ∈ es →
    ∀ db, AdblockDB.create w.opened = .ok db → db.Empty srv.kv

/-- An update publishes an engine that follows its lists, or leaves the one that there is. -/
theorem follows_runUpdate (hkv : srv.kv.LastWriteWins) {engine : AdblockEngine σ} {v : Verdicts}
    (h : engine.Follows srv.kv v) {w : World σ}
    (hfresh : ∀ db, AdblockDB.create w.opened = .ok db → db.Empty srv.kv) :
    let after := (engine.runUpdate srv.kv srv.crates srv.platform w).2
    after.configUrl = engine.configUrl ∧
      after.Follows srv.kv (srv.verdictsOf engine.configUrl w v) := by
  simp only [AdblockEngine.runUpdate, verdictsOf, loadDefinition]
  rcases hcreate : AdblockDB.create w.opened with err | db
  · exact ⟨rfl, h⟩
  · rcases Config.load srv.platform w.config engine.configUrl with err | config
    · exact ⟨rfl, h⟩
    · exact ⟨rfl, follows_compiledEngine hkv srv.crates w.sources config engine.configUrl
        (hfresh db hcreate)⟩

/-- **The published engine follows the lists** of the last update that succeeded. -/
theorem engine_follows (hkv : srv.kv.LastWriteWins) (hempty : start.engine.db.Empty srv.kv)
    (hrun : srv.Run start es s) : Fresh srv es → s.shared.engine.configUrl =
      start.engine.configUrl ∧
        s.shared.engine.Follows srv.kv (srv.verdictsAfter start.engine.configUrl es) := by
  refine Runs.invariant (fun es (s : State σ L) => Fresh srv es →
    s.shared.engine.configUrl = start.engine.configUrl ∧
      s.shared.engine.Follows srv.kv (srv.verdictsAfter start.engine.configUrl es))
    (fun _ => ⟨rfl, AdblockEngine.follows_none hempty⟩) ?_ hrun
  rintro es s e s' - ih hstep hfresh
  obtain ⟨hurl, hfollows⟩ := ih fun w hw => hfresh w (List.mem_append_left _ hw)
  rw [verdictsAfter, List.foldl_append, ← verdictsAfter]
  cases Tasks.moves_of_step hstep with
  | start hi => exact ⟨hurl, hfollows⟩
  | exchange hi hanswer =>
    simp only [engine_of_answer hanswer]
    exact ⟨hurl, hfollows⟩
  | @environment change shared hchange =>
    obtain rfl := Option.some.inj hchange
    cases change with
    | setClock now => exact ⟨hurl, hfollows⟩
    | pass time => exact ⟨hurl, hfollows⟩
    | update w =>
      obtain ⟨hurl', hfollows'⟩ := follows_runUpdate hkv hfollows
        (hfresh w (List.mem_append_right _ (List.mem_singleton_self _)))
      rw [hurl] at hfollows' hurl'
      exact ⟨hurl', hfollows'⟩

/-- At a moment of a task the engine follows the lists of that moment. -/
theorem follows_of_during (hkv : srv.kv.LastWriteWins) (hempty : start.engine.db.Empty srv.kv)
    (hfresh : srv.Fresh es) {es₁ : List (Event σ)} {s₁ : State σ L}
    (h : srv.During start es i es₁ s₁) :
    s₁.shared.engine.Follows srv.kv (srv.verdictsAfter start.engine.configUrl es₁) := by
  obtain ⟨es₂, rfl, hrun, -⟩ := h
  exact (engine_follows hkv hempty hrun fun w hw => hfresh w (List.mem_append_left _ hw)).2

/-- **Every entry is justified by lists in force.** Over stores that keep what they are given,
in every run, an entry of the log that a task has inserted for a name says what lists say that
were in force at two moments of the task, one for each call of the engine: that the name is
rewritten, to the alias that they give it; that they do not rewrite it and block it; or that
they do neither. -/
theorem reply_follows_lists (hkv : srv.kv.LastWriteWins) (hempty : start.engine.db.Empty srv.kv)
    (hfresh : srv.Fresh es) (hrun : srv.Run start es s)
    (hcall : .insert call ∈ effects (Tasks.exchangesOf i es)) :
    ∃ request p query, s.tasks i = some (request, p) ∧ request.requestInfo = .ok query ∧
      ∀ n : Name, query.name = n.text → ∃ es₁ s₁ es₂ s₂,
        srv.During start es i es₁ s₁ ∧ srv.During start es i es₂ s₂ ∧
          Justified (srv.verdictsAfter start.engine.configUrl es₁)
            (srv.verdictsAfter start.engine.configUrl es₂) n call.log.answer := by
  obtain ⟨request, p, query, records, answer, engine, engine', hi, ⟨es₁, s₁, hduring, rfl⟩,
    ⟨es₂, s₂, hduring', rfl⟩, hquery, hreplies, hentry, -⟩ := accountsFor_of_insert hrun hcall
  refine ⟨request, p, query, hi, hquery.requestInfo, fun n hname =>
    ⟨es₁, s₁, es₂, s₂, hduring, hduring', ?_⟩⟩
  rw [hentry]
  exact .of_replies (follows_of_during hkv hempty hfresh hduring)
    (follows_of_during hkv hempty hfresh hduring') rfl rfl hname hreplies

/-- A server whose configuration names one blacklist. -/
def listServer : Server (List (Text × Text)) Unit :=
  { openServer with platform := AdblockEngine.oneBlacklistPlatform }

/-- A server that has just been started with that configuration. -/
def unlisted : Shared (List (Text × Text)) Unit :=
  { justStarted with engine := ⟨.assoc, .file ⟨"configuration.yaml".toList⟩⟩ }

/-- The world in which `aa.com` is on the blacklist. -/
def listedWorld : World (List (Text × Text)) :=
  AdblockEngine.worldWith (AdblockEngine.serverEnv 200 "aa.com".toList)

/-- A query for that name. -/
def listedQuery : Request :=
  { Handler.aQuery with requestInfo := .ok ⟨"aa.com.".toList, .a⟩ }

/-- A client asks for a name that an update puts on a list. -/
def listedRun : List (Event (List (Text × Text))) :=
  [.environment (.update listedWorld), .start 0 listedQuery,
    .exchange 0 ⟨.getRedirect "aa.com.".toList, .ok none⟩,
    .exchange 0 ⟨.isBlocked "aa.com.".toList, .ok true⟩,
    .exchange 0 ⟨.send ⟨⟨1, .response, .query, .noError⟩, [⟨"aa.com.".toList, 60, .a 0⟩]⟩,
      .ok ⟨⟨1, .response, .query, .noError⟩⟩⟩,
    .exchange 0 ⟨.now, 0⟩,
    .exchange 0 ⟨.insert (.v4 0x0A000001) ⟨0, "aa.com. A".toList, "blocked".toList⟩, 0⟩]

/-- The entry of that run. -/
def listedEntry : Insert := ⟨0, .v4 0x0A000001, ⟨0, "aa.com. A".toList, "blocked".toList⟩⟩

/-- `aa.com.` -/
def listedDomain : Name := ⟨["aa".toList, "com".toList], by decide, by decide⟩

theorem reply_follows_lists_blocked :
    ∃ s es₁ s₁ es₂ s₂, listServer.Run unlisted listedRun s ∧
      listServer.During unlisted listedRun 0 es₁ s₁ ∧
      listServer.During unlisted listedRun 0 es₂ s₂ ∧
      Justified (listServer.verdictsAfter unlisted.engine.configUrl es₁)
        (listServer.verdictsAfter unlisted.engine.configUrl es₂) listedDomain
          listedEntry.log.answer := by
  obtain ⟨s, hs⟩ : ∃ s, listServer.Run unlisted listedRun s := ⟨_, rfl⟩
  have hfresh : listServer.Fresh listedRun := by
    intro w hw db hdb
    obtain rfl : w = listedWorld := by simpa [listedRun] using hw
    obtain rfl := Except.ok.inj hdb
    exact AdblockDB.assoc_empty
  have hcall : .insert listedEntry ∈ effects (Tasks.exchangesOf 0 listedRun) := by
    have heffects : effects (Tasks.exchangesOf 0 listedRun) =
        [.getRedirect "aa.com.".toList, .isBlocked "aa.com.".toList,
          .send ⟨⟨1, .response, .query, .noError⟩, [⟨"aa.com.".toList, 60, .a 0⟩]⟩ true,
          .insert listedEntry] := rfl
    rw [heffects]
    simp
  obtain ⟨request, p, query, hi, hinfo, hjustified⟩ :=
    reply_follows_lists KeyValue.assoc_lastWriteWins AdblockDB.assoc_empty hfresh hs hcall
  have hrequest : request = listedQuery := by
    obtain rfl := Option.some.inj hs
    exact (congrArg Prod.fst (Option.some.inj hi)).symm
  have hname : query.name = listedDomain.text := by
    rw [hrequest] at hinfo
    rw [← Except.ok.inj hinfo]
    rfl
  obtain ⟨es₁, s₁, es₂, s₂, h⟩ := hjustified listedDomain hname
  exact ⟨s, es₁, s₁, es₂, s₂, hs, h⟩

end Server

end BancuhDns
