import BancuhDns.Compiler.Parser
import BancuhDns.Config
import BancuhDns.Db

/-!
# Compiling a configuration into the stores

Each source of the configuration becomes a compiler that fetches it, parses its
lines on a blocking task, and hands back what the lines yield; the adblock
compiler runs the whitelists, the blacklists and the rewrites in that order and
writes everything it is handed into the three stores.

Nothing here fails. A source that cannot be fetched is skipped, a parsing task
that does not come back counts as one that yielded nothing, and the outcome of a
write is not looked at.

`BancuhDns.AdblockCompiler.compile_eq` is what the rest of the development uses:
the three stores are three independent runs of writes.
-/

namespace BancuhDns

/-! ### Loading one source -/

/-- The failure of a blocking task. -/
structure JoinError where
  deriving DecidableEq

/-- `tokio::task::spawn_blocking`, awaited. -/
def spawnBlocking {α : Type} (env : Env) (result : α) : Except JoinError α :=
  if env.joins then .ok result else .error {}

/-- **Loading a source**: what its lines parse to, in order. A source that cannot
be fetched is skipped. -/
def loadSource {α : Type} (env : Env) (source : FileOrUrl) (parse : Text → Option α) : List α :=
  match source.toFetch.fetch env with
  | .error _ => []
  | .ok text =>
    match spawnBlocking env ((lines text).filterMap parse) with
    | .ok items => items
    | .error _ => []

/-- The lines a source contributes. A source that cannot be fetched, or whose
parsing task does not come back, has none. -/
def sourceLines (env : Env) (source : FileOrUrl) : List Text :=
  match source.toFetch.fetch env with
  | .error _ => []
  | .ok text => if env.joins then lines text else []

/-- What a source yields is what its lines parse to. -/
theorem loadSource_eq {α : Type} (env : Env) (source : FileOrUrl) (parse : Text → Option α) :
    loadSource env source parse = (sourceLines env source).filterMap parse := by
  rw [loadSource, sourceLines]
  cases source.toFetch.fetch env with
  | error e => rfl
  | ok text => cases hj : env.joins <;> simp [spawnBlocking, hj]

/-- The parser of a blacklist. -/
inductive ParseBlacklist where
  | hosts
  | domains
  deriving DecidableEq

/-- `ParseBlacklist::parse`. -/
def ParseBlacklist.parse (cr : Crates) (value : Text) : ParseBlacklist → Option Domain
  | .hosts => (Host.parse cr value).map Host.intoDomain
  | .domains => Domain.parse cr value

/-- `From<&BlacklistFormat> for ParseBlacklist`. -/
def ParseBlacklist.ofFormat : BlacklistFormat → ParseBlacklist
  | .hosts => .hosts
  | .domains => .domains

/-- A blacklist to load. -/
structure BlacklistCompiler where
  /-- Where it is. -/
  source : FileOrUrl
  /-- The parser of its lines. -/
  parser : ParseBlacklist

/-- `From<&BlacklistSource> for BlacklistCompiler`. -/
def BlacklistCompiler.ofSource (bl : Source BlacklistFormat) : BlacklistCompiler :=
  { source := bl.fileOrUrl, parser := .ofFormat bl.format }

/-- `BlacklistCompiler::load_blacklist`. -/
def BlacklistCompiler.loadBlacklist (cr : Crates) (env : Env) (self : BlacklistCompiler) :
    List Domain :=
  loadSource env self.source fun l => self.parser.parse cr l

/-- The parser of a whitelist. -/
inductive ParseWhitelist where
  | hosts
  | domains
  | zone
  deriving DecidableEq

/-- `ParseWhitelist::parse`. -/
def ParseWhitelist.parse (cr : Crates) (value : Text) : ParseWhitelist → Option Domain
  | .hosts => (Host.parse cr value).map Host.intoDomain
  | .domains => Domain.parse cr value
  | .zone => (CName.parse cr value).map CName.intoDomain

/-- `From<&WhitelistFormat> for ParseWhitelist`. -/
def ParseWhitelist.ofFormat : WhitelistFormat → ParseWhitelist
  | .hosts => .hosts
  | .domains => .domains
  | .zone => .zone

/-- A whitelist to load. -/
structure WhitelistCompiler where
  /-- Where it is. -/
  source : FileOrUrl
  /-- The parser of its lines. -/
  parser : ParseWhitelist

/-- `From<&WhitelistSource> for WhitelistCompiler`. -/
def WhitelistCompiler.ofSource (wl : Source WhitelistFormat) : WhitelistCompiler :=
  { source := wl.fileOrUrl, parser := .ofFormat wl.format }

/-- `WhitelistCompiler::load_whitelist`. -/
def WhitelistCompiler.loadWhitelist (cr : Crates) (env : Env) (self : WhitelistCompiler) :
    List Domain :=
  loadSource env self.source fun l => self.parser.parse cr l

/-- The parser of a list of overrides. -/
inductive ParseRewrite where
  | cname
  deriving DecidableEq

/-- `ParseRewrite::parse`. -/
def ParseRewrite.parse (cr : Crates) (value : Text) : ParseRewrite → Option CName
  | .cname => CName.parse cr value

/-- `From<&OverrideFormat> for ParseRewrite`. -/
def ParseRewrite.ofFormat : OverrideFormat → ParseRewrite
  | .cname => .cname

/-- A list of overrides to load. -/
structure RewritesCompiler where
  /-- Where it is. -/
  source : FileOrUrl
  /-- The parser of its lines. -/
  parser : ParseRewrite

/-- `From<&OverridesSource> for RewritesCompiler`. -/
def RewritesCompiler.ofSource (rw : Source OverrideFormat) : RewritesCompiler :=
  { source := rw.fileOrUrl, parser := .ofFormat rw.format }

/-- `RewritesCompiler::load_rewrites`. -/
def RewritesCompiler.loadRewrites (cr : Crates) (env : Env) (self : RewritesCompiler) :
    List CName :=
  loadSource env self.source fun l => self.parser.parse cr l

/-! ### Compiling -/

/-- The outside world as a compilation sees it: what the loading of the source at
each position of each list sees. -/
structure Sources where
  /-- While the blacklists are loaded. -/
  blacklist : ℕ → Env
  /-- While the whitelists are loaded. -/
  whitelist : ℕ → Env
  /-- While the overrides are loaded. -/
  overrides : ℕ → Env

/-- `AdblockCompiler`. -/
structure AdblockCompiler where
  /-- The blacklists. -/
  blacklists : List BlacklistCompiler
  /-- The whitelists. -/
  whitelists : List WhitelistCompiler
  /-- The rewrites. -/
  rewrites : List RewritesCompiler

namespace AdblockCompiler

/-- `AdblockCompiler::from_config`. -/
def fromConfig (config : Config) : AdblockCompiler where
  blacklists := config.blacklist.map .ofSource
  whitelists := config.whitelist.map .ofSource
  rewrites := config.overrides.map .ofSource

variable {σ : Type}

/-- `AdblockCompiler::compile`: the outcome of a write is dropped. -/
def compile (kv : RocksDB σ) (cr : Crates) (srcs : Sources) (self : AdblockCompiler)
    (db : AdblockDB σ) : AdblockDB σ :=
  -- the whitelists first, then the blacklists, then the overrides
  let db := self.whitelists.zipIdx.foldl (fun db wl =>
    (wl.1.loadWhitelist cr (srcs.whitelist wl.2)).foldl (fun db d =>
      { db with whitelist := (db.whitelist.put kv d.val).1 }) db) db
  let db := self.blacklists.zipIdx.foldl (fun db bl =>
    (bl.1.loadBlacklist cr (srcs.blacklist bl.2)).foldl (fun db d =>
      { db with blacklist := (db.blacklist.put kv d.val).1 }) db) db
  self.rewrites.zipIdx.foldl (fun db rw =>
    (rw.1.loadRewrites cr (srcs.overrides rw.2)).foldl (fun db c =>
      { db with rewrites := (db.rewrites.putAlias kv c.domain.val c.aliasName.val).1 }) db) db

/-! ### The writes of a compilation -/

/-- One write of a compilation. -/
inductive Write where
  /-- A whitelist entry. -/
  | whitelist (d : Domain)
  /-- A blacklist entry. -/
  | blacklist (d : Domain)
  /-- A rewrite. -/
  | rewrite (c : CName)

/-- A write, carried out. -/
def Write.apply (kv : RocksDB σ) (db : AdblockDB σ) : Write → AdblockDB σ
  | .whitelist d => { db with whitelist := (db.whitelist.put kv d.val).1 }
  | .blacklist d => { db with blacklist := (db.blacklist.put kv d.val).1 }
  | .rewrite c =>
      { db with rewrites := (db.rewrites.putAlias kv c.domain.val c.aliasName.val).1 }

/-- What the whitelists yield, in order. -/
def whitelisted (cr : Crates) (srcs : Sources) (self : AdblockCompiler) : List Domain :=
  self.whitelists.zipIdx.flatMap fun wl => wl.1.loadWhitelist cr (srcs.whitelist wl.2)

/-- What the blacklists yield, in order. -/
def blacklisted (cr : Crates) (srcs : Sources) (self : AdblockCompiler) : List Domain :=
  self.blacklists.zipIdx.flatMap fun bl => bl.1.loadBlacklist cr (srcs.blacklist bl.2)

/-- What the overrides yield, in order. -/
def rewritten (cr : Crates) (srcs : Sources) (self : AdblockCompiler) : List CName :=
  self.rewrites.zipIdx.flatMap fun rw => rw.1.loadRewrites cr (srcs.overrides rw.2)

/-- **The writes of a compilation**, in the order they are carried out. -/
def writes (cr : Crates) (srcs : Sources) (self : AdblockCompiler) : List Write :=
  (self.whitelisted cr srcs).map .whitelist ++ (self.blacklisted cr srcs).map .blacklist ++
    (self.rewritten cr srcs).map .rewrite

/-- A compilation is its writes, one after the other. -/
theorem compile_eq_foldl (kv : RocksDB σ) (cr : Crates) (srcs : Sources) (self : AdblockCompiler)
    (db : AdblockDB σ) :
    self.compile kv cr srcs db = (self.writes cr srcs).foldl (Write.apply kv) db := by
  simp only [writes, whitelisted, blacklisted, rewritten, List.foldl_append, List.foldl_map,
    List.foldl_flatMap, compile, Write.apply]

/-- What the sources of a list yield together: an item of one of them. -/
theorem mem_flatMap_zipIdx {α β γ : Type} {l : List α} {f : α → β} {g : β × ℕ → List γ} {a : γ} :
    a ∈ (l.map f).zipIdx.flatMap g ↔ ∃ i s, l[i]? = some s ∧ a ∈ g (f s, i) := by
  rw [List.mem_flatMap]
  constructor
  · rintro ⟨⟨b, i⟩, hb, ha⟩
    rw [List.mem_zipIdx_iff_getElem?, List.getElem?_map, Option.map_eq_some_iff] at hb
    obtain ⟨s, hs, rfl⟩ := hb
    exact ⟨i, s, hs, ha⟩
  · rintro ⟨i, s, hs, ha⟩
    refine ⟨(f s, i), ?_, ha⟩
    rw [List.mem_zipIdx_iff_getElem?, List.getElem?_map, hs]
    rfl

/-- **What the blacklists yield**: what some line of some blacklist parses to. -/
theorem mem_blacklisted_iff {cr : Crates} {srcs : Sources} {config : Config} {d : Domain} :
    d ∈ (fromConfig config).blacklisted cr srcs ↔
      ∃ i bl l, config.blacklist[i]? = some bl ∧
        l ∈ sourceLines (srcs.blacklist i) bl.fileOrUrl ∧
        (ParseBlacklist.ofFormat bl.format).parse cr l = some d := by
  rw [blacklisted, fromConfig, mem_flatMap_zipIdx]
  simp only [BlacklistCompiler.loadBlacklist, BlacklistCompiler.ofSource, loadSource_eq,
    List.mem_filterMap, exists_and_left]

/-- **What the whitelists yield**: what some line of some whitelist parses to. -/
theorem mem_whitelisted_iff {cr : Crates} {srcs : Sources} {config : Config} {d : Domain} :
    d ∈ (fromConfig config).whitelisted cr srcs ↔
      ∃ i wl l, config.whitelist[i]? = some wl ∧
        l ∈ sourceLines (srcs.whitelist i) wl.fileOrUrl ∧
        (ParseWhitelist.ofFormat wl.format).parse cr l = some d := by
  rw [whitelisted, fromConfig, mem_flatMap_zipIdx]
  simp only [WhitelistCompiler.loadWhitelist, WhitelistCompiler.ofSource, loadSource_eq,
    List.mem_filterMap, exists_and_left]

/-- **What the overrides yield**: what some line of some override source parses to. -/
theorem mem_rewritten_iff {cr : Crates} {srcs : Sources} {config : Config} {c : CName} :
    c ∈ (fromConfig config).rewritten cr srcs ↔
      ∃ i rw l, config.overrides[i]? = some rw ∧
        l ∈ sourceLines (srcs.overrides i) rw.fileOrUrl ∧
        (ParseRewrite.ofFormat rw.format).parse cr l = some c := by
  rw [rewritten, fromConfig, mem_flatMap_zipIdx]
  simp only [RewritesCompiler.loadRewrites, RewritesCompiler.ofSource, loadSource_eq,
    List.mem_filterMap, exists_and_left]

/-- The key and the value of a blacklist or whitelist entry. -/
def entry (d : Domain) : Text × Text := (normalizeName d.val, "true".toList)

/-- The key and the value of a rewrite. -/
def rewriteEntry (c : CName) : Text × Text :=
  (normalizeName c.domain.val, normalizeName c.aliasName.val)

/-- A run of writes into one of the stores leaves the others alone. -/
theorem foldl_apply {α : Type} (kv : RocksDB σ) (write : α → Write) (written : α → Text × Text)
    (set : DomainStore σ → AdblockDB σ)
    (hset : ∀ a s, (write a).apply kv (set s) = set (s.write kv (written a).1 (written a).2).1)
    (as : List α) (s : DomainStore σ) :
    (as.map write).foldl (Write.apply kv) (set s) = set (s.writeAll kv (as.map written)) := by
  induction as generalizing s with
  | nil => rfl
  | cons a as ih =>
    rw [List.map_cons, List.foldl_cons, hset, ih]
    rfl

/-- **What a compilation leaves**: three independent runs of writes, one in each
store. -/
theorem compile_eq (kv : RocksDB σ) (cr : Crates) (srcs : Sources) (self : AdblockCompiler)
    (db : AdblockDB σ) :
    self.compile kv cr srcs db =
      { blacklist := db.blacklist.writeAll kv ((self.blacklisted cr srcs).map entry)
        whitelist := db.whitelist.writeAll kv ((self.whitelisted cr srcs).map entry)
        rewrites := db.rewrites.writeAll kv ((self.rewritten cr srcs).map rewriteEntry) } := by
  have hwhitelist : ((self.whitelisted cr srcs).map Write.whitelist).foldl (Write.apply kv) db =
      { db with whitelist := db.whitelist.writeAll kv ((self.whitelisted cr srcs).map entry) } :=
    foldl_apply kv .whitelist entry (fun s => { db with whitelist := s }) (fun _ _ => rfl) _ _
  have hblacklist : ∀ db : AdblockDB σ,
      ((self.blacklisted cr srcs).map Write.blacklist).foldl (Write.apply kv) db =
        { db with blacklist := db.blacklist.writeAll kv ((self.blacklisted cr srcs).map entry) } :=
    fun db => foldl_apply kv .blacklist entry (fun s => { db with blacklist := s })
      (fun _ _ => rfl) _ _
  have hrewrites : ∀ db : AdblockDB σ,
      ((self.rewritten cr srcs).map Write.rewrite).foldl (Write.apply kv) db =
        { db with
          rewrites := db.rewrites.writeAll kv ((self.rewritten cr srcs).map rewriteEntry) } :=
    fun db => foldl_apply kv .rewrite rewriteEntry (fun s => { db with rewrites := s })
      (fun _ _ => rfl) _ _
  rw [compile_eq_foldl, writes, List.foldl_append, List.foldl_append, hwhitelist, hblacklist,
    hrewrites]

end AdblockCompiler

end BancuhDns
