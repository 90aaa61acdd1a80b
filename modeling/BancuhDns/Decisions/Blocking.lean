import BancuhDns.Engine
import BancuhDns.Names

/-!
# The blocking decision

What the engine answers about a name once a configuration has been compiled,
said without the stores: a name is blocked exactly when some line of some
blacklist parses to a pattern that matches it and no line of any whitelist does.

The route is short because the two halves meet in a key. What is written is the
key of each pattern; what is read is the list of keys of the name; and a pattern
matches a name exactly when the one is in the other
(`BancuhDns.matches_iff_mem_keys`).
-/

namespace BancuhDns

variable {σ : Type} {kv : RocksDB σ}

/-- Some line of some blacklist parses to a pattern that matches the name. -/
def BlacklistMatches (cr : Crates) (srcs : Sources) (config : Config) (n : Name) : Prop :=
  ∃ i bl l p, config.blacklist[i]? = some bl ∧
    l ∈ sourceLines (srcs.blacklist i) bl.fileOrUrl ∧
    (ParseBlacklist.ofFormat bl.format).parse cr l = some p ∧ Matches p.val n

/-- Some line of some whitelist parses to a pattern that matches the name. -/
def WhitelistMatches (cr : Crates) (srcs : Sources) (config : Config) (n : Name) : Prop :=
  ∃ i wl l p, config.whitelist[i]? = some wl ∧
    l ∈ sourceLines (srcs.whitelist i) wl.fileOrUrl ∧
    (ParseWhitelist.ofFormat wl.format).parse cr l = some p ∧ Matches p.val n

/-- **Looking a name up among patterns**: it is found exactly when one of them
matches it, whatever is written with them. -/
theorem isSome_findSome?_lastWrite_iff {α : Type} (pat value : α → Text) {as : List α} {n : Name} :
    ((keys n.text).findSome?
        (KeyValue.lastWrite (as.map fun a => (normalizeName (pat a), value a)))).isSome ↔
      ∃ a ∈ as, Matches (pat a) n := by
  rw [n.isSome_findSome?_keys_iff]
  simp only [KeyValue.isSome_lastWrite_iff, matches_iff_mem_keys]
  constructor
  · rintro ⟨k, hk, w, hw, rfl⟩
    obtain ⟨a, ha, rfl⟩ := List.mem_map.mp hw
    exact ⟨a, ha, hk⟩
  · rintro ⟨a, ha, hk⟩
    exact ⟨_, hk, _, List.mem_map_of_mem ha, rfl⟩

theorem isSome_findSome?_entries_iff {ds : List Domain} {n : Name} :
    ((keys n.text).findSome? (KeyValue.lastWrite (ds.map AdblockCompiler.entry))).isSome ↔
      ∃ d ∈ ds, Matches d.val n :=
  isSome_findSome?_lastWrite_iff Domain.val fun _ => "true".toList

theorem exists_blacklisted_matches_iff {cr : Crates} {srcs : Sources} {config : Config}
    {n : Name} :
    (∃ d ∈ (AdblockCompiler.fromConfig config).blacklisted cr srcs, Matches d.val n) ↔
      BlacklistMatches cr srcs config n := by
  simp only [AdblockCompiler.mem_blacklisted_iff, BlacklistMatches]
  constructor
  · rintro ⟨d, ⟨i, bl, l, hbl, hl, hp⟩, hm⟩
    exact ⟨i, bl, l, d, hbl, hl, hp, hm⟩
  · rintro ⟨i, bl, l, d, hbl, hl, hp, hm⟩
    exact ⟨d, ⟨i, bl, l, hbl, hl, hp⟩, hm⟩

theorem exists_whitelisted_matches_iff {cr : Crates} {srcs : Sources} {config : Config}
    {n : Name} :
    (∃ d ∈ (AdblockCompiler.fromConfig config).whitelisted cr srcs, Matches d.val n) ↔
      WhitelistMatches cr srcs config n := by
  simp only [AdblockCompiler.mem_whitelisted_iff, WhitelistMatches]
  constructor
  · rintro ⟨d, ⟨i, wl, l, hwl, hl, hp⟩, hm⟩
    exact ⟨i, wl, l, d, hwl, hl, hp, hm⟩
  · rintro ⟨i, wl, l, d, hwl, hl, hp, hm⟩
    exact ⟨d, ⟨i, wl, l, hwl, hl, hp⟩, hm⟩

/-- The engine that publishes what a configuration compiles to. -/
def compiledEngine (kv : RocksDB σ) (cr : Crates) (srcs : Sources) (config : Config)
    (db : AdblockDB σ) (configUrl : FileOrUrl) : AdblockEngine σ :=
  { db := (AdblockCompiler.fromConfig config).compile kv cr srcs db, configUrl := configUrl }

/-- The answer of a compiled configuration, whatever it is. -/
theorem isBlocked_compiledEngine (hkv : kv.LastWriteWins) (cr : Crates) (srcs : Sources)
    (config : Config) (configUrl : FileOrUrl) {db : AdblockDB σ} (hdb : db.Empty kv) (n : Name) :
    ∃ b, (compiledEngine kv cr srcs config db configUrl).isBlocked kv n.text = .ok b ∧
      (b = true ↔ BlacklistMatches cr srcs config n ∧ ¬WhitelistMatches cr srcs config n) := by
  have hcompile := AdblockCompiler.compile_eq kv cr srcs (.fromConfig config) db
  have hb := DomainStore.writeAll_holds hkv hdb.blacklist
    (((AdblockCompiler.fromConfig config).blacklisted cr srcs).map AdblockCompiler.entry)
  have hw := DomainStore.writeAll_holds hkv hdb.whitelist
    (((AdblockCompiler.fromConfig config).whitelisted cr srcs).map AdblockCompiler.entry)
  refine ⟨_, AdblockEngine.isBlocked_eq (by rw [compiledEngine, hcompile]; exact hw)
    (by rw [compiledEngine, hcompile]; exact hb) n.text, ?_⟩
  rw [Bool.and_eq_true, Bool.not_eq_true', ← Bool.not_eq_true, isSome_findSome?_entries_iff,
    isSome_findSome?_entries_iff, exists_blacklisted_matches_iff, exists_whitelisted_matches_iff]

/-- **The blocking decision, end to end**: over any last-write-wins store, a name
is blocked by a compiled configuration exactly when a blacklist line matches it
and no whitelist line does. -/
theorem isBlocked_compile_iff (hkv : kv.LastWriteWins) (cr : Crates) (srcs : Sources)
    (config : Config) (configUrl : FileOrUrl) {db : AdblockDB σ} (hdb : db.Empty kv) (n : Name) :
    (compiledEngine kv cr srcs config db configUrl).isBlocked kv n.text = .ok true ↔
      BlacklistMatches cr srcs config n ∧ ¬WhitelistMatches cr srcs config n := by
  obtain ⟨b, hb, hiff⟩ := isBlocked_compiledEngine hkv cr srcs config configUrl hdb n
  rw [hb, Except.ok.injEq, hiff]

/-- A configuration with one blacklist and nothing else. -/
def oneBlacklist (format : BlacklistFormat) : Config where
  blacklist := [⟨format, .file ⟨[]⟩⟩]
  whitelist := []
  overrides := []

/-- The world in which every source is a file with one text. -/
def fileSources (text : Text) : Sources :=
  ⟨fun _ => fileEnv text, fun _ => fileEnv text, fun _ => fileEnv text⟩

/-- `b.a.com.` -/
def subName : Name := ⟨["b".toList, "a".toList, "com".toList], by decide, by decide⟩

theorem isBlocked_compile_iff_wildcard :
    BlacklistMatches .lenient (fileSources "*.a.com".toList) (oneBlacklist .domains) subName ∧
      ¬WhitelistMatches .lenient (fileSources "*.a.com".toList) (oneBlacklist .domains) subName :=
  (isBlocked_compile_iff KeyValue.assoc_lastWriteWins .lenient (fileSources "*.a.com".toList)
    (oneBlacklist .domains) (.file ⟨[]⟩) AdblockDB.assoc_empty subName).mp (by decide)

end BancuhDns
