import BancuhDns.Decisions.Redirects

/-!
# What a listed line guarantees

A user puts a line on a list and expects something of the engine, whatever else is
configured. What the line guarantees is decided by the line alone: a blacklist line
has a name blocked wherever it is listed – unless a whitelist line matches the name –
exactly when it parses to a pattern that matches the name
(`BancuhDns.blockedWhereListed_iff`), and an override line has it rewritten wherever
it is listed exactly when its domain matches the name
(`BancuhDns.rewrittenWhereListed_iff`).
-/

namespace BancuhDns

/-- **A blacklist line that guarantees a name to be blocked**: over any store that
keeps what it is given, in every configuration with the line on a blacklist of that
format, and no whitelist line that matches the name. -/
def BlockedWhereListed (cr : Crates) (format : BlacklistFormat) (line : Text) (n : Name) : Prop :=
  ∀ {σ : Type} (kv : RocksDB σ) (db : AdblockDB σ) (srcs : Sources) (config : Config)
    (configUrl : FileOrUrl) (i : ℕ) (bl : Source BlacklistFormat),
    kv.LastWriteWins → db.Empty kv → config.blacklist[i]? = some bl → bl.format = format →
    line ∈ sourceLines (srcs.blacklist i) bl.fileOrUrl → ¬WhitelistMatches cr srcs config n →
      (compiledEngine kv cr srcs config db configUrl).isBlocked kv n.text = .ok true

/-- **An override line that guarantees a name to be rewritten.** -/
def RewrittenWhereListed (cr : Crates) (line : Text) (n : Name) : Prop :=
  ∀ {σ : Type} (kv : RocksDB σ) (db : AdblockDB σ) (srcs : Sources) (config : Config)
    (configUrl : FileOrUrl) (i : ℕ) (rw : Source OverrideFormat),
    kv.LastWriteWins → db.Empty kv → config.overrides[i]? = some rw →
    line ∈ sourceLines (srcs.overrides i) rw.fileOrUrl →
      ∃ a, (compiledEngine kv cr srcs config db configUrl).getRedirect kv n.text = .ok (some a)

/-! ### A list of one line -/

/-- The world in which every source is a file with one line. -/
def lineSources (line : Text) : Sources := fileSources (line ++ ['\r', '\n'])

theorem lines_of_newline_notMem {line : Text} (h : '\n' ∉ line) :
    lines (line ++ ['\r', '\n']) = [line] := by
  have hcr : '\n' ∉ line ++ ['\r'] := by simpa using h
  have hsplit : (line ++ ['\r', '\n']).splitOn '\n' = [line ++ ['\r'], []] := by
    rw [← List.singleton_append, ← List.append_assoc, List.splitOn_append_cons_self,
      List.splitOn_eq_singleton hcr, List.splitOn_nil]
    rfl
  have hstrip : stripCarriageReturn (line ++ ['\r']) = line := by
    simp [stripCarriageReturn, endsWith]
  simp only [lines, hsplit, List.dropLast, List.map_cons, List.map_nil, hstrip]
  rfl

theorem mem_sourceLines_lineSources {line l : Text} (h : '\n' ∉ line) (p : PathBuf) :
    l ∈ sourceLines (fileEnv (line ++ ['\r', '\n'])) (.file p) ↔ l = line := by
  have hlines : sourceLines (fileEnv (line ++ ['\r', '\n'])) (.file p) =
      lines (line ++ ['\r', '\n']) := rfl
  rw [hlines, lines_of_newline_notMem h, List.mem_singleton]

/-! ### What the line parses to decides -/

/-- **What a blacklist line guarantees.** -/
theorem blockedWhereListed_iff {cr : Crates} {format : BlacklistFormat} {line : Text} {n : Name}
    (hline : '\n' ∉ line) :
    BlockedWhereListed cr format line n ↔
      ∃ p, (ParseBlacklist.ofFormat format).parse cr line = some p ∧ Matches p.val n := by
  constructor
  · intro h
    -- the guarantee is put to the test on a list with the line alone
    have hwhite : ¬WhitelistMatches cr (lineSources line) (oneBlacklist format) n := by
      rintro ⟨i, wl, l, p, hwl, -⟩
      cases hwl
    have hblocked := h (.assoc _ _ _) .assoc (lineSources line) (oneBlacklist format) (.file ⟨[]⟩)
      0 _ KeyValue.assoc_lastWriteWins AdblockDB.assoc_empty rfl rfl
      ((mem_sourceLines_lineSources hline _).mpr rfl) hwhite
    obtain ⟨b, hb, hiff⟩ := isBlocked_compiledEngine KeyValue.assoc_lastWriteWins cr
      (lineSources line) (oneBlacklist format) (.file ⟨[]⟩) AdblockDB.assoc_empty n
    obtain ⟨i, bl, l, p, hbl, hl, hp, hm⟩ := (hiff.mp (Except.ok.inj (hb.symm.trans hblocked))).1
    obtain ⟨rfl, rfl⟩ : i = 0 ∧ bl = ⟨format, .file ⟨[]⟩⟩ := by
      rcases i with _ | i
      · exact ⟨rfl, (Option.some.inj hbl).symm⟩
      · cases hbl
    obtain rfl := (mem_sourceLines_lineSources hline _).mp hl
    exact ⟨p, hp, hm⟩
  · rintro ⟨p, hp, hm⟩ σ kv db srcs config configUrl i bl hkv hdb hbl rfl hl hwhite
    obtain ⟨b, hb, hiff⟩ := isBlocked_compiledEngine hkv cr srcs config configUrl hdb n
    rw [hb, hiff.mpr ⟨⟨i, bl, line, p, hbl, hl, hp, hm⟩, hwhite⟩]

/-- A compiled configuration rewrites a name when some override matches it. -/
theorem exists_getRedirect_compiledEngine_iff {σ : Type} {kv : RocksDB σ} (hkv : kv.LastWriteWins)
    (cr : Crates) (srcs : Sources) (config : Config) (configUrl : FileOrUrl) {db : AdblockDB σ}
    (hdb : db.Empty kv) (n : Name) :
    (∃ a, (compiledEngine kv cr srcs config db configUrl).getRedirect kv n.text = .ok (some a)) ↔
      ∃ c ∈ (AdblockCompiler.fromConfig config).rewritten cr srcs, Matches c.domain.val n := by
  simp only [getRedirect_compiledEngine hkv cr srcs config configUrl hdb n.text, Except.ok.injEq,
    ← Option.isSome_iff_exists]
  exact isSome_findSome?_lastWrite_iff (fun c : CName => c.domain.val) fun c =>
    normalizeName c.aliasName.val

/-- **What an override line guarantees.** -/
theorem rewrittenWhereListed_iff {cr : Crates} {line : Text} {n : Name} (hline : '\n' ∉ line) :
    RewrittenWhereListed cr line n ↔
      ∃ c, CName.parse cr line = some c ∧ Matches c.domain.val n := by
  constructor
  · intro h
    let config : Config := ⟨[], [], [⟨.cname, .file ⟨[]⟩⟩]⟩
    have hrewritten := h (.assoc _ _ _) .assoc (lineSources line) config (.file ⟨[]⟩) 0 _
      KeyValue.assoc_lastWriteWins AdblockDB.assoc_empty rfl
      ((mem_sourceLines_lineSources hline _).mpr rfl)
    obtain ⟨c, hc, hm⟩ := (exists_getRedirect_compiledEngine_iff KeyValue.assoc_lastWriteWins cr
      (lineSources line) config (.file ⟨[]⟩) AdblockDB.assoc_empty n).mp hrewritten
    obtain ⟨i, rw, l, hrw, hl, hp⟩ := AdblockCompiler.mem_rewritten_iff.mp hc
    obtain ⟨rfl, rfl⟩ : i = 0 ∧ rw = ⟨.cname, .file ⟨[]⟩⟩ := by
      rcases i with _ | i
      · exact ⟨rfl, (Option.some.inj hrw).symm⟩
      · cases hrw
    obtain rfl := (mem_sourceLines_lineSources hline _).mp hl
    exact ⟨c, hp, hm⟩
  · rintro ⟨c, hp, hm⟩ σ kv db srcs config configUrl i rw hkv hdb hrw hl
    refine (exists_getRedirect_compiledEngine_iff hkv cr srcs config configUrl hdb n).mpr
      ⟨c, AdblockCompiler.mem_rewritten_iff.mpr ⟨i, rw, line, hrw, hl, ?_⟩, hm⟩
    cases rw.format
    exact hp

end BancuhDns
