import BancuhDns.Engine.Update
import BancuhDns.Lists.Lines

/-!
# From lists to answers

Lists are written over the sources of a configuration: each list over as many as one likes, each
source in a format of its own, with comments and blank lines between the entries, some sources
without an entry and some that cannot be fetched (`BancuhDns.Lists.WrittenIn`). An update that
finds such a configuration publishes an engine that answers about every name as the lists are
meant, until another one does (`BancuhDns.Lists.decided_updated`). Formats, line ends, comments
and the division into sources leave no trace.

So an edit of the lists has an effect on the names only that the edited entries cover
(`BancuhDns.Lists.edits_local`): the engine answers about the others as it did, wherever their
entries are written now.
-/

namespace BancuhDns

/-! ### A list over several sources -/

/-- **What a source has on its lines**: the items of a text that is fetched and parsed, or none, as
the source is skipped. -/
inductive SourceHas {α : Type} (IsLine : Option α → Text → Prop) (env : Env) (source : FileOrUrl) :
    List α → Prop
  | fetched {text : Text} {as : List α} (hfetch : source.toFetch.fetch env = .ok text)
      (hjoins : env.joins = true) (h : Written IsLine as text) : SourceHas IsLine env source as
  | skipped (h : Skipped env source) : SourceHas IsLine env source []

/-- What a source has is what is loaded from it. -/
theorem SourceHas.eq_map {α β : Type} {IsLine : Option α → Text → Prop} {env : Env}
    {source : FileOrUrl} {as : List α} {parse : Text → Option β} {f : α → β}
    (hnil : parse [] = none) (hparse : ∀ a line, IsLine a line → parse line = a.map f)
    (h : SourceHas IsLine env source as) : loadSource env source parse = as.map f := by
  cases h with
  | @fetched text _ hfetch hjoins h =>
    have hlines : sourceLines env source = lines text := by
      rw [sourceLines, hfetch]
      exact if_pos hjoins
    rw [loadSource_eq, hlines, h.filterMap_lines hnil hparse]
  | skipped h => exact loadSource_of_skipped h parse

variable {T : Type}

/-- **A list that is written over several sources**, a part of it in each. -/
def WrittenOver {α : Type} (OnLine : T → α → Text → Prop) (Idle : T → Text → Prop) (envs : ℕ → Env)
    (sources : List (Source T)) (as : List α) : Prop :=
  ∃ parts : List (List α), as = parts.flatten ∧
    List.Forall₂ (fun s part => SourceHas (ItemLine (OnLine s.1.format) (Idle s.1.format))
      (envs s.2) s.1.fileOrUrl part) sources.zipIdx parts

theorem flatMap_eq_of_forall₂ {α β γ : Type} {R : α → List β → Prop} {g : α → List γ}
    {f : β → γ} {xs : List α} {parts : List (List β)} (hg : ∀ x part, R x part → g x = part.map f)
    (h : List.Forall₂ R xs parts) : xs.flatMap g = parts.flatten.map f := by
  induction h with
  | nil => rfl
  | cons hx _ ih => rw [List.flatMap_cons, List.flatten_cons, List.map_append, ih, hg _ _ hx]

/-- What a list has is what is loaded from its sources, one after the other. -/
theorem WrittenOver.flatMap_eq {α β : Type} {OnLine : T → α → Text → Prop}
    {Idle : T → Text → Prop} {envs : ℕ → Env} {sources : List (Source T)} {as : List α}
    {p : T → Text → Option β} {f : α → β}
    (hitem : ∀ format a line, OnLine format a line → p format line = some (f a))
    (hidle : ∀ format line, Idle format line → p format line = none)
    (hnil : ∀ format, Idle format []) (h : WrittenOver OnLine Idle envs sources as) :
    (sources.zipIdx.flatMap fun s => loadSource (envs s.2) s.1.fileOrUrl (p s.1.format)) =
      as.map f := by
  obtain ⟨parts, rfl, hparts⟩ := h
  refine flatMap_eq_of_forall₂ (fun s part hpart => hpart.eq_map (hidle _ _ (hnil _)) ?_) hparts
  intro a line hline
  cases a with
  | none => exact hidle _ line hline
  | some a => exact hitem _ a line hline

namespace Lists

/-! ### Lists and configurations -/

/-- **Lists that are written in a configuration.** -/
structure WrittenIn (cr : Crates) (lists : Lists) (srcs : Sources) (config : Config) : Prop where
  blacklist : WrittenOver (fun format (e : ListEntry) => e.OnLine cr format.toWhitelist)
    (fun format => (SourceFormat.blacklist format).Idle) srcs.blacklist config.blacklist
    lists.blacklist
  whitelist : WrittenOver (fun format (e : ListEntry) => e.OnLine cr format)
    (fun format => (SourceFormat.whitelist format).Idle) srcs.whitelist config.whitelist
    lists.whitelist
  overrides : WrittenOver (fun format (o : Override) => o.OnLine cr format)
    (fun format => (SourceFormat.overrides format).Idle) srcs.overrides config.overrides
    lists.overrides

variable {cr : Crates} {self : Lists} {srcs : Sources} {config : Config}

section Yields

variable (hstray : cr.RejectsAsciiStray) (h : self.WrittenIn cr srcs config)

include hstray h

theorem WrittenIn.blacklisted_eq :
    (AdblockCompiler.fromConfig config).blacklisted cr srcs = self.blacklist.map domainOf := by
  rw [AdblockCompiler.blacklisted, AdblockCompiler.fromConfig, List.zipIdx_map, List.flatMap_map]
  refine h.blacklist.flatMap_eq (p := fun format l => (ParseBlacklist.ofFormat format).parse cr l)
    (fun format e line hline => ?_) (fun format line hline => ?_)
    fun format => .dotless List.not_mem_nil
  · rw [← whitelist_parse_eq]
    exact hline.parse
  · exact hline.yieldsNothing hstray

theorem WrittenIn.whitelisted_eq :
    (AdblockCompiler.fromConfig config).whitelisted cr srcs = self.whitelist.map domainOf := by
  rw [AdblockCompiler.whitelisted, AdblockCompiler.fromConfig, List.zipIdx_map, List.flatMap_map]
  exact h.whitelist.flatMap_eq (p := fun format l => (ParseWhitelist.ofFormat format).parse cr l)
    (fun format e line hline => hline.parse)
    (fun format line hline => hline.yieldsNothing hstray)
    fun format => .dotless List.not_mem_nil

theorem WrittenIn.rewritten_eq :
    (AdblockCompiler.fromConfig config).rewritten cr srcs = self.overrides.map Override.cname := by
  rw [AdblockCompiler.rewritten, AdblockCompiler.fromConfig, List.zipIdx_map, List.flatMap_map]
  exact h.overrides.flatMap_eq (p := fun format l => (ParseRewrite.ofFormat format).parse cr l)
    (fun format o line hline => hline.parse)
    (fun format line hline => hline.yieldsNothing hstray)
    fun format => .dotless List.not_mem_nil

/-- An engine that is compiled of lists answers as they are meant. -/
theorem WrittenIn.decided {σ : Type} {kv : RocksDB σ} (hkv : kv.LastWriteWins)
    (configUrl : FileOrUrl) {db : AdblockDB σ} (hdb : db.Empty kv) :
    self.Decided kv (compiledEngine kv cr srcs config db configUrl) :=
  decided_of_yields hkv configUrl hdb (h.blacklisted_eq hstray)
    (h.whitelisted_eq hstray) (h.rewritten_eq hstray)

end Yields

/-! ### Updates that find lists -/

variable {σ : Type}

/-- **A world in which lists are to be found**: with stores to be had that are empty, and a
configuration to be loaded that the lists are written in. -/
def FoundIn (self : Lists) (kv : RocksDB σ) (cr : Crates) (pf : Platform) (w : World σ)
    (configUrl : FileOrUrl) : Prop :=
  ∃ db config, AdblockDB.create w.opened = .ok db ∧ db.Empty kv ∧
    Config.load pf w.config configUrl = .ok config ∧ self.WrittenIn cr w.sources config

/-- A world in which an update fails. -/
def NotFound (pf : Platform) (w : World σ) (configUrl : FileOrUrl) : Prop :=
  CreateFails w.opened ∨ LoadFails pf w.config configUrl

variable {kv : RocksDB σ} {pf : Platform} {w : World σ} {engine : AdblockEngine σ}

/-- An update that fails leaves the engine as it is. -/
theorem runUpdate_of_notFound (h : NotFound pf w engine.configUrl) :
    (engine.runUpdate kv cr pf w).2 = engine := by
  rw [NotFound, ← create_error_iff, ← load_error_iff] at h
  simp only [AdblockEngine.runUpdate, loadDefinition]
  rcases hcreate : AdblockDB.create w.opened with err | db
  · rfl
  · rcases hload : Config.load pf w.config engine.configUrl with err | config
    · rfl
    · rw [hcreate, hload] at h
      rcases h with ⟨err, herr⟩ | ⟨err, herr⟩ <;> cases herr

/-- An update that finds lists publishes an engine that answers as they are meant. -/
theorem FoundIn.decided_runUpdate (hstray : cr.RejectsAsciiStray)
    (hkv : kv.LastWriteWins) (h : self.FoundIn kv cr pf w engine.configUrl) :
    self.Decided kv (engine.runUpdate kv cr pf w).2 := by
  obtain ⟨db, config, hcreate, hempty, hload, hwritten⟩ := h
  have hafter : (engine.runUpdate kv cr pf w).2 =
      compiledEngine kv cr w.sources config db engine.configUrl := by
    rw [AdblockEngine.runUpdate, hcreate]
    simp only [loadDefinition, hload]
    rfl
  rw [hafter]
  exact hwritten.decided hstray hkv engine.configUrl hempty

/-- **The engine after some updates**, one after the other. -/
def updated (kv : RocksDB σ) (cr : Crates) (pf : Platform) (engine : AdblockEngine σ)
    (ws : List (World σ)) : AdblockEngine σ :=
  ws.foldl (fun engine w => (engine.runUpdate kv cr pf w).2) engine

theorem configUrl_updated (kv : RocksDB σ) (cr : Crates) (pf : Platform)
    (engine : AdblockEngine σ) (ws : List (World σ)) :
    (updated kv cr pf engine ws).configUrl = engine.configUrl := by
  induction ws generalizing engine with
  | nil => rfl
  | cons w ws ih => exact (ih _).trans AdblockEngine.configUrl_runUpdate

theorem updated_of_notFound {ws : List (World σ)}
    (h : ∀ w ∈ ws, NotFound pf w engine.configUrl) : updated kv cr pf engine ws = engine := by
  induction ws with
  | nil => rfl
  | cons w ws ih =>
    obtain ⟨hfirst, hrest⟩ := List.forall_mem_cons.mp h
    rw [updated, List.foldl_cons, runUpdate_of_notFound hfirst]
    exact ih hrest

/-- `ads.com` -/
def adsCom : ListedName where
  stem := ["ads".toList]
  tld := "com".toList
  stem_ne_nil := by decide
  isLabel := by decide
  two_le_tld := by decide
  lower := by decide
  length_le := by decide

/-- `ok.ads.com` -/
def okAdsCom : ListedName where
  stem := ["ok".toList, "ads".toList]
  tld := "com".toList
  stem_ne_nil := by decide
  isLabel := by decide
  two_le_tld := by decide
  lower := by decide
  length_le := by decide

/-- `ads.com`, or all names below it. -/
def adsEntry (wildcard : Bool) : ListEntry where
  wildcard := wildcard
  name := adsCom
  two_le := by cases wildcard <;> decide
  le_max := by cases wildcard <;> decide
  tld_le := by decide

/-- `ok.ads.com` -/
def okEntry : ListEntry := ⟨false, okAdsCom, by decide, by decide, by decide⟩

/-- `ads.com` is rewritten to `ok.ads.com`. -/
def adsOverride : Override := ⟨adsEntry false, okAdsCom, by decide, by decide, by decide⟩

/-- `ads.com` is rewritten, and all names below it are blocked, perhaps with an exception. -/
def adsLists (exception : Bool) : Lists where
  blacklist := [adsEntry false, adsEntry true]
  whitelist := if exception then [okEntry] else []
  overrides := [adsOverride]

/-- A configuration with a blacklist of either format, a whitelist and a list of overrides. -/
def adsPlatform : Platform :=
  { AdblockEngine.oneBlacklistPlatform with
    fromYaml := fun _ => .ok ⟨[⟨.hosts, "hosts".toList⟩, ⟨.domains, "domains".toList⟩],
      [⟨.domains, "whitelist".toList⟩], [⟨.cname, "overrides".toList⟩]⟩ }

/-- The world in which the lists are written in that configuration. -/
def adsWorld (exception : Bool) : World (List (Text × Text)) where
  opened := ⟨.ok [], .ok [], .ok []⟩
  config := fileEnv []
  sources :=
    { blacklist := fun i => fileEnv
        (if i = 0 then "# see ads.com\n\n0.0.0.0\tads.com\r\n".toList else "*.ads.com".toList)
      whitelist := fun _ => fileEnv (if exception then "ok.ads.com\n".toList else [])
      overrides := fun _ => fileEnv "ads.com CNAME ok.ads.com.\n".toList }

/-- The line of the override. -/
def adsLine : ZoneLine where
  indent := []
  domain := adsCom.text
  before := [' ']
  keyword := "CNAME".toList
  after := [' ']
  aliasName := okAdsCom.text
  isWhitespace_indent := by decide
  not_isWhitespace_domain := by decide
  before_ne_nil := by decide
  isWhitespace_before := by decide
  isKeyword := isKeyword_upper
  after_ne_nil := by decide
  isWhitespace_after := by decide
  not_isWhitespace_aliasName := by decide

/-- The crates that reject `#` and whitespace accept the ordinary names. -/
theorem strayless_accepts (n : ListedName) : Crates.strayless.Accepts n := by
  have hclean : ∀ c ∈ n.text, isStray c = false := by
    refine forall_mem_of_splitOn (a := '.') (by decide) fun l hl c hc => ?_
    rw [n.splitOn_text] at hl
    have hldh := (n.isLabel l hl).ldh c hc
    have hne : c ≠ '#' := by
      rintro rfl
      exact absurd hldh (by decide)
    simp [isStray, hne, isWhitespace_of_isLdh hldh]
  refine ⟨if_neg fun hany => ?_, rfl⟩
  obtain ⟨c, hc, hstray⟩ := List.any_eq_true.mp hany
  rw [hclean c hc] at hstray
  cases hstray

theorem strayless_acceptsEntry (e : ListEntry) : Crates.strayless.AcceptsEntry e :=
  ⟨(strayless_accepts e.name).1, rfl⟩

theorem adsLists_writtenIn (exception : Bool) : (adsLists exception).WrittenIn .strayless
    (adsWorld exception).sources
    ⟨[⟨.hosts, .file ⟨"hosts".toList⟩⟩, ⟨.domains, .file ⟨"domains".toList⟩⟩],
      [⟨.domains, .file ⟨"whitelist".toList⟩⟩], [⟨.cname, .file ⟨"overrides".toList⟩⟩]⟩ where
  blacklist := by
    have hgroup : IsGroup ['0'] := ⟨by decide, by decide, by decide⟩
    have hip : IsQuad "0.0.0.0".toList :=
      ⟨['0'], ['0'], ['0'], ['0'], rfl, hgroup, hgroup, hgroup, hgroup⟩
    have hads : (adsEntry false).OnLine .strayless .hosts "0.0.0.0\tads.com".toList :=
      .hosts (strayless_acceptsEntry _) hip (List.cons_ne_nil '\t' []) (by decide)
    -- there is no address in the comment
    have hsilent : HostsSilent " see ads.com".toList := by
      intro b q ws r x y hfirst
      obtain ⟨c, q, rfl, hdec⟩ := hfirst.quad.exists_cons
      have hnone : ∀ c ∈ " see ads.com".toList, isDecimal c = false := by decide
      have hmem : c ∈ " see ads.com".toList := by
        rw [hfirst.split]
        simp
      rw [hnone c hmem] at hdec
      cases hdec
    have hcomment : (SourceFormat.blacklist .hosts).Idle "# see ads.com".toList :=
      .comment (List.forall_mem_nil _) hsilent (by decide)
    have hbelow : (adsEntry true).OnLine .strayless .domains "*.ads.com".toList :=
      .domains (strayless_acceptsEntry _)
    refine ⟨[[adsEntry false], [adsEntry true]], rfl, .cons (.fetched rfl rfl ?_)
      (.cons (.fetched rfl rfl ?_) .nil)⟩
    · exact @Written.line _ _ none _ "# see ads.com".toList _ _ hcomment (by decide)
        (.lf (by decide)) <|
        @Written.line _ _ none _ [] _ _ (.dotless (by decide)) (by decide) (.lf (by decide)) <|
        @Written.line _ _ (some (adsEntry false)) _ "0.0.0.0\tads.com".toList _ _ hads (by decide)
          .crlf .nil
    · exact @Written.last _ _ (some (adsEntry true)) "*.ads.com".toList hbelow (by decide)
  whitelist := by
    cases exception with
    | false => exact ⟨[[]], rfl, .cons (.fetched rfl rfl .nil) .nil⟩
    | true =>
      have hok : okEntry.OnLine .strayless .domains "ok.ads.com".toList :=
        .domains (strayless_acceptsEntry _)
      exact ⟨[[okEntry]], rfl, .cons (.fetched rfl rfl
        (@Written.line _ _ (some okEntry) _ "ok.ads.com".toList _ _ hok (by decide)
          (.lf (by decide)) .nil)) .nil⟩
  overrides := by
    have hads : adsOverride.OnLine .strayless .cname "ads.com CNAME ok.ads.com.".toList :=
      .cname (strayless_acceptsEntry _) (strayless_accepts _) (l := adsLine) rfl rfl
    exact ⟨[[adsOverride]], rfl, .cons (.fetched rfl rfl
      (@Written.line _ _ (some adsOverride) _ "ads.com CNAME ok.ads.com.".toList _ _ hads
        (by decide) (.lf (by decide)) .nil)) .nil⟩

theorem adsLists_foundIn (exception : Bool) : (adsLists exception).FoundIn (.assoc _ _ _)
    .strayless adsPlatform (adsWorld exception) (.file ⟨[]⟩) :=
  ⟨.assoc, _, rfl, AdblockDB.assoc_empty, rfl, adsLists_writtenIn exception⟩

/-- An engine without entries, for that configuration. -/
def adsEngine : AdblockEngine (List (Text × Text)) := ⟨.assoc, .file ⟨[]⟩⟩

/-- The world in which the configuration is gone. -/
def goneWorld : World (List (Text × Text)) :=
  { adsWorld true with config := ⟨fun _ _ => .error ⟨[]⟩, fun _ => .error ⟨[]⟩, true⟩ }

theorem goneWorld_notFound : NotFound adsPlatform goneWorld (.file ⟨[]⟩) :=
  Or.inr (.fetch (.unreadableFile rfl))

/-- **Lists that have the same entries for a name**, in whatever order where the order does not
count. -/
structure SameFor (n : Name) (lists lists' : Lists) : Prop where
  blacklist : ∀ e : ListEntry, e.pattern.Covers n.labels →
    (e ∈ lists.blacklist ↔ e ∈ lists'.blacklist)
  whitelist : ∀ e : ListEntry, e.pattern.Covers n.labels →
    (e ∈ lists.whitelist ↔ e ∈ lists'.whitelist)
  overrides : (lists.overrides.filter fun o => o.rule.1.Covers n.labels) =
    lists'.overrides.filter fun o => o.rule.1.Covers n.labels

variable {n : Name} {lists lists' : Lists}

theorem any_covers_congr {es es' : List ListEntry}
    (h : ∀ e : ListEntry, e.pattern.Covers n.labels → (e ∈ es ↔ e ∈ es')) :
    (es.any fun e => e.pattern.Covers n.labels) =
      es'.any fun e => e.pattern.Covers n.labels := by
  rw [Bool.eq_iff_iff, List.any_eq_true, List.any_eq_true]
  exact exists_congr fun e =>
    and_congr_left fun hcovers => h e (of_decide_eq_true hcovers)

theorem SameFor.blocks_eq (h : SameFor n lists lists') : lists'.blocks n = lists.blocks n := by
  rw [blocks, blocks, any_covers_congr h.blacklist, any_covers_congr h.whitelist]

theorem SameFor.rewrite_eq (h : SameFor n lists lists') : lists'.rewrite n = lists.rewrite n := by
  have hfilter : ∀ self : Lists,
      ((self.overrides.filter fun o => o.rule.1.Covers n.labels).map Override.rule) =
        (self.overrides.map Override.rule).filter fun r => r.1.Covers n.labels := fun self => by
    rw [List.filter_map]
    rfl
  rw [rewrite, rewrite, ← LabelPattern.mostSpecific_filter, ← hfilter, ← h.overrides, hfilter,
    LabelPattern.mostSpecific_filter]

/-- `www.ads.com.` -/
def wwwAdsCom : Name := ⟨["www".toList, "ads".toList, "com".toList], by decide, by decide⟩

/-- The exception is not one for every name below `ads.com`. -/
theorem sameFor_wwwAdsCom : SameFor wwwAdsCom (adsLists true) (adsLists false) where
  blacklist _ _ := Iff.rfl
  whitelist e hcovers := by
    have hnot : ¬okEntry.pattern.Covers wwwAdsCom.labels := by decide
    refine iff_of_false (fun he => ?_) List.not_mem_nil
    rw [List.mem_singleton.mp he] at hcovers
    exact hnot hcovers
  overrides := rfl

end Lists

end BancuhDns
