import BancuhDns.Decisions.Blocking

/-!
# The rewrite decision

What the engine rewrites a name to once a configuration has been compiled, said
without the stores: the override lines give a list of pairs, and the name is
rewritten to the alias of the last pair among the most specific ones that match.

What a text is rewritten to, be it a name or not, is said by the pair that decides for it
(`BancuhDns.Decides`), in terms of the keys that are looked up. For a name that is the last
most specific pair (`BancuhDns.decides_text_iff`).

Two orders meet here. The order of the *keys* picks the specificity – the name
itself first, then the wildcards from the longest down – and the order of the
*writes* picks the pair: sources in configuration order, lines in line order, the
last write to a key winning. That the second order is the one of the raw
configuration is `BancuhDns.rewritten_fromConfig`.
-/

namespace BancuhDns

variable {σ : Type} {kv : RocksDB σ} {pairs : List CName} {n a : Text}

/-- **The pairs of the override lines**, in the configuration order of the sources
and the line order inside a source. -/
def overridePairs (cr : Crates) (pf : Platform) (srcs : Sources) (configUrl : FileOrUrl)
    (raw : RawConfig) : List CName :=
  raw.overrides.zipIdx.flatMap fun rw =>
    match Source.tryFromRawSource pf configUrl rw.1 with
    | .ok s => (sourceLines (srcs.overrides rw.2) s.fileOrUrl).filterMap (CName.parse cr)
    | .error _ => []

/-- A computation that succeeds has succeeded at its first step. -/
theorem exists_of_bind_eq_ok {ε α β : Type} {x : Except ε α} {f : α → Except ε β} {b : β}
    (h : (x >>= f) = .ok b) : ∃ a, x = .ok a ∧ f a = .ok b := by
  rcases x with e | a
  · cases h
  · exact ⟨a, rfl, h⟩

/-- Resolving a list of sources keeps their order. -/
theorem flatMap_of_mapM_ok {ε α β γ δ : Type} {f : α → Except ε β} {g : β → γ}
    {h : γ × ℕ → List δ} : ∀ {xs : List α} {ys : List β} {k : ℕ}, xs.mapM f = .ok ys →
    ((ys.map g).zipIdx k).flatMap h =
      (xs.zipIdx k).flatMap fun x => match f x.1 with
        | .ok y => h (g y, x.2)
        | .error _ => []
  | [], ys, k, hys => by
    obtain rfl : [] = ys := Except.ok.inj hys
    rfl
  | x :: xs, ys, k, hys => by
    rw [List.mapM_cons] at hys
    obtain ⟨y, hx, hys⟩ := exists_of_bind_eq_ok hys
    obtain ⟨ys', hrest, hys⟩ := exists_of_bind_eq_ok hys
    obtain rfl : y :: ys' = ys := Except.ok.inj hys
    have ih := flatMap_of_mapM_ok (g := g) (h := h) (k := k + 1) hrest
    simp only [List.map_cons, List.zipIdx_cons, List.flatMap_cons, hx, ih]

/-- A configuration whose sources all resolve resolves each list on its own. -/
theorem overrides_of_tryFromRawConfig {pf : Platform} {configUrl : FileOrUrl} {raw : RawConfig}
    {config : Config} (h : Config.tryFromRawConfig pf configUrl raw = .ok config) :
    raw.overrides.mapM (Source.tryFromRawSource pf configUrl) = .ok config.overrides := by
  rw [Config.tryFromRawConfig] at h
  obtain ⟨b, -, h⟩ := exists_of_bind_eq_ok h
  obtain ⟨w, -, h⟩ := exists_of_bind_eq_ok h
  obtain ⟨o, ho, h⟩ := exists_of_bind_eq_ok h
  obtain rfl := Except.ok.inj h
  exact ho

/-- **The pairs written are the pairs of the raw configuration**, in its order. -/
theorem rewritten_fromConfig {cr : Crates} {pf : Platform} {srcs : Sources}
    {configUrl : FileOrUrl} {raw : RawConfig} {config : Config}
    (h : Config.tryFromRawConfig pf configUrl raw = .ok config) :
    (AdblockCompiler.fromConfig config).rewritten cr srcs =
      overridePairs cr pf srcs configUrl raw := by
  have hfmt : ∀ f : OverrideFormat, ParseRewrite.ofFormat f = .cname := fun f => by cases f; rfl
  rw [AdblockCompiler.rewritten, AdblockCompiler.fromConfig,
    flatMap_of_mapM_ok (overrides_of_tryFromRawConfig h), overridePairs]
  refine List.flatMap_congr fun rw _ => ?_
  cases Source.tryFromRawSource pf configUrl rw.1 with
  | error e => rfl
  | ok s =>
    simp only [RewritesCompiler.loadRewrites, RewritesCompiler.ofSource, loadSource_eq, hfmt]
    rfl

/-! ### The last most specific pair -/

/-- **The pair that decides**: it matches the name, no pair is more specific, and
none after it is as specific. -/
def LastMostSpecific (pairs : List CName) (n : Name) (c : CName) : Prop :=
  ∃ l r, pairs = l ++ c :: r ∧ Matches c.domain.val n ∧
    (∀ c' ∈ l, Matches c'.domain.val n →
      specificity n c'.domain.val ≤ specificity n c.domain.val) ∧
    ∀ c' ∈ r, Matches c'.domain.val n →
      specificity n c'.domain.val < specificity n c.domain.val

/-- **The override that decides for a text**: its pattern is one that the text is looked up
under, no override has a pattern that is looked up before, and none after it has the same. -/
def Decides (pairs : List CName) (n : Text) (c : CName) : Prop :=
  ∃ l r, pairs = l ++ c :: r ∧ normalizeName c.domain.val ∈ keys n ∧
    (∀ c' ∈ pairs, (keys n).idxOf (normalizeName c.domain.val) ≤
      (keys n).idxOf (normalizeName c'.domain.val)) ∧
    ∀ c' ∈ r, normalizeName c'.domain.val ≠ normalizeName c.domain.val

/-- What the store holds of a list of pairs. -/
def rewriteMap (pairs : List CName) : Text → Option Text :=
  KeyValue.lastWrite (pairs.map AdblockCompiler.rewriteEntry)

theorem rewriteMap_eq_some_iff {pairs : List CName} {k a : Text} :
    rewriteMap pairs k = some a ↔
      ∃ l c r, pairs = l ++ c :: r ∧ normalizeName c.domain.val = k ∧
        normalizeName c.aliasName.val = a ∧ ∀ c' ∈ r, normalizeName c'.domain.val ≠ k := by
  rw [rewriteMap, KeyValue.lastWrite_eq_some_iff]
  constructor
  · rintro ⟨l', r', hsplit, hr⟩
    obtain ⟨l, rest, rfl, rfl, hrest⟩ := List.map_eq_append_iff.mp hsplit
    obtain ⟨c, r, rfl, hc, rfl⟩ := List.map_eq_cons_iff.mp hrest
    have hkey : normalizeName c.domain.val = k := congrArg Prod.fst hc
    have hval : normalizeName c.aliasName.val = a := congrArg Prod.snd hc
    exact ⟨l, c, r, rfl, hkey, hval, fun c' hc' => hr _ (List.mem_map_of_mem hc')⟩
  · rintro ⟨l, c, r, rfl, rfl, rfl, hr⟩
    refine ⟨l.map AdblockCompiler.rewriteEntry, r.map AdblockCompiler.rewriteEntry, ?_, ?_⟩
    · rw [List.map_append, List.map_cons]
      rfl
    · intro w hw
      obtain ⟨c', hc', rfl⟩ := List.mem_map.mp hw
      exact hr c' hc'

/-- A key has a value exactly when some override has it. -/
theorem isSome_rewriteMap_iff {k : Text} :
    (rewriteMap pairs k).isSome ↔ ∃ c ∈ pairs, normalizeName c.domain.val = k := by
  rw [rewriteMap, KeyValue.isSome_lastWrite_iff]
  constructor
  · rintro ⟨w, hw, rfl⟩
    obtain ⟨c, hc, rfl⟩ := List.mem_map.mp hw
    exact ⟨c, hc, rfl⟩
  · rintro ⟨c, hc, rfl⟩
    exact ⟨_, List.mem_map_of_mem hc, rfl⟩

/-- **A lookup reports the override that decides**, for any text. -/
theorem findSome?_rewriteMap_iff_decides :
    (keys n).findSome? (rewriteMap pairs) = some a ↔
      ∃ c, Decides pairs n c ∧ normalizeName c.aliasName.val = a := by
  rw [KeyValue.findSome?_eq_some_iff_idxOf]
  constructor
  · rintro ⟨k, hmem, hk, hfirst⟩
    obtain ⟨l, c, r, hpairs, rfl, hval, hr⟩ := rewriteMap_eq_some_iff.mp hk
    refine ⟨c, ⟨l, r, hpairs, hmem, fun c' hc' => ?_, hr⟩, hval⟩
    exact hfirst _ (isSome_rewriteMap_iff.mpr ⟨c', hc', rfl⟩)
  · rintro ⟨c, ⟨l, r, hpairs, hmem, hfirst, hr⟩, hval⟩
    refine ⟨_, hmem, rewriteMap_eq_some_iff.mpr ⟨l, c, r, hpairs, rfl, hval, hr⟩,
      fun k' hk' => ?_⟩
    obtain ⟨c', hc', rfl⟩ := isSome_rewriteMap_iff.mp hk'
    exact hfirst c' hc'

theorem Decides.mem {c : CName} (h : Decides pairs n c) : c ∈ pairs := by
  obtain ⟨l, r, rfl, -⟩ := h
  simp

/-- For a name, the override that decides is the last most specific one. -/
theorem decides_text_iff {name : Name} {c : CName} :
    Decides pairs name.text c ↔ LastMostSpecific pairs name c := by
  constructor
  · rintro ⟨l, r, rfl, hmem, hfirst, hr⟩
    have hmatch := matches_iff_mem_keys.mpr hmem
    have hle : ∀ c' ∈ l ++ c :: r, Matches c'.domain.val name →
        specificity name c'.domain.val ≤ specificity name c.domain.val := fun c' hc' =>
      (idxOf_keys_le_iff hmatch).mp (hfirst c' hc')
    refine ⟨l, r, rfl, hmatch, fun c' hc' => hle c' (by simp [hc']), fun c' hc' hmatch' => ?_⟩
    refine lt_of_le_of_ne (hle c' (by simp [hc']) hmatch') fun heq => ?_
    -- patterns as specific as each other have one key
    refine hr c' hc' ?_
    rw [(name.normalizeName_of_matches hmatch').1, (name.normalizeName_of_matches hmatch).1,
      Name.rank, Name.rank, heq]
  · rintro ⟨l, r, rfl, hmatch, hl, hr⟩
    refine ⟨l, r, rfl, matches_iff_mem_keys.mp hmatch,
      fun c' hc' => (idxOf_keys_le_iff hmatch).mpr ?_, fun c' hc' heq => ?_⟩
    · intro hmatch'
      rcases List.mem_append.mp hc' with hc' | hc'
      · exact hl c' hc' hmatch'
      · rcases List.mem_cons.mp hc' with rfl | hc'
        · exact le_rfl
        · exact (hr c' hc' hmatch').le
    · have hmatch' : Matches c'.domain.val name :=
        matches_iff_mem_keys.mpr (heq ▸ matches_iff_mem_keys.mp hmatch)
      exact (hr c' hc' hmatch').ne (specificity_congr heq)

/-- **A lookup reports the last most specific pair.** -/
theorem findSome?_rewriteMap_iff {name : Name} :
    (keys name.text).findSome? (rewriteMap pairs) = some a ↔
      ∃ c, LastMostSpecific pairs name c ∧ normalizeName c.aliasName.val = a := by
  simp only [findSome?_rewriteMap_iff_decides, decides_text_iff]

/-- Something decides exactly when some pair matches. -/
theorem exists_lastMostSpecific_iff {pairs : List CName} {n : Name} :
    (∃ c, LastMostSpecific pairs n c) ↔ ∃ c ∈ pairs, Matches c.domain.val n := by
  constructor
  · rintro ⟨c, l, r, rfl, hmatch, -, -⟩
    exact ⟨c, by simp, hmatch⟩
  · rintro ⟨c, hc, hmatch⟩
    have hkey := matches_iff_mem_keys.mp hmatch
    have hsome : ((keys n.text).findSome? (rewriteMap pairs)).isSome := by
      rw [n.isSome_findSome?_keys_iff]
      exact ⟨_, hkey, isSome_rewriteMap_iff.mpr ⟨c, hc, rfl⟩⟩
    obtain ⟨a, ha⟩ := Option.isSome_iff_exists.mp hsome
    obtain ⟨c', hc', -⟩ := findSome?_rewriteMap_iff.mp ha
    exact ⟨c', hc'⟩

/-- What a compiled configuration rewrites a text to. -/
theorem getRedirect_compiledEngine (hkv : kv.LastWriteWins) (cr : Crates) (srcs : Sources)
    (config : Config) (configUrl : FileOrUrl) {db : AdblockDB σ} (hdb : db.Empty kv) (n : Text) :
    (compiledEngine kv cr srcs config db configUrl).getRedirect kv n = .ok ((keys n).findSome?
      (rewriteMap ((AdblockCompiler.fromConfig config).rewritten cr srcs))) := by
  have hrw := DomainStore.writeAll_holds hkv hdb.rewrites
    (((AdblockCompiler.fromConfig config).rewritten cr srcs).map AdblockCompiler.rewriteEntry)
  refine AdblockEngine.getRedirect_eq ?_ n
  rw [compiledEngine, AdblockCompiler.compile_eq]
  exact hrw

/-- **Any text is rewritten to the alias of the pair that decides for it.** -/
theorem getRedirect_eq_some_iff (hkv : kv.LastWriteWins) (cr : Crates) (srcs : Sources)
    (config : Config) (configUrl : FileOrUrl) {db : AdblockDB σ} (hdb : db.Empty kv) :
    (compiledEngine kv cr srcs config db configUrl).getRedirect kv n = .ok (some a) ↔
      ∃ c, Decides ((AdblockCompiler.fromConfig config).rewritten cr srcs) n c ∧
        normalizeName c.aliasName.val = a := by
  rw [getRedirect_compiledEngine hkv cr srcs config configUrl hdb, Except.ok.injEq]
  exact findSome?_rewriteMap_iff_decides

/-- **The rewrite decision, end to end**: over any last-write-wins store, a name
is rewritten by a compiled configuration exactly when some pair matches it, and
then to the alias – with its trailing dot – of the last most specific pair. -/
theorem getRedirect_compile_iff (hkv : kv.LastWriteWins) (cr : Crates) (pf : Platform)
    (srcs : Sources) (configUrl : FileOrUrl) {raw : RawConfig} {config : Config}
    (hraw : Config.tryFromRawConfig pf configUrl raw = .ok config) {db : AdblockDB σ}
    (hdb : db.Empty kv) (n : Name) :
    ((∃ a, (compiledEngine kv cr srcs config db configUrl).getRedirect kv n.text =
        .ok (some a)) ↔
      ∃ c ∈ overridePairs cr pf srcs configUrl raw, Matches c.domain.val n) ∧
    ∀ a, (compiledEngine kv cr srcs config db configUrl).getRedirect kv n.text =
        .ok (some a) ↔
      ∃ c, LastMostSpecific (overridePairs cr pf srcs configUrl raw) n c ∧
        normalizeName c.aliasName.val = a := by
  have hget := getRedirect_compiledEngine hkv cr srcs config configUrl hdb n.text
  rw [rewritten_fromConfig hraw] at hget
  have hiff : ∀ a, (compiledEngine kv cr srcs config db configUrl).getRedirect kv n.text =
      .ok (some a) ↔ ∃ c, LastMostSpecific (overridePairs cr pf srcs configUrl raw) n c ∧
        normalizeName c.aliasName.val = a := by
    intro a
    rw [hget, Except.ok.injEq]
    exact findSome?_rewriteMap_iff
  refine ⟨?_, hiff⟩
  rw [← exists_lastMostSpecific_iff]
  constructor
  · rintro ⟨a, ha⟩
    obtain ⟨c, hc, -⟩ := (hiff a).mp ha
    exact ⟨c, hc⟩
  · rintro ⟨c, hc⟩
    exact ⟨_, (hiff _).mpr ⟨c, hc, rfl⟩⟩

/-- A platform without URLs, on which every path exists. -/
def Platform.plain : Platform where
  parseUrl _ := none
  joinUrl u _ := .ok u
  parent _ := none
  joinPath p _ := p
  pathExists _ := true
  fromYaml _ := .error ⟨[]⟩

theorem getRedirect_compile_iff_exact_beats_wildcard :
    ∃ c, LastMostSpecific
        (overridePairs .lenient .plain
          (fileSources "b.a.com CNAME yy.com.\n*.a.com CNAME xx.com.".toList) (.file ⟨[]⟩)
          ⟨[], [], [⟨.cname, "zone".toList⟩]⟩) subName c ∧
      normalizeName c.aliasName.val = "yy.com.".toList :=
  ((getRedirect_compile_iff KeyValue.assoc_lastWriteWins .lenient .plain
    (fileSources "b.a.com CNAME yy.com.\n*.a.com CNAME xx.com.".toList) (.file ⟨[]⟩)
    (show Config.tryFromRawConfig .plain (.file ⟨[]⟩) ⟨[], [], [⟨.cname, "zone".toList⟩]⟩ = .ok _
      from rfl) AdblockDB.assoc_empty subName).2 _).mp (by decide)

end BancuhDns
