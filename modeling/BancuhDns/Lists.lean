import BancuhDns.Decisions.ListedNames
import BancuhDns.Lib.Patterns

/-!
# What is meant by lists

Lists as their authors think of them: names, and all names below a name, that are blocked, that
are not to be blocked, or that are rewritten to others. They are about labels, and their meaning is
said in terms of labels alone (`BancuhDns.Lists.blocks`, `BancuhDns.Lists.rewrite`), without texts,
keys or stores.

A compiled configuration that yields the entries of some lists, in their order, answers as the
lists are meant (`BancuhDns.Lists.decided_of_yields`). How entries come to be yielded, from the
text that a source has, is the subject of `BancuhDns.Lists.Lines`.
-/

namespace BancuhDns

/-! ### Entries -/

/-- What comes before the last dot of an entry. -/
def stemOf (wildcard : Bool) (name : ListedName) : Text :=
  (if wildcard then star else []) ++ name.stemText

/-- **An entry**: an ordinary name, or all names below one, that the expressions can take. -/
structure ListEntry where
  wildcard : Bool
  name : ListedName
  two_le : 2 ≤ (stemOf wildcard name).length
  le_max : (stemOf wildcard name).length ≤ 200
  tld_le : name.tld.length ≤ 6

namespace ListEntry

variable (e : ListEntry)

/-- The entry as it is written. -/
def text : Text := stemOf e.wildcard e.name ++ '.' :: e.name.tld

/-- What is meant by it. -/
def pattern : LabelPattern Text :=
  if e.wildcard then .below e.name.name.labels else .exact e.name.name.labels

theorem text_eq : e.text = (if e.wildcard then star else []) ++ e.name.text := by
  rw [text, stemOf, e.name.text_eq, List.append_assoc]

theorem pattern_of_wildcard (h : e.wildcard = true) : e.pattern = .below e.name.name.labels := by
  rw [pattern, if_pos h]

theorem pattern_of_not_wildcard (h : e.wildcard = false) :
    e.pattern = .exact e.name.name.labels := by
  rw [pattern, h]
  rfl

theorem text_of_wildcard (h : e.wildcard = true) : e.text = star ++ e.name.text := by
  rw [text_eq, if_pos h]

theorem text_of_not_wildcard (h : e.wildcard = false) : e.text = e.name.text := by
  rw [text_eq, h]
  rfl

end ListEntry

/-- A name that is listed has a dot put after it. -/
theorem ListedName.normalizeName_text (n : ListedName) : normalizeName n.text = n.name.text := by
  have hdot : ¬endsWith '.' n.text := fun hends => by
    obtain ⟨t, ht⟩ := endsWith_iff.mp hends
    rw [n.text_eq] at ht
    have htld := (append_dot_inj n.dot_notMem_tld List.not_mem_nil ht).2
    exact absurd n.two_le_tld (by simp [htld])
  rw [normalizeName_of_not hdot]
  rfl

theorem ListedName.text_ne_nil (n : ListedName) : n.text ≠ [] := by
  rw [n.text_eq]
  simp

theorem ListedName.labels_ne_nil (n : ListedName) : n.name.labels ≠ [] := by
  simp [ListedName.name]

theorem ListedName.labelsOf_text (n : ListedName) : labelsOf n.text = n.name.labels := by
  rw [← labelsOf_normalizeName, n.normalizeName_text]
  refine labelsText_inj (labelsOf_ne_nil _) n.labels_ne_nil (fun _ => dot_notMem_of_mem_labelsOf)
    n.name.dot_notMem ?_
  rw [← normalizeName_eq_labelsText, ← n.normalizeName_text]
  exact (normalizeName_of_endsWith (endsWith_iff.mpr ⟨_, n.normalizeName_text⟩)).trans
    n.normalizeName_text

/-- Names are told apart by their texts. -/
theorem Name.labels_eq_of_text_eq {n m : Name} (h : n.text = m.text) : n.labels = m.labels := by
  rw [← n.parts_text, h, m.parts_text]

/-- A name with a label `*` before the labels of another has the text of the wildcard over it. -/
theorem star_append_text (n : ListedName) :
    star ++ n.name.text = labelsText (['*'] :: n.name.labels) := by
  obtain ⟨l, ls, hls⟩ := List.exists_cons_of_ne_nil n.labels_ne_nil
  rw [Name.text, labelsText, labelsText, hls]
  simp [star]

theorem text_eq_star_append_iff {n : Name} {m : ListedName} :
    n.text = star ++ m.name.text ↔ n.labels = ['*'] :: m.name.labels := by
  rw [star_append_text]
  constructor
  · intro h
    let starred : Name := ⟨['*'] :: m.name.labels,
      fun l hl => by
        rcases List.mem_cons.mp hl with rfl | hl
        · simp
        · exact m.name.ne_nil l hl,
      fun l hl => by
        rcases List.mem_cons.mp hl with rfl | hl
        · decide
        · exact m.name.dot_notMem l hl⟩
    exact Name.labels_eq_of_text_eq (n := n) (m := starred) h
  · intro h
    rw [Name.text, h]

namespace ListEntry

variable {e e' : ListEntry} {n : Name}

/-- **An entry matches the names that it is meant for.** -/
theorem matches_text_iff : Matches e.text n ↔ e.pattern.Covers n.labels := by
  rcases hwild : e.wildcard with _ | _
  · rw [e.pattern_of_not_wildcard hwild, e.text_of_not_wildcard hwild]
    constructor
    · rintro (h | ⟨s, -, -, hs, -⟩)
      · rw [e.name.normalizeName_text] at h
        exact Name.labels_eq_of_text_eq h.symm
      · exact absurd (by rw [hs]; exact List.mem_append_left _ List.mem_cons_self)
          e.name.star_notMem
    · intro h
      have hlabels : n.labels = e.name.name.labels := h
      refine Or.inl ?_
      rw [e.name.normalizeName_text, Name.text, Name.text, hlabels]
  · rw [e.pattern_of_wildcard hwild, e.text_of_wildcard hwild]
    constructor
    · rintro (h | ⟨s, front, -, hs, hfront, hlabels⟩)
      · rw [normalizeName_star e.name.text_ne_nil, e.name.normalizeName_text] at h
        exact ⟨[['*']], List.cons_ne_nil _ _, text_eq_star_append_iff.mp h.symm⟩
      · obtain rfl := List.append_cancel_left hs
        rw [e.name.labelsOf_text] at hlabels
        exact ⟨front, hfront, hlabels⟩
    · rintro ⟨front, hfront, hlabels⟩
      exact Or.inr ⟨e.name.text, front, e.name.text_ne_nil, rfl, hfront, by
        rw [e.name.labelsOf_text, hlabels]⟩

theorem text_eq_of_pattern_eq (h : e.pattern = e'.pattern) : e.text = e'.text := by
  have htext : ∀ {n m : ListedName}, n.name.labels = m.name.labels → n.text = m.text :=
    fun h => congrArg (List.intercalate ['.']) h
  rcases hwild : e.wildcard with _ | _ <;> rcases hwild' : e'.wildcard with _ | _
  · rw [e.pattern_of_not_wildcard hwild, e'.pattern_of_not_wildcard hwild'] at h
    rw [e.text_of_not_wildcard hwild, e'.text_of_not_wildcard hwild',
      htext (LabelPattern.exact.inj h)]
  · rw [e.pattern_of_not_wildcard hwild, e'.pattern_of_wildcard hwild'] at h
    cases h
  · rw [e.pattern_of_wildcard hwild, e'.pattern_of_not_wildcard hwild'] at h
    cases h
  · rw [e.pattern_of_wildcard hwild, e'.pattern_of_wildcard hwild'] at h
    rw [e.text_of_wildcard hwild, e'.text_of_wildcard hwild', htext (LabelPattern.below.inj h)]

/-- How specific a wildcard is, which can also have the text of the name. -/
theorem specificity_of_wildcard (h : e.wildcard = true) : specificity n e.text =
    if n.labels = ['*'] :: e.name.name.labels then n.labels.length
    else e.name.name.labels.length := by
  have hnorm : normalizeName e.text = star ++ e.name.name.text := by
    rw [e.text_of_wildcard h, normalizeName_star e.name.text_ne_nil, e.name.normalizeName_text]
  have hdrop : labelsOf ((star ++ e.name.name.text).drop 2) = e.name.name.labels := by
    rw [← e.name.labelsOf_text, ← labelsOf_normalizeName e.name.text, e.name.normalizeName_text]
    rfl
  rw [specificity, hnorm, hdrop]
  exact if_congr (eq_comm.trans text_eq_star_append_iff) rfl rfl

/-- **The order of the patterns is that of the specificities.** -/
theorem specificity_lt_of_weight_lt (he : Matches e.text n) (he' : Matches e'.text n)
    (h : e.pattern.weight < e'.pattern.weight) :
    specificity n e.text < specificity n e'.text := by
  rw [matches_text_iff] at he he'
  rcases hwild : e.wildcard with _ | _
  · -- nothing is more specific than a name
    rw [e.pattern_of_not_wildcard hwild] at he h
    have hn : n.labels = e.name.name.labels := he
    rcases hwild' : e'.wildcard with _ | _
    · rw [e'.pattern_of_not_wildcard hwild'] at he' h
      have hn' : n.labels = e'.name.name.labels := he'
      simp only [LabelPattern.weight, ← hn, ← hn', lt_irrefl] at h
    · rw [e'.pattern_of_wildcard hwild'] at he' h
      have hlt := (LabelPattern.covers_below_iff.mp he').2
      simp only [LabelPattern.weight, ← hn] at h
      omega
  · rw [e.pattern_of_wildcard hwild] at he h
    have hlt := (LabelPattern.covers_below_iff.mp he).2
    rw [specificity_of_wildcard hwild]
    rcases hwild' : e'.wildcard with _ | _
    · rw [e'.pattern_of_not_wildcard hwild'] at he'
      have hn' : n.labels = e'.name.name.labels := he'
      have hspec : specificity n e'.text = n.labels.length := by
        rw [specificity, if_pos]
        rw [e'.text_of_not_wildcard hwild', e'.name.normalizeName_text, Name.text, Name.text, hn']
      have hnot : n.labels ≠ ['*'] :: e.name.name.labels := by
        intro hstar
        have hmem : ['*'] ∈ e'.name.name.labels := by rw [← hn', hstar]; exact List.mem_cons_self
        exact absurd ((e'.name.isLabel _ hmem).ldh '*' List.mem_cons_self) (by decide)
      rwa [if_neg hnot, hspec]
    · rw [e'.pattern_of_wildcard hwild'] at he' h
      have hlt' := (LabelPattern.covers_below_iff.mp he').2
      have hnot : n.labels ≠ ['*'] :: e.name.name.labels := by
        intro hstar
        rw [hstar] at hlt'
        simp only [LabelPattern.weight, List.length_cons] at h hlt'
        omega
      rw [if_neg hnot, specificity_of_wildcard hwild']
      simp only [LabelPattern.weight] at h
      split_ifs <;> omega

theorem specificity_le_of_weight_le (he : Matches e.text n) (he' : Matches e'.text n)
    (h : e.pattern.weight ≤ e'.pattern.weight) :
    specificity n e.text ≤ specificity n e'.text := by
  rcases h.lt_or_eq with hlt | heq
  · exact (specificity_lt_of_weight_lt he he' hlt).le
  · have hpattern := LabelPattern.eq_of_weight_eq (matches_text_iff.mp he)
      (matches_text_iff.mp he') heq
    rw [text_eq_of_pattern_eq hpattern]

end ListEntry

/-- **An override**: a name, or all names below one, and what they are rewritten to. -/
structure Override where
  entry : ListEntry
  aliasName : ListedName
  withinBounds : aliasName.WithinBounds

/-- What is meant by an override. -/
def Override.rule (o : Override) : LabelPattern Text × Name := (o.entry.pattern, o.aliasName.name)

/-- What its line is to yield. -/
def Override.cname (o : Override) : CName := ⟨⟨o.entry.text⟩, ⟨o.aliasName.text⟩⟩

/-! ### Lists -/

/-- **Lists**, as they are meant. -/
structure Lists where
  blacklist : List ListEntry
  whitelist : List ListEntry
  overrides : List Override

namespace Lists

/-- A name is blocked when it is on the blacklist and not on the whitelist. -/
def blocks (self : Lists) (n : Name) : Bool :=
  (self.blacklist.any fun e => e.pattern.Covers n.labels) &&
    !(self.whitelist.any fun e => e.pattern.Covers n.labels)

/-- A name is rewritten by the most specific override for it, the last of several. -/
def rewrite (self : Lists) (n : Name) : Option Name :=
  (LabelPattern.mostSpecific (self.overrides.map Override.rule) n.labels).map Prod.snd

variable {self : Lists} {n : Name}

/-- **Looking a name up among overrides** gives what the most specific one is for. -/
theorem findSome?_rewriteMap_eq (self : Lists) (n : Name) :
    (keys n.text).findSome? (rewriteMap (self.overrides.map Override.cname)) =
      (self.rewrite n).map Name.text := by
  rcases hrule : LabelPattern.mostSpecific (self.overrides.map Override.rule) n.labels with _ | r
  · rw [rewrite, hrule]
    by_contra hsome
    obtain ⟨a, ha⟩ := Option.ne_none_iff_exists'.mp hsome
    obtain ⟨c, ⟨l, r, hsplit, hmatch, -⟩, -⟩ := findSome?_rewriteMap_iff.mp ha
    have hmem : c ∈ self.overrides.map Override.cname := by rw [hsplit]; simp
    obtain ⟨o, ho, rfl⟩ := List.mem_map.mp hmem
    have hcovers : o.rule.1.Covers n.labels := ListEntry.matches_text_iff.mp hmatch
    obtain ⟨b, hb, -⟩ :=
      LabelPattern.exists_mostSpecific_of_mem (List.mem_map_of_mem ho) hcovers
    cases hrule.symm.trans hb
  · rw [rewrite, hrule]
    obtain ⟨before, after, hsplit, hcovers, hbefore, hafter⟩ :=
      LabelPattern.mostSpecific_eq_some_iff.mp hrule
    obtain ⟨l, rest, hos, rfl, hrest⟩ := List.map_eq_append_iff.mp hsplit
    obtain ⟨o, r, rfl, rfl, rfl⟩ := List.map_eq_cons_iff.mp hrest
    have hmatch : Matches o.entry.text n := ListEntry.matches_text_iff.mpr hcovers
    refine findSome?_rewriteMap_iff.mpr ⟨o.cname, ⟨l.map Override.cname, r.map Override.cname,
      by rw [hos, List.map_append, List.map_cons], hmatch, fun c hc hmatch' => ?_,
      fun c hc hmatch' => ?_⟩, o.aliasName.normalizeName_text⟩
    · obtain ⟨o', ho', rfl⟩ := List.mem_map.mp hc
      exact ListEntry.specificity_le_of_weight_le hmatch' hmatch
        (hbefore _ (List.mem_map_of_mem ho') (ListEntry.matches_text_iff.mp hmatch'))
    · obtain ⟨o', ho', rfl⟩ := List.mem_map.mp hc
      exact ListEntry.specificity_lt_of_weight_lt hmatch' hmatch
        (hafter _ (List.mem_map_of_mem ho') (ListEntry.matches_text_iff.mp hmatch'))

/-- What a source is to yield for an entry. -/
def domainOf (e : ListEntry) : Domain := ⟨e.text⟩

theorem isSome_findSome?_entries_eq (es : List ListEntry) (n : Name) :
    ((keys n.text).findSome?
        (KeyValue.lastWrite ((es.map domainOf).map AdblockCompiler.entry))).isSome =
      es.any fun e => e.pattern.Covers n.labels := by
  rw [Bool.eq_iff_iff, isSome_findSome?_entries_iff, List.any_eq_true]
  constructor
  · rintro ⟨d, hd, hmatch⟩
    obtain ⟨e, he, rfl⟩ := List.mem_map.mp hd
    exact ⟨e, he, decide_eq_true (ListEntry.matches_text_iff.mp hmatch)⟩
  · rintro ⟨e, he, hcovers⟩
    exact ⟨domainOf e, List.mem_map_of_mem he,
      ListEntry.matches_text_iff.mpr (of_decide_eq_true hcovers)⟩

variable {σ : Type} {kv : RocksDB σ}

/-- **An engine that answers as the lists are meant.** -/
structure Decided (kv : RocksDB σ) (engine : AdblockEngine σ) (lists : Lists) : Prop where
  isBlocked : ∀ n : Name, engine.isBlocked kv n.text = .ok (lists.blocks n)
  getRedirect : ∀ n : Name, engine.getRedirect kv n.text = .ok ((lists.rewrite n).map Name.text)

/-- A compiled configuration that yields the entries of some lists answers as they are meant. -/
theorem decided_of_yields (hkv : kv.LastWriteWins) {cr : Crates} {srcs : Sources}
    {config : Config} (configUrl : FileOrUrl) {db : AdblockDB σ} (hdb : db.Empty kv)
    (hblack : (AdblockCompiler.fromConfig config).blacklisted cr srcs =
      self.blacklist.map domainOf)
    (hwhite : (AdblockCompiler.fromConfig config).whitelisted cr srcs =
      self.whitelist.map domainOf)
    (hover : (AdblockCompiler.fromConfig config).rewritten cr srcs =
      self.overrides.map Override.cname) :
    Decided kv (compiledEngine kv cr srcs config db configUrl) self where
  isBlocked n := by
    have hb := DomainStore.writeAll_holds hkv hdb.blacklist
      ((self.blacklist.map domainOf).map AdblockCompiler.entry)
    have hw := DomainStore.writeAll_holds hkv hdb.whitelist
      ((self.whitelist.map domainOf).map AdblockCompiler.entry)
    rw [blocks, ← isSome_findSome?_entries_eq, ← isSome_findSome?_entries_eq]
    refine AdblockEngine.isBlocked_eq ?_ ?_ n.text
    · rw [compiledEngine, AdblockCompiler.compile_eq, hwhite]
      exact hw
    · rw [compiledEngine, AdblockCompiler.compile_eq, hblack]
      exact hb
  getRedirect n := by
    rw [getRedirect_compiledEngine hkv cr srcs config configUrl hdb, hover,
      findSome?_rewriteMap_eq]

end Lists

end BancuhDns
