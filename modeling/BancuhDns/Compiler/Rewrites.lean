import BancuhDns.Compiler.Zones

/-!
# Where a rewrite points

A zone line rewrites the name that is written on it to the alias that is written on it, or
it should. The expression wants a dot after the alias, but not the end of the line: where
the last label of the alias is none that the expression takes, the alias is cut at the last
one that is, and the rewrite points to somebody else's name (`BancuhDns.rewrite_astray`). And
of a stem of more than 200 characters the beginning is cut off.

There is nothing else that can go wrong (`BancuhDns.rewrite_exact_iff`): short of that, the
line yields the two names or nothing.
-/

namespace BancuhDns

/-- **A name of two labels or more**, of lower-case letters, digits and inner hyphens: what
comes before its last dot, and its last label. -/
structure DottedName where
  stem : Text
  last : Text
  isLdhName : IsLdhName (stem ++ '.' :: last)
  dot_notMem : '.' ∉ last

namespace DottedName

variable (n : DottedName)

/-- The name as it is written. -/
def text : Text := n.stem ++ '.' :: n.last

/-- The expression can take a piece of the name that ends with it: its last label is two to
six lower-case letters, and there are two characters before the last dot. -/
def IsTaken : Prop := 2 ≤ n.stem.length ∧ IsTld n.last

/-- The name is within the bounds of the expression. -/
def WithinBounds : Prop := 2 ≤ n.stem.length ∧ n.stem.length ≤ 200 ∧ IsTld n.last

/-- **Some label of the name can end an alias**: a label after the first, of two to six
lower-case letters, with 2 to 200 characters before its dot. -/
def HasAlias : Prop :=
  ∃ s t r, n.text ++ ['.'] = s ++ '.' :: (t ++ '.' :: r) ∧ 2 ≤ s.length ∧ s.length ≤ 200 ∧ IsTld t

variable {n}

theorem not_isWhitespace : ∀ c ∈ n.text, isWhitespace c = false := n.isLdhName.not_isWhitespace

theorem star_notMem : '*' ∉ n.text := n.isLdhName.star_notMem

theorem WithinBounds.isField (h : n.WithinBounds) : IsField n.text :=
  ⟨n.stem, n.last, rfl, h.1, h.2.1, h.2.2⟩

end DottedName

/-- **What the crates do with names** of one or more such labels: accept them, and change
none. -/
def Crates.KeepsNames (cr : Crates) : Prop :=
  ∀ s, IsLdhName s → cr.parseDomainName s = some s ∧ cr.domainToAscii s = some s

theorem Crates.lenient_keepsNames : Crates.lenient.KeepsNames := fun _ _ => ⟨rfl, rfl⟩

/-- A field that the crates keep is read as it is. -/
theorem parse_field {cr : Crates} {x t : Text} (h2 : 2 ≤ x.length) (hmax : x.length ≤ 200)
    (ht : IsTld t) (hparse : cr.parseDomainName (x ++ '.' :: t) = some (x ++ '.' :: t))
    (hascii : cr.domainToAscii (x ++ '.' :: t) = some (x ++ '.' :: t))
    (hspace : ∀ c ∈ x ++ '.' :: t, isWhitespace c = false) (hstar : '*' ∉ x ++ '.' :: t) :
    Domain.parse cr (x ++ '.' :: t) = some ⟨x ++ '.' :: t⟩ := by
  have hnl : '\n' ∉ x := fun hmem =>
    absurd (hspace '\n' (List.mem_append_left _ hmem)) (by decide)
  rw [parse_eq, domainCapture_field h2 hmax hnl ht, Option.bind_some]
  exact readDomain_eq_self hparse hascii hspace hstar

/-- A name within the bounds is read as it is written. -/
theorem DottedName.WithinBounds.parse {cr : Crates} (hcr : cr.KeepsNames) {n : DottedName}
    (h : n.WithinBounds) : Domain.parse cr n.text = some ⟨n.text⟩ :=
  parse_field h.1 h.2.1 h.2.2 (hcr _ n.isLdhName).1 (hcr _ n.isLdhName).2 n.not_isWhitespace
    n.star_notMem

/-! ### What is captured of a zone line -/

/-- **The two fields that are captured**: the end of the domain, and a label of the alias
with all that comes before it – unless that is too short, and whitespace makes up for it. -/
structure ZoneLine.Captures (l : ZoneLine) (m : Text × Text) (x t y t' : Text) : Prop where
  domain_eq : m.1 = x ++ '.' :: t
  end_domain : ∃ b, b ++ (x ++ '.' :: t) = l.indent ++ l.domain
  two_le : 2 ≤ x.length
  le_max : x.length ≤ 200
  tld : IsTld t
  alias_eq : trim m.2 = y ++ '.' :: t'
  begin_target : ∃ r, l.target = y ++ '.' :: (t' ++ '.' :: r)
  le_max' : y.length ≤ 200
  tld' : IsTld t'
  two_le' : (∃ x t r, FieldAt l.target x t ('.' :: r)) → 2 ≤ y.length

theorem ZoneLine.exists_captures {l : ZoneLine} {m : Text × Text}
    (h : cnameCapture l.text = some m) : ∃ x t y t', l.Captures m x t y t' := by
  obtain ⟨b, x, t, s, w, k, w', r, x', t', rest, hfirst, hmost, ⟨halias, -⟩, hd, ha⟩ :=
    cnameCapture_eq_some_iff.mp h
  obtain ⟨hsplit, rfl⟩ := hfirst.toCNameAt.of_zoneLine
  obtain ⟨v, -, hfield⟩ := hfirst.field
  obtain ⟨u, hafter, rfl⟩ := hmost.toTargetAt.of_zoneLine
  have hu : ∀ c ∈ u, isWhitespace c := fun c hc =>
    l.isWhitespace_after c (by rw [hafter]; exact List.mem_append_right _ hc)
  obtain ⟨y, rfl, htarget, htrim⟩ := halias.of_zoneLine hu
  have hmax := halias.stem.le_max
  rw [List.length_append] at hmax
  refine ⟨x, t, y, t', hd, ⟨b, hsplit⟩, hfield.stem.two_le, hfield.stem.le_max, hfield.tld,
    by rw [ha, htrim], ⟨rest, htarget⟩, by omega, halias.tld, fun hfield' => ?_⟩
  obtain rfl : u = [] := by simpa using hmost.eq_target hfield'
  exact halias.stem.two_le

section Line

variable (d a : DottedName) {w₁ w₂ : Text} (hne₁ : w₁ ≠ []) (hw₁ : ∀ c ∈ w₁, isWhitespace c)
  (hne₂ : w₂ ≠ []) (hw₂ : ∀ c ∈ w₂, isWhitespace c)

/-- **The line that rewrites `d` to `a`.** -/
def rewriteLine : ZoneLine where
  indent := []
  domain := d.text
  before := w₁
  keyword := "CNAME".toList
  after := w₂
  aliasName := a.text
  isWhitespace_indent := List.forall_mem_nil _
  not_isWhitespace_domain := d.not_isWhitespace
  before_ne_nil := hne₁
  isWhitespace_before := hw₁
  isKeyword := isKeyword_upper
  after_ne_nil := hne₂
  isWhitespace_after := hw₂
  not_isWhitespace_aliasName := a.not_isWhitespace

theorem DottedName.HasAlias.fieldAt {n : DottedName} (h : n.HasAlias) :
    ∃ x t r, FieldAt (n.text ++ ['.']) x t ('.' :: r) := by
  obtain ⟨s, t, r, hsplit, h2, hmax, ht⟩ := h
  have hspace : ∀ c ∈ s, isWhitespace c = false := fun c hc => by
    have hmem : c ∈ n.text ++ ['.'] := by rw [hsplit]; exact List.mem_append_left _ hc
    rcases List.mem_append.mp hmem with hmem | hmem
    · exact n.not_isWhitespace c hmem
    · rw [List.mem_singleton.mp hmem]
      decide
  exact ⟨s, t, r, hsplit ▸ FieldAt.of_not_isWhitespace hspace h2 hmax ht⟩

variable {d a}

omit hne₁ hw₁ hne₂ hw₂ in
/-- What can be taken of a name, with the end of its stem. -/
theorem DottedName.IsTaken.split (h : d.IsTaken) :
    ∃ b x, d.text = b ++ (x ++ '.' :: d.last) ∧ 2 ≤ x.length ∧ x.length ≤ 200 := by
  obtain ⟨h2, -⟩ := h
  refine ⟨d.stem.take (d.stem.length - 200), d.stem.drop (d.stem.length - 200), ?_, ?_, ?_⟩
  · rw [DottedName.text, ← List.append_assoc, List.take_append_drop]
  · rw [List.length_drop]
    omega
  · rw [List.length_drop]
    omega

theorem ZoneLine.Captures.isTaken {m : Text × Text} {x t y t' : Text}
    (hc : (rewriteLine d a hne₁ hw₁ hne₂ hw₂).Captures m x t y t') : d.IsTaken := by
  obtain ⟨b, hb⟩ := hc.end_domain
  rw [← List.append_assoc] at hb
  obtain ⟨hstem, rfl⟩ := append_dot_inj hc.tld.dot_notMem d.dot_notMem hb
  refine ⟨?_, hc.tld⟩
  have h2 := hc.two_le
  rw [← hstem, List.length_append]
  omega

theorem ZoneLine.Captures.hasAlias {m : Text × Text} {x t y t' : Text}
    (hc : (rewriteLine d a hne₁ hw₁ hne₂ hw₂).Captures m x t y t') (h2 : 2 ≤ y.length) :
    a.HasAlias := by
  obtain ⟨r, hr⟩ := hc.begin_target
  exact ⟨y, t', r, hr, h2, hc.le_max', hc.tld'⟩

/-- **With crates that accept anything**, the line yields a piece of either name. -/
theorem exists_parse_rewriteLine (hd : d.IsTaken) (ha : a.HasAlias) :
    ∃ x t y t', x.length ≤ 200 ∧ IsTld t ∧ 2 ≤ y.length ∧ y.length ≤ 200 ∧ IsTld t' ∧
      CName.parse .lenient (rewriteLine d a hne₁ hw₁ hne₂ hw₂).text =
        some ⟨⟨x ++ '.' :: t⟩, ⟨y ++ '.' :: t'⟩⟩ := by
  set l := rewriteLine d a hne₁ hw₁ hne₂ hw₂ with hl
  have hsome : cnameCapture l.text ≠ none := fun hnone => by
    obtain ⟨b, x, hsplit, h2, hmax⟩ := hd.split
    exact cnameCapture_eq_none_iff.mp hnone _ _ _ _ (ZoneLine.cnameAt (l := l) rfl hsplit h2 hmax
      hd.2 ⟨_, _, _, _, ZoneLine.targetAt ha.fieldAt⟩)
  obtain ⟨m, hm⟩ := Option.ne_none_iff_exists'.mp hsome
  obtain ⟨x, t, y, t', hc⟩ := ZoneLine.exists_captures hm
  have h2 := hc.two_le' ha.fieldAt
  obtain ⟨b, hb⟩ := hc.end_domain
  obtain ⟨r, hr⟩ := hc.begin_target
  -- the letters of the two pieces are letters of the names
  have hx : ∀ c ∈ x ++ '.' :: t, c ∈ d.text := fun c hmem => by
    have hmem : c ∈ b ++ (x ++ '.' :: t) := List.mem_append_right _ hmem
    rwa [hb] at hmem
  have hy : ∀ c ∈ y ++ '.' :: t', c ∈ a.text := fun c hmem => by
    have hsplit : a.text ++ ['.'] = (y ++ '.' :: t') ++ '.' :: r := hr.trans (by simp)
    obtain ⟨u, hu, -⟩ := exists_append_of_length_le hsplit (by
      have hlen := congrArg List.length hsplit
      simp only [List.length_append, List.length_cons, List.length_nil] at hlen ⊢
      omega)
    rw [hu]
    exact List.mem_append_left u hmem
  refine ⟨x, t, y, t', hc.le_max, hc.tld, h2, hc.le_max', hc.tld', ?_⟩
  have hspace : ∀ c ∈ x ++ '.' :: t, isWhitespace c = false :=
    fun c hmem => d.not_isWhitespace c (hx c hmem)
  rw [cname_parse_eq, hm, Option.bind_some, hc.domain_eq, hc.alias_eq, trim_eq_self hspace,
    parse_field hc.two_le hc.le_max hc.tld rfl rfl hspace fun h => d.star_notMem (hx _ h),
    parse_field h2 hc.le_max' hc.tld' rfl rfl (fun c h => a.not_isWhitespace c (hy c h))
      fun h => a.star_notMem (hy _ h)]
  rfl

end Line

/-- **Which rewrites point where they are written to.** -/
theorem rewrite_exact_iff (d a : DottedName) {w₁ w₂ : Text} (hne₁ : w₁ ≠ [])
    (hw₁ : ∀ c ∈ w₁, isWhitespace c) (hne₂ : w₂ ≠ []) (hw₂ : ∀ c ∈ w₂, isWhitespace c) :
    (∀ cr : Crates, cr.KeepsNames → ∀ c,
      CName.parse cr (d.text ++ (w₁ ++ ("CNAME".toList ++ (w₂ ++ (a.text ++ ['.']))))) = some c →
        c.domain.val = d.text ∧ c.aliasName.val = a.text) ↔
      (d.IsTaken → a.HasAlias → d.stem.length ≤ 200 ∧ a.WithinBounds) := by
  set l := rewriteLine d a hne₁ hw₁ hne₂ hw₂ with hl
  constructor
  · intro h hd ha
    obtain ⟨x, t, y, t', hmax, ht, h2, hmax', ht', hparse⟩ :=
      exists_parse_rewriteLine hne₁ hw₁ hne₂ hw₂ hd ha
    obtain ⟨hdomain, halias⟩ := h .lenient Crates.lenient_keepsNames _ hparse
    obtain ⟨rfl, -⟩ := append_dot_inj ht.dot_notMem d.dot_notMem hdomain
    obtain ⟨rfl, rfl⟩ := append_dot_inj ht'.dot_notMem a.dot_notMem halias
    exact ⟨hmax, h2, hmax', ht'⟩
  · intro h cr hcr c hparse
    change CName.parse cr l.text = some c at hparse
    rw [cname_parse_eq, Option.bind_eq_some_iff] at hparse
    obtain ⟨m, hm, hparse⟩ := hparse
    obtain ⟨d', hd', hparse⟩ := Option.bind_eq_some_iff.mp hparse
    obtain ⟨a', ha', rfl⟩ := Option.map_eq_some_iff.mp hparse
    obtain ⟨x, t, y, t', hc⟩ := ZoneLine.exists_captures hm
    have htaken : d.IsTaken := hc.isTaken hne₁ hw₁ hne₂ hw₂
    have h2 : 2 ≤ y.length := by
      -- a shorter alias is not captured again
      by_contra hshort
      rw [hc.alias_eq, parse_eq, domainCapture_short (not_le.mp hshort) hc.tld'.dot_notMem] at ha'
      cases ha'
    obtain ⟨hmax, ha⟩ := h htaken (hc.hasAlias hne₁ hw₁ hne₂ hw₂ h2)
    have hd : d.WithinBounds := ⟨htaken.1, hmax, htaken.2⟩
    obtain ⟨m', hm', htrim, htrim'⟩ := ZoneLine.cnameCapture_eq (l := l) hd.isField ha.isField
    obtain rfl := Option.some.inj (hm.symm.trans hm')
    rw [htrim] at hd'
    rw [htrim'] at ha'
    exact ⟨congrArg Domain.val (Option.some.inj (hd'.symm.trans (hd.parse hcr))),
      congrArg Domain.val (Option.some.inj (ha'.symm.trans (ha.parse hcr)))⟩

/-! ### A rewrite of the tests of the repository, and one that goes astray -/

def wwwBing : DottedName := ⟨"www.bing".toList, "com".toList, by decide, by decide⟩

def strictBing : DottedName := ⟨"strict.bing".toList, "com".toList, by decide, by decide⟩

theorem rewrite_exact_bing :
    ∃ c, CName.parse .lenient "www.bing.com CNAME strict.bing.com.".toList = some c ∧
      c.domain.val = "www.bing.com".toList ∧ c.aliasName.val = "strict.bing.com".toList := by
  have hparse : CName.parse .lenient "www.bing.com CNAME strict.bing.com.".toList =
      some ⟨⟨"www.bing.com".toList⟩, ⟨"strict.bing.com".toList⟩⟩ := by decide
  have hbounds : strictBing.WithinBounds := ⟨by decide, by decide, by decide, by decide, by decide⟩
  exact ⟨_, hparse, (rewrite_exact_iff wwwBing strictBing (List.cons_ne_nil ' ' []) (by decide)
    (List.cons_ne_nil ' ' []) (by decide)).mpr (fun _ _ => ⟨by decide, hbounds⟩) .lenient
    Crates.lenient_keepsNames _ hparse⟩

/-- A name whose last label is too long for the expression. -/
def strictExample : DottedName :=
  ⟨"strict.bing.com".toList, "example".toList, by decide, by decide⟩

/-- **A rewrite that goes astray.** The alias is cut at the last label that is short
enough. -/
theorem rewrite_astray :
    ¬∀ (d a : DottedName) (w₁ w₂ : Text), w₁ ≠ [] → (∀ c ∈ w₁, isWhitespace c) → w₂ ≠ [] →
      (∀ c ∈ w₂, isWhitespace c) → ∀ cr : Crates, cr.KeepsNames → ∀ c,
        CName.parse cr (d.text ++ (w₁ ++ ("CNAME".toList ++ (w₂ ++ (a.text ++ ['.']))))) = some c →
          c.domain.val = d.text ∧ c.aliasName.val = a.text := by
  intro h
  have hparse : CName.parse .lenient "www.bing.com CNAME strict.bing.com.example.".toList =
      some ⟨⟨"www.bing.com".toList⟩, ⟨"strict.bing.com".toList⟩⟩ := by decide
  have hexact := h wwwBing strictExample [' '] [' '] (by decide) (by decide) (by decide)
    (by decide) .lenient Crates.lenient_keepsNames _ hparse
  exact absurd hexact.2 (by decide)

end BancuhDns
