import BancuhDns.Compiler.CNameCapture

/-!
# Zone lines

A line that reads `d CNAME a.`, with any whitespace between its words and before them, has
whitespace in four places only, and that is what holds the expression to it: a field ends
where whitespace begins, so the first one can only end with `d`, and the keyword is the
keyword (`BancuhDns.CNameAt.of_zoneLine`). The field may begin in the whitespace before `d`,
and whitespace may be given back to the second one; but neither survives the trimming.

So when `d` and `a` are within the bounds of the expression, each is read as it would be on
a line of its own (`BancuhDns.cname_parse_zoneLine`).
-/

namespace BancuhDns

/-! ### The words of a line -/

/-- **A word ends where whitespace begins**: a piece of a line that ends with a letter, and
has whitespace after it, reaches the end of the first word. -/
theorem exists_append_of_word {w d r p s : Text} (hw : ∀ c ∈ w, isWhitespace c)
    (hd : ∀ c ∈ d, isWhitespace c = false) (hp : ∃ c ∈ p.getLast?, isWhitespace c = false)
    (hs : ∃ c ∈ s.head?, isWhitespace c) (h : w ++ (d ++ r) = p ++ s) :
    ∃ p', p = w ++ (d ++ p') ∧ r = p' ++ s := by
  obtain ⟨c, hc, hletter⟩ := hp
  obtain ⟨b, hb, hspace⟩ := hs
  obtain ⟨p, rfl⟩ := List.getLast?_eq_some_iff.mp hc
  obtain ⟨s, rfl⟩ := List.head?_eq_some_iff.mp hb
  -- the letter is not in the whitespace before the word, and the whitespace not in the word
  obtain ⟨p₁, rfl, h₁⟩ := exists_append_of_class hw hletter (by simpa using h)
  obtain ⟨p', hp', hrest⟩ := exists_append_of_class (p := fun c => !isWhitespace c)
    (fun c hc => by simp [hd c hc]) (by simp [hspace])
    (h₁.trans (List.append_cons p₁ c (b :: s)))
  exact ⟨p', by rw [List.append_assoc, hp'], hrest⟩

/-- **A line of a zone**: a name, whitespace, a keyword, whitespace, and a name with a dot
after it, with whitespace before all of it and nowhere else. -/
structure ZoneLine where
  /-- The whitespace at the head of the line. -/
  indent : Text
  /-- The name that is rewritten. -/
  domain : Text
  /-- The whitespace before the keyword. -/
  before : Text
  /-- The keyword. -/
  keyword : Text
  /-- The whitespace after the keyword. -/
  after : Text
  /-- What the name is rewritten to, without its final dot. -/
  aliasName : Text
  isWhitespace_indent : ∀ c ∈ indent, isWhitespace c
  not_isWhitespace_domain : ∀ c ∈ domain, isWhitespace c = false
  before_ne_nil : before ≠ []
  isWhitespace_before : ∀ c ∈ before, isWhitespace c
  isKeyword : IsKeyword keyword
  after_ne_nil : after ≠ []
  isWhitespace_after : ∀ c ∈ after, isWhitespace c
  not_isWhitespace_aliasName : ∀ c ∈ aliasName, isWhitespace c = false

namespace ZoneLine

variable (l : ZoneLine)

/-- What comes after the keyword and the whitespace. -/
def target : Text := l.aliasName ++ ['.']

/-- The line. -/
def text : Text :=
  l.indent ++ (l.domain ++ (l.before ++ (l.keyword ++ (l.after ++ l.target))))

variable {l}

theorem not_isWhitespace_target : ∀ c ∈ l.target, isWhitespace c = false := by
  rw [target, List.forall_mem_append]
  exact ⟨l.not_isWhitespace_aliasName, by decide⟩

end ZoneLine

theorem exists_getLast?_append {t : Text} (hne : t ≠ []) (h : ∀ c ∈ t, isWhitespace c = false)
    (p : Text) : ∃ c ∈ (p ++ t).getLast?, isWhitespace c = false := by
  refine ⟨t.getLast hne, ?_, h _ (List.getLast_mem hne)⟩
  rw [List.getLast?_append_of_ne_nil _ hne, List.getLast?_eq_getLast_of_ne_nil hne]
  rfl

theorem SpacesAt.exists_head? {s ws r : Text} (h : SpacesAt s ws r) :
    ∃ c ∈ s.head?, isWhitespace c := by
  obtain ⟨c, ws', hws⟩ := List.exists_cons_of_ne_nil h.ne_nil
  have hc : c ∈ s.head? := by rw [h.split, hws]; rfl
  exact ⟨c, hc, h.head? c hc⟩

/-- **There is one place to read a zone line at**, but for where the field begins. -/
theorem CNameAt.of_zoneLine {l : ZoneLine} {b x t s : Text} (h : CNameAt l.text b x t s) :
    b ++ (x ++ '.' :: t) = l.indent ++ l.domain ∧
      s = l.before ++ (l.keyword ++ (l.after ++ l.target)) := by
  obtain ⟨⟨v, hv, hfield⟩, w, k, w', r, hspaces, hk, hspaces', -⟩ := h
  have hp : ∃ c ∈ (b ++ (x ++ '.' :: t)).getLast?, isWhitespace c = false := by
    simpa using exists_getLast?_append hfield.tld.ne_nil hfield.tld.not_isWhitespace
      (b ++ (x ++ ['.']))
  have hline : l.text = (b ++ (x ++ '.' :: t)) ++ s := by
    rw [hv, hfield.stem.split]
    simp
  obtain ⟨p₁, hp₁, hrest⟩ := exists_append_of_word l.isWhitespace_indent l.not_isWhitespace_domain
    hp hspaces.exists_head? hline
  rcases p₁.eq_nil_or_concat with rfl | ⟨p₁, c, rfl⟩
  · exact ⟨by simpa using hp₁, hrest.symm⟩
  -- otherwise the field reaches the end of the keyword, and no keyword comes after it
  exfalso
  obtain ⟨p₂, hp₂, hrest₂⟩ := exists_append_of_word l.isWhitespace_before
    l.isKeyword.not_isWhitespace (p := p₁.concat c) (by
      rw [hp₁] at hp
      simpa using hp) hspaces.exists_head? hrest
  obtain ⟨p₃, -, hrest₃⟩ := exists_append_of_word (r := []) (p := p₂ ++ w ++ k) (s := w' ++ r)
    l.isWhitespace_after l.not_isWhitespace_target
    (exists_getLast?_append hk.ne_nil hk.not_isWhitespace _) hspaces'.exists_head? (by
      simpa [hspaces.split] using hrest₂)
  obtain ⟨-, hnil⟩ := List.append_eq_nil_iff.mp hrest₃.symm
  exact hspaces'.ne_nil (List.append_eq_nil_iff.mp hnil).1

/-- **Behind the keyword**, whitespace can only be given back to the alias. -/
theorem TargetAt.of_zoneLine {l : ZoneLine} {w k w' r : Text}
    (h : TargetAt (l.before ++ (l.keyword ++ (l.after ++ l.target))) w k w' r) :
    ∃ u, l.after = w' ++ u ∧ r = u ++ l.target := by
  obtain ⟨-, -, heq⟩ := SpacesAt.eq_of_isKeyword l.isKeyword h.keyword l.isWhitespace_before
    h.spaces.spaces h.split
  exact exists_append_of_head? h.spaces'.spaces (fun c hc => l.not_isWhitespace_target c
    (List.mem_of_mem_head? hc)) heq

theorem ZoneLine.targetAt {l : ZoneLine} (h : ∃ x t rest, FieldAt l.target x t ('.' :: rest)) :
    TargetAt (l.before ++ (l.keyword ++ (l.after ++ l.target))) l.before l.keyword l.after
      l.target where
  spaces := ⟨rfl, l.before_ne_nil, l.isWhitespace_before⟩
  keyword := l.isKeyword
  spaces' := ⟨rfl, l.after_ne_nil, l.isWhitespace_after⟩
  field := h

/-- With a field to be found behind all of the whitespace, none is given back. -/
theorem TargetMost.eq_target {l : ZoneLine} {w k w' r : Text}
    (h : TargetMost (l.before ++ (l.keyword ++ (l.after ++ l.target))) w k w' r)
    (hfield : ∃ x t rest, FieldAt l.target x t ('.' :: rest)) : r = l.target := by
  obtain ⟨u, hafter, rfl⟩ := h.toTargetAt.of_zoneLine
  have hle := h.most _ _ _ _ (ZoneLine.targetAt hfield)
  rw [hafter, List.length_append] at hle
  obtain rfl : u = [] := List.length_eq_zero_iff.mp (by omega)
  rfl

/-- **What is given back is trimmed again.** -/
theorem FieldAt.of_zoneLine {l : ZoneLine} {u x t rest : Text} (hu : ∀ c ∈ u, isWhitespace c)
    (h : FieldAt (u ++ l.target) x t ('.' :: rest)) :
    ∃ y, x = u ++ y ∧ l.target = y ++ '.' :: (t ++ '.' :: rest) ∧
      trim (x ++ '.' :: t) = y ++ '.' :: t := by
  obtain ⟨y, rfl, htarget⟩ := exists_append_of_class hu (by decide) h.stem.split
  refine ⟨y, rfl, htarget, ?_⟩
  rw [List.append_assoc, trim_append_of_isWhitespace hu, trim_eq_self]
  have hall := l.not_isWhitespace_target
  rw [htarget] at hall
  simp only [List.forall_mem_append, List.forall_mem_cons] at hall ⊢
  exact ⟨hall.1, hall.2.1, hall.2.2.1⟩

/-! ### Names within the bounds of the expression -/

/-- A stem of 2 to 200 characters and a top-level label. -/
def IsField (d : Text) : Prop :=
  ∃ stem tld, d = stem ++ '.' :: tld ∧ 2 ≤ stem.length ∧ stem.length ≤ 200 ∧ IsTld tld

theorem FieldAt.of_not_isWhitespace {stem tld rest : Text}
    (hspace : ∀ c ∈ stem, isWhitespace c = false) (h2 : 2 ≤ stem.length)
    (hmax : stem.length ≤ 200) (htld : IsTld tld) :
    FieldAt (stem ++ '.' :: (tld ++ rest)) stem tld rest := by
  refine fieldAt_iff.mpr ⟨rfl, h2, hmax, fun hnl => ?_, htld⟩
  exact absurd (hspace '\n' hnl) (by decide)

/-- A piece of the name that is a field, before what the expression takes after it. -/
theorem ZoneLine.cnameAt {l : ZoneLine} {b b' x t : Text} (hb : b = l.indent ++ b')
    (hd : l.domain = b' ++ (x ++ '.' :: t)) (h2 : 2 ≤ x.length) (hmax : x.length ≤ 200)
    (ht : IsTld t)
    (htarget : ∃ w k w' r,
      TargetAt (l.before ++ (l.keyword ++ (l.after ++ l.target))) w k w' r) :
    CNameAt l.text b x t (l.before ++ (l.keyword ++ (l.after ++ l.target))) := by
  have hspace := l.not_isWhitespace_domain
  rw [hd, List.forall_mem_append, List.forall_mem_append] at hspace
  refine ⟨⟨_, ?_, FieldAt.of_not_isWhitespace hspace.2.1 h2 hmax ht⟩, htarget⟩
  rw [ZoneLine.text, hd, hb]
  simp

/-- **The domain is read whole**, with whitespace before it perhaps: the leftmost place has
all of the stem in it. -/
theorem CNameFirst.trim_domain {l : ZoneLine} {b x t s : Text} (h : CNameFirst l.text b x t s)
    (hfield : IsField l.domain) : trim (x ++ '.' :: t) = l.domain := by
  obtain ⟨hsplit, hs⟩ := h.toCNameAt.of_zoneLine
  obtain ⟨stem, tld, hd, h2, hmax, htld⟩ := hfield
  have hleft := h.leftmost _ _ _ _ (ZoneLine.cnameAt (List.append_nil _).symm
    (hd.trans (List.nil_append _).symm) h2 hmax htld (hs ▸ h.target))
  obtain ⟨u, hindent, hx⟩ := exists_append_of_length_le hsplit.symm hleft
  have hu : ∀ c ∈ u, isWhitespace c := fun c hc =>
    l.isWhitespace_indent c (by rw [hindent]; exact List.mem_append_right _ hc)
  rw [hx, trim_append_of_isWhitespace hu, trim_eq_self l.not_isWhitespace_domain]

/-- The last of the dots of a text that ends with one is not taken for the one before the
top-level label. -/
theorem eq_of_append_dot_of_length_le {x x' t t' rest : Text} (ht : '.' ∉ t) (ht' : '.' ∉ t')
    (h : x ++ '.' :: (t ++ ['.']) = x' ++ '.' :: (t' ++ '.' :: rest)) (hle : x.length ≤ x'.length) :
    x = x' ∧ t = t' := by
  have hdot : ∀ c ∈ t, (c != '.') = true := fun c hc => bne_iff_ne.mpr fun hcd => ht (hcd ▸ hc)
  obtain ⟨u, hx', hu⟩ := exists_append_of_length_le h.symm hle
  rcases u with _ | ⟨c, u⟩
  · obtain ⟨rfl, -⟩ := append_cons_inj ht ht' (List.cons.inj hu).2
    exact ⟨by simpa using hx'.symm, rfl⟩
  · -- after the label comes the last dot
    obtain ⟨a, -, ha⟩ := exists_append_of_class hdot (by decide) (List.cons.inj hu).2
    have hlen := congrArg List.length ha
    simp only [List.length_append, List.length_cons, List.length_nil] at hlen
    omega

theorem ZoneLine.target_eq {l : ZoneLine} {stem tld : Text} (h : l.aliasName = stem ++ '.' :: tld) :
    l.target = stem ++ '.' :: (tld ++ ['.']) := by
  simp [ZoneLine.target, h]

theorem ZoneLine.fieldAt_target {l : ZoneLine} {stem tld : Text}
    (h : l.aliasName = stem ++ '.' :: tld) (h2 : 2 ≤ stem.length) (hmax : stem.length ≤ 200)
    (htld : IsTld tld) : FieldAt l.target stem tld ['.'] := by
  have hspace := l.not_isWhitespace_aliasName
  rw [h, List.forall_mem_append] at hspace
  rw [target_eq h]
  exact FieldAt.of_not_isWhitespace hspace.1 h2 hmax htld

/-- **The alias is read whole.** -/
theorem TargetMost.alias_eq {l : ZoneLine} {w k w' r x t rest : Text}
    (h : TargetMost (l.before ++ (l.keyword ++ (l.after ++ l.target))) w k w' r)
    (halias : LongestAlias r x t rest) (hfield : IsField l.aliasName) :
    x ++ '.' :: t = l.aliasName := by
  obtain ⟨stem, tld, ha, h2, hmax, htld⟩ := hfield
  have htarget := ZoneLine.target_eq ha
  have hfield := ZoneLine.fieldAt_target ha h2 hmax htld
  obtain rfl := h.eq_target ⟨_, _, _, hfield⟩
  obtain ⟨hat, hlong⟩ := halias
  obtain ⟨rfl, rfl⟩ := eq_of_append_dot_of_length_le htld.dot_notMem hat.tld.dot_notMem
    (htarget.symm.trans hat.stem.split) (hlong _ _ _ hfield)
  exact ha.symm

/-- A line whose names are within the bounds is read whole. -/
theorem ZoneLine.cnameCapture_eq {l : ZoneLine} (hd : IsField l.domain) (ha : IsField l.aliasName) :
    ∃ m, cnameCapture l.text = some m ∧ trim m.1 = l.domain ∧ trim m.2 = l.aliasName := by
  have hsome : cnameCapture l.text ≠ none := fun hnone => by
    obtain ⟨stem, tld, hsplit, h2, hmax, htld⟩ := hd
    obtain ⟨stem', tld', hsplit', h2', hmax', htld'⟩ := ha
    exact cnameCapture_eq_none_iff.mp hnone _ _ _ _ (cnameAt (List.append_nil _).symm
      (hsplit.trans (List.nil_append _).symm) h2 hmax htld
      ⟨_, _, _, _, targetAt ⟨_, _, _, fieldAt_target hsplit' h2' hmax' htld'⟩⟩)
  obtain ⟨⟨d, a⟩, hm⟩ := Option.ne_none_iff_exists'.mp hsome
  obtain ⟨b, x, t, s, w, k, w', r, x', t', rest, hfirst, hmost, halias, rfl, rfl⟩ :=
    cnameCapture_eq_some_iff.mp hm
  obtain ⟨-, rfl⟩ := hfirst.toCNameAt.of_zoneLine
  refine ⟨_, hm, hfirst.trim_domain hd, ?_⟩
  rw [hmost.alias_eq halias ha]
  exact trim_eq_self l.not_isWhitespace_aliasName

/-- **A zone line is read back field by field**, whatever the crates make of its names. -/
theorem cname_parse_zoneLine (cr : Crates) (l : ZoneLine) (hd : IsField l.domain)
    (ha : IsField l.aliasName) :
    CName.parse cr l.text =
      (Domain.parse cr l.domain).bind fun d =>
        (Domain.parse cr l.aliasName).map fun a => ⟨d, a⟩ := by
  obtain ⟨m, hm, htrim, htrim'⟩ := ZoneLine.cnameCapture_eq hd ha
  rw [cname_parse_eq, hm, Option.bind_some, htrim, htrim']

/-- A zone line of the tests of the repository, indented. -/
def bing : ZoneLine where
  indent := " \t".toList
  domain := "www.bing.com".toList
  before := "    ".toList
  keyword := "CNAME".toList
  after := "   ".toList
  aliasName := "strict.bing.com".toList
  isWhitespace_indent := by decide
  not_isWhitespace_domain := by decide
  before_ne_nil := by decide
  isWhitespace_before := by decide
  isKeyword := isKeyword_upper
  after_ne_nil := by decide
  isWhitespace_after := by decide
  not_isWhitespace_aliasName := by decide

theorem cname_parse_bing :
    CName.parse .lenient " \twww.bing.com    CNAME   strict.bing.com.".toList =
      some ⟨⟨"www.bing.com".toList⟩, ⟨"strict.bing.com".toList⟩⟩ := by
  have htld : IsTld "com".toList := ⟨by decide, by decide, by decide⟩
  have hd : IsField bing.domain :=
    ⟨"www.bing".toList, "com".toList, by decide, by decide, by decide, htld⟩
  have ha : IsField bing.aliasName :=
    ⟨"strict.bing".toList, "com".toList, by decide, by decide, by decide, htld⟩
  have hline : " \twww.bing.com    CNAME   strict.bing.com.".toList = bing.text := by decide
  rw [hline, cname_parse_zoneLine .lenient bing hd ha]
  decide

end BancuhDns
