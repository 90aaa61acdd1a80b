import BancuhDns.Compiler.Comments
import BancuhDns.Compiler.Zones
import BancuhDns.Lists

/-!
# Lists as they are written

An entry can be written in three ways: alone on its line, behind an address, or as the name of
a zone line whose alias is an ordinary name. Read back it is the same entry in each of them,
wildcards included (`BancuhDns.ListEntry.OnLine.parse`), and a zone line of a list of overrides is
read back as the override (`BancuhDns.Override.OnLine.parse`). Lines without a dot, blank ones
among them, and comments that are silent are read as nothing. All that is asked of the crates is
that they accept what is listed, change none of it, and reject `#` and the whitespace of ASCII.

A text is written line by line, each line ended by a line feed, or by a carriage return and a
line feed, except perhaps the last one (`BancuhDns.Written`). What its lines are read as is
what was written on them, in order (`BancuhDns.Written.filterMap_lines`).
-/

namespace BancuhDns

/-! ### Lines with an entry on them -/

namespace ListEntry

theorem isTld (e : ListEntry) : IsTld e.name.tld := ⟨e.name.lower, e.name.two_le_tld, e.tld_le⟩

theorem isField_text (e : ListEntry) : IsField e.text :=
  ⟨_, _, rfl, e.two_le, e.le_max, e.isTld⟩

theorem not_isWhitespace_text (e : ListEntry) : ∀ c ∈ e.text, isWhitespace c = false := by
  rw [e.text_eq, List.forall_mem_append]
  refine ⟨?_, e.name.not_isWhitespace⟩
  split_ifs
  · decide
  · exact List.forall_mem_nil _

theorem newline_notMem_stem (e : ListEntry) : '\n' ∉ stemOf e.wildcard e.name := fun h =>
  absurd (e.not_isWhitespace_text _ (List.mem_append_left _ h)) (by decide)

theorem stemAt (e : ListEntry) : StemAt e.text (stemOf e.wildcard e.name) e.name.tld :=
  stemAt_field e.two_le e.le_max e.newline_notMem_stem e.isTld

/-- Alone on its line an entry is captured, whole. -/
theorem domainCapture_text (e : ListEntry) : domainCapture e.text = some ⟨[], e.text, []⟩ :=
  domainCapture_field e.two_le e.le_max e.newline_notMem_stem e.isTld

/-- And so it is behind an address. -/
theorem hostCapture_text (e : ListEntry) {ip ws : Text} (hip : IsQuad ip) (hne : ws ≠ [])
    (hspaces : ∀ c ∈ ws, isWhitespace c) :
    hostCapture (ip ++ (ws ++ e.text)) = some ⟨ip ++ ws, e.text, []⟩ := by
  have hlongest : LongestStem e.text (stemOf e.wildcard e.name) e.name.tld :=
    ⟨e.stemAt, fun x y hstem => length_le_of_append_dot e.name.dot_notMem_tld hstem.split⟩
  have hfirst := hostFirst_of_stemAt hip hne hspaces
    (fun c hc => e.not_isWhitespace_text c (List.mem_of_mem_head? hc)) e.stemAt
  have hcapture := hostCapture_eq_some_iff.mpr
    ⟨[], ip, ws, e.text, _, _, hfirst, hlongest, rfl⟩
  rwa [e.isTld.tldOf_eq, (tldOf_eq_self e.isTld.lower e.isTld.le_six).2] at hcapture

end ListEntry

/-- The crates accept a name, and do not change it. -/
def Crates.Accepts (cr : Crates) (n : ListedName) : Prop :=
  cr.parseDomainName n.text = some n.text ∧ cr.domainToAscii n.text = some n.text

theorem Crates.Accepts.readDomain_text {cr : Crates} {n : ListedName} (h : cr.Accepts n) :
    readDomain cr n.text = some ⟨n.text⟩ :=
  readDomain_eq_self h.1 h.2 n.not_isWhitespace n.star_notMem

theorem Crates.Accepts.parse_text {cr : Crates} {n : ListedName} (h : cr.Accepts n)
    (hbounds : n.WithinBounds) : Domain.parse cr n.text = some ⟨n.text⟩ := by
  rw [parse_eq, hbounds.domainCapture]
  exact h.readDomain_text

theorem ListedName.WithinBounds.isField {n : ListedName} (h : n.WithinBounds) : IsField n.text :=
  ⟨_, _, n.text_eq, h.1, h.2.1, n.lower, n.two_le_tld, h.2.2⟩

/-- The crates accept the name of an entry, and do not change the entry, with its `*.` if it is
a wildcard. -/
def Crates.AcceptsEntry (cr : Crates) (e : ListEntry) : Prop :=
  cr.parseDomainName e.name.text = some e.name.text ∧ cr.domainToAscii e.text = some e.text

namespace ListEntry

variable {cr : Crates} {e : ListEntry} {format : WhitelistFormat} {line : Text}

/-- **What is captured of an entry is read as the entry.** -/
theorem readDomain_text (h : cr.AcceptsEntry e) :
    readDomain cr e.text = some (Lists.domainOf e) := by
  rw [Lists.domainOf]
  rcases hwild : e.wildcard with _ | _
  · have htext := e.text_of_not_wildcard hwild
    rw [htext]
    exact Crates.Accepts.readDomain_text ⟨h.1, htext ▸ h.2⟩
  · have htext := e.text_of_wildcard hwild
    have htrim : trim (star ++ e.name.text) = star ++ e.name.text :=
      trim_eq_self (htext ▸ e.not_isWhitespace_text)
    have hstarts : startsWith star (star ++ e.name.text) := rfl
    have hreplace : replace star [] (star ++ e.name.text) = e.name.text :=
      replace_star_eq_self e.name.star_notMem
    rw [htext]
    refine readDomain_eq_some_iff.mpr ⟨e.name.text, ?_, ?_⟩
    · rw [if_pos hstarts, hreplace]
      exact h.1
    · rw [if_pos hstarts, htrim]
      exact htext ▸ h.2

theorem parse_text (h : cr.AcceptsEntry e) :
    Domain.parse cr e.text = some (Lists.domainOf e) := by
  rw [parse_eq, e.domainCapture_text]
  exact readDomain_text h

/-- A line of a zone with an entry and an ordinary name on it. -/
theorem parse_zoneLine (h : cr.AcceptsEntry e) {target : ListedName}
    (htarget : cr.Accepts target) (hbounds : target.WithinBounds) {l : ZoneLine}
    (hdomain : l.domain = e.text) (halias : l.aliasName = target.text) :
    CName.parse cr l.text = some ⟨Lists.domainOf e, ⟨target.text⟩⟩ := by
  obtain ⟨m, hm, htrim, htrim'⟩ := ZoneLine.cnameCapture_eq (l := l)
    (hdomain ▸ e.isField_text) (halias ▸ hbounds.isField)
  rw [cname_parse_eq, hm, Option.bind_some, htrim, htrim', hdomain, halias, parse_text h,
    htarget.parse_text hbounds]
  rfl

/-- **The lines of an entry** that the crates accept: the entry alone, behind an address, or
as the name of a line of a zone. -/
inductive OnLine (cr : Crates) (e : ListEntry) : WhitelistFormat → Text → Prop
  | domains (h : cr.AcceptsEntry e) : OnLine cr e .domains e.text
  | hosts (h : cr.AcceptsEntry e) {ip ws : Text} (hip : IsQuad ip) (hne : ws ≠ [])
      (hspaces : ∀ c ∈ ws, isWhitespace c) : OnLine cr e .hosts (ip ++ (ws ++ e.text))
  | zone (h : cr.AcceptsEntry e) {l : ZoneLine} {target : ListedName}
      (htarget : cr.Accepts target) (hbounds : target.WithinBounds) (hdomain : l.domain = e.text)
      (halias : l.aliasName = target.text) : OnLine cr e .zone l.text

/-- **An entry is read back**, however it is written. -/
theorem OnLine.parse (h : e.OnLine cr format line) :
    (ParseWhitelist.ofFormat format).parse cr line = some (Lists.domainOf e) := by
  cases h with
  | domains h => exact parse_text h
  | hosts h hip hne hspaces =>
    exact hosts_parse_eq_some_iff.mpr ⟨_, e.hostCapture_text hip hne hspaces,
      fun c hc => e.not_isWhitespace_text c (List.mem_of_mem_head? hc), readDomain_text h⟩
  | zone h htarget hbounds hdomain halias =>
    change (CName.parse cr _).map CName.intoDomain = _
    rw [parse_zoneLine h htarget hbounds hdomain halias]
    rfl

end ListEntry

/-- **The lines of an override** whose names the crates accept: lines of a zone. -/
inductive Override.OnLine (cr : Crates) (o : Override) : OverrideFormat → Text → Prop
  | cname (h : cr.AcceptsEntry o.entry) (halias : cr.Accepts o.aliasName) {l : ZoneLine}
      (hdomain : l.domain = o.entry.text) (htarget : l.aliasName = o.aliasName.text) :
      OnLine cr o .cname l.text

/-- **An override is read back.** -/
theorem Override.OnLine.parse {cr : Crates} {o : Override}
    {format : OverrideFormat} {line : Text} (h : o.OnLine cr format line) :
    (ParseRewrite.ofFormat format).parse cr line = some o.cname := by
  cases h with
  | cname h halias hdomain htarget =>
    exact ListEntry.parse_zoneLine h halias o.withinBounds hdomain htarget

/-! ### Comments in ASCII

What is captured of a line has no whitespace but that of the line. So crates that let other
whitespace pass than that of ASCII read lines without it as those do that let none pass. -/

/-- `addr` accepts no name with a `#` or the whitespace of ASCII. -/
def Crates.RejectsAsciiStray (cr : Crates) : Prop :=
  ∀ s, (∃ c ∈ s, isStray c ∧ c.toNat < 128) → cr.parseDomainName s = none

theorem Crates.RejectsStray.ascii {cr : Crates} (h : cr.RejectsStray) : cr.RejectsAsciiStray :=
  fun s ⟨c, hc, hstray, _⟩ => h s ⟨c, hc, hstray⟩

/-- Whitespace that is that of ASCII. -/
def AsciiSpaced (s : Text) : Prop := ∀ c ∈ s, isWhitespace c → c.toNat < 128

instance (s : Text) : Decidable (AsciiSpaced s) :=
  inferInstanceAs (Decidable (∀ c ∈ s, isWhitespace c → c.toNat < 128))

theorem AsciiSpaced.of_subset {s t : Text} (h : AsciiSpaced s) (hsub : t ⊆ s) : AsciiSpaced t :=
  fun c hc => h c (hsub hc)

/-- The same crates, but that all whitespace is rejected. -/
def Crates.strict (cr : Crates) : Crates where
  parseDomainName s := if s.any isStray then none else cr.parseDomainName s
  domainToAscii := cr.domainToAscii

theorem Crates.strict_rejectsStray (cr : Crates) : cr.strict.RejectsStray :=
  fun _ h => if_pos (List.any_eq_true.mpr h)

/-- A stem and a part of what comes after its dot are a part of the text. -/
theorem subset_stem {b v x y t : Text} (h : v = x ++ '.' :: y) (ht : t ⊆ y) :
    x ++ '.' :: t ⊆ b ++ v := by
  rw [h]
  exact List.subset_append_of_subset_right _ (List.append_subset.mpr
    ⟨List.subset_append_left _ _, List.subset_append_of_subset_right _
      (List.cons_subset_cons _ ht)⟩)

theorem AsciiSpaced.trim {s : Text} (h : AsciiSpaced s) : AsciiSpaced (trim s) :=
  h.of_subset ((List.rdropWhile_prefix _ _).sublist.trans (List.dropWhile_sublist _)).subset

section Strict

variable {cr : Crates} (hcr : cr.RejectsAsciiStray)

include hcr

theorem parseDomainName_strict {s : Text} (h : AsciiSpaced s) :
    cr.strict.parseDomainName s = cr.parseDomainName s := by
  by_cases hstray : ∃ c ∈ s, isStray c
  · obtain ⟨c, hc, hstrayc⟩ := id hstray
    have hascii : c.toNat < 128 := by
      rcases Bool.or_eq_true_iff.mp hstrayc with hhash | hspace
      · rw [eq_of_beq hhash]
        decide
      · exact h c hc hspace
    rw [cr.strict_rejectsStray s hstray, hcr s ⟨c, hc, hstrayc, hascii⟩]
  · exact if_neg fun hany => hstray (List.any_eq_true.mp hany)

theorem readDomain_strict {t : Text} (h : AsciiSpaced t) :
    readDomain cr.strict t = readDomain cr t := by
  have hshown : AsciiSpaced (if startsWith star t then replace star [] t else t) := by
    split_ifs
    · intro c hc hspace
      refine h c ((mem_replace_star_iff ?_ ?_).mp hc) hspace <;>
        · rintro rfl
          exact absurd hspace (by decide)
    · exact h
  rw [readDomain, readDomain, checkName_eq, checkName_eq, parseDomainName_strict hcr hshown]
  rfl

theorem parse_strict {line : Text} (h : AsciiSpaced line) :
    Domain.parse cr.strict line = Domain.parse cr line := by
  rw [parse_eq, parse_eq]
  refine Option.bind_congr fun m hm => readDomain_strict hcr (h.of_subset ?_)
  obtain ⟨b, x, y, hat, rfl⟩ := domainCapture_eq_some_iff.mp hm
  rw [hat.split]
  exact subset_stem rfl (List.take_subset _ _)

theorem hosts_parse_strict {line : Text} (h : AsciiSpaced line) :
    (Host.parse cr.strict line).map Host.intoDomain = (Host.parse cr line).map Host.intoDomain := by
  rw [hosts_parse_eq, hosts_parse_eq]
  refine Option.bind_congr fun m hm => parse_strict hcr (h.of_subset ?_).trim
  obtain ⟨b, q, ws, r, x, y, hfirst, hlongest, rfl⟩ := hostCapture_eq_some_iff.mp hm
  have hline : line = b ++ q ++ ws ++ r := by
    rw [hfirst.split, List.append_assoc, List.append_assoc]
  rw [hline]
  exact subset_stem hlongest.1.split (List.take_subset _ _)

theorem cname_parse_strict {line : Text} (h : AsciiSpaced line) :
    CName.parse cr.strict line = CName.parse cr line := by
  rw [cname_parse_eq, cname_parse_eq]
  refine Option.bind_congr fun m hm => ?_
  obtain ⟨d, a⟩ := m
  obtain ⟨b, x, t, s, w, k, w', r, x', t', rest, hfirst, hmost, halias, rfl, rfl⟩ :=
    cnameCapture_eq_some_iff.mp hm
  obtain ⟨v, hv, hfield⟩ := hfirst.field
  have hdomain : x ++ '.' :: t ⊆ line := by
    rw [hv]
    exact subset_stem hfield.stem.split (List.subset_append_left _ _)
  have htarget : x' ++ '.' :: t' ⊆ line := by
    have hline : line = b ++ (x ++ '.' :: t) ++ w ++ k ++ w' ++ r := by
      rw [hv, hfield.stem.split, hmost.split]
      simp
    rw [hline]
    exact subset_stem halias.1.stem.split (List.subset_append_left _ _)
  rw [parse_strict hcr (h.of_subset hdomain).trim, parse_strict hcr (h.of_subset htarget).trim]

/-- **A line without other whitespace than that of ASCII** yields nothing with the strict crates
when it does with these. -/
theorem SourceFormat.yieldsNothing_strict_iff (format : SourceFormat) {line : Text}
    (h : AsciiSpaced line) :
    format.YieldsNothing cr.strict line ↔ format.YieldsNothing cr line := by
  have hhosts := hosts_parse_strict hcr h
  have hdomains := parse_strict hcr h
  have hzone := cname_parse_strict hcr h
  rcases format with (_ | _) | (_ | _ | _) | _
  · exact iff_of_eq (congrArg (· = none) hhosts)
  · exact iff_of_eq (congrArg (· = none) hdomains)
  · exact iff_of_eq (congrArg (· = none) hhosts)
  · exact iff_of_eq (congrArg (· = none) hdomains)
  · exact iff_of_eq (congrArg (fun r : Option CName => r.map CName.intoDomain = none) hzone)
  · exact iff_of_eq (congrArg (· = none) hzone)

end Strict

/-! ### Lines with nothing on them -/

/-- **Lines with nothing on them**: those without a dot, and the comments that are silent and have
no whitespace but that of ASCII. -/
inductive SourceFormat.Idle (format : SourceFormat) : Text → Prop
  | dotless {line : Text} (h : '.' ∉ line) : Idle format line
  | comment {w s : Text} (hw : ∀ c ∈ w, isWhitespace c) (h : format.Silent w s)
      (hascii : AsciiSpaced (w ++ '#' :: s)) : Idle format (w ++ '#' :: s)

theorem StemAt.dot_mem {v x y : Text} (h : StemAt v x y) : '.' ∈ v := by
  rw [h.split]
  simp

section Dotless

variable {line : Text} (cr : Crates) (h : '.' ∉ line)

include h

theorem domains_eq_none_of_dotless : Domain.parse cr line = none := by
  have hnone : domainCapture line = none := domainCapture_eq_none_iff.mpr fun b v x y hline hstem =>
    h (by rw [hline]; exact List.mem_append_right b hstem.dot_mem)
  rw [parse_eq, hnone]
  rfl

theorem hosts_eq_none_of_dotless : (Host.parse cr line).map Host.intoDomain = none := by
  rw [Option.eq_none_iff_forall_ne_some]
  intro d hd
  obtain ⟨m, hm, -⟩ := hosts_parse_eq_some_iff.mp hd
  obtain ⟨before, q, ws, r, x, y, hfirst, ⟨hstem, -⟩, -⟩ := hostCapture_eq_some_iff.mp hm
  refine h ?_
  rw [hfirst.split]
  simp [hstem.dot_mem]

theorem cname_eq_none_of_dotless : CName.parse cr line = none := by
  have hnone : cnameCapture line = none := cnameCapture_eq_none_iff.mpr fun b x t s hat => by
    obtain ⟨v, hline, hfield⟩ := hat.field
    exact h (by rw [hline]; exact List.mem_append_right b hfield.stem.dot_mem)
  rw [cname_parse_eq, hnone]
  rfl

end Dotless

/-- **Such lines are read as nothing.** -/
theorem SourceFormat.Idle.yieldsNothing {cr : Crates} (hcr : cr.RejectsAsciiStray)
    {format : SourceFormat} {line : Text} (h : format.Idle line) :
    format.YieldsNothing cr line := by
  cases h with
  | dotless h =>
    rcases format with (_ | _) | (_ | _ | _) | _
    · exact hosts_eq_none_of_dotless cr h
    · exact domains_eq_none_of_dotless cr h
    · exact hosts_eq_none_of_dotless cr h
    · exact domains_eq_none_of_dotless cr h
    · exact Option.map_eq_none_iff.mpr (cname_eq_none_of_dotless cr h)
    · exact cname_eq_none_of_dotless cr h
  | comment hw h hascii =>
    -- the strict crates read the comment in the same way, and they reject all that is stray
    rw [← format.yieldsNothing_strict_iff hcr hascii]
    rcases format with (_ | _) | (_ | _ | _) | _
    · exact (hosts_comment_iff hw).mpr h _ cr.strict_rejectsStray
    · exact (domains_comment_iff hw).mpr h _ cr.strict_rejectsStray
    · exact (hosts_comment_iff hw).mpr h _ cr.strict_rejectsStray
    · exact (domains_comment_iff hw).mpr h _ cr.strict_rejectsStray
    · exact Option.map_eq_none_iff.mpr ((zone_comment_iff hw).mpr h _ cr.strict_rejectsStray)
    · exact (zone_comment_iff hw).mpr h _ cr.strict_rejectsStray

/-! ### Texts -/

/-- What can stand at the end of a line. -/
inductive EndsLine (line : Text) : Text → Prop
  | crlf : EndsLine line ['\r', '\n']
  | lf (h : ¬endsWith '\r' line) : EndsLine line ['\n']

/-- A line with an item on it, or an idle one. -/
def ItemLine {α : Type} (OnLine : α → Text → Prop) (Idle : Text → Prop) : Option α → Text → Prop
  | some a => OnLine a
  | none => Idle

/-- **A text that is written line by line**, with an item or none on each line. The last line
need not be ended. -/
inductive Written {α : Type} (IsLine : Option α → Text → Prop) : List α → Text → Prop
  | nil : Written IsLine [] []
  | last {a : Option α} {line : Text} (h : IsLine a line) (hline : '\n' ∉ line) :
      Written IsLine a.toList line
  | line {a : Option α} {as : List α} {line eol rest : Text} (h : IsLine a line)
      (hline : '\n' ∉ line) (heol : EndsLine line eol) (hrest : Written IsLine as rest) :
      Written IsLine (a.toList ++ as) (line ++ (eol ++ rest))

/-- A line that has an end is the first line of its text. -/
theorem lines_append {line eol : Text} (hline : '\n' ∉ line) (heol : EndsLine line eol)
    (rest : Text) : lines (line ++ (eol ++ rest)) = line :: lines rest := by
  have hfirst : ∀ l : Text, '\n' ∉ l →
      lines (l ++ '\n' :: rest) = stripCarriageReturn l :: lines rest := by
    intro l hl
    obtain ⟨p, ps, hps⟩ := List.exists_cons_of_ne_nil (List.splitOn_ne_nil '\n' rest)
    simp [lines, List.splitOn_append_cons_self, List.splitOn_eq_singleton hl, hps]
  cases heol with
  | crlf =>
    have hstrip : stripCarriageReturn (line ++ ['\r']) = line := by
      simp [stripCarriageReturn, endsWith]
    have hlines := hfirst (line ++ ['\r']) (by simpa using hline)
    rwa [hstrip, List.append_assoc] at hlines
  | lf h =>
    have hlines := hfirst line hline
    rwa [stripCarriageReturn, if_neg h] at hlines

theorem lines_eq_singleton {line : Text} (hline : '\n' ∉ line) (hne : line ≠ []) :
    lines line = [line] := by
  simp [lines, List.splitOn_eq_singleton hline, hne]

/-- **What was written is read**, line by line. -/
theorem Written.filterMap_lines {α β : Type} {IsLine : Option α → Text → Prop} {as : List α}
    {text : Text} {parse : Text → Option β} {f : α → β} (hnil : parse [] = none)
    (hparse : ∀ a line, IsLine a line → parse line = a.map f) (h : Written IsLine as text) :
    (lines text).filterMap parse = as.map f := by
  have htoList : ∀ a : Option α, (a.map f).toList = a.toList.map f := fun a => by cases a <;> rfl
  induction h with
  | nil => rfl
  | @last a line hwritten hline =>
    rw [← htoList, ← hparse a line hwritten]
    rcases eq_or_ne line [] with rfl | hne
    · rw [hnil]
      rfl
    · rw [lines_eq_singleton hline hne]
      cases h : parse line <;> simp [h]
  | @line a as line eol rest hwritten hline heol _ ih =>
    rw [lines_append hline heol, List.map_append, ← htoList, ← hparse a line hwritten, ← ih]
    cases h : parse line <;> simp [h]

end BancuhDns
