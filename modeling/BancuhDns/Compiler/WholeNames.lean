import BancuhDns.Compiler.Capture
import BancuhDns.Compiler.Compile

/-!
# Whole names

A list line should yield a name that stands on it, not a piece of one. The expressions
do not see to that. The top-level label is cut after its sixth letter, and after its
last lower-case one; the stem is cut to its last 200 characters; and a piece that is
itself a name passes every check after that. So `phimsexhay.monster` is listed as
`phimsexhay.monste` (`BancuhDns.yieldsWholeNames_monster`).

Whether a line is read whole is decided where it is read
(`BancuhDns.DomainAt`, `BancuhDns.HostFirst`): by what stands before the stem, and by
the label after its dot (`BancuhDns.yieldsWholeNames_iff`).
-/

namespace BancuhDns

open Regex (Match)

/-! ### Letters, digits and hyphens -/

/-- **The letters and digits of names**, as `addr` sees them: some set with the
lower-case ASCII letters in it, and no whitespace, dot or asterisk. -/
structure Alphabet where
  alnum : Char → Bool
  alnum_of_isLower : ∀ c, isLower c → alnum c
  alnum_of_isWhitespace : ∀ c, isWhitespace c → alnum c = false
  alnum_dot : alnum '.' = false
  alnum_star : alnum '*' = false

namespace Alphabet

variable (al : Alphabet)

/-- A letter, a digit or a hyphen. -/
def ldh (c : Char) : Bool := al.alnum c || c == '-'

/-- Labels of letters, digits and inner hyphens, joined by dots. -/
def IsName (s : Text) : Prop :=
  ∀ l ∈ s.splitOn '.', l ≠ [] ∧ (∀ c ∈ l, al.ldh c) ∧ l.head? ≠ some '-' ∧ l.getLast? ≠ some '-'

instance (s : Text) : Decidable (al.IsName s) :=
  inferInstanceAs (Decidable (∀ l ∈ s.splitOn '.',
    l ≠ [] ∧ (∀ c ∈ l, al.ldh c) ∧ l.head? ≠ some '-' ∧ l.getLast? ≠ some '-'))

/-- A captured text that passes for a name: `addr` is shown a wildcard without its
`*.`. -/
def PassesFor (t : Text) : Prop := al.IsName (if startsWith star t then replace star [] t else t)

instance (t : Text) : Decidable (al.PassesFor t) :=
  inferInstanceAs (Decidable (al.IsName (if startsWith star t then replace star [] t else t)))

/-- What stands before a piece of a line and makes it the end of something longer: a
letter, a digit or a hyphen, or one of these and a dot. -/
def JoinsLeft (before : Text) : Prop :=
  ∃ b c, al.ldh c ∧ (before = b ++ [c] ∨ before = b ++ [c, '.'])

/-- What stands after a piece and makes it the start of something longer. -/
def JoinsRight (after : Text) : Prop :=
  ∃ c a, al.ldh c ∧ (after = c :: a ∨ after = '.' :: c :: a)

/-- **The label after a dot ends a name**: it has six letters at most, all lower-case,
and nothing goes on from there. -/
def EndsName (y : Text) : Prop :=
  ∃ tld rest, y = tld ++ rest ∧ (∀ c ∈ tld, isLower c) ∧ tld.length ≤ 6 ∧ ¬al.JoinsRight rest

theorem isWhitespace_of_ldh {c : Char} (h : al.ldh c) : isWhitespace c = false := by
  by_contra hspace
  have hspace : isWhitespace c := by simpa using hspace
  rw [ldh, al.alnum_of_isWhitespace c hspace, Bool.false_or, beq_iff_eq] at h
  rw [h] at hspace
  exact absurd hspace (by decide)

theorem IsName.not_isWhitespace {s : Text} (h : al.IsName s) :
    ∀ c ∈ s, isWhitespace c = false :=
  forall_mem_of_splitOn (by decide) fun l hl c hc => al.isWhitespace_of_ldh ((h l hl).2.1 c hc)

theorem IsName.star_notMem {s : Text} (h : al.IsName s) : '*' ∉ s := by
  intro hmem
  have hne := forall_mem_of_splitOn (a := '.') (P := fun c => c ≠ '*') (by decide)
    fun l hl c hc hstar => by
    have hldh := (h l hl).2.1 c hc
    rw [hstar, ldh, al.alnum_star] at hldh
    exact absurd hldh (by decide)
  exact hne _ hmem rfl

/-- A text that passes for a name does not begin with whitespace. -/
theorem PassesFor.head? {t : Text} (h : al.PassesFor t) :
    ∀ c ∈ t.head?, isWhitespace c = false := by
  intro c hc
  rw [PassesFor] at h
  split at h
  next hstar =>
    obtain ⟨s, rfl⟩ := List.isPrefixOf_iff_prefix.mp hstar
    obtain rfl : '*' = c := Option.some.inj hc
    decide
  next => exact IsName.not_isWhitespace al h c (List.mem_of_mem_head? hc)

/-- The letters taken for the top-level label end a name exactly when nothing goes on
after them. -/
theorem endsName_iff {y : Text} : al.EndsName y ↔ ¬al.JoinsRight (afterTld y) := by
  constructor
  · rintro ⟨tld, rest, rfl, hlower, hlen, hnot⟩
    have hle := Regex.length_le_reach_some_iff (y := rest).mpr ⟨hlen, hlower⟩
    have hge : Regex.reach isLower (some 6) (tld ++ rest) ≤ tld.length := by
      by_contra hlt
      obtain ⟨-, hlen', hall⟩ := Regex.le_reach_some_iff.mp (not_le.mp hlt)
      rcases rest with _ | ⟨c, rest⟩
      · rw [List.append_nil] at hlen'
        omega
      · have hc : isLower c := hall c (by simp [List.take_append])
        exact hnot ⟨c, rest, by simp [ldh, al.alnum_of_isLower c hc], Or.inl rfl⟩
    rwa [afterTld, le_antisymm hge hle, List.drop_left]
  · exact fun hnot => ⟨tldOf y, afterTld y, (tldOf_append_afterTld y).symm,
      fun c hc => isLower_of_mem_tldOf hc, length_tldOf_le y, hnot⟩

end Alphabet

/-! ### The crates -/

variable {al : Alphabet} {cr : Crates}

/-- **What `addr` is documented to do**: it accepts names only, and gives them back. -/
def Crates.NamesOnly (cr : Crates) (al : Alphabet) : Prop :=
  ∀ v w, cr.parseDomainName v = some w → w = v ∧ al.IsName v

/-- The crates that accept every name and change none. -/
def Crates.names (al : Alphabet) : Crates where
  parseDomainName v := if al.IsName v then some v else none
  domainToAscii := some

theorem Crates.names_namesOnly (al : Alphabet) : (Crates.names al).NamesOnly al := by
  intro v w h
  obtain ⟨hname, h⟩ := Option.ite_none_right_eq_some.mp h
  exact ⟨(Option.some.inj h).symm, hname⟩

theorem passesFor_of_readDomain (hcr : cr.NamesOnly al) {t : Text} {d : Domain}
    (h : readDomain cr t = some d) : al.PassesFor t := by
  obtain ⟨w, hw, -⟩ := readDomain_eq_some_iff.mp h
  exact (hcr _ w hw).2

theorem exists_readDomain_of_passesFor {t : Text} (h : al.PassesFor t) :
    ∃ d, readDomain (.names al) t = some d :=
  ⟨⟨_⟩, readDomain_eq_some_iff.mpr ⟨_, if_pos h, rfl⟩⟩

/-- What crates that change nothing make of a name. -/
theorem readDomain_eq_of_not_star (hcr : cr.NamesOnly al)
    (hascii : ∀ v w, cr.domainToAscii v = some w → w = v) {t : Text} {d : Domain}
    (hstar : ¬startsWith star t) (h : readDomain cr t = some d) : d.val = t := by
  obtain ⟨w, hw, ha⟩ := readDomain_eq_some_iff.mp h
  rw [if_neg hstar] at hw ha
  obtain ⟨rfl, hname⟩ := hcr t w hw
  rw [trim_eq_self hname.not_isWhitespace, trim_eq_self hname.not_isWhitespace] at ha
  exact hascii _ _ ha

/-! ### The piece of a line that is read -/

/-- What the `domain` group captures of a list line. -/
def listCapture : BlacklistFormat → Text → Option (Match Char)
  | .hosts => hostCapture
  | .domains => domainCapture

/-- The whitelist format of the same lines. -/
def BlacklistFormat.toWhitelist : BlacklistFormat → WhitelistFormat
  | .hosts => .hosts
  | .domains => .domains

/-- A piece of a line without the whitespace at its ends. -/
def trimMatch (m : Match Char) : Match Char :=
  ⟨m.before ++ m.text.takeWhile isWhitespace, trim m.text,
    (trimStart m.text).rtakeWhile isWhitespace ++ m.after⟩

theorem trimMatch_eq_self {m : Match Char} (hhead : ∀ c ∈ m.text.head?, isWhitespace c = false)
    (hlast : ∀ c ∈ m.text.getLast?, isWhitespace c = false) : trimMatch m = m := by
  obtain ⟨before, text, after⟩ := m
  have hstart : trimStart text = text ∧ text.takeWhile isWhitespace = [] := by
    rcases text with _ | ⟨c, text⟩
    · exact ⟨rfl, rfl⟩
    · have hc : ¬isWhitespace c := by simp [hhead c rfl]
      exact ⟨List.dropWhile_cons_of_neg hc, List.takeWhile_cons_of_neg hc⟩
  have hend : text.rtakeWhile isWhitespace = [] :=
    List.rtakeWhile_eq_nil_iff.mpr fun hne => by
      simp [hlast _ (List.getLast?_eq_getLast_of_ne_nil hne)]
  simp only [trimMatch, hstart, hend, trim_eq_self_of_ends hhead hlast, List.append_nil,
    List.nil_append]

/-- A captured piece is a stem of the line and the letters after its dot. -/
theorem exists_stemAt_of_listCapture {format : BlacklistFormat} {line : Text} {m : Match Char}
    (h : listCapture format line = some m) :
    ∃ v x y, StemAt v x y ∧ v ⊆ line ∧ m.text = x ++ '.' :: tldOf y := by
  cases format with
  | hosts =>
    obtain ⟨before, q, ws, r, x, y, hfirst, ⟨hstem, -⟩, rfl⟩ := hostCapture_eq_some_iff.mp h
    refine ⟨r, x, y, hstem, ?_, rfl⟩
    rw [hfirst.split, ← List.append_assoc, ← List.append_assoc]
    exact List.subset_append_right _ _
  | domains =>
    obtain ⟨before, x, y, ⟨⟨v, rfl, hstem, -⟩, -⟩, rfl⟩ := domainCapture_eq_some_iff.mp h
    exact ⟨v, x, y, hstem, List.subset_append_right _ _, rfl⟩

/-- A captured piece ends with a letter. -/
theorem isWhitespace_getLast?_of_listCapture {format : BlacklistFormat} {line : Text}
    {m : Match Char} (h : listCapture format line = some m) :
    ∀ c ∈ m.text.getLast?, isWhitespace c = false := by
  obtain ⟨v, x, y, hstem, -, htext⟩ := exists_stemAt_of_listCapture h
  rw [htext]
  exact hstem.isWhitespace_getLast?

/-- **What a list line yields**: what its capture reads as, whichever kind of list it
is on. -/
theorem list_parse_eq_some_iff (hcr : cr.NamesOnly al) {format : BlacklistFormat} {line : Text}
    {d : Domain} :
    (ParseBlacklist.ofFormat format).parse cr line = some d ↔
      ∃ m, listCapture format line = some m ∧ readDomain cr m.text = some d := by
  cases format with
  | hosts =>
    change (Host.parse cr line).map Host.intoDomain = some d ↔ _
    rw [hosts_parse_eq_some_iff]
    exact exists_congr fun m => and_congr_right fun _ =>
      ⟨fun h => h.2, fun h => ⟨(passesFor_of_readDomain hcr h).head?, h⟩⟩
  | domains =>
    change Domain.parse cr line = some d ↔ _
    rw [parse_eq, Option.bind_eq_some_iff]
    rfl

theorem whitelist_parse_eq (cr : Crates) (format : BlacklistFormat) (line : Text) :
    (ParseWhitelist.ofFormat format.toWhitelist).parse cr line =
      (ParseBlacklist.ofFormat format).parse cr line := by
  cases format <;> rfl

/-! ### What is read whole -/

/-- **A line yields whole names only**: with whatever accepts names and nothing else, and
on either kind of list, a domain is parsed of it only if nothing on the line goes on from
the piece that was captured. -/
def YieldsWholeNames (al : Alphabet) (format : BlacklistFormat) (line : Text) : Prop :=
  ∀ cr : Crates, cr.NamesOnly al → ∀ d m,
    ((ParseBlacklist.ofFormat format).parse cr line = some d ∨
      (ParseWhitelist.ofFormat format.toWhitelist).parse cr line = some d) →
    listCapture format line = some m →
    ¬al.JoinsLeft (trimMatch m).before ∧ ¬al.JoinsRight (trimMatch m).after

/-- **A line is read whole**: where it is read, either the stem and the letters after its
dot do not pass for a name, or the stem is not cut out of a longer one and the label after
its dot ends a name. A hosts line has whitespace before the stem, and a stem that could be
longer is. -/
def ReadsWholeName (al : Alphabet) : BlacklistFormat → Text → Prop
  | .hosts, line => ∀ before q ws r x y, HostFirst line before q ws r → LongestStem r x y →
      al.PassesFor (x ++ '.' :: tldOf y) → al.EndsName y
  | .domains, line => ∀ before x y, DomainAt line before x y →
      al.PassesFor (x ++ '.' :: tldOf y) →
      (x.length = 200 → ¬al.JoinsLeft before) ∧ al.EndsName y

/-- A stem is cut on the left at 200 characters only. -/
theorem DomainAt.eq_newline {line b x y : Text} {c : Char} (h : DomainAt line (b ++ [c]) x y)
    (hne : x.length ≠ 200) : c = '\n' := by
  obtain ⟨⟨v, hline, hstem, -⟩, hleft⟩ := h
  by_contra hc
  -- one character more would be a stem further left
  refine hleft b (c :: v) (by simp [hline]) (by simp) (c :: x) y
    ⟨by rw [hstem.split]; rfl, ?_, ?_, ?_, hstem.tld⟩
  · exact hstem.two_le.trans (by simp)
  · have hle := hstem.le_max
    rw [List.length_cons]
    omega
  · exact List.not_mem_cons_of_ne_of_not_mem (Ne.symm hc) hstem.newline

theorem DomainAt.not_joinsLeft {line before x y : Text} (h : DomainAt line before x y)
    (hne : x.length ≠ 200) : ¬al.JoinsLeft before := by
  have hnewline : ¬al.ldh '\n' := fun hc => by
    have hspace := al.isWhitespace_of_ldh hc
    revert hspace
    decide
  rintro ⟨b, c, hc, rfl | rfl⟩
  · rw [h.eq_newline hne] at hc
    exact hnewline hc
  · rw [← List.singleton_append, ← List.append_assoc] at h
    exact absurd (h.eq_newline hne) (by decide)

theorem Alphabet.not_joinsLeft_of_isWhitespace {before ws : Text} (hne : ws ≠ [])
    (hspaces : ∀ c ∈ ws, isWhitespace c) : ¬al.JoinsLeft (before ++ ws) := by
  have hlast : ∀ c ∈ (before ++ ws).getLast?, isWhitespace c := fun c hc => by
    rw [List.getLast?_append_of_ne_nil _ hne] at hc
    exact hspaces c (List.mem_of_getLast? hc)
  rintro ⟨b, c, hc, h | h⟩
  · have hspace := hlast c (by simp [h])
    rw [al.isWhitespace_of_ldh hc] at hspace
    cases hspace
  · exact absurd (hlast '.' (by simp [h])) (by decide)

/-- The parser yields a domain of a line, with some crates, when what is captured passes
for a name, and with no others. -/
theorem yieldsWholeNames_iff_capture {format : BlacklistFormat} {line : Text} :
    YieldsWholeNames al format line ↔
      ∀ m, listCapture format line = some m → al.PassesFor m.text →
        ¬al.JoinsLeft m.before ∧ ¬al.JoinsRight m.after := by
  -- what passes for a name has no whitespace to be trimmed
  have htrim : ∀ m, listCapture format line = some m → al.PassesFor m.text → trimMatch m = m :=
    fun m hm hpass => trimMatch_eq_self hpass.head? (isWhitespace_getLast?_of_listCapture hm)
  constructor
  · intro h m hm hpass
    obtain ⟨d, hd⟩ := exists_readDomain_of_passesFor hpass
    have hparse := (list_parse_eq_some_iff (Crates.names_namesOnly al)).mpr ⟨m, hm, hd⟩
    rw [← htrim m hm hpass]
    exact h _ (Crates.names_namesOnly al) d m (Or.inl hparse) hm
  · intro h cr hcr d m hparse hm
    rw [whitelist_parse_eq, or_self, list_parse_eq_some_iff hcr] at hparse
    obtain ⟨m', hm', hd⟩ := hparse
    obtain rfl : m = m' := Option.some.inj (hm.symm.trans hm')
    have hpass := passesFor_of_readDomain hcr hd
    rw [htrim m hm hpass]
    exact h m hm hpass

/-- **Which lines yield whole names only.** -/
theorem yieldsWholeNames_iff (al : Alphabet) (format : BlacklistFormat) (line : Text) :
    YieldsWholeNames al format line ↔ ReadsWholeName al format line := by
  rw [yieldsWholeNames_iff_capture]
  cases format with
  | hosts =>
    constructor
    · intro h before q ws r x y hfirst hlongest hpass
      rw [al.endsName_iff]
      exact (h _ (hostCapture_eq_some_iff.mpr ⟨before, q, ws, r, x, y, hfirst, hlongest, rfl⟩)
        hpass).2
    · intro h m hm hpass
      obtain ⟨before, q, ws, r, x, y, hfirst, hlongest, rfl⟩ := hostCapture_eq_some_iff.mp hm
      exact ⟨Alphabet.not_joinsLeft_of_isWhitespace hfirst.ne_nil hfirst.spaces,
        al.endsName_iff.mp (h before q ws r x y hfirst hlongest hpass)⟩
  | domains =>
    constructor
    · intro h before x y hat hpass
      obtain ⟨hleft, hright⟩ := h _ (domainCapture_eq_some_iff.mpr ⟨before, x, y, hat, rfl⟩) hpass
      exact ⟨fun _ => hleft, al.endsName_iff.mpr hright⟩
    · intro h m hm hpass
      obtain ⟨before, x, y, hat, rfl⟩ := domainCapture_eq_some_iff.mp hm
      obtain ⟨hleft, hright⟩ := h before x y hat hpass
      refine ⟨?_, al.endsName_iff.mp hright⟩
      by_cases hlen : x.length = 200
      · exact hleft hlen
      · exact hat.not_joinsLeft hlen

/-! ### A name that is not read whole -/

/-- A letter or a digit of ASCII. -/
def isAlnum (c : Char) : Bool := isLower c || ('A' ≤ c && c ≤ 'Z') || ('0' ≤ c && c ≤ '9')

theorem isAlnum_iff {c : Char} : isAlnum c ↔ (0x61 ≤ c.toNat ∧ c.toNat ≤ 0x7A) ∨
    (0x41 ≤ c.toNat ∧ c.toNat ≤ 0x5A) ∨ (0x30 ≤ c.toNat ∧ c.toNat ≤ 0x39) := by
  simp [isAlnum, isLower, Char.le_def, UInt32.le_iff_toNat_le, or_assoc]

/-- The letters and digits of ASCII. -/
def Alphabet.ascii : Alphabet where
  alnum := isAlnum
  alnum_of_isLower c h := by simp [isAlnum, h]
  alnum_of_isWhitespace c h := by
    by_contra halnum
    have hrange := isAlnum_iff.mp (by simpa using halnum)
    have hspace : isWhitespace c = false := by
      simp only [isWhitespace, Bool.or_eq_false_iff, Bool.and_eq_false_iff,
        decide_eq_false_iff_not, beq_eq_false_iff_ne]
      omega
    rw [h] at hspace
    cases hspace
  alnum_dot := by decide
  alnum_star := by decide

/-- **A top-level label of seven letters is cut after the sixth.** The line stands on a
list of hosts of the repository; what it yields stands on none. -/
theorem yieldsWholeNames_monster :
    '\n' ∉ "127.0.0.1 phimsexhay.monster".toList ∧
      (ParseBlacklist.ofFormat .hosts).parse (.names .ascii)
        "127.0.0.1 phimsexhay.monster".toList = some ⟨"phimsexhay.monste".toList⟩ ∧
      ¬YieldsWholeNames .ascii .hosts "127.0.0.1 phimsexhay.monster".toList := by
  refine ⟨by decide, by decide, fun h => ?_⟩
  have hcapture : listCapture .hosts "127.0.0.1 phimsexhay.monster".toList =
      some ⟨"127.0.0.1 ".toList, "phimsexhay.monste".toList, ['r']⟩ := by decide
  exact (yieldsWholeNames_iff_capture.mp h _ hcapture (by decide)).2
    ⟨'r', [], by decide, Or.inl rfl⟩

end BancuhDns
