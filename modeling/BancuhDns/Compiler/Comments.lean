import BancuhDns.Compiler.CNameCapture
import BancuhDns.Compiler.Compile
import BancuhDns.Compiler.Wildcards

/-!
# Comments

No parser of a source line knows what a comment is. A line that begins with a `#` is
searched like any other, and it is left to `addr` to refuse what is captured
(`BancuhDns.Crates.RejectsStray`). It does so if the `#` is in what is captured; but a hosts
line is read from its address on, which stands behind the `#`
(`BancuhDns.hostFirst_comment_iff`), so that a comment makes no difference to it, and the
other two kinds of line are read at most 200 characters before a dot.

`BancuhDns.comment_yieldsNothing_iff` says which comments yield nothing, on a list of which
format.
-/

namespace BancuhDns

open Regex (Match)

/-! ### Letters that no name has -/

/-- A `#`, or whitespace. -/
def isStray (c : Char) : Bool := c == '#' || isWhitespace c

/-- `addr` accepts no name with a `#` or whitespace. -/
def Crates.RejectsStray (cr : Crates) : Prop :=
  ∀ s, (∃ c ∈ s, isStray c) → cr.parseDomainName s = none

/-- Crates that accept every other name, and change none. -/
def Crates.strayless : Crates := ⟨fun s => if s.any isStray then none else some s, some⟩

theorem Crates.strayless_rejectsStray : Crates.strayless.RejectsStray :=
  fun _ h => if_pos (List.any_eq_true.mpr h)

theorem isStray_of_isWhitespace {c : Char} (h : isWhitespace c) : isStray c := by
  simp [isStray, h]

theorem isStray_eq_false_of_isLower {c : Char} (h : isLower c) : isStray c = false := by
  have hne : c ≠ '#' := by
    rintro rfl
    exact absurd h (by decide)
  simp [isStray, hne, isWhitespace_of_isLower h]

/-- `addr` is shown every stray letter of a captured text. -/
theorem exists_isStray_shown_iff {t : Text} :
    (∃ c ∈ if startsWith star t then replace star [] t else t, isStray c) ↔
      ∃ c ∈ t, isStray c := by
  split_ifs
  · refine exists_congr fun c => and_congr_left fun hc => mem_replace_star_iff ?_ ?_ <;>
      · rintro rfl
        exact absurd hc (by decide)
  · rfl

theorem readDomain_eq_none_of_isStray {cr : Crates} (hcr : cr.RejectsStray) {t : Text}
    (h : ∃ c ∈ t, isStray c) : readDomain cr t = none := by
  rw [readDomain, checkName_eq, hcr _ (exists_isStray_shown_iff.mpr h)]
  rfl

theorem exists_readDomain_strayless {t : Text} (h : ¬∃ c ∈ t, isStray c) :
    ∃ d, readDomain .strayless t = some d :=
  ⟨⟨_⟩, readDomain_eq_some_iff.mpr
    ⟨_, if_neg fun hs => h (exists_isStray_shown_iff.mp (List.any_eq_true.mp hs)), rfl⟩⟩

/-- The stray letters of a stem and its top-level label are in the stem. -/
theorem exists_isStray_append_iff {x t : Text} (ht : ∀ c ∈ t, isLower c) :
    (∃ c ∈ x ++ '.' :: t, isStray c) ↔ ∃ c ∈ x, isStray c := by
  constructor
  · rintro ⟨c, hc, hstray⟩
    rcases List.mem_append.mp hc with hc | hc
    · exact ⟨c, hc, hstray⟩
    · rcases List.mem_cons.mp hc with rfl | hc
      · exact absurd hstray (by decide)
      · rw [isStray_eq_false_of_isLower (ht c hc)] at hstray
        cases hstray
  · rintro ⟨c, hc, hstray⟩
    exact ⟨c, List.mem_append_left _ hc, hstray⟩

/-! ### The lines that yield nothing -/

/-- A domains line yields nothing when the stem it is read by has a stray letter. -/
theorem domains_silent_iff {line : Text} :
    (∀ cr : Crates, cr.RejectsStray → Domain.parse cr line = none) ↔
      ∀ b x y, DomainAt line b x y → ∃ c ∈ x, isStray c := by
  constructor
  · intro h b x y hat
    by_contra hclean
    rw [← exists_isStray_append_iff (fun c => isLower_of_mem_tldOf)] at hclean
    obtain ⟨d, hd⟩ := exists_readDomain_strayless hclean
    have hnone := h _ Crates.strayless_rejectsStray
    rw [parse_eq, domainCapture_eq_some_iff.mpr ⟨b, x, y, hat, rfl⟩, Option.bind_some, hd] at hnone
    cases hnone
  · intro h cr hcr
    rw [parse_eq, Option.bind_eq_none_iff]
    intro m hm
    obtain ⟨b, x, y, hat, rfl⟩ := domainCapture_eq_some_iff.mp hm
    exact readDomain_eq_none_of_isStray hcr
      ((exists_isStray_append_iff fun c => isLower_of_mem_tldOf).mpr (h b x y hat))

/-- And so does a hosts line. -/
theorem hosts_silent_iff {line : Text} :
    (∀ cr : Crates, cr.RejectsStray → (Host.parse cr line).map Host.intoDomain = none) ↔
      ∀ b q ws r x y, HostFirst line b q ws r → LongestStem r x y → ∃ c ∈ x, isStray c := by
  constructor
  · intro h b q ws r x y hfirst hlongest
    by_contra hclean
    rw [← exists_isStray_append_iff (fun c => isLower_of_mem_tldOf)] at hclean
    obtain ⟨d, hd⟩ := exists_readDomain_strayless hclean
    have hsome := hosts_parse_eq_some_iff.mpr
      ⟨_, hostCapture_eq_some_iff.mpr ⟨b, q, ws, r, x, y, hfirst, hlongest, rfl⟩,
        fun c hc => by
          by_contra hspace
          exact hclean ⟨c, List.mem_of_mem_head? hc,
            isStray_of_isWhitespace (by simpa using hspace)⟩,
        hd⟩
    rw [h _ Crates.strayless_rejectsStray] at hsome
    cases hsome
  · intro h cr hcr
    rw [Option.eq_none_iff_forall_ne_some]
    intro d hd
    obtain ⟨m, hm, -, hread⟩ := hosts_parse_eq_some_iff.mp hd
    obtain ⟨b, q, ws, r, x, y, hfirst, hlongest, rfl⟩ := hostCapture_eq_some_iff.mp hm
    rw [readDomain_eq_none_of_isStray hcr ((exists_isStray_append_iff fun c =>
      isLower_of_mem_tldOf).mpr (h b q ws r x y hfirst hlongest))] at hread
    cases hread

/-- A captured field that is of use: trimmed it is long enough, and has no stray letter. -/
def Readable (x : Text) : Prop := 2 ≤ (trimStart x).length ∧ ¬∃ c ∈ trimStart x, isStray c

theorem parse_trim_eq_none {cr : Crates} (hcr : cr.RejectsStray) {v x t r : Text}
    (h : FieldAt v x t r) (hx : ¬Readable x) : Domain.parse cr (trim (x ++ '.' :: t)) = none := by
  rw [parse_trim_field cr h]
  split_ifs with h2
  · refine readDomain_eq_none_of_isStray hcr ((exists_isStray_append_iff h.tld.lower).mpr ?_)
    by_contra hclean
    exact hx ⟨h2, hclean⟩
  · rfl

theorem exists_parse_trim_strayless {v x t r : Text} (h : FieldAt v x t r) (hx : Readable x) :
    ∃ d, Domain.parse .strayless (trim (x ++ '.' :: t)) = some d := by
  rw [parse_trim_field _ h, if_pos hx.1]
  exact exists_readDomain_strayless fun hs => hx.2 ((exists_isStray_append_iff h.tld.lower).mp hs)

/-- A zone line yields nothing when one of its two fields is of no use. -/
theorem cname_silent_iff {line : Text} :
    (∀ cr : Crates, cr.RejectsStray → CName.parse cr line = none) ↔
      ∀ b x t s w k w' r x' t' rest, CNameFirst line b x t s → TargetMost s w k w' r →
        LongestAlias r x' t' rest → ¬(Readable x ∧ Readable x') := by
  constructor
  · rintro h b x t s w k w' r x' t' rest hfirst hmost halias ⟨hx, hx'⟩
    obtain ⟨v, -, hfield⟩ := hfirst.field
    obtain ⟨d, hd⟩ := exists_parse_trim_strayless hfield hx
    obtain ⟨a, ha⟩ := exists_parse_trim_strayless halias.1 hx'
    have hnone := h _ Crates.strayless_rejectsStray
    rw [cname_parse_eq, cnameCapture_eq_some_iff.mpr
      ⟨b, x, t, s, w, k, w', r, x', t', rest, hfirst, hmost, halias, rfl, rfl⟩] at hnone
    simp only [Option.bind_some, hd, ha] at hnone
    cases hnone
  · intro h cr hcr
    rw [cname_parse_eq, Option.bind_eq_none_iff]
    rintro ⟨d, a⟩ hm
    obtain ⟨b, x, t, s, w, k, w', r, x', t', rest, hfirst, hmost, halias, rfl, rfl⟩ :=
      cnameCapture_eq_some_iff.mp hm
    obtain ⟨v, -, hfield⟩ := hfirst.field
    by_cases hx : Readable x
    · have hx' : ¬Readable x' := fun hx' => h _ _ _ _ _ _ _ _ _ _ _ hfirst hmost halias ⟨hx, hx'⟩
      rw [parse_trim_eq_none hcr halias.1 hx']
      exact Option.bind_eq_none_iff.mpr fun _ _ => rfl
    · rw [parse_trim_eq_none hcr hfield hx]
      rfl

/-! ### Lines that are commented out -/

/-- A stem that begins in the whitespace at the head of a line, or right after it, has the
rest of the whitespace in it. -/
theorem exists_append_of_blank {w v b x y : Text} (hw : ∀ c ∈ w, isWhitespace c)
    (h : w ++ v = b ++ (x ++ '.' :: y)) (hle : b.length ≤ w.length) :
    ∃ u a, w = b ++ u ∧ x = u ++ a ∧ v = a ++ '.' :: y := by
  obtain ⟨u, rfl, hu⟩ := exists_append_of_length_le h hle
  obtain ⟨a, hx, hv⟩ := exists_append_of_class
    (fun c hc => hw c (List.mem_append_right _ hc)) (by decide) hu.symm
  exact ⟨u, a, rfl, hx, hv⟩

/-- In front of the `#` of a comment, a stem has the `#` in it. -/
theorem exists_trimStart_eq_of_comment {w s b x y : Text} (hw : ∀ c ∈ w, isWhitespace c)
    (h : w ++ '#' :: s = b ++ (x ++ '.' :: y)) (hle : b.length ≤ w.length) :
    ∃ a, trimStart x = '#' :: a ∧ '#' ∈ x := by
  obtain ⟨u, a, rfl, rfl, hs⟩ := exists_append_of_blank hw h hle
  rcases a with _ | ⟨c, a⟩
  · exact absurd (List.cons.inj hs).1 (by decide)
  · obtain rfl := (List.cons.inj hs).1
    refine ⟨a, ?_, by simp⟩
    rw [trimStart, List.dropWhile_append_of_pos fun c hc => hw c (List.mem_append_right _ hc)]
    rfl

theorem IsQuad.exists_cons {q : Text} (h : IsQuad q) : ∃ c r, q = c :: r ∧ isDecimal c := by
  obtain ⟨a, b, c, d, rfl, ⟨hne, -, hdec⟩, -⟩ := h
  obtain ⟨e, a, rfl⟩ := List.exists_cons_of_ne_nil (List.ne_nil_of_length_pos hne)
  exact ⟨e, _, rfl, hdec e List.mem_cons_self⟩

section Comment

variable {w s : Text} (hw : ∀ c ∈ w, isWhitespace c)

include hw

/-- An address cannot begin in front of the `#`. -/
theorem HostAt.of_comment {b q ws r : Text} (h : HostAt (w ++ '#' :: s) b q ws r) :
    ∃ b', b = w ++ '#' :: b' ∧ HostAt s b' q ws r := by
  obtain ⟨hsplit, hq, hne, hspaces, hstem⟩ := h
  obtain ⟨c, q, rfl, hdec⟩ := hq.exists_cons
  obtain ⟨a, rfl, ha⟩ := exists_append_of_class hw (isWhitespace_of_isDecimal hdec) hsplit
  rcases a with _ | ⟨d, a⟩
  · rw [← (List.cons.inj ha).1] at hdec
    exact absurd hdec (by decide)
  · obtain ⟨rfl, hs⟩ := List.cons.inj ha
    exact ⟨a, rfl, hs, hq, hne, hspaces, hstem⟩

omit hw in
theorem HostAt.comment {b q ws r : Text} (h : HostAt s b q ws r) (w : Text) :
    HostAt (w ++ '#' :: s) (w ++ '#' :: b) q ws r :=
  ⟨by rw [h.split]; simp, h.quad, h.ne_nil, h.spaces, h.stem⟩

/-- **A hosts line is read behind the `#`**, as though there were none. -/
theorem hostFirst_comment_iff {b q ws r : Text} :
    HostFirst (w ++ '#' :: s) b q ws r ↔ ∃ b', b = w ++ '#' :: b' ∧ HostFirst s b' q ws r := by
  constructor
  · rintro ⟨hat, hleft, hlong⟩
    obtain ⟨b, rfl, hat'⟩ := hat.of_comment hw
    refine ⟨b, rfl, hat', fun b₂ q₂ ws₂ r₂ h₂ => ?_, fun q₂ ws₂ r₂ h₂ => ?_⟩
    · simpa using hleft _ _ _ _ (h₂.comment w)
    · exact hlong _ _ _ (h₂.comment w)
  · rintro ⟨b, rfl, hat, hleft, hlong⟩
    refine ⟨hat.comment w, fun b₂ q₂ ws₂ r₂ h₂ => ?_, fun q₂ ws₂ r₂ h₂ => ?_⟩
    · obtain ⟨b', rfl, h'⟩ := h₂.of_comment hw
      simpa using hleft _ _ _ _ h'
    · obtain ⟨b', hb', h'⟩ := h₂.of_comment hw
      obtain rfl : b = b' := by simpa using hb'
      exact hlong _ _ _ h'

end Comment

/-- A hosts comment is silent: the stem that the text behind the `#` is read by has a stray
letter. -/
def HostsSilent (s : Text) : Prop :=
  ∀ b q ws r x y, HostFirst s b q ws r → LongestStem r x y → ∃ c ∈ x, isStray c

/-- A domains comment is silent: the stem that the line is read by has a stray letter, if it
begins behind the `#`. -/
def DomainsSilent (w s : Text) : Prop :=
  ∀ b x y, DomainAt (w ++ '#' :: s) b x y → w.length < b.length → ∃ c ∈ x, isStray c

/-- A zone comment is silent: if the first field begins behind the `#`, one of the two is of
no use. -/
def ZoneSilent (w s : Text) : Prop :=
  ∀ b x t s' w₁ k w₂ r x' t' rest, CNameFirst (w ++ '#' :: s) b x t s' →
    TargetMost s' w₁ k w₂ r → LongestAlias r x' t' rest → w.length < b.length →
    ¬(Readable x ∧ Readable x')

section Comment

variable {w s : Text} (hw : ∀ c ∈ w, isWhitespace c)

include hw

theorem hosts_comment_iff :
    (∀ cr : Crates, cr.RejectsStray →
      (Host.parse cr (w ++ '#' :: s)).map Host.intoDomain = none) ↔ HostsSilent s := by
  rw [hosts_silent_iff]
  constructor
  · exact fun h b q ws r x y hfirst =>
      h _ q ws r x y ((hostFirst_comment_iff hw).mpr ⟨b, rfl, hfirst⟩)
  · intro h b q ws r x y hfirst
    obtain ⟨b, -, hfirst⟩ := (hostFirst_comment_iff hw).mp hfirst
    exact h b q ws r x y hfirst

theorem domains_comment_iff :
    (∀ cr : Crates, cr.RejectsStray → Domain.parse cr (w ++ '#' :: s) = none) ↔
      DomainsSilent w s := by
  rw [domains_silent_iff]
  refine ⟨fun h b x y hat _ => h b x y hat, fun h b x y hat => ?_⟩
  rcases Nat.lt_or_ge w.length b.length with hlt | hle
  · exact h b x y hat hlt
  · obtain ⟨a, -, hmem⟩ := exists_trimStart_eq_of_comment hw hat.split hle
    exact ⟨'#', hmem, by decide⟩

theorem zone_comment_iff :
    (∀ cr : Crates, cr.RejectsStray → CName.parse cr (w ++ '#' :: s) = none) ↔
      ZoneSilent w s := by
  rw [cname_silent_iff]
  refine ⟨fun h b x t s' w₁ k w₂ r x' t' rest hfirst hmost halias _ =>
    h b x t s' w₁ k w₂ r x' t' rest hfirst hmost halias,
    fun h b x t s' w₁ k w₂ r x' t' rest hfirst hmost halias => ?_⟩
  rcases Nat.lt_or_ge w.length b.length with hlt | hle
  · exact h b x t s' w₁ k w₂ r x' t' rest hfirst hmost halias hlt
  · rintro ⟨hx, -⟩
    obtain ⟨v, hv, hfield⟩ := hfirst.field
    rw [hfield.stem.split] at hv
    obtain ⟨a, ha, -⟩ := exists_trimStart_eq_of_comment hw hv hle
    exact hx.2 ⟨'#', by rw [ha]; exact List.mem_cons_self, by decide⟩

end Comment

/-- The formats a source can have. -/
inductive SourceFormat where
  | blacklist (format : BlacklistFormat)
  | whitelist (format : WhitelistFormat)
  | overrides (format : OverrideFormat)

/-- The parser of the format returns `None`. -/
def SourceFormat.YieldsNothing (cr : Crates) (line : Text) : SourceFormat → Prop
  | .blacklist format => (ParseBlacklist.ofFormat format).parse cr line = none
  | .whitelist format => (ParseWhitelist.ofFormat format).parse cr line = none
  | .overrides format => (ParseRewrite.ofFormat format).parse cr line = none

/-- **When a comment is silent**, by the format of the list it stands on. -/
def SourceFormat.Silent (w s : Text) : SourceFormat → Prop
  | .blacklist .hosts | .whitelist .hosts => HostsSilent s
  | .blacklist .domains | .whitelist .domains => DomainsSilent w s
  | .whitelist .zone | .overrides .cname => ZoneSilent w s

/-- **Which comments yield nothing**, whatever else `addr` rejects: on a list of any format,
exactly those that are silent. -/
theorem comment_yieldsNothing_iff (format : SourceFormat) {w : Text}
    (hw : ∀ c ∈ w, isWhitespace c) (s : Text) :
    (∀ cr : Crates, cr.RejectsStray → format.YieldsNothing cr (w ++ '#' :: s)) ↔
      format.Silent w s := by
  rcases format with (_ | _) | (_ | _ | _) | _
  · exact hosts_comment_iff hw
  · exact domains_comment_iff hw
  · exact hosts_comment_iff hw
  · exact domains_comment_iff hw
  · have hmap : ∀ cr : Crates, (CName.parse cr (w ++ '#' :: s)).map CName.intoDomain = none ↔
        CName.parse cr (w ++ '#' :: s) = none := fun cr => Option.map_eq_none_iff
    exact (forall_congr' fun cr => imp_congr_right fun _ => hmap cr).trans (zone_comment_iff hw)
  · exact zone_comment_iff hw

theorem comment_yieldsNothing_example :
    (SourceFormat.blacklist .domains).YieldsNothing .strayless "# abc.example.com".toList := by
  have hsilent : DomainsSilent [] " abc.example.com".toList := fun b x y hat hlt => by
    rw [hat.before_eq_nil (by decide) (by decide)] at hlt
    exact absurd hlt (lt_irrefl 0)
  exact (comment_yieldsNothing_iff (.blacklist .domains) (List.forall_mem_nil _)
    " abc.example.com".toList).mpr hsilent .strayless Crates.strayless_rejectsStray

/-- **A comment that lists a name.** On a list of hosts a line that is commented out counts as
though it were not. -/
theorem comment_yields_something :
    ¬∀ (format : SourceFormat) (w s : Text), (∀ c ∈ w, isWhitespace c) → ∀ cr : Crates,
      cr.RejectsStray → format.YieldsNothing cr (w ++ '#' :: s) := by
  intro h
  have hnone : (Host.parse .strayless "# 127.0.0.1 ads.com".toList).map Host.intoDomain = none :=
    h (.blacklist .hosts) [] " 127.0.0.1 ads.com".toList (List.forall_mem_nil _) .strayless
      Crates.strayless_rejectsStray
  have hsome : (Host.parse .strayless "# 127.0.0.1 ads.com".toList).map Host.intoDomain =
      some ⟨"ads.com".toList⟩ := by decide
  rw [hsome] at hnone
  cases hnone

end BancuhDns
