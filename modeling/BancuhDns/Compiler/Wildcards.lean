import BancuhDns.Compiler.Capture

/-!
# Wildcard entries

The text of a wildcard is checked without its `*.`, and that is removed by a replacement
in the whole text: every other `*.` in it goes as well. So an entry with a second `*.`
is checked, and stored, as one without it, which is the name of more than the entry
spells out (`BancuhDns.wildcard_widened`).

It is only when some `*` remains that the check can see that the entry is no wildcard
(`BancuhDns.wildcard_exact_iff`), and a `*` remains when there is no dot after it
(`BancuhDns.star_mem_replace_iff`).
-/

namespace BancuhDns

/-! ### What the replacement removes -/

theorem replace_star_cons_cons (s : Text) : replace star [] ('*' :: '.' :: s) = replace star [] s :=
  rfl

/-- A letter that is not the first of a `*.` stays. -/
theorem replace_star_cons {c : Char} {s : Text} (h : c = '*' → s.head? ≠ some '.') :
    replace star [] (c :: s) = c :: replace star [] s := by
  have hnot : startsWith star (c :: s) = false := by
    rw [← Bool.not_eq_true, startsWith, List.isPrefixOf_iff_prefix]
    rintro ⟨t, ht⟩
    obtain ⟨hc, hs⟩ := List.cons.inj ht
    exact h hc.symm (by rw [← hs]; rfl)
  rw [replace, replaceFrom, if_neg (by simp [hnot])]
  rfl

/-- **The shapes of a text**, as the replacement sees it. -/
theorem star_cases {motive : Text → Prop} (nil : motive [])
    (star : ∀ s, motive s → motive ('*' :: '.' :: s))
    (cons : ∀ c s, (c = '*' → s.head? ≠ some '.') → motive s → motive (c :: s)) :
    ∀ s, motive s := by
  intro s
  induction hlen : s.length using Nat.strong_induction_on generalizing s with
  | h n ih =>
    rcases s with _ | ⟨c, s⟩
    · exact nil
    · by_cases h : c = '*' → s.head? ≠ some '.'
      · exact cons c s h (ih s.length (by simp only [← hlen, List.length_cons]; omega) s rfl)
      · push Not at h
        obtain ⟨rfl, hhead⟩ := h
        obtain ⟨s, rfl⟩ := List.head?_eq_some_iff.mp hhead
        exact star s (ih s.length (by simp only [← hlen, List.length_cons]; omega) s rfl)

theorem replace_star_eq_self {s : Text} (h : '*' ∉ s) : replace star [] s = s := by
  induction s with
  | nil => rfl
  | cons c s ih =>
    rw [List.mem_cons, not_or] at h
    rw [replace_star_cons fun hc => absurd hc.symm h.1, ih h.2]

/-- **A `*` remains** when there is one without a dot after it. -/
theorem star_mem_replace_iff {s : Text} :
    '*' ∈ replace star [] s ↔ ∃ a b, s = a ++ '*' :: b ∧ b.head? ≠ some '.' := by
  induction s using star_cases with
  | nil => simp [replace, replaceFrom]
  | star s ih =>
    rw [replace_star_cons_cons, ih]
    constructor
    · rintro ⟨a, b, rfl, hb⟩
      exact ⟨'*' :: '.' :: a, b, rfl, hb⟩
    · rintro ⟨a, b, hs, hb⟩
      rcases a with _ | ⟨c, _ | ⟨c', a⟩⟩
      · exact absurd (by rw [← (List.cons.inj hs).2]; rfl) hb
      · exact absurd (List.cons.inj (List.cons.inj hs).2).1 (by decide)
      · exact ⟨a, b, (List.cons.inj (List.cons.inj hs).2).2, hb⟩
  | cons c s h ih =>
    rw [replace_star_cons h, List.mem_cons, ih]
    constructor
    · rintro (rfl | ⟨a, b, rfl, hb⟩)
      · exact ⟨[], s, rfl, h rfl⟩
      · exact ⟨c :: a, b, rfl, hb⟩
    · rintro ⟨a, b, hs, hb⟩
      rcases a with _ | ⟨c', a⟩
      · exact Or.inl (List.cons.inj hs).1.symm
      · exact Or.inr ⟨a, b, (List.cons.inj hs).2, hb⟩

/-- Letters other than `*` and `.` stay. -/
theorem mem_replace_star_iff {c : Char} (hstar : c ≠ '*') (hdot : c ≠ '.') {s : Text} :
    c ∈ replace star [] s ↔ c ∈ s := by
  induction s using star_cases with
  | nil => simp [replace, replaceFrom]
  | star s ih => rw [replace_star_cons_cons, ih]; simp [hstar, hdot]
  | cons d s h ih => rw [replace_star_cons h, List.mem_cons, List.mem_cons, ih]

/-- The last letter stays, if it is not a dot. -/
theorem replace_star_concat {c : Char} (hdot : c ≠ '.') (s : Text) :
    replace star [] (s ++ [c]) = replace star [] s ++ [c] := by
  induction s using star_cases with
  | nil => rw [List.nil_append, replace_star_cons (fun _ => by simp)]; rfl
  | star s ih =>
    rw [List.cons_append, List.cons_append, replace_star_cons_cons, replace_star_cons_cons, ih]
  | cons d s h ih =>
    have h' : d = '*' → (s ++ [c]).head? ≠ some '.' := fun hd => by
      rcases s with _ | ⟨e, s⟩
      · simpa using hdot
      · simpa using h hd
    rw [List.cons_append, replace_star_cons h', replace_star_cons h, ih, List.cons_append]

/-! ### Wildcard entries -/

/-- `addr` accepts no name with a `*`, and changes none that it accepts. -/
def Crates.RejectsStars (cr : Crates) : Prop :=
  ∀ s v, cr.parseDomainName s = some v → v = s ∧ '*' ∉ s

/-- `idna` leaves the `*.` of a wildcard in its place. -/
def Crates.KeepsStar (cr : Crates) : Prop :=
  ∀ s, cr.domainToAscii (star ++ s) = (cr.domainToAscii s).map fun a => star ++ a

/-- **What a wildcard entry spells out**: the wildcard of the ASCII form of what comes after
its `*.`, when that is a name. -/
def spelledOut (cr : Crates) (rest : Text) : Option Domain :=
  (cr.parseDomainName rest).bind fun _ =>
    (cr.domainToAscii rest).map fun ascii => ⟨star ++ ascii⟩

/-- What is captured ends with a letter, and so does what is left of it without the `*.`. -/
theorem trim_star_append_replace {rest : Text}
    (hwhole : (domainCapture (star ++ rest)).map (·.text) = some (star ++ rest)) :
    trim (star ++ replace star [] rest) = star ++ replace star [] rest := by
  obtain ⟨m, hm, hrest⟩ := Option.map_eq_some_iff.mp hwhole
  obtain ⟨before, x, y, ⟨⟨v, -, hstem, -⟩, -⟩, rfl⟩ := domainCapture_eq_some_iff.mp hm
  have htwo := hstem.two_le
  have htld := hstem.tld
  obtain ⟨t, c, ht⟩ : ∃ t c, tldOf y = t ++ [c] := by
    rcases List.eq_nil_or_concat (tldOf y) with hnil | ⟨t, c, ht⟩
    · rw [hnil] at htld
      exact absurd htld (by simp)
    · exact ⟨t, c, by rw [ht, List.concat_eq_append]⟩
  have hlower : isLower c := isLower_of_mem_tldOf (y := y) (by rw [ht]; simp)
  rcases List.eq_nil_or_concat rest with rfl | ⟨r, c', rfl⟩
  · have hlen := congrArg List.length hrest
    simp only [List.append_nil, List.length_append, List.length_cons, star, List.length_nil] at hlen
    omega
  · rw [List.concat_eq_append] at hrest ⊢
    -- the last letter of the entry is that of its top-level label
    have hsplit : (x ++ '.' :: t) ++ [c] = (star ++ r) ++ [c'] := by
      simpa [ht] using hrest
    obtain rfl : c = c' := (List.cons.inj (List.append_inj' hsplit rfl).2).1
    rw [replace_star_concat (isLower_ne_dot hlower)]
    refine trim_eq_self_of_ends (fun d hd => ?_) fun d hd => ?_
    · rw [← Option.some.inj hd]
      decide
    · rw [← List.append_assoc, List.getLast?_concat] at hd
      rw [← Option.some.inj hd]
      exact isWhitespace_of_isLower hlower

/-- What is stored of a wildcard entry. -/
theorem parse_wildcard {cr : Crates} (hrejects : cr.RejectsStars) (hkeeps : cr.KeepsStar)
    {rest : Text} (hwhole : (domainCapture (star ++ rest)).map (·.text) = some (star ++ rest)) :
    Domain.parse cr (star ++ rest) = spelledOut cr (replace star [] rest) := by
  obtain ⟨m, hm, hrest⟩ := Option.map_eq_some_iff.mp hwhole
  have hstar : startsWith star (star ++ rest) = true := by
    rw [startsWith, List.isPrefixOf_iff_prefix]
    exact List.prefix_append star rest
  rw [parse_eq, hm, Option.bind_some, hrest, readDomain, checkName, if_pos hstar, spelledOut]
  have hreplace : replace star [] (star ++ rest) = replace star [] rest := rfl
  rw [hreplace]
  rcases hparse : cr.parseDomainName (replace star [] rest) with _ | v
  · rfl
  · obtain ⟨rfl, -⟩ := hrejects _ v hparse
    simp only [Option.map_some, Option.bind_some, trim_star_append_replace hwhole]
    rw [hkeeps, Option.map_map]
    rfl

/-- Crates that accept every name without a `*`, and change none. -/
def Crates.starless : Crates := ⟨fun s => if '*' ∈ s then none else some s, some⟩

theorem Crates.starless_rejectsStars : Crates.starless.RejectsStars := by
  intro s v h
  obtain ⟨hmem, hv⟩ := Option.ite_none_left_eq_some.mp h
  exact ⟨(Option.some.inj hv).symm, hmem⟩

theorem Crates.starless_keepsStar : Crates.starless.KeepsStar := fun _ => rfl

/-- **When a wildcard entry is stored as it is spelled out.** Of a line that is captured
whole, for all crates, exactly when what comes after the `*.` has no `*`, or has one that no
dot comes after. -/
theorem wildcard_exact_iff {rest : Text}
    (hwhole : (domainCapture (star ++ rest)).map (·.text) = some (star ++ rest)) :
    (∀ cr : Crates, cr.RejectsStars → cr.KeepsStar →
        Domain.parse cr (star ++ rest) = spelledOut cr rest) ↔
      ('*' ∈ rest → ∃ a b, rest = a ++ '*' :: b ∧ b.head? ≠ some '.') := by
  rw [← star_mem_replace_iff]
  constructor
  · intro hexact hmem
    by_contra hgone
    have hparse := hexact .starless Crates.starless_rejectsStars Crates.starless_keepsStar
    rw [parse_wildcard Crates.starless_rejectsStars Crates.starless_keepsStar hwhole,
      spelledOut, spelledOut, Crates.starless] at hparse
    simp only [if_neg hgone, if_pos hmem] at hparse
    cases hparse
  · intro hremains cr hrejects hkeeps
    rw [parse_wildcard hrejects hkeeps hwhole]
    by_cases hmem : '*' ∈ rest
    · -- neither the entry nor what is left of it is a name
      have hnone : ∀ s, '*' ∈ s → cr.parseDomainName s = none := fun s hs => by
        by_contra hsome
        obtain ⟨v, hv⟩ := Option.ne_none_iff_exists'.mp hsome
        exact (hrejects s v hv).2 hs
      rw [spelledOut, spelledOut, hnone rest hmem, hnone _ (hremains hmem)]
      rfl
    · rw [replace_star_eq_self hmem]

theorem wildcard_exact_iff_plain :
    Domain.parse .starless "*.ads.com".toList = spelledOut .starless "ads.com".toList := by
  have hwhole : (domainCapture (star ++ "ads.com".toList)).map (·.text) =
      some (star ++ "ads.com".toList) := by decide
  exact (wildcard_exact_iff hwhole).mpr (fun hmem => absurd hmem (by decide)) .starless
    Crates.starless_rejectsStars Crates.starless_keepsStar

/-- **A widened entry.** `*.ads.*.com` is stored as `*.ads.com`, though `ads.*.com` is no
name. -/
theorem wildcard_widened :
    ¬∀ (rest : Text), (domainCapture (star ++ rest)).map (·.text) = some (star ++ rest) →
      ∀ cr : Crates, cr.RejectsStars → cr.KeepsStar →
        Domain.parse cr (star ++ rest) = spelledOut cr rest := by
  intro h
  have hexact := h "ads.*.com".toList (by decide) .starless Crates.starless_rejectsStars
    Crates.starless_keepsStar
  have hparse : Domain.parse .starless (star ++ "ads.*.com".toList) =
      some ⟨"*.ads.com".toList⟩ := by decide
  rw [hparse] at hexact
  exact absurd hexact (by decide)

end BancuhDns
