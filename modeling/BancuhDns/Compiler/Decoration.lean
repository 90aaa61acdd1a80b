import BancuhDns.Compiler.Comments

/-!
# Decorated domains lines

A line of the domains format is trimmed only after `addr` has looked at what was captured of
it, and what is captured takes in all it can: the whitespace in front of a name, and what
stands behind the name up to a dot with two lower-case letters after it. `addr` refuses
both, and the entry is lost.

So indentation is never left out, and a comment behind a name does no harm as long as there
is no such dot in it within reach (`BancuhDns.decorated_parse_eq_iff`).
-/

namespace BancuhDns

open Regex

/-- **What may stand behind a name**: nothing, whitespace, or whitespace and a comment. -/
def IsTrailing (trail : Text) : Prop :=
  ∃ ws rest, trail = ws ++ rest ∧ (∀ c ∈ ws, isWhitespace c) ∧
    (rest = [] ∨ ws ≠ [] ∧ ∃ comment, rest = '#' :: comment ∧ '\n' ∉ comment)

theorem IsTrailing.head? {trail : Text} (h : IsTrailing trail) :
    ∀ c ∈ trail.head?, isWhitespace c := by
  obtain ⟨ws, rest, rfl, hws, hrest⟩ := h
  intro c hc
  rcases ws with _ | ⟨b, ws⟩
  · obtain rfl : rest = [] := hrest.resolve_right fun h => h.1 rfl
    cases hc
  · rw [← Option.some.inj hc]
    exact hws b List.mem_cons_self

section

variable {d trail : Text} (htrail : ∀ c ∈ trail.head?, isWhitespace c)

include htrail

/-- A top-level label ends where whitespace begins. -/
theorem tldOf_append (y : Text) : tldOf (y ++ trail) = tldOf y := by
  have hsplit : y.takeWhile isLower ++ (y.dropWhile isLower ++ trail) = y ++ trail := by
    rw [← List.append_assoc, List.takeWhile_append_dropWhile]
  have hlower : (y ++ trail).takeWhile isLower = y.takeWhile isLower := by
    rw [← hsplit]
    refine takeWhile_append_of_head? (fun c hc => List.mem_takeWhile_imp hc) fun c hc => ?_
    rw [List.head?_append, Option.mem_def, Option.or_eq_some_iff] at hc
    rcases hc with hc | ⟨-, hc⟩
    · exact head?_dropWhile isLower y c hc
    · by_contra hlower
      have hspace := isWhitespace_of_isLower (c := c) (by simpa using hlower)
      rw [htrail c hc] at hspace
      cases hspace
  have hle : min 6 (y.takeWhile isLower).length ≤ y.length :=
    (Nat.min_le_right _ _).trans (List.takeWhile_prefix isLower).length_le
  rw [tldOf, tldOf, reach, reach, hlower, List.take_append_of_le_length hle]

/-- The stems of a name are stems of the name and what stands behind it, … -/
theorem StemAt.append {x y : Text} (h : StemAt d x y) : StemAt (d ++ trail) x (y ++ trail) :=
  ⟨by rw [h.split, List.append_assoc, List.cons_append], h.two_le, h.le_max, h.newline,
    by rw [tldOf_append htrail]; exact h.tld⟩

/-- … and the only other ones have their dot behind the name. -/
theorem StemAt.of_append {x y : Text} (h : StemAt (d ++ trail) x y) :
    (∃ y', y = y' ++ trail ∧ StemAt d x y') ∨ ∃ s, x = d ++ s ∧ trail = s ++ '.' :: y := by
  rcases List.append_eq_append_iff.mp h.split with ⟨s, hx, hs⟩ | ⟨u, hd, hu⟩
  · exact Or.inr ⟨s, hx, hs⟩
  · rcases u with _ | ⟨c, y'⟩
    · exact Or.inr ⟨[], by simpa using hd.symm, hu.symm⟩
    · obtain ⟨rfl, rfl⟩ := List.cons.inj hu
      refine Or.inl ⟨y', rfl, hd, h.two_le, h.le_max, h.newline, ?_⟩
      rw [← tldOf_append htrail]
      exact h.tld

/-! ### Where a decorated line is read -/

variable {w x y b x' y' : Text}

/-- A line is read at the indentation or at the name. -/
theorem DomainAt.length_le (h : DomainAt (w ++ (d ++ trail)) b x' y') (hstem : StemAt d x y) :
    b.length ≤ w.length := by
  by_contra hlt
  exact h.leftmost w (d ++ trail) rfl (not_le.mp hlt) x _ (hstem.append htrail)

variable (hw : ∀ c ∈ w, isWhitespace c)

include hw

/-- **Indentation is read into the name**, if it does not end with a line break. -/
theorem DomainAt.isStray_of_indent (h : DomainAt (w ++ (d ++ trail)) b x' y')
    (hstem : StemAt d x y) (hlen : d.length ≤ 200) (hindent : ∃ c ∈ w.getLast?, c ≠ '\n') :
    ∃ c ∈ x', isStray c := by
  obtain ⟨c, hc, hne⟩ := hindent
  obtain ⟨w, rfl⟩ := List.getLast?_eq_some_iff.mp hc
  -- the last of the whitespace can stand in front of the stem
  have hlong : StemAt ([c] ++ (d ++ trail)) ([c] ++ x) (y ++ trail) := by
    refine (hstem.append htrail).prepend [c] ?_ (by simpa using Ne.symm hne)
    have hsplit := congrArg List.length hstem.split
    simp only [List.length_append, List.length_cons, List.length_nil] at hsplit ⊢
    omega
  have hle : b.length ≤ w.length := by
    by_contra hlt
    exact h.leftmost w _ (List.append_assoc w [c] _) (not_le.mp hlt) _ _ hlong
  obtain ⟨u, a, hu, rfl, -⟩ := exists_append_of_blank hw h.split (by
    rw [List.length_append]
    omega)
  rcases u with _ | ⟨e, u⟩
  · have hbw := congrArg List.length hu
    simp only [List.length_append, List.length_cons, List.length_nil] at hbw
    omega
  · exact ⟨e, by simp, isStray_of_isWhitespace (hw e (by rw [hu]; simp))⟩

/-- Without indentation a line is read at the name. -/
theorem DomainAt.longestStem_of_flush (h : DomainAt (w ++ (d ++ trail)) b x' y')
    (hstem : StemAt d x y) (hflush : ∀ c ∈ w.getLast?, c = '\n') :
    LongestStem (d ++ trail) x' y' := by
  obtain ⟨u, a, rfl, rfl, -⟩ := exists_append_of_blank hw h.split (h.length_le htrail hstem)
  obtain ⟨⟨v, hv, hlongest⟩, -⟩ := h
  rw [List.append_assoc] at hv
  obtain rfl := List.append_cancel_left hv
  -- a stem does not go on to the left of a line break
  obtain rfl : u = [] := by
    by_contra hne
    refine hlongest.1.newline (List.mem_append_left _ ?_)
    rw [← hflush (u.getLast hne) (by
      rw [List.getLast?_append_of_ne_nil _ hne, List.getLast?_eq_getLast_of_ne_nil hne]
      rfl)]
    exact List.getLast_mem hne
  exact hlongest

end

/-- **What stands behind a name leaves it alone**: no dot of it with two lower-case letters
after it is in reach. -/
def OutOfReach (d trail : Text) : Prop :=
  ∀ s y, trail = s ++ '.' :: y → 2 ≤ (tldOf y).length → d.length + s.length ≤ 200 → '\n' ∈ s

section

variable {d trail x y x' y' : Text} (htrail : ∀ c ∈ trail.head?, isWhitespace c)
  (hlongest : LongestStem d x y) (hlongest' : LongestStem (d ++ trail) x' y')

include htrail hlongest hlongest'

/-- Out of reach, the stem of the name is the one that is read. -/
theorem OutOfReach.eq (h : OutOfReach d trail) : x' ++ '.' :: tldOf y' = x ++ '.' :: tldOf y := by
  obtain ⟨hstem, hmax⟩ := hlongest
  obtain ⟨hstem', hmax'⟩ := hlongest'
  rcases hstem'.of_append htrail with ⟨z, rfl, hz⟩ | ⟨s, rfl, hs⟩
  · have hle := hmax' _ _ (hstem.append htrail)
    obtain ⟨rfl, hyz⟩ := List.append_inj (hstem.split.symm.trans hz.split)
      (le_antisymm hle (hmax _ _ hz))
    rw [(List.cons.inj hyz).2, tldOf_append htrail]
  · have hle := hstem'.le_max
    rw [List.length_append] at hle
    exact absurd (List.mem_append_right d (h s y' hs hstem'.tld hle)) hstem'.newline

/-- In reach, the stem that is read goes on into the whitespace behind the name. -/
theorem isStray_of_not_outOfReach (hnl : '\n' ∉ d) (h : ¬OutOfReach d trail) :
    ∃ c ∈ x', isStray c := by
  simp only [OutOfReach, not_forall] at h
  obtain ⟨s, z, hs, htld, hle, hsnl⟩ := h
  obtain ⟨hstem, -⟩ := hlongest
  obtain ⟨hstem', hmax'⟩ := hlongest'
  have hlen := congrArg List.length hstem.split
  have hbeyond : StemAt (d ++ trail) (d ++ s) z := by
    refine ⟨by rw [hs, List.append_assoc], ?_, by rwa [List.length_append], ?_, htld⟩
    · have h2 := hstem.two_le
      simp only [List.length_append, List.length_cons] at hlen ⊢
      omega
    · rw [List.mem_append, not_or]
      exact ⟨hnl, hsnl⟩
  have hlong := hmax' _ _ hbeyond
  rw [List.length_append] at hlong
  rcases hstem'.of_append htrail with ⟨y₂, -, h₂⟩ | ⟨s₂, rfl, hs₂⟩
  · have hlen₂ := congrArg List.length h₂.split
    rw [List.length_append, List.length_cons] at hlen₂
    omega
  · rcases s₂ with _ | ⟨c, s₂⟩
    · exact absurd (htrail '.' (by rw [hs₂]; rfl)) (by decide)
    · exact ⟨c, by simp, isStray_of_isWhitespace (htrail c (by rw [hs₂]; rfl))⟩

end

/-- **Which decorations leave a domains line alone**: no indentation – or one that ends with
a line break –, and nothing within reach behind the name. -/
theorem decorated_parse_eq_iff {cr : Crates} (hcr : cr.RejectsStray) {d w trail : Text}
    (hd : ∀ c ∈ d, isWhitespace c = false) (hlen : d.length ≤ 200)
    (haccept : Domain.parse cr d ≠ none) (hw : ∀ c ∈ w, isWhitespace c)
    (htrailing : IsTrailing trail) :
    Domain.parse cr (w ++ (d ++ trail)) = Domain.parse cr d ↔
      (∀ c ∈ w.getLast?, c = '\n') ∧ OutOfReach d trail := by
  have htrail := htrailing.head?
  have hnl : '\n' ∉ d := fun h => absurd (hd _ h) (by decide)
  rw [parse_eq cr d] at haccept ⊢
  rcases hm : domainCapture d with _ | m
  · rw [hm] at haccept
    exact absurd rfl haccept
  obtain ⟨b, x, y, hat, rfl⟩ := domainCapture_eq_some_iff.mp hm
  obtain rfl := hat.before_eq_nil hlen hnl
  obtain ⟨⟨_, rfl, hlongest⟩, -⟩ := hat
  have hsome : domainCapture (w ++ (d ++ trail)) ≠ none := fun hnone =>
    domainCapture_eq_none_iff.mp hnone w _ _ _ rfl (hlongest.1.append htrail)
  obtain ⟨m', hm'⟩ := Option.ne_none_iff_exists'.mp hsome
  obtain ⟨b, x', y', hat', rfl⟩ := domainCapture_eq_some_iff.mp hm'
  rw [hm, Option.bind_some] at haccept
  rw [parse_eq, hm', Option.bind_some, Option.bind_some]
  constructor
  · intro heq
    have hclean : ¬∃ c ∈ x', isStray c := fun hstray => haccept (heq.symm.trans
      (readDomain_eq_none_of_isStray hcr ((exists_isStray_append_iff fun c =>
        isLower_of_mem_tldOf).mpr hstray)))
    have hflush : ∀ c ∈ w.getLast?, c = '\n' := by
      by_contra hindent
      push Not at hindent
      exact hclean (hat'.isStray_of_indent htrail hw hlongest.1 hlen hindent)
    refine ⟨hflush, ?_⟩
    by_contra hreach
    exact hclean (isStray_of_not_outOfReach htrail hlongest
      (hat'.longestStem_of_flush htrail hw hlongest.1 hflush) hnl hreach)
  · rintro ⟨hflush, hreach⟩
    rw [hreach.eq htrail hlongest (hat'.longestStem_of_flush htrail hw hlongest.1 hflush)]

theorem decorated_parse_eq_gravatar :
    Domain.parse .strayless "gravatar.com # custom login pictures".toList =
      Domain.parse .strayless "gravatar.com".toList := by
  have htrailing : IsTrailing " # custom login pictures".toList :=
    ⟨[' '], "# custom login pictures".toList, by decide, by decide,
      Or.inr ⟨by decide, " custom login pictures".toList, by decide, by decide⟩⟩
  have hreach : OutOfReach "gravatar.com".toList " # custom login pictures".toList :=
    fun s y hs => absurd (show '.' ∈ " # custom login pictures".toList by rw [hs]; simp) (by decide)
  have haccept : Domain.parse .strayless "gravatar.com".toList ≠ none := by decide
  have hlen : "gravatar.com".toList.length ≤ 200 := by decide
  exact (decorated_parse_eq_iff Crates.strayless_rejectsStray (by decide) hlen haccept
    (List.forall_mem_nil _) htrailing).mpr ⟨by simp, hreach⟩

/-- **An entry that is lost to its comment.** -/
theorem decorated_parse_lost :
    ¬∀ cr : Crates, cr.RejectsStray → ∀ d w trail : Text, (∀ c ∈ d, isWhitespace c = false) →
      d.length ≤ 200 → Domain.parse cr d ≠ none → (∀ c ∈ w, isWhitespace c) → IsTrailing trail →
        Domain.parse cr (w ++ (d ++ trail)) = Domain.parse cr d := by
  intro h
  have htrailing : IsTrailing " # see ads.com".toList :=
    ⟨[' '], "# see ads.com".toList, by decide, by decide,
      Or.inr ⟨by decide, " see ads.com".toList, by decide, by decide⟩⟩
  have hlen : "gravatar.com".toList.length ≤ 200 := by decide
  have heq := h .strayless Crates.strayless_rejectsStray "gravatar.com".toList []
    " # see ads.com".toList (by decide) hlen (by decide) (List.forall_mem_nil _) htrailing
  have hnone : Domain.parse .strayless ([] ++ ("gravatar.com".toList ++ " # see ads.com".toList)) =
      none := by decide
  rw [hnone] at heq
  exact absurd heq (by decide)

end BancuhDns
