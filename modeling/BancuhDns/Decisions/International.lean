import BancuhDns.Decisions.Listed

/-!
# Internationalised names

The keys are written in ASCII: what a line names goes through `domain_to_ascii` before
it becomes one. The queries are looked up as they are *displayed*, and the
DNS library displays a label `xn--…` that decodes in its Unicode form. The two meet
only where nothing decodes: a listed name is found for the query whose wire labels are
its own exactly when none of its labels is displayed decoded
(`BancuhDns.international_iff`). For any other the key is in the store and is not
looked up (`BancuhDns.international_bucher`).
-/

namespace BancuhDns

/-! ### What is written and what is displayed -/

/-- Non-empty ASCII labels joined by dots. -/
def IsAscii (s : Text) : Prop := ∀ l ∈ s.splitOn '.', l ≠ [] ∧ ∀ c ∈ l, isLdh c

instance (s : Text) : Decidable (IsAscii s) :=
  inferInstanceAs (Decidable (∀ l ∈ s.splitOn '.', l ≠ [] ∧ ∀ c ∈ l, isLdh c))

/-- An ASCII name, or the wildcard over one. -/
def IsAsciiPattern (p : Text) : Prop := IsAscii p ∨ ∃ s, p = star ++ s ∧ IsAscii s

/-- What a label of an internationalised name begins with. -/
def acePrefix : Text := "xn--".toList

/-- `Display` of `LowerName`, one label of the wire name at a time, and the decoding of
a label under IDNA. -/
structure Display where
  showLabel : Text → Text
  decode : Text → Option Text

/-- **What the DNS library is documented to display**: an `xn--` label that decodes in
its Unicode form, which is another text without dots, and any other label of letters,
digits and hyphens, or a lone asterisk, as it is. -/
structure Display.Documented (disp : Display) : Prop where
  showLabel_decoded : ∀ l u, startsWith acePrefix l → disp.decode l = some u →
    disp.showLabel l = u
  showLabel_plain : ∀ l, (∀ c ∈ l, isLdh c) → (startsWith acePrefix l → disp.decode l = none) →
    disp.showLabel l = l
  showLabel_star : disp.showLabel ['*'] = ['*']
  decode_ne : ∀ l u, disp.decode l = some u → u ≠ l
  decode_ne_nil : ∀ l u, disp.decode l = some u → u ≠ []
  decode_dot : ∀ l u, disp.decode l = some u → '.' ∉ u

/-- No label of a pattern is displayed decoded. -/
def NothingDecodes (disp : Display) (p : Text) : Prop :=
  ∀ l ∈ p.splitOn '.', startsWith acePrefix l → disp.decode l = none

/-! ### The labels of a pattern -/

theorem splitOn_star (s : Text) : (star ++ s).splitOn '.' = ['*'] :: s.splitOn '.' := rfl

namespace IsAsciiPattern

variable {p : Text} (h : IsAsciiPattern p)

include h

theorem label {l : Text} (hl : l ∈ p.splitOn '.') : l = ['*'] ∨ l ≠ [] ∧ ∀ c ∈ l, isLdh c := by
  rcases h with h | ⟨s, rfl, h⟩
  · exact Or.inr (h l hl)
  · rw [splitOn_star] at hl
    rcases List.mem_cons.mp hl with rfl | hl
    · exact Or.inl rfl
    · exact Or.inr (h l hl)

theorem label_ne_nil {l : Text} (hl : l ∈ p.splitOn '.') : l ≠ [] := by
  rcases h.label hl with rfl | ⟨hne, -⟩
  · exact List.cons_ne_nil _ _
  · exact hne

/-- An ASCII pattern has no trailing dot to leave out. -/
theorem labelsOf_eq : labelsOf p = p.splitOn '.' := by
  rw [labelsOf, if_neg]
  intro hdot
  obtain ⟨t, ht⟩ := endsWith_iff.mp hdot
  refine h.label_ne_nil (l := []) ?_ rfl
  rw [ht, List.splitOn_append_cons_self, List.splitOn_nil]
  simp

end IsAsciiPattern

theorem isAscii_of_star {s : Text} (h : IsAsciiPattern (star ++ s)) : IsAscii s := by
  rcases h with h | ⟨s', heq, h⟩
  · have hstar := (h ['*'] (by simp [splitOn_star])).2 '*' (List.mem_singleton_self _)
    exact absurd hstar (by decide)
  · rwa [List.append_cancel_left heq]

/-! ### What is displayed -/

section Displayed

variable {disp : Display} (hdisp : disp.Documented) {p : Text} (hp : IsAsciiPattern p)

include hdisp hp

theorem showLabel_eq_self {l : Text} (hl : l ∈ p.splitOn '.')
    (hnone : startsWith acePrefix l → disp.decode l = none) : disp.showLabel l = l := by
  rcases hp.label hl with rfl | ⟨-, hldh⟩
  · exact hdisp.showLabel_star
  · exact hdisp.showLabel_plain l hldh hnone

/-- A label is displayed as it is exactly when it does not decode. -/
theorem showLabel_eq_self_iff {l : Text} (hl : l ∈ p.splitOn '.') :
    disp.showLabel l = l ↔ (startsWith acePrefix l → disp.decode l = none) := by
  refine ⟨fun hshow hace => ?_, showLabel_eq_self hdisp hp hl⟩
  rcases hdec : disp.decode l with _ | u
  · rfl
  · rw [hdisp.showLabel_decoded l u hace hdec] at hshow
    exact absurd hshow (hdisp.decode_ne l u hdec)

/-- The labels are displayed as they are exactly when none decodes. -/
theorem map_showLabel_eq_self_iff :
    (p.splitOn '.').map disp.showLabel = p.splitOn '.' ↔ NothingDecodes disp p := by
  have hid : (p.splitOn '.').map id = p.splitOn '.' := List.map_id _
  nth_rewrite 2 [← hid]
  rw [List.map_inj_left]
  exact forall₂_congr fun l hl => showLabel_eq_self_iff hdisp hp hl

/-- A displayed label is a label. -/
theorem showLabel_label {l : Text} (hl : l ∈ p.splitOn '.') :
    disp.showLabel l ≠ [] ∧ '.' ∉ disp.showLabel l := by
  by_cases hnone : startsWith acePrefix l → disp.decode l = none
  · rw [showLabel_eq_self hdisp hp hl hnone]
    exact ⟨hp.label_ne_nil hl, notMem_of_mem_splitOn hl⟩
  · obtain ⟨hace, hdec⟩ := Classical.not_imp.mp hnone
    obtain ⟨u, hu⟩ := Option.ne_none_iff_exists'.mp hdec
    rw [hdisp.showLabel_decoded l u hace hu]
    exact ⟨hdisp.decode_ne_nil l u hu, hdisp.decode_dot l u hu⟩

/-- **A listed pattern matches what its own wire name is displayed as** exactly when
nothing decodes. -/
theorem matches_displayed_iff {n : Name}
    (hn : n.labels = (p.splitOn '.').map disp.showLabel) :
    Matches p n ↔ NothingDecodes disp p := by
  rw [← map_showLabel_eq_self_iff hdisp hp, ← hn]
  constructor
  · rintro (hself | ⟨s, front, -, rfl, hfront, hlabels⟩)
    · rw [normalizeName_eq_labelsText] at hself
      rw [← hp.labelsOf_eq]
      refine (labelsText_inj (labelsOf_ne_nil p) ?_ (fun _ => dot_notMem_of_mem_labelsOf)
        n.dot_notMem hself).symm
      rw [hn, Ne, List.map_eq_nil_iff]
      exact List.splitOn_ne_nil _ _
    · -- the name has the asterisk before as many labels as the wildcard stands for
      have hs : labelsOf s = s.splitOn '.' :=
        IsAsciiPattern.labelsOf_eq (Or.inl (isAscii_of_star hp))
      rw [hs] at hlabels
      rw [splitOn_star, List.map_cons, hdisp.showLabel_star] at hn
      have heq := hlabels.symm.trans hn
      have hlen := congrArg List.length heq
      rw [List.length_append, List.length_cons, List.length_map, Nat.add_comm] at hlen
      obtain ⟨x, rfl⟩ := List.length_eq_one_iff.mp (Nat.add_left_cancel hlen)
      have hrest : s.splitOn '.' = (s.splitOn '.').map disp.showLabel := (List.cons.inj heq).2
      rw [hn, splitOn_star, ← hrest]
  · intro hself
    refine Or.inl ?_
    rw [normalizeName_eq_labelsText, hp.labelsOf_eq, Name.text, hself]

/-- The name looked up for a query whose wire labels are those of a pattern. -/
theorem exists_displayed : ∃ n : Name, n.labels = (p.splitOn '.').map disp.showLabel := by
  refine ⟨⟨(p.splitOn '.').map disp.showLabel, fun l hl => ?_, fun l hl => ?_⟩, rfl⟩
  all_goals obtain ⟨w, hw, rfl⟩ := List.mem_map.mp hl
  · exact (showLabel_label hdisp hp hw).1
  · exact (showLabel_label hdisp hp hw).2

end Displayed

/-- **Internationalised names, when they are found.** For every domain that a line can be parsed
to whose text is an ASCII name or the wildcard over one, and the text that a query for it is
looked up under: a blacklist line that names it guarantees the query to be blocked, and an
override line that does guarantees it to be rewritten, exactly when no `xn--` label of it is
displayed decoded. -/
theorem international_iff (cr : Crates) {disp : Display} (hdisp : disp.Documented) {d : Domain}
    (hp : IsAsciiPattern d.val) :
    ∃ n : Name, n.labels = (d.val.splitOn '.').map disp.showLabel ∧
      (∀ format line, '\n' ∉ line → (ParseBlacklist.ofFormat format).parse cr line = some d →
        (BlockedWhereListed cr format line n ↔ NothingDecodes disp d.val)) ∧
      ∀ line c, '\n' ∉ line → CName.parse cr line = some c → c.domain = d →
        (RewrittenWhereListed cr line n ↔ NothingDecodes disp d.val) := by
  obtain ⟨n, hn⟩ := exists_displayed hdisp hp
  refine ⟨n, hn, fun format line hline hparse => ?_, fun line c hline hparse hc => ?_⟩
  · rw [blockedWhereListed_iff hline, ← matches_displayed_iff hdisp hp hn]
    simp only [hparse, Option.some.injEq, exists_eq_left']
  · rw [rewrittenWhereListed_iff hline, ← matches_displayed_iff hdisp hp hn, ← hc]
    simp only [hparse, Option.some.injEq, exists_eq_left']

/-! ### A name that is not found -/

/-- `Bücher.example.com`. -/
def bucher : Text := "Bücher.example.com".toList

/-- Its ASCII form. -/
def bucherAscii : Text := "xn--bcher-kva.example.com".toList

/-- The crates, on that name. -/
def bucherCrates : Crates where
  parseDomainName v := if v = bucher then some v else none
  domainToAscii v := if v = bucher then some bucherAscii else none

/-- The display of its labels. -/
def bucherDisplay : Display where
  showLabel l := if l = "xn--bcher-kva".toList then "bücher".toList else l
  decode l := if l = "xn--bcher-kva".toList then some "bücher".toList else none

theorem eq_of_decode_bucher {l u : Text} (h : bucherDisplay.decode l = some u) :
    l = "xn--bcher-kva".toList ∧ u = "bücher".toList := by
  obtain ⟨hl, hu⟩ := Option.ite_none_right_eq_some.mp h
  exact ⟨hl, (Option.some.inj hu).symm⟩

theorem bucherDisplay_documented : bucherDisplay.Documented where
  showLabel_decoded l u _ h := by
    obtain ⟨rfl, rfl⟩ := eq_of_decode_bucher h
    rfl
  showLabel_plain l _ h := by
    refine if_neg fun hl => ?_
    rw [hl] at h
    exact absurd (h (by decide)) (by decide)
  showLabel_star := by decide
  decode_ne l u h := by
    obtain ⟨rfl, rfl⟩ := eq_of_decode_bucher h
    decide
  decode_ne_nil l u h := by
    obtain ⟨rfl, rfl⟩ := eq_of_decode_bucher h
    decide
  decode_dot l u h := by
    obtain ⟨rfl, rfl⟩ := eq_of_decode_bucher h
    decide

theorem international_iff_bucher :
    ∃ n : Name, n.labels = (bucherAscii.splitOn '.').map bucherDisplay.showLabel ∧
      ¬BlockedWhereListed bucherCrates .domains bucher n := by
  have hp : IsAsciiPattern (⟨bucherAscii⟩ : Domain).val := Or.inl (by decide)
  obtain ⟨n, hn, hblocked, -⟩ := international_iff bucherCrates bucherDisplay_documented hp
  refine ⟨n, hn, fun h => ?_⟩
  have hnothing := (hblocked .domains bucher (by decide) (by decide)).mp h
  exact absurd (hnothing "xn--bcher-kva".toList (by decide) (by decide)) (by decide)

/-- **A listed name that is not found.** `Bücher.example.com` is the only line of the
only blacklist, and is stored in its ASCII form; the query for that form is displayed as
`bücher.example.com.`, which is not blocked. -/
theorem international_bucher :
    Domain.parse bucherCrates bucher = some ⟨bucherAscii⟩ ∧
      labelsText ((bucherAscii.splitOn '.').map bucherDisplay.showLabel) =
        "bücher.example.com.".toList ∧
      (compiledEngine (.assoc _ _ _) bucherCrates (fileSources bucher) (oneBlacklist .domains)
        .assoc (.file ⟨[]⟩)).isBlocked (.assoc _ _ _) "bücher.example.com.".toList = .ok false :=
  ⟨by decide, by decide, by decide⟩

end BancuhDns
