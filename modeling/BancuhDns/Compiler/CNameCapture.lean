import BancuhDns.Compiler.Capture

/-!
# What the expression of a zone line captures

The search of the third expression, read off the text. It takes a field – a stem, a dot and
a top-level label –, whitespace, one of two keywords, whitespace, another field and a dot.

Unlike in the other two, something comes after a top-level label here, and it does not begin
with a lower-case letter; so the label is all the lower-case letters there are, or there is
no match (`BancuhDns.first_field_seq_eq_some_iff`). What is chosen is where the first field
begins, as far left as can be, and after that its stem, as long as can be, the whitespace
before the second field, as much as can be left out of it, and its stem
(`BancuhDns.cnameCapture_eq_some_iff`).

Both fields are trimmed then and captured again, on their own, which comes to nothing when
trimming leaves a stem that is too short (`BancuhDns.parse_trim_field`).
-/

namespace BancuhDns

open Regex

/-! ### A field and what comes after it -/

/-- What `[a-z]{2,6}` can take. -/
structure IsTld (t : Text) : Prop where
  lower : ∀ c ∈ t, isLower c
  two_le : 2 ≤ t.length
  le_six : t.length ≤ 6

/-- **A field** at the head of a text: a stem, a dot, a top-level label, and what is left. -/
structure FieldAt (v x t rest : Text) : Prop where
  stem : StemAt v x (t ++ rest)
  tld : IsTld t

theorem IsTld.ne_nil {t : Text} (h : IsTld t) : t ≠ [] :=
  List.ne_nil_of_length_pos (Nat.zero_lt_two.trans_le h.two_le)

theorem IsTld.not_isWhitespace {t : Text} (h : IsTld t) : ∀ c ∈ t, isWhitespace c = false :=
  fun c hc => isWhitespace_of_isLower (h.lower c hc)

theorem IsTld.dot_notMem {t : Text} (h : IsTld t) : '.' ∉ t :=
  fun hdot => isLower_ne_dot (h.lower _ hdot) rfl

theorem IsTld.tldOf_eq {t : Text} (h : IsTld t) : tldOf t = t :=
  (tldOf_eq_self h.lower h.le_six).1

theorem IsTld.two_le_tldOf {t : Text} (h : IsTld t) (rest : Text) :
    2 ≤ (tldOf (t ++ rest)).length := by
  rw [length_tldOf]
  exact h.two_le.trans (length_le_reach_some_iff.mpr ⟨h.le_six, h.lower⟩)

theorem fieldAt_iff {v x t rest : Text} :
    FieldAt v x t rest ↔
      v = x ++ '.' :: (t ++ rest) ∧ 2 ≤ x.length ∧ x.length ≤ 200 ∧ '\n' ∉ x ∧ IsTld t :=
  ⟨fun h => ⟨h.stem.split, h.stem.two_le, h.stem.le_max, h.stem.newline, h.tld⟩,
    fun ⟨hv, h2, hmax, hnl, ht⟩ => ⟨⟨hv, h2, hmax, hnl, ht.two_le_tldOf rest⟩, ht⟩⟩

theorem mem_hits_dot_tld_iff {b s : Text} {g : Hit Group Char} :
    g ∈ hits (.seq dot (.rep isLower 2 (some 6))) b s ↔
      ∃ t r, s = '.' :: (t ++ r) ∧ IsTld t ∧ g = ⟨'.' :: t, r, []⟩ := by
  simp only [mem_hits_seq_iff, dot, mem_hits_cls_iff, mem_hits_rep_some_iff]
  constructor
  · rintro ⟨gd, ⟨c, hc, rfl, hgd⟩, gt, ⟨h2, h6, hlower, hr, hgt⟩, rfl⟩
    obtain rfl : c = '.' := by simpa using hc
    refine ⟨gt.taken, gt.rest, by rw [hr], ⟨hlower, h2, h6⟩, ?_⟩
    rw [hgd, hgt]
    rfl
  · rintro ⟨t, r, rfl, ht, rfl⟩
    exact ⟨⟨['.'], t ++ r, []⟩, ⟨'.', by simp, rfl, rfl⟩, ⟨t, r, []⟩,
      ⟨ht.two_le, ht.le_six, ht.lower, rfl, rfl⟩, rfl⟩

/-- What does not match at a lower-case letter leaves no choice of a top-level label: it is
all the lower-case letters there are. -/
def StopsAtLower (u : Regex Group Char) : Prop :=
  ∀ b c s, isLower c → first u b (c :: s) = none

section Field

variable {n : Group} {u : Regex Group Char} {b v : Text}

/-- The field with the stem `x`, and the rest after it. -/
def afterStem (n : Group) (u : Regex Group Char) (b x : Text) (g : Hit Group Char) :
    Option (Hit Group Char) :=
  (first u (b ++ (x ++ g.taken)) g.rest).map
    (Hit.append ⟨x ++ g.taken, g.rest, (n, ⟨b, x ++ g.taken, g.rest⟩) :: g.caps⟩)

/-- After a stem the rest matches in one way at most: where the lower-case letters end. -/
theorem findSome?_afterStem_eq_some_iff (hu : StopsAtLower u) {b' x s : Text}
    {h : Hit Group Char} :
    (hits (.seq dot (.rep isLower 2 (some 6))) b' s).findSome? (afterStem n u b x) = some h ↔
      ∃ t r g, s = '.' :: (t ++ r) ∧ IsTld t ∧ first u (b ++ (x ++ '.' :: t)) r = some g ∧
        h = ⟨x ++ '.' :: (t ++ g.taken), g.rest, (n, ⟨b, x ++ '.' :: t, r⟩) :: g.caps⟩ := by
  rw [findSome?_eq_some_iff_of_unique]
  · simp only [mem_hits_dot_tld_iff, afterStem, Option.map_eq_some_iff]
    constructor
    · rintro ⟨_, ⟨t, r, hs, ht, rfl⟩, g, hg, rfl⟩
      exact ⟨t, r, g, hs, ht, hg, by simp [Hit.append]⟩
    · rintro ⟨t, r, g, hs, ht, hg, rfl⟩
      exact ⟨_, ⟨t, r, hs, ht, rfl⟩, g, hg, by simp [Hit.append]⟩
  · simp only [mem_hits_dot_tld_iff]
    rintro _ ⟨t, r, rfl, ht, rfl⟩ _ ⟨t', r', hs, ht', rfl⟩ hsome hsome'
    have hhead : ∀ {t r : Text}, afterStem n u b x ⟨'.' :: t, r, []⟩ ≠ none →
        ∀ c ∈ r.head?, isLower c = false := fun {t r} hne c hc => by
      obtain ⟨r, rfl⟩ := List.head?_eq_some_iff.mp hc
      by_contra hlower
      exact hne (by rw [afterStem, hu _ c r (by simpa using hlower), Option.map_none])
    obtain ⟨rfl, rfl⟩ := append_inj_of_head? ht.lower ht'.lower (hhead hsome) (hhead hsome')
      (List.cons.inj hs).2
    rfl

theorem findSome?_afterStem_eq_none_iff {b' x s : Text} :
    (hits (.seq dot (.rep isLower 2 (some 6))) b' s).findSome? (afterStem n u b x) = none ↔
      ∀ t r, s = '.' :: (t ++ r) → IsTld t → first u (b ++ (x ++ '.' :: t)) r = none := by
  simp only [List.findSome?_eq_none_iff, mem_hits_dot_tld_iff, afterStem, Option.map_eq_none_iff]
  constructor
  · exact fun h t r hs ht => h _ ⟨t, r, hs, ht, rfl⟩
  · rintro h _ ⟨t, r, hs, ht, rfl⟩
    exact h t r hs ht

theorem first_field_seq_eq (n : Group) (u : Regex Group Char) (b v : Text) :
    first (.seq (.cap n stemTld) u) b v =
      (counts 2 (reach anyChar (some 200) v)).findSome? fun k =>
        (hits (.seq dot (.rep isLower 2 (some 6))) (b ++ v.take k) (v.drop k)).findSome?
          (afterStem n u b (v.take k)) := by
  rw [stemTld, first_cap_seq, hits, List.findSome?_map]
  rfl

/-- A field as a count of letters. -/
theorem fieldAt_take_iff {t r : Text} {k : ℕ} (hk : k ≤ reach anyChar (some 200) v) :
    FieldAt v (v.take k) t r ↔ 2 ≤ k ∧ v.drop k = '.' :: (t ++ r) ∧ IsTld t :=
  ⟨fun h => ⟨((stemAt_take_iff hk).mp h.stem).1, ((stemAt_take_iff hk).mp h.stem).2.1, h.tld⟩,
    fun ⟨h2, hdrop, ht⟩ => ⟨(stemAt_take_iff hk).mpr ⟨h2, hdrop, ht.two_le_tldOf r⟩, ht⟩⟩

theorem FieldAt.length_le_reach {x t r : Text} (h : FieldAt v x t r) :
    x.length ≤ reach anyChar (some 200) v ∧ v.take x.length = x :=
  have hcount := stemAt_iff.mp h.stem
  ⟨hcount.2.1, hcount.2.2.1.symm⟩

/-- **A field is captured in one way once its stem is chosen**, and the longest stem is
chosen that the rest matches after. -/
theorem first_field_seq_eq_some_iff (hu : StopsAtLower u) {h : Hit Group Char} :
    first (.seq (.cap n stemTld) u) b v = some h ↔
      ∃ x t r g, FieldAt v x t r ∧ first u (b ++ (x ++ '.' :: t)) r = some g ∧
        (∀ x' t' r', FieldAt v x' t' r' → x.length < x'.length →
          first u (b ++ (x' ++ '.' :: t')) r' = none) ∧
        h = ⟨x ++ '.' :: (t ++ g.taken), g.rest, (n, ⟨b, x ++ '.' :: t, r⟩) :: g.caps⟩ := by
  rw [first_field_seq_eq, findSome?_counts_eq_some_iff]
  simp only [findSome?_afterStem_eq_some_iff hu, findSome?_afterStem_eq_none_iff]
  constructor
  · rintro ⟨k, h2, hk, ⟨t, r, g, hdrop, ht, hg, rfl⟩, hlast⟩
    refine ⟨v.take k, t, r, g, (fieldAt_take_iff hk).mpr ⟨h2, hdrop, ht⟩, hg,
      fun x' t' r' h' hlt => ?_, rfl⟩
    obtain ⟨hreach, htake⟩ := h'.length_le_reach
    rw [List.length_take_of_le (le_reach_some_iff.mp hk).2.1] at hlt
    rw [← htake] at h' ⊢
    obtain ⟨-, hdrop', ht'⟩ := (fieldAt_take_iff hreach).mp h'
    exact hlast _ hlt hreach t' r' hdrop' ht'
  · rintro ⟨x, t, r, g, hfield, hg, hlast, rfl⟩
    obtain ⟨hreach, htake⟩ := hfield.length_le_reach
    have hcount := hfield
    rw [← htake, fieldAt_take_iff hreach] at hcount
    obtain ⟨h2, hdrop, ht⟩ := hcount
    refine ⟨x.length, h2, hreach, ⟨t, r, g, hdrop, ht, by rwa [htake], by rw [htake]⟩,
      fun j hj hjreach t' r' hdrop' ht' => ?_⟩
    have hj' : (v.take j).length = j := List.length_take_of_le (le_reach_some_iff.mp hjreach).2.1
    exact hlast _ t' r' ((fieldAt_take_iff hjreach).mpr ⟨h2.trans hj.le, hdrop', ht'⟩)
      (by rwa [hj'])

theorem first_field_seq_eq_none_iff :
    first (.seq (.cap n stemTld) u) b v = none ↔
      ∀ x t r, FieldAt v x t r → first u (b ++ (x ++ '.' :: t)) r = none := by
  rw [first_field_seq_eq, findSome?_counts_eq_none_iff]
  simp only [findSome?_afterStem_eq_none_iff]
  constructor
  · intro hnone x t r h
    obtain ⟨hreach, htake⟩ := h.length_le_reach
    rw [← htake] at h ⊢
    obtain ⟨h2, hdrop, ht⟩ := (fieldAt_take_iff hreach).mp h
    exact hnone _ h2 hreach t r hdrop ht
  · exact fun hno k h2 hk t r hdrop ht =>
      hno _ t r ((fieldAt_take_iff hk).mpr ⟨h2, hdrop, ht⟩)

end Field

/-! ### The alias -/

/-- The longest field of the text ahead that a dot comes after. -/
def LongestAlias (v x t rest : Text) : Prop :=
  FieldAt v x t ('.' :: rest) ∧
    ∀ x' t' rest', FieldAt v x' t' ('.' :: rest') → x'.length ≤ x.length

theorem first_dot_eq_some_iff {b s : Text} {g : Hit Group Char} :
    first dot b s = some g ↔ ∃ r, s = '.' :: r ∧ g = ⟨['.'], r, []⟩ := by
  rcases s with _ | ⟨c, s⟩
  · exact iff_of_false (by simp [first, hits, dot]) (by simp)
  · by_cases hc : c = '.' <;> simp [first, hits, dot, hc, eq_comm]

theorem first_dot_eq_none_iff {b s : Text} :
    first dot b s = none ↔ ∀ r, s ≠ '.' :: r := by
  rw [Option.eq_none_iff_forall_not_mem]
  simp only [Option.mem_def, first_dot_eq_some_iff]
  exact ⟨fun h r hs => h _ ⟨r, hs, rfl⟩, fun h _ ⟨r, hs, _⟩ => h r hs⟩

theorem stopsAtLower_dot : StopsAtLower dot := fun _ _ _ hc =>
  first_dot_eq_none_iff.mpr fun _ h => isLower_ne_dot hc (List.cons.inj h).1

theorem first_alias_eq_some_iff {b v : Text} {h : Hit Group Char} :
    first (.seq (.cap .alias stemTld) dot) b v = some h ↔
      ∃ x t rest, LongestAlias v x t rest ∧
        h = ⟨x ++ '.' :: (t ++ ['.']), rest, [(.alias, ⟨b, x ++ '.' :: t, '.' :: rest⟩)]⟩ := by
  rw [first_field_seq_eq_some_iff stopsAtLower_dot]
  simp only [first_dot_eq_some_iff, first_dot_eq_none_iff]
  constructor
  · rintro ⟨x, t, _, _, hfield, ⟨rest, rfl, rfl⟩, hlast, rfl⟩
    refine ⟨x, t, rest, ⟨hfield, fun x' t' rest' h' => ?_⟩, rfl⟩
    by_contra hlt
    exact hlast x' t' _ h' (not_le.mp hlt) rest' rfl
  · rintro ⟨x, t, rest, ⟨hfield, hmax⟩, rfl⟩
    refine ⟨x, t, _, _, hfield, ⟨rest, rfl, rfl⟩, ?_, rfl⟩
    rintro x' t' _ h' hlt rest' rfl
    exact absurd (hmax x' t' rest' h') (not_le.mpr hlt)

theorem first_alias_eq_none_iff {b v : Text} :
    first (.seq (.cap .alias stemTld) dot) b v = none ↔
      ∀ x t rest, ¬FieldAt v x t ('.' :: rest) := by
  rw [first_field_seq_eq_none_iff]
  simp only [first_dot_eq_none_iff]
  constructor
  · exact fun h x t rest hfield => h x t _ hfield rest rfl
  · rintro h x t _ hfield rest rfl
    exact h x t rest hfield

/-! ### The keyword -/

/-- The words that stand between the two fields. -/
def IsKeyword (k : Text) : Prop := k = "CNAME".toList ∨ k = "cname".toList

theorem isKeyword_upper : IsKeyword "CNAME".toList := Or.inl rfl

theorem IsKeyword.length_eq {k : Text} (h : IsKeyword k) : k.length = 5 := by
  rcases h with rfl | rfl <;> rfl

theorem IsKeyword.ne_nil {k : Text} (h : IsKeyword k) : k ≠ [] :=
  List.ne_nil_of_length_pos (by rw [h.length_eq]; decide)

theorem IsKeyword.not_isWhitespace {k : Text} (h : IsKeyword k) :
    ∀ c ∈ k, isWhitespace c = false := by
  rcases h with rfl | rfl <;> decide

/-- `CNAME|cname` -/
def keyword : Regex Group Char := .alt (lit "CNAME".toList) (lit "cname".toList)

theorem mem_hits_keyword_iff {b s : Text} {g : Hit Group Char} :
    g ∈ hits keyword b s ↔ ∃ k r, IsKeyword k ∧ s = k ++ r ∧ g = ⟨k, r, []⟩ := by
  simp only [keyword, hits, List.mem_append, mem_hits_lit_iff]
  constructor
  · rintro (⟨r, hs, hg⟩ | ⟨r, hs, hg⟩)
    · exact ⟨_, r, Or.inl rfl, hs, hg⟩
    · exact ⟨_, r, Or.inr rfl, hs, hg⟩
  · rintro ⟨k, r, rfl | rfl, hs, hg⟩
    · exact Or.inl ⟨r, hs, hg⟩
    · exact Or.inr ⟨r, hs, hg⟩

theorem first_keyword_seq_eq_some_iff {u : Regex Group Char} {b s : Text} {h : Hit Group Char} :
    first (.seq keyword u) b s = some h ↔
      ∃ k r g, IsKeyword k ∧ s = k ++ r ∧ first u (b ++ k) r = some g ∧
        h = ⟨k ++ g.taken, g.rest, g.caps⟩ := by
  rw [first_seq_eq_some_iff_of_unique]
  · simp only [mem_hits_keyword_iff]
    constructor
    · rintro ⟨_, ⟨k, r, hk, hs, rfl⟩, g, hg, rfl⟩
      exact ⟨k, r, g, hk, hs, hg, rfl⟩
    · rintro ⟨k, r, g, hk, hs, hg, rfl⟩
      exact ⟨_, ⟨k, r, hk, hs, rfl⟩, g, hg, rfl⟩
  · simp only [mem_hits_keyword_iff]
    rintro _ ⟨k, r, hk, rfl, rfl⟩ _ ⟨k', r', hk', hs, rfl⟩ - -
    obtain ⟨rfl, rfl⟩ := List.append_inj hs (hk.length_eq.trans hk'.length_eq.symm)
    rfl

theorem first_keyword_seq_eq_none_iff {u : Regex Group Char} {b s : Text} :
    first (.seq keyword u) b s = none ↔
      ∀ k r, IsKeyword k → s = k ++ r → first u (b ++ k) r = none := by
  rw [first_seq_eq_none_iff]
  simp only [mem_hits_keyword_iff]
  constructor
  · exact fun h k r hk hs => h _ ⟨k, r, hk, hs, rfl⟩
  · rintro h _ ⟨k, r, hk, hs, rfl⟩
    exact h k r hk hs

/-! ### What comes after the domain -/

/-- **What the expression takes after the domain**: whitespace, a keyword, whitespace, and
an alias with a dot after it. -/
structure TargetAt (s w k w' r : Text) : Prop where
  spaces : SpacesAt s w (k ++ (w' ++ r))
  keyword : IsKeyword k
  spaces' : SpacesAt (w' ++ r) w' r
  field : ∃ x t rest, FieldAt r x t ('.' :: rest)

/-- With as much whitespace before the alias as can be left out of it. -/
structure TargetMost (s w k w' r : Text) : Prop extends TargetAt s w k w' r where
  most : ∀ w₂ k₂ w₂' r₂, TargetAt s w₂ k₂ w₂' r₂ → w₂'.length ≤ w'.length

theorem TargetAt.split {s w k w' r : Text} (h : TargetAt s w k w' r) :
    s = w ++ (k ++ (w' ++ r)) :=
  h.spaces.split

/-- A keyword begins with a letter. -/
theorem IsKeyword.head?_append {k : Text} (h : IsKeyword k) (s : Text) :
    ∀ c ∈ (k ++ s).head?, isWhitespace c = false := by
  intro c hc
  rw [List.head?_append_of_ne_nil _ h.ne_nil] at hc
  exact h.not_isWhitespace c (List.mem_of_mem_head? hc)

/-- The whitespace after the domain, and the keyword, are what they are. -/
theorem SpacesAt.eq_of_isKeyword {w w₂ k k₂ s s₂ : Text} (hk : IsKeyword k) (hk₂ : IsKeyword k₂)
    (hw : ∀ c ∈ w, isWhitespace c) (hw₂ : ∀ c ∈ w₂, isWhitespace c)
    (h : w ++ (k ++ s) = w₂ ++ (k₂ ++ s₂)) : w = w₂ ∧ k = k₂ ∧ s = s₂ := by
  obtain ⟨rfl, hrest⟩ := append_inj_of_head? hw hw₂ (hk.head?_append s) (hk₂.head?_append s₂) h
  obtain ⟨rfl, rfl⟩ := List.append_inj hrest (hk.length_eq.trans hk₂.length_eq.symm)
  exact ⟨rfl, rfl, rfl⟩

/-- `\s+(CNAME|cname)\s+(?P<alias>.{2,200}\.[a-z]{2,6})\.` -/
def targetRe : Regex Group Char :=
  .seq spaces (.seq keyword (.seq spaces (.seq (.cap .alias stemTld) dot)))

theorem first_targetRe_eq_none_iff {b s : Text} :
    first targetRe b s = none ↔ ∀ w k w' r, ¬TargetAt s w k w' r := by
  simp only [targetRe, first_spaces_seq_eq_none_iff, first_keyword_seq_eq_none_iff,
    first_alias_eq_none_iff]
  constructor
  · rintro h w k w' r ⟨hspaces, hk, hspaces', x, t, rest, hfield⟩
    exact h w _ hspaces k _ hk rfl w' r hspaces' x t rest hfield
  · rintro h w _ hspaces k _ hk rfl w' r hspaces' x t rest hfield
    obtain rfl := hspaces'.split
    exact h w k w' r ⟨hspaces, hk, hspaces', x, t, rest, hfield⟩

theorem stopsAtLower_targetRe : StopsAtLower targetRe := fun b c s hc =>
  first_targetRe_eq_none_iff.mpr fun w k w' r h => by
    have hspace := h.spaces.head? c rfl
    rw [isWhitespace_of_isLower hc] at hspace
    cases hspace

theorem first_targetRe_eq_some_iff {b s : Text} {h : Hit Group Char} :
    first targetRe b s = some h ↔
      ∃ w k w' r x t rest, TargetMost s w k w' r ∧ LongestAlias r x t rest ∧
        h = ⟨w ++ (k ++ (w' ++ (x ++ '.' :: (t ++ ['.'])))), rest,
          [(.alias, ⟨b ++ w ++ k ++ w', x ++ '.' :: t, '.' :: rest⟩)]⟩ := by
  simp only [targetRe, first_spaces_seq_eq_some_iff, first_keyword_seq_eq_some_iff,
    first_keyword_seq_eq_none_iff, first_spaces_seq_eq_none_iff, first_alias_eq_some_iff,
    first_alias_eq_none_iff]
  constructor
  · rintro ⟨w, _, _, hspaces, ⟨k, _, _, hk, rfl, ⟨w', r, _, hspaces', ⟨x, t, rest, halias, rfl⟩,
      hlast, rfl⟩, rfl⟩, -, rfl⟩
    obtain rfl := hspaces'.split
    refine ⟨w, k, w', r, x, t, rest, ⟨⟨hspaces, hk, hspaces', x, t, rest, halias.1⟩, ?_⟩, halias,
      rfl⟩
    rintro w₂ k₂ w₂' r₂ ⟨hspaces₂, hk₂, hspaces₂', x₂, t₂, rest₂, hfield₂⟩
    by_contra hlt
    obtain ⟨rfl, rfl, heq⟩ := SpacesAt.eq_of_isKeyword hk hk₂ hspaces.spaces hspaces₂.spaces
      (hspaces.split.symm.trans hspaces₂.split)
    rw [heq] at hlast
    exact hlast w₂' r₂ hspaces₂' (not_le.mp hlt) x₂ t₂ rest₂ hfield₂
  · rintro ⟨w, k, w', r, x, t, rest, ⟨⟨hspaces, hk, hspaces', hfield⟩, hmost⟩, halias, rfl⟩
    refine ⟨w, _, _, hspaces, ⟨k, _, _, hk, rfl, ⟨w', r, _, hspaces', ⟨x, t, rest, halias, rfl⟩,
      ?_, rfl⟩, rfl⟩, ?_, rfl⟩
    · intro w₂' r₂ hspaces₂' hlt x₂ t₂ rest₂ hfield₂
      rw [hspaces₂'.split] at hspaces
      have hle := hmost w k w₂' r₂
        ⟨hspaces, hk, hspaces₂'.split ▸ hspaces₂', x₂, t₂, rest₂, hfield₂⟩
      exact absurd hle (not_le.mpr hlt)
    · rintro w₂ _ hspaces₂ hlt k₂ s₂ hk₂ rfl
      obtain ⟨rfl, -⟩ := SpacesAt.eq_of_isKeyword hk hk₂ hspaces.spaces hspaces₂.spaces
        (hspaces.split.symm.trans hspaces₂.split)
      exact absurd hlt (lt_irrefl _)

/-! ### A line of a zone -/

/-- **A place of a line that the expression matches at**: a field, and what comes after
it. -/
structure CNameAt (line before x t s : Text) : Prop where
  field : ∃ v, line = before ++ v ∧ FieldAt v x t s
  target : ∃ w k w' r, TargetAt s w k w' r

/-- **The place a line of a zone is read at**: the leftmost one, with the longest stem. -/
structure CNameFirst (line before x t s : Text) : Prop extends CNameAt line before x t s where
  leftmost : ∀ before' x' t' s', CNameAt line before' x' t' s' → before.length ≤ before'.length
  longest : ∀ x' t' s', CNameAt line before x' t' s' → x'.length ≤ x.length

/-- What the two groups capture of a line of a zone. -/
def cnameCapture (line : Text) : Option (Text × Text) :=
  (search cnameRe line).bind fun cap =>
    match cap.name .domain, cap.name .alias with
    | some domain, some target => some (domain.text, target.text)
    | _, _ => none

theorem cnameRe_eq : cnameRe = .seq (.cap .domain stemTld) targetRe := rfl

theorem first_cnameRe_eq_none_iff {before v : Text} :
    first cnameRe before v = none ↔ ∀ x t s, ¬CNameAt (before ++ v) before x t s := by
  simp only [cnameRe_eq, first_field_seq_eq_none_iff, first_targetRe_eq_none_iff]
  constructor
  · rintro h x t s ⟨⟨v', hv, hfield⟩, w, k, w', r, htarget⟩
    obtain rfl := List.append_cancel_left hv
    exact h x t s hfield w k w' r htarget
  · exact fun h x t s hfield w k w' r htarget => h x t s ⟨⟨v, rfl, hfield⟩, w, k, w', r, htarget⟩

theorem first_cnameRe_eq_some_iff {b v : Text} {h : Hit Group Char} :
    first cnameRe b v = some h ↔
      ∃ x t s w k w' r x' t' rest, FieldAt v x t s ∧ TargetMost s w k w' r ∧
        LongestAlias r x' t' rest ∧
        (∀ x₂ t₂ s₂, FieldAt v x₂ t₂ s₂ → x.length < x₂.length →
          ∀ w₂ k₂ w₂' r₂, ¬TargetAt s₂ w₂ k₂ w₂' r₂) ∧
        h = ⟨x ++ '.' :: (t ++ (w ++ (k ++ (w' ++ (x' ++ '.' :: (t' ++ ['.'])))))), rest,
          [(.domain, ⟨b, x ++ '.' :: t, s⟩),
            (.alias, ⟨b ++ (x ++ '.' :: t) ++ w ++ k ++ w', x' ++ '.' :: t', '.' :: rest⟩)]⟩ := by
  rw [cnameRe_eq, first_field_seq_eq_some_iff stopsAtLower_targetRe]
  simp only [first_targetRe_eq_some_iff, first_targetRe_eq_none_iff]
  constructor
  · rintro ⟨x, t, s, _, hfield, ⟨w, k, w', r, x', t', rest, hmost, halias, rfl⟩, hlast, rfl⟩
    exact ⟨x, t, s, w, k, w', r, x', t', rest, hfield, hmost, halias, hlast, rfl⟩
  · rintro ⟨x, t, s, w, k, w', r, x', t', rest, hfield, hmost, halias, hlast, rfl⟩
    exact ⟨x, t, s, _, hfield, ⟨w, k, w', r, x', t', rest, hmost, halias, rfl⟩, hlast, rfl⟩

/-- **What a line of a zone captures.** -/
theorem cnameCapture_eq_some_iff {line d a : Text} :
    cnameCapture line = some (d, a) ↔
      ∃ before x t s w k w' r x' t' rest, CNameFirst line before x t s ∧
        TargetMost s w k w' r ∧ LongestAlias r x' t' rest ∧
        d = x ++ '.' :: t ∧ a = x' ++ '.' :: t' := by
  rw [cnameCapture, Option.bind_eq_some_iff]
  simp only [search_eq_some_iff, first_cnameRe_eq_none_iff]
  constructor
  · rintro ⟨h, ⟨before, v, rfl, hf, hleft⟩, hm⟩
    obtain ⟨x, t, s, w, k, w', r, x', t', rest, hfield, hmost, halias, hlast, rfl⟩ :=
      first_cnameRe_eq_some_iff.mp hf
    obtain ⟨rfl, rfl⟩ := Prod.mk.inj (Option.some.inj hm)
    refine ⟨before, x, t, s, w, k, w', r, x', t', rest,
      ⟨⟨⟨v, rfl, hfield⟩, w, k, w', r, hmost.toTargetAt⟩, ?_, ?_⟩, hmost, halias, rfl, rfl⟩
    · intro before₂ x₂ t₂ s₂ h₂
      by_contra hlt
      obtain ⟨v₂, hv₂, -⟩ := h₂.field
      exact hleft before₂ v₂ hv₂ (not_le.mp hlt) x₂ t₂ s₂ (hv₂ ▸ h₂)
    · rintro x₂ t₂ s₂ ⟨⟨v₂, hv₂, hfield₂⟩, w₂, k₂, w₂', r₂, htarget₂⟩
      obtain rfl := List.append_cancel_left hv₂
      by_contra hlt
      exact hlast x₂ t₂ s₂ hfield₂ (not_le.mp hlt) w₂ k₂ w₂' r₂ htarget₂
  · rintro ⟨before, x, t, s, w, k, w', r, x', t', rest, ⟨⟨⟨v, rfl, hfield⟩, -⟩, hleft, hlong⟩,
      hmost, halias, rfl, rfl⟩
    refine ⟨_, ⟨before, v, rfl, first_cnameRe_eq_some_iff.mpr ⟨x, t, s, w, k, w', r, x', t', rest,
      hfield, hmost, halias, ?_, rfl⟩, ?_⟩, rfl⟩
    · intro x₂ t₂ s₂ hfield₂ hlt w₂ k₂ w₂' r₂ htarget₂
      exact absurd (hlong x₂ t₂ s₂ ⟨⟨v, rfl, hfield₂⟩, w₂, k₂, w₂', r₂, htarget₂⟩)
        (not_le.mpr hlt)
    · rintro before₂ v₂ hv₂ hlt x₂ t₂ s₂ h₂
      rw [← hv₂] at h₂
      exact absurd (hleft before₂ x₂ t₂ s₂ h₂) (not_le.mpr hlt)

/-- A line captures nothing exactly when the expression matches nowhere. -/
theorem cnameCapture_eq_none_iff {line : Text} :
    cnameCapture line = none ↔ ∀ before x t s, ¬CNameAt line before x t s := by
  constructor
  · intro hnone before x t s h
    have hsearch : search cnameRe line = none := by
      by_contra hsome
      obtain ⟨h, hh⟩ := Option.ne_none_iff_exists'.mp hsome
      obtain ⟨b, v, -, hf, -⟩ := search_eq_some_iff.mp hh
      obtain ⟨x, t, s, w, k, w', r, x', t', rest, -, -, -, -, rfl⟩ :=
        first_cnameRe_eq_some_iff.mp hf
      rw [cnameCapture, hh] at hnone
      cases hnone
    obtain ⟨v, rfl, -⟩ := h.field
    exact first_cnameRe_eq_none_iff.mp (search_eq_none_iff.mp hsearch before v rfl) x t s h
  · intro hno
    have hsearch : search cnameRe line = none := search_eq_none_iff.mpr fun before v hv =>
      first_cnameRe_eq_none_iff.mpr fun x t s => hv ▸ hno before x t s
    rw [cnameCapture, hsearch]
    rfl

/-- A zone line is read off what its expression captures, each of the two trimmed and
captured again. -/
theorem cname_parse_eq (cr : Crates) (line : Text) :
    CName.parse cr line = (cnameCapture line).bind fun m =>
      (Domain.parse cr (trim m.1)).bind fun d =>
        (Domain.parse cr (trim m.2)).map fun a => ⟨d, a⟩ := by
  rw [CName.parse, parseCName, cnameCapture]
  rcases search cnameRe line with _ | h
  · rfl
  · simp only [Option.bind_eq_bind, Option.bind_some]
    rcases h.name .domain with _ | d
    · rfl
    · rcases h.name .alias with _ | a
      · rfl
      · simp only [Option.bind_some]
        rcases Domain.parse cr (trim d.text) with _ | d'
        · rfl
        · rcases Domain.parse cr (trim a.text) with _ | a' <;> rfl

/-! ### What becomes of a field -/

theorem stemAt_field {x t : Text} (h2 : 2 ≤ x.length) (hmax : x.length ≤ 200) (hnl : '\n' ∉ x)
    (ht : IsTld t) : StemAt (x ++ '.' :: t) x t :=
  ⟨rfl, h2, hmax, hnl, by rw [ht.tldOf_eq]; exact ht.two_le⟩

/-- A field without whitespace before it is captured again, whole. -/
theorem domainCapture_field {x t : Text} (h2 : 2 ≤ x.length) (hmax : x.length ≤ 200)
    (hnl : '\n' ∉ x) (ht : IsTld t) :
    domainCapture (x ++ '.' :: t) = some ⟨[], x ++ '.' :: t, []⟩ := by
  have hcapture := domainCapture_stem (stemAt_field h2 hmax hnl ht)
  rwa [ht.tldOf_eq] at hcapture

/-- **What becomes of a captured field**: trimmed, it is captured again, if it is not too
short then. -/
theorem parse_trim_field (cr : Crates) {v x t r : Text} (h : FieldAt v x t r) :
    Domain.parse cr (trim (x ++ '.' :: t)) =
      if 2 ≤ (trimStart x).length then readDomain cr (trimStart x ++ '.' :: t) else none := by
  have htrim := (stemAt_field h.stem.two_le h.stem.le_max h.stem.newline h.tld).trim_eq
  have hsub : trimStart x <:+ x := List.dropWhile_suffix isWhitespace
  rw [h.tld.tldOf_eq] at htrim
  rw [htrim, parse_eq]
  split_ifs with h2
  · rw [domainCapture_field h2 (hsub.length_le.trans h.stem.le_max)
      (fun hnl => h.stem.newline (hsub.subset hnl)) h.tld]
    rfl
  · rw [domainCapture_short (not_le.mp h2) h.tld.dot_notMem]
    rfl

end BancuhDns
