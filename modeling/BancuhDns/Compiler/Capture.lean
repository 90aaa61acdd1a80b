import BancuhDns.Compiler.Parser

/-!
# What the regular expressions capture

The search of the two list expressions, read off the text. Both end in
`.{2,200}\.[a-z]{2,6}`, a *stem* and a top-level label after a dot, and being greedy
they take the longest stem that leaves two lower-case letters after its dot
(`BancuhDns.LongestStem`). Being unanchored they start as far left as they can:

* a `domains` line is read from the first position that has a stem at all, which is
  its start unless its first dot is far away (`BancuhDns.domainCapture_eq_some_iff`);
* a `hosts` line is read from the first address that is followed by whitespace and
  then by a stem, with as much of the whitespace as can be left out of the stem
  (`BancuhDns.hostCapture_eq_some_iff`).

What stands on either side of what is captured is nobody's concern.
-/

namespace BancuhDns

open Regex

/-! ### A stem and its top-level label -/

/-- What `[a-z]{2,6}` takes. -/
def tldOf (y : Text) : Text := y.take (reach isLower (some 6) y)

/-- What it leaves. -/
def afterTld (y : Text) : Text := y.drop (reach isLower (some 6) y)

theorem tldOf_append_afterTld (y : Text) : tldOf y ++ afterTld y = y :=
  List.take_append_drop _ y

theorem isLower_of_mem_tldOf {y : Text} {c : Char} (h : c ∈ tldOf y) : isLower c :=
  of_mem_take_reach h

theorem length_tldOf (y : Text) : (tldOf y).length = reach isLower (some 6) y :=
  List.length_take_of_le (le_reach_some_iff.mp le_rfl).2.1

theorem length_tldOf_le (y : Text) : (tldOf y).length ≤ 6 :=
  (length_tldOf y).le.trans (le_reach_some_iff.mp le_rfl).1

/-- **A stem** of the text ahead: what `.{2,200}` can take before a dot that has two
lower-case letters after it. -/
structure StemAt (v x y : Text) : Prop where
  split : v = x ++ '.' :: y
  two_le : 2 ≤ x.length
  le_max : x.length ≤ 200
  newline : '\n' ∉ x
  tld : 2 ≤ (tldOf y).length

/-- The longest stem of the text ahead. -/
def LongestStem (v x y : Text) : Prop :=
  StemAt v x y ∧ ∀ x' y', StemAt v x' y' → x'.length ≤ x.length

/-- A stem as a count of letters. -/
theorem stemAt_iff {v x y : Text} :
    StemAt v x y ↔ 2 ≤ x.length ∧ x.length ≤ reach anyChar (some 200) v ∧ x = v.take x.length ∧
      v.drop x.length = '.' :: y ∧ 2 ≤ (tldOf y).length := by
  constructor
  · rintro ⟨rfl, h2, hmax, hnl, htld⟩
    refine ⟨h2, length_le_reach_some_iff.mpr ⟨hmax, fun c hc => ?_⟩, by simp, by simp, htld⟩
    have hne : c ≠ '\n' := fun h => hnl (h ▸ hc)
    simpa [anyChar] using hne
  · rintro ⟨h2, hreach, htake, hdrop, htld⟩
    obtain ⟨hmax, -, hany⟩ := le_reach_some_iff.mp hreach
    rw [← htake] at hany
    have hsplit : v = x ++ '.' :: y := by
      rw [← hdrop, ← List.take_append_drop x.length v, ← htake, List.drop_left]
    exact ⟨hsplit, h2, hmax, fun h => by simpa [anyChar] using hany _ h, htld⟩

/-- A stem goes on to the left, as far as it is not too long. -/
theorem StemAt.prepend {v x y : Text} (h : StemAt v x y) (b : Text)
    (hlen : (b ++ x).length ≤ 200) (hnl : '\n' ∉ b) : StemAt (b ++ v) (b ++ x) y := by
  refine ⟨by rw [h.split, List.append_assoc], ?_, hlen, ?_, h.tld⟩
  · rw [List.length_append]
    exact h.two_le.trans (Nat.le_add_left _ _)
  · rw [List.mem_append, not_or]
    exact ⟨hnl, h.newline⟩

theorem stemAt_take_iff {v y : Text} {k : ℕ} (hk : k ≤ reach anyChar (some 200) v) :
    StemAt v (v.take k) y ↔ 2 ≤ k ∧ v.drop k = '.' :: y ∧ 2 ≤ (tldOf y).length := by
  have hlen : (v.take k).length = k := List.length_take_of_le (le_reach_some_iff.mp hk).2.1
  rw [stemAt_iff, hlen]
  exact ⟨fun h => ⟨h.1, h.2.2.2⟩, fun h => ⟨h.1, hk, rfl, h.2⟩⟩

/-- `\.[a-z]{2,6}` at a position. -/
theorem first_dot_tld_eq_some_iff {b s : Text} {g : Hit Group Char} :
    first (.seq dot (.rep isLower 2 (some 6))) b s = some g ↔
      ∃ y, s = '.' :: y ∧ 2 ≤ (tldOf y).length ∧ g = ⟨'.' :: tldOf y, afterTld y, []⟩ := by
  rcases s with _ | ⟨c, s⟩
  · rw [dot, first_cls_seq_nil]
    exact iff_of_false (by simp) (by simp)
  · by_cases hc : c = '.'
    · rw [dot, first_cls_seq_cons (by simpa using hc), first_rep, ← length_tldOf]
      constructor
      · intro h
        obtain ⟨g', hg', rfl⟩ := Option.map_eq_some_iff.mp h
        obtain ⟨hlen, hg'⟩ := Option.ite_none_right_eq_some.mp hg'
        rw [← Option.some.inj hg', hc, length_tldOf]
        exact ⟨s, rfl, hlen, rfl⟩
      · rintro ⟨y, hs, hlen, rfl⟩
        obtain rfl := (List.cons.inj hs).2
        rw [if_pos hlen, length_tldOf, hc]
        rfl
    · rw [dot, first_cls_seq_cons_of_not (by simpa using hc)]
      exact iff_of_false (by simp) fun ⟨y, hs, _⟩ => hc (List.cons.inj hs).1

/-- **What the greedy stem takes**: the longest one. -/
theorem first_stemTld_eq_some_iff {b v : Text} {h : Hit Group Char} :
    first stemTld b v = some h ↔
      ∃ x y, LongestStem v x y ∧ h = ⟨x ++ '.' :: tldOf y, afterTld y, []⟩ := by
  rw [stemTld, first_rep_seq_eq_some_iff]
  constructor
  · rintro ⟨k, h2, hk, ⟨g, hg, rfl⟩, hlast⟩
    obtain ⟨y, hdrop, htld, rfl⟩ := first_dot_tld_eq_some_iff.mp hg
    have hlen : (v.take k).length = k := List.length_take_of_le (le_reach_some_iff.mp hk).2.1
    refine ⟨v.take k, y, ⟨(stemAt_take_iff hk).mpr ⟨h2, hdrop, htld⟩, fun x' y' h' => ?_⟩, rfl⟩
    obtain ⟨-, hreach, -, hdrop', htld'⟩ := stemAt_iff.mp h'
    rw [hlen]
    by_contra hlt
    have hnone := hlast x'.length (not_le.mp hlt) hreach
    rw [first_dot_tld_eq_some_iff.mpr ⟨y', hdrop', htld', rfl⟩] at hnone
    cases hnone
  · rintro ⟨x, y, ⟨hstem, hmax⟩, rfl⟩
    obtain ⟨h2, hreach, htake, hdrop, htld⟩ := stemAt_iff.mp hstem
    refine ⟨x.length, h2, hreach, ⟨_, first_dot_tld_eq_some_iff.mpr ⟨y, hdrop, htld, rfl⟩, ?_⟩,
      fun j hj hjreach => ?_⟩
    · rw [← htake]
    · by_contra hsome
      obtain ⟨g, hg⟩ := Option.ne_none_iff_exists'.mp hsome
      obtain ⟨y', hdrop', htld', -⟩ := first_dot_tld_eq_some_iff.mp hg
      -- a greater count that succeeds is a longer stem
      have hlong := hmax _ y'
        ((stemAt_take_iff hjreach).mpr ⟨h2.trans hj.le, hdrop', htld'⟩)
      rw [List.length_take_of_le (le_reach_some_iff.mp hjreach).2.1] at hlong
      exact absurd hlong (not_le.mpr hj)

theorem first_stemTld_eq_none_iff {b v : Text} :
    first stemTld b v = none ↔ ∀ x y, ¬StemAt v x y := by
  rw [stemTld, first_rep_seq_eq_none_iff]
  constructor
  · intro hnone x y hstem
    obtain ⟨h2, hreach, -, hdrop, htld⟩ := stemAt_iff.mp hstem
    have hnone := hnone x.length h2 hreach
    rw [first_dot_tld_eq_some_iff.mpr ⟨y, hdrop, htld, rfl⟩] at hnone
    cases hnone
  · intro hno k h2 hk
    by_contra hsome
    obtain ⟨g, hg⟩ := Option.ne_none_iff_exists'.mp hsome
    obtain ⟨y, hdrop, htld, -⟩ := first_dot_tld_eq_some_iff.mp hg
    exact hno _ y ((stemAt_take_iff hk).mpr ⟨h2, hdrop, htld⟩)

/-! ### A line of the domains format -/

/-- What the `domain` group captures of a line of the domains format. -/
def domainCapture (line : Text) : Option (Match Char) :=
  (search domainRe line).bind fun cap => cap.name .domain

/-- **The stem a line of the domains format is read by**: the longest one at the first
position that has one. -/
structure DomainAt (line before x y : Text) : Prop where
  longest : ∃ v, line = before ++ v ∧ LongestStem v x y
  leftmost : ∀ before' v', line = before' ++ v' → before'.length < before.length →
    ∀ x' y', ¬StemAt v' x' y'

theorem DomainAt.split {line before x y : Text} (h : DomainAt line before x y) :
    line = before ++ (x ++ '.' :: y) := by
  obtain ⟨⟨v, rfl, ⟨hstem, -⟩⟩, -⟩ := h
  rw [hstem.split]

/-- **A short text is read from its start**, if at all. -/
theorem DomainAt.before_eq_nil {line before x y : Text} (h : DomainAt line before x y)
    (hlen : line.length ≤ 200) (hnl : '\n' ∉ line) : before = [] := by
  obtain ⟨⟨v, rfl, hstem, -⟩, hleft⟩ := h
  by_contra hne
  have hstart : StemAt (before ++ v) (before ++ x) y := by
    refine hstem.prepend before ?_ fun hmem => hnl (List.mem_append_left v hmem)
    rw [hstem.split] at hlen
    simp only [List.length_append, List.length_cons] at hlen ⊢
    omega
  exact hleft [] (before ++ v) rfl (List.length_pos_iff.mpr hne) _ _ hstart

theorem first_domainRe_eq_none_iff {b v : Text} :
    first domainRe b v = none ↔ ∀ x y, ¬StemAt v x y := by
  rw [domainRe, first_cap, Option.map_eq_none_iff, first_stemTld_eq_none_iff]

/-- **What a line of the domains format captures.** -/
theorem domainCapture_eq_some_iff {line : Text} {m : Match Char} :
    domainCapture line = some m ↔
      ∃ before x y, DomainAt line before x y ∧
        m = ⟨before, x ++ '.' :: tldOf y, afterTld y⟩ := by
  rw [domainCapture, Option.bind_eq_some_iff]
  simp only [search_eq_some_iff, first_domainRe_eq_none_iff]
  constructor
  · rintro ⟨h, ⟨before, v, hline, hf, hleft⟩, hm⟩
    rw [domainRe, first_cap, Option.map_eq_some_iff] at hf
    obtain ⟨g, hg, rfl⟩ := hf
    obtain ⟨x, y, hlongest, rfl⟩ := first_stemTld_eq_some_iff.mp hg
    exact ⟨before, x, y, ⟨⟨v, hline, hlongest⟩, hleft⟩, (Option.some.inj hm).symm⟩
  · rintro ⟨before, x, y, ⟨⟨v, hline, hlongest⟩, hleft⟩, rfl⟩
    have hf : first domainRe before v = some ⟨x ++ '.' :: tldOf y, afterTld y,
        [(.domain, ⟨before, x ++ '.' :: tldOf y, afterTld y⟩)]⟩ := by
      rw [domainRe, first_cap, first_stemTld_eq_some_iff.mpr ⟨x, y, hlongest, rfl⟩]
      rfl
    exact ⟨_, ⟨before, v, hline, hf, hleft⟩, rfl⟩

/-- A line captures nothing exactly when there is no stem in it. -/
theorem domainCapture_eq_none_iff {line : Text} :
    domainCapture line = none ↔ ∀ b v x y, line = b ++ v → ¬StemAt v x y := by
  constructor
  · intro hnone
    have hsearch : search domainRe line = none := by
      by_contra hsome
      obtain ⟨h, hh⟩ := Option.ne_none_iff_exists'.mp hsome
      obtain ⟨b, v, -, hf, -⟩ := search_eq_some_iff.mp hh
      rw [domainRe, first_cap, Option.map_eq_some_iff] at hf
      obtain ⟨g, -, rfl⟩ := hf
      rw [domainCapture, hh] at hnone
      cases hnone
    intro b v x y hline
    exact first_domainRe_eq_none_iff.mp (search_eq_none_iff.mp hsearch b v hline) x y
  · intro hno
    have hsearch : search domainRe line = none := search_eq_none_iff.mpr fun b v hline =>
      first_domainRe_eq_none_iff.mpr fun x y => hno b v x y hline
    rw [domainCapture, hsearch]
    rfl

/-! ### An address -/

/-- What `\d{1,3}` takes. -/
def IsGroup (g : Text) : Prop := 1 ≤ g.length ∧ g.length ≤ 3 ∧ ∀ c ∈ g, isDecimal c

instance (g : Text) : Decidable (IsGroup g) :=
  inferInstanceAs (Decidable (1 ≤ g.length ∧ g.length ≤ 3 ∧ ∀ c ∈ g, isDecimal c))

/-- **A dotted quad**: four groups of one to three digits. -/
def IsQuad (q : Text) : Prop :=
  ∃ a b c d, q = a ++ '.' :: (b ++ '.' :: (c ++ '.' :: d)) ∧ IsGroup a ∧ IsGroup b ∧
    IsGroup c ∧ IsGroup d

theorem IsGroup.not_isWhitespace {g : Text} (h : IsGroup g) : ∀ c ∈ g, isWhitespace c = false :=
  fun c hc => isWhitespace_of_isDecimal (h.2.2 c hc)

theorem IsQuad.not_isWhitespace {q : Text} (h : IsQuad q) : ∀ c ∈ q, isWhitespace c = false := by
  obtain ⟨a, b, c, d, rfl, ha, hb, hc, hd⟩ := h
  have hdot : isWhitespace '.' = false := by decide
  simp only [List.forall_mem_append, List.forall_mem_cons]
  exact ⟨ha.not_isWhitespace, hdot, hb.not_isWhitespace, hdot, hc.not_isWhitespace, hdot,
    hd.not_isWhitespace⟩

theorem mem_hits_digits_iff {b v : Text} {g : Hit Group Char} :
    g ∈ hits digits b v ↔ ∃ a r, IsGroup a ∧ v = a ++ r ∧ g = ⟨a, r, []⟩ := by
  rw [digits, mem_hits_rep_some_iff]
  constructor
  · rintro ⟨h1, h3, hdec, hv, hg⟩
    exact ⟨g.taken, g.rest, ⟨h1, h3, hdec⟩, hv, hg⟩
  · rintro ⟨a, r, ⟨h1, h3, hdec⟩, hv, rfl⟩
    exact ⟨h1, h3, hdec, hv, rfl⟩

theorem mem_hits_digits_dot_iff {t : Regex Group Char} {b v : Text} {g : Hit Group Char} :
    g ∈ hits (.seq digits (.seq dot t)) b v ↔
      ∃ a r, IsGroup a ∧ v = a ++ '.' :: r ∧
        ∃ g' ∈ hits t (b ++ a ++ ['.']) r, g = ⟨a ++ '.' :: g'.taken, g'.rest, g'.caps⟩ := by
  simp only [mem_hits_seq_iff, mem_hits_digits_iff, dot, mem_hits_cls_iff]
  constructor
  · rintro ⟨_, ⟨a, r, ha, rfl, rfl⟩, _, ⟨gd, ⟨c, hc, hr, hgd⟩, g', hg', rfl⟩, rfl⟩
    obtain rfl : c = '.' := by simpa using hc
    rw [hgd] at hg' ⊢
    exact ⟨a, gd.rest, ha, by rw [← hr], g', hg', rfl⟩
  · rintro ⟨a, r, ha, rfl, g', hg', rfl⟩
    exact ⟨_, ⟨a, '.' :: r, ha, rfl, rfl⟩, _, ⟨⟨['.'], r, []⟩, ⟨'.', by simp, rfl, rfl⟩, g',
      hg', rfl⟩, by simp [Hit.append]⟩

/-- **What the address takes.** -/
theorem mem_hits_quad_iff {b v : Text} {g : Hit Group Char} :
    g ∈ hits quad b v ↔ ∃ q r, IsQuad q ∧ v = q ++ r ∧ g = ⟨q, r, []⟩ := by
  simp only [quad, mem_hits_digits_dot_iff, mem_hits_digits_iff]
  constructor
  · rintro ⟨a, _, ha, rfl, _, ⟨b, _, hb, rfl, _, ⟨c, _, hc, rfl, _, ⟨d, r, hd, rfl, rfl⟩, rfl⟩,
      rfl⟩, rfl⟩
    exact ⟨_, r, ⟨a, b, c, d, rfl, ha, hb, hc, hd⟩, by simp, rfl⟩
  · rintro ⟨_, r, ⟨a, b, c, d, rfl, ha, hb, hc, hd⟩, rfl, rfl⟩
    refine ⟨a, b ++ '.' :: (c ++ '.' :: (d ++ r)), ha, by simp, _,
      ⟨b, c ++ '.' :: (d ++ r), hb, rfl, _, ⟨c, d ++ r, hc, rfl, _, ⟨d, r, hd, rfl, rfl⟩, rfl⟩,
        rfl⟩, rfl⟩

/-! ### A line of the hosts format -/

/-- What `\s+` can take of the text ahead. -/
structure SpacesAt (s ws r : Text) : Prop where
  split : s = ws ++ r
  ne_nil : ws ≠ []
  spaces : ∀ c ∈ ws, isWhitespace c

/-- Whitespace as a count of letters. -/
theorem spacesAt_take_iff {s r : Text} {k : ℕ} (hk : k ≤ reach isWhitespace none s) :
    SpacesAt s (s.take k) r ↔ 1 ≤ k ∧ r = s.drop k := by
  obtain ⟨hlen, hspaces⟩ := le_reach_none_iff.mp hk
  constructor
  · rintro ⟨hsplit, hne, -⟩
    refine ⟨Nat.one_le_iff_ne_zero.mpr fun h0 => hne (by rw [h0, List.take_zero]), ?_⟩
    nth_rewrite 1 [← List.take_append_drop k s] at hsplit
    exact (List.append_cancel_left hsplit).symm
  · rintro ⟨h1, rfl⟩
    refine ⟨(List.take_append_drop k s).symm, fun hnil => ?_, hspaces⟩
    have h0 := congrArg List.length hnil
    rw [List.length_take_of_le hlen, List.length_nil] at h0
    omega

theorem SpacesAt.le_reach {s ws r : Text} (h : SpacesAt s ws r) :
    ws.length ≤ reach isWhitespace none s ∧ s.take ws.length = ws ∧ s.drop ws.length = r := by
  obtain ⟨rfl, -, hspaces⟩ := h
  exact ⟨length_le_reach_none_iff.mpr hspaces, List.take_left, List.drop_left⟩

/-- **What the whitespace takes**: as much as the rest of the expression can do without. -/
theorem first_spaces_seq_eq_some_iff {t : Regex Group Char} {b s : Text} {h : Hit Group Char} :
    first (.seq spaces t) b s = some h ↔
      ∃ ws r g, SpacesAt s ws r ∧ first t (b ++ ws) r = some g ∧
        (∀ ws' r', SpacesAt s ws' r' → ws.length < ws'.length → first t (b ++ ws') r' = none) ∧
        h = ⟨ws ++ g.taken, g.rest, g.caps⟩ := by
  rw [spaces, first_rep_seq_eq_some_iff]
  constructor
  · rintro ⟨k, h1, hk, ⟨g, hg, rfl⟩, hlast⟩
    refine ⟨s.take k, s.drop k, g, (spacesAt_take_iff hk).mpr ⟨h1, rfl⟩, hg,
      fun ws' r' h' hlt => ?_, rfl⟩
    obtain ⟨hreach, htake, hdrop⟩ := h'.le_reach
    rw [List.length_take_of_le (le_reach_none_iff.mp hk).1] at hlt
    have hnone := hlast ws'.length hlt hreach
    rwa [htake, hdrop] at hnone
  · rintro ⟨ws, r, g, hspaces, hg, hlast, rfl⟩
    obtain ⟨hreach, htake, hdrop⟩ := hspaces.le_reach
    refine ⟨ws.length, List.length_pos_iff.mpr hspaces.ne_nil, hreach,
      ⟨g, by rwa [htake, hdrop], by rw [htake]⟩, fun j hj hjreach => ?_⟩
    have hj' : (s.take j).length = j := List.length_take_of_le (le_reach_none_iff.mp hjreach).1
    have hpos : 1 ≤ j := by omega
    exact hlast _ _ ((spacesAt_take_iff hjreach).mpr ⟨hpos, rfl⟩) (by rwa [hj'])

theorem first_spaces_seq_eq_none_iff {t : Regex Group Char} {b s : Text} :
    first (.seq spaces t) b s = none ↔ ∀ ws r, SpacesAt s ws r → first t (b ++ ws) r = none := by
  rw [spaces, first_rep_seq_eq_none_iff]
  constructor
  · intro hnone ws r hspaces
    obtain ⟨hreach, htake, hdrop⟩ := hspaces.le_reach
    have hnone := hnone ws.length (List.length_pos_iff.mpr hspaces.ne_nil) hreach
    rwa [htake, hdrop] at hnone
  · exact fun hno k h1 hk => hno _ _ ((spacesAt_take_iff hk).mpr ⟨h1, rfl⟩)

/-- Before a stem: as much whitespace as can be left out of it. -/
theorem first_spaces_stem_eq_some_iff {b s : Text} {h : Hit Group Char} :
    first (.seq spaces (.cap .domain stemTld)) b s = some h ↔
      ∃ ws r x y, SpacesAt s ws r ∧ LongestStem r x y ∧
        (∀ ws' r', SpacesAt s ws' r' → ws.length < ws'.length → ∀ x' y', ¬StemAt r' x' y') ∧
        h = ⟨ws ++ (x ++ '.' :: tldOf y), afterTld y,
          [(.domain, ⟨b ++ ws, x ++ '.' :: tldOf y, afterTld y⟩)]⟩ := by
  rw [first_spaces_seq_eq_some_iff]
  simp only [first_cap, Option.map_eq_some_iff, Option.map_eq_none_iff, first_stemTld_eq_some_iff,
    first_stemTld_eq_none_iff]
  constructor
  · rintro ⟨ws, r, _, hspaces, ⟨_, ⟨x, y, hlongest, rfl⟩, rfl⟩, hlast, rfl⟩
    exact ⟨ws, r, x, y, hspaces, hlongest, hlast, rfl⟩
  · rintro ⟨ws, r, x, y, hspaces, hlongest, hlast, rfl⟩
    exact ⟨ws, r, _, hspaces, ⟨_, ⟨x, y, hlongest, rfl⟩, rfl⟩, hlast, rfl⟩

theorem first_spaces_stem_eq_none_iff {b s : Text} :
    first (.seq spaces (.cap .domain stemTld)) b s = none ↔
      ∀ ws r, SpacesAt s ws r → ∀ x y, ¬StemAt r x y := by
  rw [first_spaces_seq_eq_none_iff]
  simp only [first_cap, Option.map_eq_none_iff, first_stemTld_eq_none_iff]

theorem SpacesAt.head? {s ws r : Text} (h : SpacesAt s ws r) :
    ∀ c ∈ s.head?, isWhitespace c := by
  obtain ⟨rfl, hne, hspaces⟩ := h
  intro c hc
  rw [List.head?_append_of_ne_nil _ hne] at hc
  exact hspaces c (List.mem_of_mem_head? hc)

/-- An address is read off a text in one way, whitespace being what ends it. -/
theorem IsQuad.eq_of_append {q q' s s' ws ws' r r' : Text} (hq : IsQuad q) (hq' : IsQuad q')
    (hs : SpacesAt s ws r) (hs' : SpacesAt s' ws' r') (h : q ++ s = q' ++ s') : q = q' :=
  (append_inj_of_head? (p := fun c => !isWhitespace c)
    (fun c hc => by simp [hq.not_isWhitespace c hc])
    (fun c hc => by simp [hq'.not_isWhitespace c hc]) (fun c hc => by simp [hs.head? c hc])
    (fun c hc => by simp [hs'.head? c hc]) h).1

/-- **A place of a line that the hosts expression matches at**: an address, whitespace,
and a stem. -/
structure HostAt (line before q ws r : Text) : Prop where
  split : line = before ++ (q ++ (ws ++ r))
  quad : IsQuad q
  ne_nil : ws ≠ []
  spaces : ∀ c ∈ ws, isWhitespace c
  stem : ∃ x y, StemAt r x y

/-- **The place a line of the hosts format is read at**: the leftmost one, with the
most whitespace. -/
structure HostFirst (line before q ws r : Text) : Prop extends HostAt line before q ws r where
  leftmost : ∀ before' q' ws' r', HostAt line before' q' ws' r' → before.length ≤ before'.length
  longest : ∀ q' ws' r', HostAt line before q' ws' r' → ws'.length ≤ ws.length

/-- What the `domain` group captures of a line of the hosts format. -/
def hostCapture (line : Text) : Option (Match Char) :=
  (search hostRe line).bind fun cap => cap.name .domain

theorem mem_hits_ip_iff {b v : Text} {g : Hit Group Char} :
    g ∈ hits (.cap .ip quad) b v ↔
      ∃ q s, IsQuad q ∧ v = q ++ s ∧ g = ⟨q, s, [(.ip, ⟨b, q, s⟩)]⟩ := by
  simp only [mem_hits_cap_iff, mem_hits_quad_iff]
  constructor
  · rintro ⟨_, ⟨q, s, hq, hv, rfl⟩, rfl⟩
    exact ⟨q, s, hq, hv, rfl⟩
  · rintro ⟨q, s, hq, hv, rfl⟩
    exact ⟨_, ⟨q, s, hq, hv, rfl⟩, rfl⟩

theorem first_hostRe_eq_none_iff {before v : Text} :
    first hostRe before v = none ↔ ∀ q ws r, ¬HostAt (before ++ v) before q ws r := by
  rw [hostRe, first_seq_eq_none_iff]
  simp only [mem_hits_ip_iff, first_spaces_stem_eq_none_iff]
  constructor
  · rintro hnone q ws r ⟨hsplit, hq, hne, hspaces, x, y, hstem⟩
    exact hnone _ ⟨q, ws ++ r, hq, List.append_cancel_left hsplit, rfl⟩ ws r ⟨rfl, hne, hspaces⟩
      x y hstem
  · rintro hno _ ⟨q, s, hq, rfl, rfl⟩ ws r ⟨rfl, hne, hspaces⟩ x y hstem
    exact hno q ws r ⟨rfl, hq, hne, hspaces, x, y, hstem⟩

/-- **What the hosts expression takes** at a position: the address in the only way there
is, then as much whitespace as can be left out of the stem. -/
theorem first_hostRe_eq_some_iff {b v : Text} {h : Hit Group Char} :
    first hostRe b v = some h ↔
      ∃ q s ws r x y, IsQuad q ∧ v = q ++ s ∧ SpacesAt s ws r ∧ LongestStem r x y ∧
        (∀ ws' r', SpacesAt s ws' r' → ws.length < ws'.length → ∀ x' y', ¬StemAt r' x' y') ∧
        h = ⟨q ++ (ws ++ (x ++ '.' :: tldOf y)), afterTld y,
          [(.ip, ⟨b, q, s⟩), (.domain, ⟨b ++ q ++ ws, x ++ '.' :: tldOf y, afterTld y⟩)]⟩ := by
  rw [hostRe, first_seq_eq_some_iff_of_unique]
  · simp only [mem_hits_ip_iff, first_spaces_stem_eq_some_iff]
    constructor
    · rintro ⟨_, ⟨q, s, hq, hv, rfl⟩, _, ⟨ws, r, x, y, hspaces, hlongest, hlast, rfl⟩, rfl⟩
      exact ⟨q, s, ws, r, x, y, hq, hv, hspaces, hlongest, hlast, rfl⟩
    · rintro ⟨q, s, ws, r, x, y, hq, hv, hspaces, hlongest, hlast, rfl⟩
      exact ⟨_, ⟨q, s, hq, hv, rfl⟩, _, ⟨ws, r, x, y, hspaces, hlongest, hlast, rfl⟩, rfl⟩
  -- the last group of the address ends where the whitespace begins
  · simp only [mem_hits_ip_iff]
    rintro _ ⟨q, s, hq, rfl, rfl⟩ _ ⟨q', s', hq', heq, rfl⟩ hs hs'
    obtain ⟨h, hsome⟩ := Option.ne_none_iff_exists'.mp hs
    obtain ⟨h', hsome'⟩ := Option.ne_none_iff_exists'.mp hs'
    obtain ⟨ws, r, -, -, hspaces, -⟩ := first_spaces_stem_eq_some_iff.mp hsome
    obtain ⟨ws', r', -, -, hspaces', -⟩ := first_spaces_stem_eq_some_iff.mp hsome'
    obtain rfl := hq.eq_of_append hq' hspaces hspaces' heq
    obtain rfl := List.append_cancel_left heq
    rfl

/-- **What a line of the hosts format captures.** -/
theorem hostCapture_eq_some_iff {line : Text} {m : Match Char} :
    hostCapture line = some m ↔
      ∃ before q ws r x y, HostFirst line before q ws r ∧ LongestStem r x y ∧
        m = ⟨before ++ q ++ ws, x ++ '.' :: tldOf y, afterTld y⟩ := by
  rw [hostCapture, Option.bind_eq_some_iff]
  simp only [search_eq_some_iff, first_hostRe_eq_none_iff]
  constructor
  · rintro ⟨h, ⟨before, v, rfl, hf, hleft⟩, hm⟩
    obtain ⟨q, s, ws, r, x, y, hq, rfl, ⟨rfl, hne, hspaces⟩, hlongest, hlast, rfl⟩ :=
      first_hostRe_eq_some_iff.mp hf
    refine ⟨before, q, ws, r, x, y, ⟨⟨rfl, hq, hne, hspaces, x, y, hlongest.1⟩, ?_, ?_⟩, hlongest,
      (Option.some.inj hm).symm⟩
    · intro before' q' ws' r' h'
      by_contra hlt
      have hno := hleft before' _ h'.split (not_le.mp hlt) q' ws' r'
      rw [← h'.split] at hno
      exact hno h'
    · rintro q' ws' r' ⟨hsplit, hq', hne', hspaces', x', y', hstem'⟩
      by_contra hlt
      have heq := List.append_cancel_left hsplit
      obtain rfl := hq.eq_of_append hq' ⟨rfl, hne, hspaces⟩ ⟨rfl, hne', hspaces'⟩ heq
      exact hlast ws' r' ⟨List.append_cancel_left heq, hne', hspaces'⟩ (not_le.mp hlt) x' y' hstem'
  · rintro ⟨before, q, ws, r, x, y, ⟨⟨rfl, hq, hne, hspaces, -⟩, hleft, hlong⟩, hlongest, rfl⟩
    refine ⟨_, ⟨before, q ++ (ws ++ r), rfl, first_hostRe_eq_some_iff.mpr
      ⟨q, ws ++ r, ws, r, x, y, hq, rfl, ⟨rfl, hne, hspaces⟩, hlongest, ?_, rfl⟩, ?_⟩, rfl⟩
    · rintro ws' r' ⟨heq, hne', hspaces'⟩ hlt x' y' hstem'
      rw [heq] at hlong
      exact absurd (hlong q ws' r' ⟨rfl, hq, hne', hspaces', x', y', hstem'⟩) (not_le.mpr hlt)
    · rintro before' v' hline hlt q' ws' r' h'
      rw [← hline] at h'
      exact absurd (hleft before' q' ws' r' h') (not_le.mpr hlt)

/-! ### What the parsers make of a capture -/

/-- What becomes of the text a line captures. -/
def readDomain (cr : Crates) (text : Text) : Option Domain :=
  (((checkName cr text).map trim).bind cr.domainToAscii).map Domain.mk

theorem checkName_eq (cr : Crates) (t : Text) :
    checkName cr t =
      (cr.parseDomainName (if startsWith star t then replace star [] t else t)).map fun w =>
        if startsWith star t then star ++ w else trim w := by
  rw [checkName]
  split_ifs <;> rfl

/-- **What is read of a captured text**: what `addr` accepts of it, shown to it without the
`*.` of a wildcard, in its ASCII form. -/
theorem readDomain_eq_some_iff {cr : Crates} {t : Text} {d : Domain} :
    readDomain cr t = some d ↔
      ∃ w, cr.parseDomainName (if startsWith star t then replace star [] t else t) = some w ∧
        cr.domainToAscii (trim (if startsWith star t then star ++ w else trim w)) =
          some d.val := by
  rw [readDomain, checkName_eq]
  rcases cr.parseDomainName (if startsWith star t then replace star [] t else t) with _ | w
  · exact iff_of_false (by simp) (by simp)
  · simp only [Option.map_some, Option.bind_some, Option.map_eq_some_iff, Option.some.injEq,
      exists_eq_left']
    constructor
    · rintro ⟨a, ha, rfl⟩
      exact ha
    · exact fun ha => ⟨d.val, ha, rfl⟩

/-- A name that the crates keep is read as it is. -/
theorem readDomain_eq_self {cr : Crates} {t : Text} (hparse : cr.parseDomainName t = some t)
    (hascii : cr.domainToAscii t = some t) (hspace : ∀ c ∈ t, isWhitespace c = false)
    (hstar : '*' ∉ t) : readDomain cr t = some ⟨t⟩ := by
  have hnot : ¬startsWith star t := fun h =>
    hstar ((List.isPrefixOf_iff_prefix.mp h).subset List.mem_cons_self)
  have htrim : trim t = t := trim_eq_self hspace
  refine readDomain_eq_some_iff.mpr ⟨t, ?_, ?_⟩
  · rwa [if_neg hnot]
  · rwa [if_neg hnot, htrim, htrim]

/-- A domain is read off what its expression captures. -/
theorem parse_eq (cr : Crates) (value : Text) :
    Domain.parse cr value = (domainCapture value).bind fun m => readDomain cr m.text := by
  rw [Domain.parse, parseDomain, domainCapture]
  rcases (search domainRe value).bind fun cap => cap.name .domain with _ | m <;> rfl

/-- A hosts line is read off what its expression captures, trimmed and captured again. -/
theorem hosts_parse_eq (cr : Crates) (line : Text) :
    (Host.parse cr line).map Host.intoDomain =
      (hostCapture line).bind fun m => Domain.parse cr (trim m.text) := by
  rw [Host.parse, parseHost, hostCapture]
  rcases hs : search hostRe line with _ | h
  · rfl
  · obtain ⟨b, v, -, hf, -⟩ := search_eq_some_iff.mp hs
    obtain ⟨q, s, ws, r, x, y, -, -, -, -, -, rfl⟩ := first_hostRe_eq_some_iff.mp hf
    have hip : Hit.name ⟨q ++ (ws ++ (x ++ '.' :: tldOf y)), afterTld y,
        [(Group.ip, ⟨b, q, s⟩), (.domain, ⟨b ++ q ++ ws, x ++ '.' :: tldOf y, afterTld y⟩)]⟩ .ip =
        some ⟨b, q, s⟩ := rfl
    have hdomain : Hit.name ⟨q ++ (ws ++ (x ++ '.' :: tldOf y)), afterTld y,
        [(Group.ip, ⟨b, q, s⟩), (.domain, ⟨b ++ q ++ ws, x ++ '.' :: tldOf y, afterTld y⟩)]⟩
          .domain = some ⟨b ++ q ++ ws, x ++ '.' :: tldOf y, afterTld y⟩ := rfl
    simp only [Option.bind_eq_bind, Option.bind_some, hip, hdomain]
    rcases Domain.parse cr (trim (x ++ '.' :: tldOf y)) with _ | d <;> rfl

theorem tldOf_eq_self {t : Text} (hlower : ∀ c ∈ t, isLower c) (hlen : t.length ≤ 6) :
    tldOf t = t ∧ afterTld t = [] := by
  have hreach : t.length ≤ reach isLower (some 6) t := by
    simpa using length_le_reach_some_iff (y := []).mpr ⟨hlen, hlower⟩
  exact ⟨List.take_of_length_le hreach, List.drop_eq_nil_of_le hreach⟩

theorem dot_notMem_tldOf (y : Text) : '.' ∉ tldOf y :=
  fun h => isLower_ne_dot (isLower_of_mem_tldOf h) rfl

/-- **What was captured is captured again**, whole. -/
theorem domainCapture_stem {v x y : Text} (h : StemAt v x y) :
    domainCapture (x ++ '.' :: tldOf y) = some ⟨[], x ++ '.' :: tldOf y, []⟩ := by
  obtain ⟨htld, hafter⟩ := tldOf_eq_self (fun c hc => isLower_of_mem_tldOf hc) (length_tldOf_le y)
  refine domainCapture_eq_some_iff.mpr ⟨[], x, tldOf y, ⟨⟨_, rfl, ?_, ?_⟩, ?_⟩, by
    rw [htld, hafter]⟩
  · exact ⟨rfl, h.two_le, h.le_max, h.newline, by rw [htld]; exact h.tld⟩
  · exact fun x' y' h' => length_le_of_append_dot (dot_notMem_tldOf y) h'.split
  · exact fun _ _ _ hlt => absurd hlt (by simp)

/-- A text whose last dot has one letter before it, or none, is not captured. -/
theorem domainCapture_short {x t : Text} (hx : x.length < 2) (ht : '.' ∉ t) :
    domainCapture (x ++ '.' :: t) = none := by
  by_contra hsome
  obtain ⟨m, hm⟩ := Option.ne_none_iff_exists'.mp hsome
  obtain ⟨before, x', y', hat, -⟩ := domainCapture_eq_some_iff.mp hm
  have hsplit := hat.split
  rw [← List.append_assoc] at hsplit
  have hle := length_le_of_append_dot ht hsplit
  obtain ⟨⟨v, -, hstem, -⟩, -⟩ := hat
  have h2 := hstem.two_le
  rw [List.length_append] at hle
  omega

/-- A stem and its top-level label end with a letter. -/
theorem StemAt.isWhitespace_getLast? {v x y : Text} (h : StemAt v x y) :
    ∀ c ∈ (x ++ '.' :: tldOf y).getLast?, isWhitespace c = false := by
  intro c hc
  have hne : tldOf y ≠ [] := fun hnil => by
    have h2 := h.tld
    rw [hnil] at h2
    exact absurd h2 (by simp)
  rw [← List.singleton_append, ← List.append_assoc, List.getLast?_append_of_ne_nil _ hne] at hc
  exact isWhitespace_of_isLower (isLower_of_mem_tldOf (List.mem_of_getLast? hc))

/-- The text ahead begins as its stem does, whatever follows the dot. -/
theorem StemAt.head?_eq {v x y : Text} (h : StemAt v x y) (t : Text) :
    (x ++ '.' :: t).head? = v.head? := by
  have h2 := h.two_le
  rw [h.split]
  rcases x with _ | ⟨c, x⟩
  · exact absurd h2 (by simp)
  · rfl

/-- Only a stem can have whitespace to be trimmed. -/
theorem StemAt.trim_eq {v x y : Text} (h : StemAt v x y) :
    trim (x ++ '.' :: tldOf y) = trimStart x ++ '.' :: tldOf y := by
  have hx : x.takeWhile isWhitespace ++ trimStart x = x := List.takeWhile_append_dropWhile
  have hspaces : ∀ c ∈ x.takeWhile isWhitespace, isWhitespace c :=
    fun c hc => List.mem_takeWhile_imp hc
  have hends : trim (trimStart x ++ '.' :: tldOf y) = trimStart x ++ '.' :: tldOf y := by
    refine trim_eq_self_of_ends (fun c hc => ?_) fun c hc => ?_
    · rw [List.head?_append, Option.mem_def, Option.or_eq_some_iff] at hc
      rcases hc with hc | ⟨-, hc⟩
      · exact head?_dropWhile isWhitespace x c hc
      · rw [← Option.some.inj hc]
        decide
    · refine h.isWhitespace_getLast? c ?_
      rw [← hx, List.append_assoc, List.getLast?_append_of_ne_nil _ (by simp)]
      exact hc
  calc trim (x ++ '.' :: tldOf y)
      = trim (x.takeWhile isWhitespace ++ (trimStart x ++ '.' :: tldOf y)) := by
        rw [← List.append_assoc, hx]
    _ = trimStart x ++ '.' :: tldOf y := by rw [trim_append_of_isWhitespace hspaces, hends]

/-- **Whitespace given back to the stem is to no avail.** When a hosts line is read with
whitespace at the head of the stem, that is because the stem would be too short without
it; trimmed, it is too short. -/
theorem domainCapture_of_isWhitespace {line before q ws r x y : Text}
    (hfirst : HostFirst line before q ws r) (hlongest : LongestStem r x y)
    (hhead : ¬∀ c ∈ r.head?, isWhitespace c = false) :
    domainCapture (trim (x ++ '.' :: tldOf y)) = none := by
  obtain ⟨hstem, -⟩ := hlongest
  have hx : x.takeWhile isWhitespace ++ trimStart x = x := List.takeWhile_append_dropWhile
  have hne : x.takeWhile isWhitespace ≠ [] := fun hnil => hhead fun c hc => by
    rw [← hstem.head?_eq []] at hc
    rcases x with _ | ⟨d, x⟩
    · rw [← Option.some.inj hc]
      decide
    · rw [← Option.some.inj hc]
      by_contra hspace
      rw [List.takeWhile_cons_of_pos (by simpa using hspace)] at hnil
      cases hnil
  have hshort : (trimStart x).length < 2 := by
    by_contra hlt
    have hmax := hstem.le_max
    have hnl := hstem.newline
    rw [← hx, List.length_append] at hmax
    rw [← hx, List.mem_append, not_or] at hnl
    -- with all the whitespace left out there would be a stem as well
    have hle := hfirst.longest q (ws ++ x.takeWhile isWhitespace) (trimStart x ++ '.' :: y)
      ⟨?_, hfirst.quad, by simp [hfirst.ne_nil], fun c hc => ?_, trimStart x, y, rfl,
        not_lt.mp hlt, by omega, hnl.2, hstem.tld⟩
    · have hpos := List.length_pos_iff.mpr hne
      rw [List.length_append] at hle
      omega
    · rw [hfirst.split, hstem.split, List.append_assoc, ← List.append_assoc _ (trimStart x), hx]
    · exact (List.mem_append.mp hc).elim (hfirst.spaces c) List.mem_takeWhile_imp
  rw [hstem.trim_eq]
  exact domainCapture_short hshort (dot_notMem_tldOf y)

/-- **What a hosts line yields**: what its capture reads as, unless that begins with
whitespace. -/
theorem hosts_parse_eq_some_iff {cr : Crates} {line : Text} {d : Domain} :
    (Host.parse cr line).map Host.intoDomain = some d ↔
      ∃ m, hostCapture line = some m ∧ (∀ c ∈ m.text.head?, isWhitespace c = false) ∧
        readDomain cr m.text = some d := by
  rw [hosts_parse_eq, Option.bind_eq_some_iff]
  refine exists_congr fun m => and_congr_right fun hm => ?_
  obtain ⟨before, q, ws, r, x, y, hfirst, hlongest, rfl⟩ := hostCapture_eq_some_iff.mp hm
  obtain ⟨hstem, hmax⟩ := hlongest
  simp only [hstem.head?_eq]
  by_cases hhead : ∀ c ∈ r.head?, isWhitespace c = false
  · have htrim : trim (x ++ '.' :: tldOf y) = x ++ '.' :: tldOf y :=
      trim_eq_self_of_ends (by rwa [hstem.head?_eq]) hstem.isWhitespace_getLast?
    rw [htrim, parse_eq, domainCapture_stem hstem]
    exact ⟨fun h => ⟨hhead, h⟩, fun h => h.2⟩
  · rw [parse_eq, domainCapture_of_isWhitespace hfirst ⟨hstem, hmax⟩ hhead]
    exact iff_of_false (by simp) fun h => hhead h.1

end BancuhDns
