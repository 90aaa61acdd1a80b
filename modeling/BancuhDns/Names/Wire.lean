import BancuhDns.Names

/-!
# Names on the wire, and the dots in their text

On the wire a name is a list of labels, and a label is any octets at all, dots among them.
What the store is asked about is the text of the name, with a dot after each label, in which
a dot inside a label is escaped by a backslash. The store cuts the text at every dot. So a
label with a dot in it is cut as well, and what comes after the dot is taken for a label.

A wildcard `*.s` is meant for the names whose last labels are those of `s`, with a label
before them. It is found for others only when the labels of `s` begin behind an escaped dot
(`BancuhDns.WireName.respectsLabels_iff`): the label `a.ads` and the label `com` are found
under `*.ads.com` (`BancuhDns.WireName.respectsLabels_dot`).
-/

namespace BancuhDns

/-! ### Octets -/

/-- The octets of an ASCII text. -/
def octets (s : String) : List UInt8 := s.toList.map Char.toUInt8

/-- The ASCII character of an octet. -/
def asChar (o : UInt8) : Char := Char.ofNat o.toNat

/-- The octet of a dot. -/
def dotOctet : UInt8 := 0x2E

/-- A letter, a digit or a hyphen. -/
def isHostChar (c : Char) : Bool := c.isAlphanum || c == '-'

/-- A label of letters, digits and hyphens. -/
def IsHostLabel (l : List UInt8) : Prop := l ≠ [] ∧ ∀ o ∈ l, isHostChar (asChar o)

theorem isHostLabel_of_all {l : List UInt8} (hne : l ≠ [])
    (h : l.all fun o => isHostChar (asChar o)) : IsHostLabel l :=
  ⟨hne, fun o ho => List.all_eq_true.mp h o ho⟩

/-- **How octets are printed**, at a position of their label: a letter, a digit, a hyphen or
an underscore as it is, a dot behind a backslash, and any other octet without a dot and not
in the guise of letters, digits and hyphens. -/
structure PrintsOctets (octet : ℕ → UInt8 → Text) : Prop where
  plain : ∀ i o, isHostChar (asChar o) || asChar o == '_' → octet i o = [asChar o]
  dot : ∀ i, octet i dotOctet = ['\\', '.']
  escaped : ∀ i o, o ≠ dotOctet → ¬(isHostChar (asChar o) || asChar o == '_') →
    '.' ∉ octet i o ∧ ∃ c ∈ octet i o, ¬isHostChar c

theorem toNat_asChar (o : UInt8) : (asChar o).toNat = o.toNat := by
  have hlt : o.toNat < 256 := o.toNat_lt
  have hvalid : o.toNat.isValidChar := Or.inl (by omega)
  rw [asChar, Char.ofNat, dif_pos hvalid]
  rfl

theorem asChar_injective : Function.Injective asChar := fun o o' h =>
  UInt8.toNat_inj.mp (by rw [← toNat_asChar, ← toNat_asChar, h])

theorem asChar_dotOctet : asChar dotOctet = '.' := by decide

/-- No octet of a host label is a dot. -/
theorem IsHostLabel.dotOctet_notMem {l : List UInt8} (h : IsHostLabel l) : dotOctet ∉ l :=
  fun hmem => absurd (h.2 _ hmem) (by decide)

theorem IsHostLabel.dot_notMem {l : List UInt8} (h : IsHostLabel l) : '.' ∉ l.map asChar := by
  intro hmem
  obtain ⟨o, ho, hdot⟩ := List.mem_map.mp hmem
  rw [← asChar_dotOctet] at hdot
  exact h.dotOctet_notMem (asChar_injective hdot ▸ ho)

/-- A printer: what is no letter, digit, hyphen or underscore goes behind a backslash. -/
def escapeOctet (_ : ℕ) (o : UInt8) : Text :=
  if isHostChar (asChar o) || asChar o == '_' then [asChar o] else ['\\', asChar o]

theorem escapeOctet_printsOctets : PrintsOctets escapeOctet where
  plain _ _ h := if_pos h
  dot _ := by
    rw [escapeOctet, asChar_dotOctet]
    rfl
  escaped _ o hne h := by
    rw [escapeOctet, if_neg h]
    have hdot : '.' ≠ asChar o := fun heq =>
      hne (asChar_injective (heq.symm.trans asChar_dotOctet.symm))
    exact ⟨by simp [hdot], '\\', List.mem_cons_self, by decide⟩

/-- The text of octets, the first of which stands at position `i` of the label. -/
def displayFrom (octet : ℕ → UInt8 → Text) : ℕ → List UInt8 → Text
  | _, [] => []
  | i, o :: l => octet i o ++ displayFrom octet (i + 1) l

variable {octet : ℕ → UInt8 → Text}

theorem displayFrom_append (i : ℕ) (l l' : List UInt8) :
    displayFrom octet i (l ++ l') =
      displayFrom octet i l ++ displayFrom octet (i + l.length) l' := by
  induction l generalizing i with
  | nil => rfl
  | cons o l ih =>
    rw [List.cons_append, displayFrom, displayFrom, ih, List.append_assoc, List.length_cons,
      Nat.add_right_comm, Nat.add_assoc]

/-- What is printed for an octet that is no dot. -/
theorem PrintsOctets.octet_of_ne (hoctet : PrintsOctets octet) (i : ℕ) {o : UInt8}
    (h : o ≠ dotOctet) : '.' ∉ octet i o ∧ octet i o ≠ [] ∧
      ((∀ c ∈ octet i o, isHostChar c) → isHostChar (asChar o) ∧ octet i o = [asChar o]) := by
  by_cases hplain : isHostChar (asChar o) || asChar o == '_'
  · rw [hoctet.plain i o hplain]
    refine ⟨?_, List.cons_ne_nil _ _, fun hhost => ⟨hhost _ (List.mem_singleton_self _), rfl⟩⟩
    rw [List.mem_singleton, ← asChar_dotOctet]
    exact fun heq => h (asChar_injective heq).symm
  · obtain ⟨hdot, c, hc, hnot⟩ := hoctet.escaped i o h hplain
    exact ⟨hdot, List.ne_nil_of_mem hc, fun hhost => absurd (hhost c hc) hnot⟩

/-- A label without a dot is printed without one, and read back when it looks like a host
label. -/
theorem PrintsOctets.displayFrom_of_notMem (hoctet : PrintsOctets octet) {l : List UInt8}
    (h : dotOctet ∉ l) (i : ℕ) :
    '.' ∉ displayFrom octet i l ∧ (l ≠ [] → displayFrom octet i l ≠ []) ∧
      ((∀ c ∈ displayFrom octet i l, isHostChar c) →
        (∀ o ∈ l, isHostChar (asChar o)) ∧ displayFrom octet i l = l.map asChar) := by
  induction l generalizing i with
  | nil => exact ⟨List.not_mem_nil, fun hne => absurd rfl hne, fun _ => ⟨by simp, rfl⟩⟩
  | cons o l ih =>
    rw [List.mem_cons, not_or] at h
    obtain ⟨hdot, hne, hread⟩ := hoctet.octet_of_ne i (Ne.symm h.1)
    obtain ⟨hdot', -, hread'⟩ := ih h.2 (i + 1)
    rw [displayFrom]
    refine ⟨?_, fun _ => by simp [hne], fun hhost => ?_⟩
    · rw [List.mem_append]
      exact not_or.mpr ⟨hdot, hdot'⟩
    · obtain ⟨ho, htext⟩ := hread fun c hc => hhost c (List.mem_append_left _ hc)
      obtain ⟨hl, htext'⟩ := hread' fun c hc => hhost c (List.mem_append_right _ hc)
      exact ⟨List.forall_mem_cons.mpr ⟨ho, hl⟩, by rw [htext, htext']; rfl⟩

/-- Letters, digits and hyphens are printed as they are. -/
theorem PrintsOctets.displayFrom_eq_map (hoctet : PrintsOctets octet) {l : List UInt8}
    (h : ∀ o ∈ l, isHostChar (asChar o)) (i : ℕ) : displayFrom octet i l = l.map asChar := by
  induction l generalizing i with
  | nil => rfl
  | cons o l ih =>
    obtain ⟨ho, hl⟩ := List.forall_mem_cons.mp h
    rw [displayFrom, hoctet.plain i o (by rw [ho]; rfl), ih hl]
    rfl

/-! ### The parts of a label -/

/-- A dot ends a part. -/
theorem parts_append_dot (s t : Text) : parts (s ++ '.' :: t) = parts s ++ parts t := by
  rw [parts, List.splitOn_append_cons_self, List.filter_append]
  rfl

/-- A text without a dot is one part. -/
theorem parts_of_notMem {s : Text} (h : '.' ∉ s) (hne : s ≠ []) : parts s = [s] := by
  rw [parts, List.splitOn_eq_singleton h, List.filter_cons_of_pos (by simpa using hne)]
  rfl

/-- What a list has in it, it has in it for a last time. -/
theorem exists_append_cons_of_mem {α : Type} {a : α} {l : List α} (h : a ∈ l) :
    ∃ x y, l = x ++ a :: y ∧ a ∉ y := by
  obtain ⟨x, y, hxy, hnot⟩ := List.eq_append_cons_of_mem (List.mem_reverse.mpr h)
  refine ⟨y.reverse, x.reverse, ?_, by rwa [List.mem_reverse]⟩
  rw [← List.reverse_reverse l, hxy]
  simp

/-- The last part of a text that does not end with a dot ends as the text does. -/
theorem exists_parts_concat (s : Text) {c : Char} (hc : c ≠ '.') :
    ∃ front e, parts (s ++ [c]) = front ++ [e ++ [c]] := by
  have hlast : ∀ t, '.' ∉ t → parts (t ++ [c]) = [t ++ [c]] := fun t ht => by
    refine parts_of_notMem ?_ (by simp)
    rw [List.mem_append, List.mem_singleton]
    exact not_or.mpr ⟨ht, Ne.symm hc⟩
  by_cases hdot : '.' ∈ s
  · obtain ⟨a, b, rfl, hb⟩ := exists_append_cons_of_mem hdot
    rw [List.append_assoc, List.cons_append, parts_append_dot, hlast b hb]
    exact ⟨_, _, rfl⟩
  · exact ⟨[], s, hlast s hdot⟩

/-- **The parts of a label with a dot**: those up to the escaped dot, the last of which ends
with the backslash, and those after it. -/
theorem PrintsOctets.parts_displayFrom_dot (hoctet : PrintsOctets octet) (x y : List UInt8)
    (i : ℕ) : ∃ front e, parts (displayFrom octet i (x ++ dotOctet :: y)) =
      front ++ (e ++ ['\\']) :: parts (displayFrom octet (i + x.length + 1) y) := by
  have htext : displayFrom octet i (x ++ dotOctet :: y) = (displayFrom octet i x ++ ['\\']) ++
      '.' :: displayFrom octet (i + x.length + 1) y := by
    rw [displayFrom_append, displayFrom, hoctet.dot]
    simp
  obtain ⟨front, e, hparts⟩ := exists_parts_concat (displayFrom octet i x) (c := '\\') (by decide)
  refine ⟨front, e, ?_⟩
  rw [htext, parts_append_dot, hparts]
  simp

/-- **The last part of a label**, when it looks like a host label: it is the label, or else
it is what comes after the last dot in the label. -/
theorem PrintsOctets.eq_or_of_parts_eq (hoctet : PrintsOctets octet) {l : List UInt8}
    (hne : l ≠ []) {front : List Text} {e : Text} (he : ∀ c ∈ e, isHostChar c)
    (h : parts (displayFrom octet 0 l) = front ++ [e]) :
    front = [] ∧ IsHostLabel l ∧ l.map asChar = e ∨
      ∃ x y, l = x ++ dotOctet :: y ∧ IsHostLabel y := by
  by_cases hdot : dotOctet ∈ l
  · obtain ⟨x, y, rfl, hy⟩ := exists_append_cons_of_mem hdot
    obtain ⟨front', e', hparts⟩ := hoctet.parts_displayFrom_dot x y 0
    rw [hparts] at h
    obtain ⟨hnot, hnil, hread⟩ := hoctet.displayFrom_of_notMem hy (0 + x.length + 1)
    rcases eq_or_ne y [] with rfl | hyne
    · -- what comes before the dot ends with a backslash
      rw [displayFrom] at h
      obtain rfl : e' ++ ['\\'] = e := (List.cons.inj (List.append_inj' h rfl).2).1
      exact absurd (he '\\' (by simp)) (by decide)
    · rw [parts_of_notMem hnot (hnil hyne), ← List.singleton_append, ← List.append_assoc] at h
      obtain rfl := (List.cons.inj (List.append_inj' h rfl).2).1
      exact Or.inr ⟨x, y, rfl, hyne, (hread he).1⟩
  · obtain ⟨hnot, hnil, hread⟩ := hoctet.displayFrom_of_notMem hdot 0
    rw [parts_of_notMem hnot (hnil hne), ← List.nil_append [displayFrom octet 0 l]] at h
    obtain ⟨hfront, hlast⟩ := List.append_inj' h rfl
    obtain rfl := (List.cons.inj hlast).1
    obtain ⟨hl, htext⟩ := hread he
    exact Or.inl ⟨hfront.symm, ⟨hne, hl⟩, htext.symm⟩

/-- A label has a last part. -/
theorem PrintsOctets.exists_parts_eq (hoctet : PrintsOctets octet) {l : List UInt8}
    (hne : l ≠ []) : ∃ front e, parts (displayFrom octet 0 l) = front ++ [e] := by
  refine (List.eq_nil_or_concat' _).resolve_left fun hnil => ?_
  by_cases hdot : dotOctet ∈ l
  · obtain ⟨x, y, rfl, -⟩ := exists_append_cons_of_mem hdot
    obtain ⟨front, e, hparts⟩ := hoctet.parts_displayFrom_dot x y 0
    rw [hnil] at hparts
    simp at hparts
  · obtain ⟨hnot, hnil', -⟩ := hoctet.displayFrom_of_notMem hdot 0
    rw [parts_of_notMem hnot (hnil' hne)] at hnil
    cases hnil

/-- A host label is one part. -/
theorem PrintsOctets.parts_displayFrom_of_isHostLabel (hoctet : PrintsOctets octet)
    {l : List UInt8} (h : IsHostLabel l) (i : ℕ) :
    parts (displayFrom octet i l) = [l.map asChar] := by
  rw [hoctet.displayFrom_eq_map h.2]
  exact parts_of_notMem h.dot_notMem (by simpa using h.1)

/-! ### Names -/

/-- **A name on the wire**: its labels are octets, and none is empty. -/
structure WireName where
  labels : List (List UInt8)
  ne_nil : ∀ l ∈ labels, l ≠ []

/-- **Labels in which a host name begins behind a dot**: after some dot in a label there are
letters, digits and hyphens only, and so there are in the labels after it. -/
def CutsInside (ls : List (List UInt8)) : Prop :=
  ∃ before x y back, ls = before ++ (x ++ dotOctet :: y) :: back ∧ IsHostLabel y ∧
    ∀ l ∈ back, IsHostLabel l

/-- What comes after a host name can be put after it. -/
theorem CutsInside.concat {ls : List (List UInt8)} (h : CutsInside ls) {l : List UInt8}
    (hl : IsHostLabel l) : CutsInside (ls ++ [l]) := by
  obtain ⟨before, x, y, back, rfl, hy, hback⟩ := h
  refine ⟨before, x, y, back ++ [l], by simp, hy, fun l' hl' => ?_⟩
  rcases List.mem_append.mp hl' with hl' | hl'
  · exact hback l' hl'
  · rwa [List.mem_singleton.mp hl']

/-- **The last parts of some labels**: when they are host labels, they are the last labels,
or else a host name begins behind a dot. -/
theorem PrintsOctets.exists_append_or_cutsInside (hoctet : PrintsOctets octet)
    {s : List (List UInt8)} (hs : ∀ l ∈ s, IsHostLabel l) {ls : List (List UInt8)}
    (hls : ∀ l ∈ ls, l ≠ []) {front : List Text} (hfront : front ≠ [])
    (h : (ls.flatMap fun l => parts (displayFrom octet 0 l)) =
      front ++ s.map (List.map asChar)) :
    (∃ front', front' ≠ [] ∧ ls = front' ++ s) ∨ CutsInside ls := by
  induction s using List.reverseRecOn generalizing ls with
  | nil =>
    refine Or.inl ⟨ls, ?_, by simp⟩
    rintro rfl
    simp at h
    exact hfront h
  | append_singleton s l ih =>
    have hl : IsHostLabel l := hs l (by simp)
    rcases List.eq_nil_or_concat' ls with rfl | ⟨ms, m, rfl⟩
    · simp at h
    · obtain ⟨front', e, hparts⟩ := hoctet.exists_parts_eq (hls m (by simp))
      rw [List.flatMap_append, List.flatMap_singleton, hparts, List.map_append,
        ← List.append_assoc, ← List.append_assoc] at h
      obtain ⟨hinit, hlast⟩ := List.append_inj' h rfl
      obtain rfl : e = l.map asChar := (List.cons.inj hlast).1
      have hhost : ∀ c ∈ l.map asChar, isHostChar c := by
        intro c hc
        obtain ⟨o, ho, rfl⟩ := List.mem_map.mp hc
        exact hl.2 o ho
      rcases hoctet.eq_or_of_parts_eq (hls m (by simp)) hhost hparts with
        ⟨rfl, -, heq⟩ | ⟨x, y, rfl, hy⟩
      · -- the last label is the last one of `s`
        obtain rfl : m = l := List.map_injective_iff.mpr asChar_injective heq
        rw [List.append_nil] at hinit
        rcases ih (fun l' hl' => hs l' (List.mem_append_left _ hl'))
          (fun l' hl' => hls l' (List.mem_append_left _ hl')) hinit with
          ⟨front', hne, rfl⟩ | hcuts
        · exact Or.inl ⟨front', hne, by simp⟩
        · exact Or.inr (hcuts.concat hl)
      · exact Or.inr ⟨ms, x, y, [], rfl, hy, by simp⟩

/-- **The text of a name**: a dot after each label, and a dot for the root. -/
def WireName.display (octet : ℕ → UInt8 → Text) (q : WireName) : Text :=
  if q.labels = [] then ['.'] else q.labels.flatMap fun l => displayFrom octet 0 l ++ ['.']

/-- The parts of the text of a name are those of its labels. -/
theorem WireName.parts_display (octet : ℕ → UInt8 → Text) (q : WireName) :
    parts (q.display octet) = q.labels.flatMap fun l => parts (displayFrom octet 0 l) := by
  have hlabels : ∀ ls : List (List UInt8),
      parts (ls.flatMap fun l => displayFrom octet 0 l ++ ['.']) =
        ls.flatMap fun l => parts (displayFrom octet 0 l) := by
    intro ls
    induction ls with
    | nil => rfl
    | cons l ls ih =>
      rw [List.flatMap_cons, List.flatMap_cons, List.append_assoc, List.singleton_append,
        parts_append_dot, ih]
  rw [display]
  split_ifs with hroot
  · rw [hroot]
    rfl
  · exact hlabels q.labels

/-! ### Wildcards -/

/-- The pattern `*.s`. -/
def wildcard (s : List (List UInt8)) : Text :=
  star ++ List.intercalate ['.'] (s.map (List.map asChar))

/-- Host labels as a name. -/
theorem nil_notMem_map_asChar {s : List (List UInt8)} (hs : ∀ l ∈ s, IsHostLabel l) :
    ∀ t ∈ s.map (List.map asChar), t ≠ [] ∧ '.' ∉ t := by
  intro t ht
  obtain ⟨l, hl, rfl⟩ := List.mem_map.mp ht
  exact ⟨by simpa using (hs l hl).1, (hs l hl).dot_notMem⟩

/-- What `*.s` is written under. -/
theorem normalizeName_wildcard {s : List (List UInt8)} (hs : ∀ l ∈ s, IsHostLabel l)
    (hne : s ≠ []) : normalizeName (wildcard s) = star ++ labelsText (s.map (List.map asChar)) := by
  have hlabels := nil_notMem_map_asChar hs
  have hsplit : (List.intercalate ['.'] (s.map (List.map asChar))).splitOn '.' =
      s.map (List.map asChar) :=
    List.splitOn_intercalate _ (fun t ht => (hlabels t ht).2) (by simpa using hne)
  have hnil : List.intercalate ['.'] (s.map (List.map asChar)) ≠ [] := by
    intro hnil
    rw [hnil, List.splitOn_nil] at hsplit
    exact (hlabels [] (hsplit ▸ List.mem_singleton_self _)).1 rfl
  -- the last label is not empty, so that the text does not end with a dot
  have hends : ¬endsWith '.' (List.intercalate ['.'] (s.map (List.map asChar))) := by
    intro hends
    obtain ⟨t, ht⟩ := endsWith_iff.mp hends
    rw [ht, List.splitOn_append_cons_self, List.splitOn_nil] at hsplit
    exact (hlabels [] (hsplit ▸ List.mem_append_right _ (List.mem_singleton_self _))).1 rfl
  rw [wildcard, normalizeName_star hnil, normalizeName_of_not hends, labelsText]

/-- **The names that are looked up under `*.s`**: those whose text has the labels of `s` for
its last parts, with a part before them. -/
theorem normalizeName_wildcard_mem_keys_iff {s : List (List UInt8)}
    (hs : ∀ l ∈ s, IsHostLabel l) (hne : s ≠ []) (text : Text) :
    normalizeName (wildcard s) ∈ keys text ↔
      ∃ front, front ≠ [] ∧ parts text = front ++ s.map (List.map asChar) := by
  have hlabels := nil_notMem_map_asChar hs
  have hne' : s.map (List.map asChar) ≠ [] := by simpa using hne
  rw [normalizeName_wildcard hs hne, keys, List.mem_cons, List.mem_map]
  constructor
  · rintro (rfl | ⟨i, hi, heq⟩)
    · -- the text is that of the wildcard itself, and `*` is the part before the others
      have hparts : parts (labelsText (s.map (List.map asChar))) = s.map (List.map asChar) :=
        Name.parts_text ⟨_, fun t ht => (hlabels t ht).1, fun t ht => (hlabels t ht).2⟩
      refine ⟨[['*']], List.cons_ne_nil _ _, ?_⟩
      rw [← hparts, ← parts_of_notMem (s := ['*']) (by decide) (by decide), ← parts_append_dot,
        hparts]
      rfl
    · have hrange := List.mem_range'_1.mp hi
      rw [List.append_assoc] at heq
      have hdrop : (parts text).drop i = s.map (List.map asChar) := by
        refine labelsText_inj ?_ hne' (fun t ht => ?_) (fun t ht => (hlabels t ht).2)
          (List.append_cancel_left heq)
        · rw [Ne, List.drop_eq_nil_iff]
          omega
        · exact notMem_of_mem_splitOn (List.mem_of_mem_filter (List.mem_of_mem_drop ht))
      refine ⟨(parts text).take i, ?_, by rw [← hdrop, List.take_append_drop]⟩
      rw [Ne, List.take_eq_nil_iff]
      rintro (hzero | hnil)
      · omega
      · rw [hnil] at hrange
        simp at hrange
        omega
  · rintro ⟨front, hfront, hparts⟩
    have hpos := List.length_pos_iff.mpr hfront
    have hpos' := List.length_pos_iff.mpr hne'
    refine Or.inr ⟨front.length, List.mem_range'_1.mpr ⟨hpos, ?_⟩, ?_⟩
    · rw [hparts, List.length_append]
      omega
    · rw [hparts, List.drop_left, labelsText, List.append_assoc]
      rfl

namespace DomainStore

variable {σ : Type} {kv : RocksDB σ}

/-- Some patterns are put, one after the other. -/
def putAll (kv : RocksDB σ) (self : DomainStore σ) (patterns : List Text) : DomainStore σ :=
  patterns.foldl (fun store pattern => (store.put kv pattern).1) self

/-- **The key that a lookup stops at**: there is a value under it, and none under those
before it. -/
def FindsUnder (kv : RocksDB σ) (self : DomainStore σ) (domain key : Text) : Prop :=
  ∃ db before after value, self.db = some db ∧ keys domain = before ++ key :: after ∧
    (∀ k ∈ before, kv.get db k = .ok none) ∧ kv.get db key = .ok (some value)

/-- Putting patterns writes their keys. -/
theorem putAll_holds (hkv : kv.LastWriteWins) {self : DomainStore σ} (h : self.Empty kv)
    (patterns : List Text) : (self.putAll kv patterns).Holds kv
      (KeyValue.lastWrite (patterns.map fun p => (normalizeName p, "true".toList))) := by
  have heq : self.putAll kv patterns =
      self.writeAll kv (patterns.map fun p => (normalizeName p, "true".toList)) := by
    rw [putAll, writeAll, List.foldl_map]
    rfl
  rw [heq]
  exact writeAll_holds hkv h _

theorem FindsUnder.mem_keys {self : DomainStore σ} {domain key : Text}
    (h : self.FindsUnder kv domain key) : key ∈ keys domain := by
  obtain ⟨db, before, after, value, -, hkeys, -⟩ := h
  rw [hkeys]
  exact List.mem_append_right _ List.mem_cons_self

/-- A pattern that is alone in a store is found when its key is looked up. -/
theorem findsUnder_singleton (hkv : kv.LastWriteWins) {self : DomainStore σ}
    (h : self.Empty kv) {domain pattern : Text} (hmem : normalizeName pattern ∈ keys domain) :
    (self.putAll kv [pattern]).FindsUnder kv domain (normalizeName pattern) := by
  obtain ⟨db, hdb, hm⟩ := putAll_holds hkv h [pattern]
  obtain ⟨before, after, hkeys, hnot⟩ := List.eq_append_cons_of_mem hmem
  refine ⟨db, before, after, "true".toList, hdb, hkeys, fun k hk => ?_, ?_⟩
  · rw [hm, Except.ok.injEq, KeyValue.lastWrite_eq_none_iff]
    intro w hw heq
    rw [List.map_singleton, List.mem_singleton] at hw
    rw [hw] at heq
    have heq : normalizeName pattern = k := heq
    exact hnot (heq ▸ hk)
  · rw [hm, Except.ok.injEq, KeyValue.lastWrite_eq_some_iff]
    exact ⟨[], [], rfl, by simp⟩

end DomainStore

namespace WireName

/-- **A name whose labels the store respects**: of whatever wildcards are put, one under
which the name is found is over the last labels of the name, with a label before them. -/
def RespectsLabels (octet : ℕ → UInt8 → Text) (q : WireName) : Prop :=
  ∀ (σ : Type) (kv : RocksDB σ) (self : DomainStore σ) (ss : List (List (List UInt8))),
    kv.LastWriteWins → self.Empty kv → (∀ s ∈ ss, ∀ l ∈ s, IsHostLabel l) → ∀ s ∈ ss,
      (self.putAll kv (ss.map wildcard)).FindsUnder kv (q.display octet)
        (normalizeName (wildcard s)) → ∃ front, front ≠ [] ∧ q.labels = front ++ s

variable {octet : ℕ → UInt8 → Text}

/-- The text of the root is no wildcard. -/
theorem labels_ne_nil_of_display {q : WireName} {t : Text} (h : q.display octet = '*' :: t) :
    q.labels ≠ [] := by
  intro hnil
  rw [display, if_pos hnil] at h
  cases h

/-- A name is looked up under `*.s` for the sake of its last labels, or of a dot. -/
theorem exists_append_or_cutsInside_of_mem_keys (hoctet : PrintsOctets octet) {q : WireName}
    {s : List (List UInt8)} (hs : ∀ l ∈ s, IsHostLabel l)
    (h : normalizeName (wildcard s) ∈ keys (q.display octet)) :
    (∃ front, front ≠ [] ∧ q.labels = front ++ s) ∨ CutsInside q.labels := by
  rcases eq_or_ne s [] with rfl | hne
  · -- only `*.` itself is looked up under `*.`
    refine Or.inl ⟨q.labels, ?_, (List.append_nil _).symm⟩
    rcases List.mem_cons.mp h with htext | hkey
    · exact labels_ne_nil_of_display htext.symm
    · obtain ⟨i, -, heq⟩ := List.mem_map.mp hkey
      have hlength := congrArg List.length heq
      have hstar : (normalizeName (wildcard [])).length = 2 := by decide
      rw [hstar] at hlength
      simp at hlength
  · obtain ⟨front, hfront, hparts⟩ :=
      (normalizeName_wildcard_mem_keys_iff hs hne _).mp h
    rw [parts_display] at hparts
    exact hoctet.exists_append_or_cutsInside hs q.ne_nil hfront hparts

/-- **A host name behind a dot is looked up as if it were the last labels.** -/
theorem mem_keys_of_cut (hoctet : PrintsOctets octet) {q : WireName}
    {before back : List (List UInt8)} {x y : List UInt8}
    (hlabels : q.labels = before ++ (x ++ dotOctet :: y) :: back)
    (hs : ∀ l ∈ y :: back, IsHostLabel l) :
    normalizeName (wildcard (y :: back)) ∈ keys (q.display octet) := by
  obtain ⟨hy, hback⟩ := List.forall_mem_cons.mp hs
  obtain ⟨front, e, hparts⟩ := hoctet.parts_displayFrom_dot x y 0
  rw [hoctet.parts_displayFrom_of_isHostLabel hy] at hparts
  have hrest : (back.flatMap fun l => parts (displayFrom octet 0 l)) =
      back.map (List.map asChar) := by
    rw [← List.flatMap_singleton' (back.map (List.map asChar)), List.flatMap_map]
    exact List.flatMap_congr fun l hl => hoctet.parts_displayFrom_of_isHostLabel (hback l hl) 0
  refine (normalizeName_wildcard_mem_keys_iff hs (List.cons_ne_nil _ _) _).mpr
    ⟨(before.flatMap fun l => parts (displayFrom octet 0 l)) ++ front ++ [e ++ ['\\']],
      by simp, ?_⟩
  rw [parts_display, hlabels, List.flatMap_append, List.flatMap_cons, hparts, hrest]
  simp

/-- The host name behind a dot, when it is the only wildcard that is put, is found. -/
theorem findsUnder_of_cut (hoctet : PrintsOctets octet) {q : WireName}
    {before back : List (List UInt8)} {x y : List UInt8}
    (hlabels : q.labels = before ++ (x ++ dotOctet :: y) :: back)
    (hs : ∀ l ∈ y :: back, IsHostLabel l) :
    (AdblockDB.assoc.blacklist.putAll (KeyValue.assoc Text Text RocksError)
      ([y :: back].map wildcard)).FindsUnder (KeyValue.assoc Text Text RocksError)
        (q.display octet) (normalizeName (wildcard (y :: back))) :=
  DomainStore.findsUnder_singleton KeyValue.assoc_lastWriteWins AdblockDB.assoc_empty.blacklist
    (mem_keys_of_cut hoctet hlabels hs)

/-- Without a dot in any label, no host name begins behind one. -/
theorem not_cutsInside_of_notMem {ls : List (List UInt8)} (h : ∀ l ∈ ls, dotOctet ∉ l) :
    ¬CutsInside ls := by
  rintro ⟨before, x, y, back, rfl, -, -⟩
  exact h (x ++ dotOctet :: y) (by simp) (by simp)

/-- The labels `a.ads` and `com`. -/
def dotLabels : List (List UInt8) := [octets "a.ads", octets "com"]

theorem dotLabels_ne_nil : ∀ l ∈ dotLabels, l ≠ [] := by decide

/-- The labels `a`, `ads` and `com`. -/
def hostLabels : List (List UInt8) := [octets "a", octets "ads", octets "com"]

theorem hostLabels_ne_nil : ∀ l ∈ hostLabels, l ≠ [] := by decide

/-- **When the store respects the labels of a name**: when no host name begins behind a dot
in one of its labels and goes on to the end of the name. -/
theorem respectsLabels_iff (hoctet : PrintsOctets octet) (q : WireName) :
    q.RespectsLabels octet ↔ ¬CutsInside q.labels := by
  constructor
  · rintro hrespects ⟨before, x, y, back, hlabels, hy, hback⟩
    have hs : ∀ l ∈ y :: back, IsHostLabel l := List.forall_mem_cons.mpr ⟨hy, hback⟩
    obtain ⟨front, -, heq⟩ := hrespects _ _ _ [y :: back] KeyValue.assoc_lastWriteWins
      AdblockDB.assoc_empty.blacklist (by simpa using hs) _ (List.mem_singleton_self _)
      (findsUnder_of_cut hoctet hlabels hs)
    rw [hlabels, ← List.singleton_append, ← List.append_assoc, ← List.singleton_append (x := y),
      ← List.append_assoc] at heq
    obtain ⟨-, hlast⟩ := List.append_inj' (List.append_cancel_right heq) rfl
    exact hy.dotOctet_notMem ((List.cons.inj hlast).1 ▸ by simp)
  · intro hcuts σ kv self ss hkv hempty hss s hs hfinds
    exact (exists_append_or_cutsInside_of_mem_keys hoctet (hss s hs) hfinds.mem_keys).resolve_right
      hcuts

theorem respectsLabels_iff_host :
    WireName.RespectsLabels escapeOctet ⟨hostLabels, hostLabels_ne_nil⟩ :=
  (respectsLabels_iff escapeOctet_printsOctets _).mpr
    (not_cutsInside_of_notMem (by decide))

/-- **A dot in a label is taken for the end of one**: the label `a.ads` and the label `com`
are found under `*.ads.com`. -/
theorem respectsLabels_dot : ¬∀ octet, PrintsOctets octet → ∀ q : WireName,
    q.RespectsLabels octet := by
  intro h
  have hs : ∀ l ∈ [octets "ads", octets "com"], IsHostLabel l :=
    List.forall_mem_cons.mpr ⟨isHostLabel_of_all (by decide) (by decide),
      List.forall_mem_singleton.mpr (isHostLabel_of_all (by decide) (by decide))⟩
  have hlabels : dotLabels =
      [] ++ (octets "a" ++ dotOctet :: octets "ads") :: [octets "com"] := by decide
  obtain ⟨front, hfront, heq⟩ := h escapeOctet escapeOctet_printsOctets
    ⟨dotLabels, dotLabels_ne_nil⟩ _ _ _ [[octets "ads", octets "com"]]
    KeyValue.assoc_lastWriteWins AdblockDB.assoc_empty.blacklist (by simpa using hs) _
    (List.mem_singleton_self _)
    (findsUnder_of_cut escapeOctet_printsOctets hlabels hs)
  -- two labels leave none before `ads` and `com`
  have hlength := congrArg List.length heq
  rw [List.length_append] at hlength
  exact hfront (List.length_eq_zero_iff.mp (Nat.add_eq_right.mp hlength.symm))

end WireName

end BancuhDns
