import Mathlib.Data.List.DropRight
import Mathlib.Data.List.Basic

/-!
# The texts of the program

A Rust string is a sequence of Unicode scalar values, and so is a `Text`. This
file has the handful of `str` functions the program calls, under the names the
standard library gives them, and the two character classes its regular
expressions name by `\s` and `\d`.

The whitespace of `str::trim` and the whitespace of `\s` are one set, the
`White_Space` property of Unicode; the digits of `\d` are the decimal digits of
every script, which come in runs of ten.
-/

namespace BancuhDns

/-- A string: a sequence of Unicode scalar values. -/
abbrev Text := List Char

/-- What is said of every letter of a text is decided on the letters it has. -/
instance (priority := high) {P : Char → Prop} [DecidablePred P] (s : Text) :
    Decidable (∀ c ∈ s, P c) :=
  List.decidableBAll P s

/-! ### Character classes -/

/-- `char::is_whitespace`, and `\s` in a regular expression. -/
def isWhitespace (c : Char) : Bool :=
  let n := c.toNat
  (9 ≤ n && n ≤ 13) || n == 0x20 || n == 0x85 || n == 0xA0 || n == 0x1680 ||
    (0x2000 ≤ n && n ≤ 0x200A) || n == 0x2028 || n == 0x2029 || n == 0x202F || n == 0x205F ||
    n == 0x3000

/-- The zeros of the scripts that have decimal digits. -/
def decimalZeros : List ℕ :=
  [0x30, 0x660, 0x6F0, 0x7C0, 0x966, 0x9E6, 0xA66, 0xAE6, 0xB66, 0xBE6, 0xC66, 0xCE6, 0xD66,
    0xDE6, 0xE50, 0xED0, 0xF20, 0x1040, 0x1090, 0x17E0, 0x1810, 0x1946, 0x19D0, 0x1A80, 0x1A90,
    0x1B50, 0x1BB0, 0x1C40, 0x1C50, 0xA620, 0xA8D0, 0xA900, 0xA9D0, 0xA9F0, 0xAA50, 0xABF0,
    0xFF10, 0x104A0, 0x10D30, 0x10D40, 0x11066, 0x110F0, 0x11136, 0x111D0, 0x112F0, 0x11450,
    0x114D0, 0x11650, 0x116C0, 0x116D0, 0x116DA, 0x11730, 0x118E0, 0x11950, 0x11BF0, 0x11C50,
    0x11D50, 0x11DA0, 0x11F50, 0x16130, 0x16A60, 0x16AC0, 0x16B50, 0x16D70, 0x1CCF0, 0x1D7CE,
    0x1D7D8, 0x1D7E2, 0x1D7EC, 0x1D7F6, 0x1E140, 0x1E2F0, 0x1E4F0, 0x1E5F1, 0x1E950, 0x1FBF0]

/-- `\d` in a regular expression: a decimal digit of some script. -/
def isDecimal (c : Char) : Bool :=
  decimalZeros.any fun z => z ≤ c.toNat && c.toNat ≤ z + 9

/-- `[a-z]` in a regular expression. -/
def isLower (c : Char) : Bool := 'a' ≤ c && c ≤ 'z'

/-- A letter of an ASCII label: a lower-case letter, a digit or a hyphen. -/
def isLdh (c : Char) : Bool := isLower c || ('0' ≤ c && c ≤ '9') || c == '-'

/-! ### String functions -/

/-- `str::trim_start`. -/
def trimStart (s : Text) : Text := s.dropWhile isWhitespace

/-- `str::trim_end`. -/
def trimEnd (s : Text) : Text := s.rdropWhile isWhitespace

/-- `str::trim`. -/
def trim (s : Text) : Text := trimEnd (trimStart s)

/-- `str::starts_with`. -/
def startsWith (pat s : Text) : Bool := pat.isPrefixOf s

/-- `str::strip_prefix`. -/
def stripPrefix (pat s : Text) : Option Text :=
  if startsWith pat s then some (s.drop pat.length) else none

/-- `str::ends_with`, for a single character. -/
def endsWith (c : Char) (s : Text) : Bool := s.getLast? == some c

/-- The scan behind `str::replace`: `skip` letters of an occurrence already
replaced are still to be dropped. -/
def replaceFrom (pat new : Text) : ℕ → Text → Text
  | _, [] => []
  | skip + 1, _ :: s => replaceFrom pat new skip s
  | 0, c :: s =>
      if startsWith pat (c :: s) then new ++ replaceFrom pat new (pat.length - 1) s
      else c :: replaceFrom pat new 0 s

/-- `str::replace` of a non-empty pattern: every occurrence, from the left. -/
def replace (pat new s : Text) : Text := replaceFrom pat new 0 s

/-- The carriage return of a line ended by `\r\n` is not part of the line. -/
def stripCarriageReturn (l : Text) : Text := if endsWith '\r' l then l.dropLast else l

/-- `str::lines`: the pieces ended by a line feed, each without its carriage
return, and the piece after the last line feed when there is one. -/
def lines (s : Text) : List Text :=
  let pieces := s.splitOn '\n'
  pieces.dropLast.map stripCarriageReturn ++ (pieces.getLast?.filter (· ≠ [])).toList

/-! ### Facts about the string functions -/

theorem isLower_ne_dot {c : Char} (h : isLower c) : c ≠ '.' := by
  rintro rfl
  exact absurd h (by decide)

theorem isWhitespace_of_isLdh {c : Char} (h : isLdh c) : isWhitespace c = false := by
  have hrange : ((0x61 ≤ c.toNat ∧ c.toNat ≤ 0x7A) ∨ (0x30 ≤ c.toNat ∧ c.toNat ≤ 0x39)) ∨
      c = '-' := by
    simpa [isLdh, isLower, Char.le_def, UInt32.le_iff_toNat_le] using h
  rcases hrange with hrange | rfl
  · simp only [isWhitespace, Bool.or_eq_false_iff, Bool.and_eq_false_iff, decide_eq_false_iff_not,
      beq_eq_false_iff_ne]
    omega
  · decide

theorem isWhitespace_of_isLower {c : Char} (h : isLower c) : isWhitespace c = false :=
  isWhitespace_of_isLdh (by simp [isLdh, h])

/-- The last dot of a text comes after every other one. -/
theorem length_le_of_append_dot {x x' t t' : Text} (ht : '.' ∉ t)
    (h : x ++ '.' :: t = x' ++ '.' :: t') : x'.length ≤ x.length := by
  rcases List.append_eq_append_iff.mp h with ⟨u, hx', hu⟩ | ⟨u, rfl, -⟩
  · rcases u with _ | ⟨c, u⟩
    · rw [hx', List.append_nil]
    · exact absurd ((List.cons.inj hu).2 ▸ List.mem_append_right u List.mem_cons_self) ht
  · rw [List.length_append]
    exact Nat.le_add_right _ _

/-- A text is cut at its last dot in one way. -/
theorem append_dot_inj {x x' t t' : Text} (ht : '.' ∉ t) (ht' : '.' ∉ t')
    (h : x ++ '.' :: t = x' ++ '.' :: t') : x = x' ∧ t = t' := by
  have hlen := le_antisymm (length_le_of_append_dot ht' h.symm) (length_le_of_append_dot ht h)
  obtain ⟨hx, ht⟩ := List.append_inj h hlen
  exact ⟨hx, (List.cons.inj ht).2⟩

theorem isWhitespace_of_isDecimal {c : Char} (h : isDecimal c) : isWhitespace c = false := by
  simp only [isDecimal, decimalZeros, List.any_cons, List.any_nil, Bool.or_false, Bool.or_eq_true,
    Bool.and_eq_true, decide_eq_true_eq] at h
  simp only [isWhitespace, Bool.or_eq_false_iff, Bool.and_eq_false_iff, decide_eq_false_iff_not,
    beq_eq_false_iff_ne]
  omega

theorem stripPrefix_eq_some_iff {pat s rest : Text} :
    stripPrefix pat s = some rest ↔ s = pat ++ rest := by
  rw [stripPrefix, Option.ite_none_right_eq_some, startsWith, List.isPrefixOf_iff_prefix]
  constructor
  · rintro ⟨⟨t, rfl⟩, hrest⟩
    rw [← Option.some.inj hrest, List.drop_left]
  · rintro rfl
    exact ⟨List.prefix_append pat rest, by rw [List.drop_left]⟩

theorem takeWhile_append_of_head? {p : Char → Bool} {t r : Text} (ht : ∀ c ∈ t, p c)
    (hr : ∀ c ∈ r.head?, p c = false) : (t ++ r).takeWhile p = t := by
  rw [List.takeWhile_append_of_pos ht]
  rcases r with _ | ⟨c, r⟩
  · simp
  · rw [List.takeWhile_cons_of_neg (by simp [hr c rfl]), List.append_nil]

theorem head?_dropWhile (p : Char → Bool) (s : Text) :
    ∀ c ∈ (s.dropWhile p).head?, p c = false := by
  intro c hc
  have hnot := List.head?_dropWhile_not p s
  rw [Option.mem_def.mp hc] at hnot
  simpa using hnot

/-- **A text is cut in one way where the letters of a class end.** -/
theorem append_inj_of_head? {p : Char → Bool} {t t' r r' : Text} (ht : ∀ c ∈ t, p c)
    (ht' : ∀ c ∈ t', p c) (hr : ∀ c ∈ r.head?, p c = false) (hr' : ∀ c ∈ r'.head?, p c = false)
    (h : t ++ r = t' ++ r') : t = t' ∧ r = r' := by
  have heq : t = t' := by
    rw [← takeWhile_append_of_head? ht hr, h, takeWhile_append_of_head? ht' hr']
  rw [heq] at h
  exact ⟨heq, List.append_cancel_left h⟩

/-- A text is cut at the first occurrence of a letter in one way. -/
theorem append_cons_inj {a : Char} {x x' t t' : Text} (hx : a ∉ x) (hx' : a ∉ x')
    (h : x ++ a :: t = x' ++ a :: t') : x = x' ∧ t = t' := by
  have hne : ∀ {s : Text}, a ∉ s → ∀ c ∈ s, (c != a) = true := fun hs c hc =>
    bne_iff_ne.mpr fun hca => hs (hca ▸ hc)
  obtain ⟨hxx, htt⟩ := append_inj_of_head? (p := fun c => c != a) (hne hx) (hne hx')
    (by simp) (by simp) h
  exact ⟨hxx, (List.cons.inj htt).2⟩

/-- A letter that is not of a class does not stand among the letters of the class. -/
theorem exists_append_of_class {p : Char → Bool} {x s a b : Text} {c : Char}
    (hx : ∀ d ∈ x, p d) (hc : p c = false) (h : x ++ s = a ++ c :: b) :
    ∃ a', a = x ++ a' ∧ s = a' ++ c :: b := by
  rcases List.append_eq_append_iff.mp h with ⟨u, ha, hs⟩ | ⟨u, hx', hs⟩
  · exact ⟨u, ha, hs⟩
  · rcases u with _ | ⟨d, u⟩
    · exact ⟨[], by simpa using hx'.symm, hs.symm⟩
    · have hd := hx d (by rw [hx']; simp)
      rw [← (List.cons.inj hs).1, hc] at hd
      cases hd

/-- The letters of a class do not go on over a letter that is not of it. -/
theorem exists_append_of_head? {p : Char → Bool} {a b x y : Text} (hx : ∀ c ∈ x, p c)
    (hb : ∀ c ∈ b.head?, p c = false) (h : a ++ b = x ++ y) : ∃ u, a = x ++ u ∧ y = u ++ b := by
  rcases List.append_eq_append_iff.mp h with ⟨u, hx', hb'⟩ | ⟨u, ha, hy⟩
  · rcases u with _ | ⟨c, u⟩
    · exact ⟨[], by simpa using hx'.symm, hb'.symm⟩
    · have hc := hx c (by rw [hx']; simp)
      rw [hb c (by rw [hb']; rfl)] at hc
      cases hc
  · exact ⟨u, ha, hy⟩

/-- Of two cuts of a text the one further left is in front of the other. -/
theorem exists_append_of_length_le {a b x y : Text} (h : a ++ b = x ++ y)
    (hle : x.length ≤ a.length) : ∃ u, a = x ++ u ∧ y = u ++ b := by
  rcases List.append_eq_append_iff.mp h with ⟨u, hx, hb⟩ | ⟨u, ha, hy⟩
  · obtain rfl : u = [] := by
      rw [hx, List.length_append] at hle
      exact List.length_eq_zero_iff.mp (by omega)
    exact ⟨[], by simpa using hx.symm, hb.symm⟩
  · exact ⟨u, ha, hy⟩

/-- The pieces of a text cut at a character do not have that character. -/
theorem notMem_of_mem_splitOn {a : Char} {p s : Text} (h : p ∈ s.splitOn a) : a ∉ p := by
  induction s generalizing p with
  | nil =>
    obtain rfl : p = [] := by simpa using h
    simp
  | cons c s ih =>
    rw [List.splitOn_cons_eq_if_modifyHead] at h
    split at h
    -- the separator ends a piece; any other letter is put before the first one
    · rcases List.mem_cons.mp h with rfl | h
      · simp
      · exact ih h
    · rename_i hc
      cases hs : s.splitOn a with
      | nil => simp [hs] at h
      | cons q qs =>
        rw [hs, List.modifyHead_cons] at h
        rw [hs] at ih
        rcases List.mem_cons.mp h with rfl | h
        · rw [List.mem_cons, not_or]
          exact ⟨fun hac => hc (by simp [hac]), ih List.mem_cons_self⟩
        · exact ih (List.mem_cons_of_mem q h)

/-- What holds of the separator and of the pieces holds of the text. -/
theorem forall_mem_of_splitOn {a : Char} {P : Char → Prop} (ha : P a) {s : Text}
    (h : ∀ p ∈ s.splitOn a, ∀ c ∈ p, P c) : ∀ c ∈ s, P c := by
  induction s with
  | nil => exact fun c hc => by cases hc
  | cons b s ih =>
    rw [List.splitOn_cons_eq_if_modifyHead] at h
    split at h
    · rename_i hb
      refine List.forall_mem_cons.mpr ⟨?_, ih fun p hp => h p (List.mem_cons_of_mem _ hp)⟩
      rw [beq_iff_eq.mp hb]
      exact ha
    · obtain ⟨q, qs, hq⟩ := List.exists_cons_of_ne_nil (List.splitOn_ne_nil a s)
      rw [hq, List.modifyHead_cons] at h
      obtain ⟨hfirst, hrest⟩ := List.forall_mem_cons.mp h
      obtain ⟨hb, hq'⟩ := List.forall_mem_cons.mp hfirst
      refine List.forall_mem_cons.mpr ⟨hb, ih ?_⟩
      rw [hq]
      exact List.forall_mem_cons.mpr ⟨hq', hrest⟩

/-- A text that neither begins nor ends with whitespace is its own trim. -/
theorem trim_eq_self_of_ends {s : Text} (hhead : ∀ c ∈ s.head?, isWhitespace c = false)
    (hlast : ∀ c ∈ s.getLast?, isWhitespace c = false) : trim s = s := by
  have hstart : trimStart s = s := by
    rcases s with _ | ⟨c, s⟩
    · rfl
    · exact List.dropWhile_cons_of_neg (by simp [hhead c rfl])
  rw [trim, hstart, trimEnd, List.rdropWhile_eq_self_iff]
  exact fun hne => by simp [hlast _ (List.getLast?_eq_getLast_of_ne_nil hne)]

/-- A text without whitespace is its own trim. -/
theorem trim_eq_self {s : Text} (h : ∀ c ∈ s, isWhitespace c = false) : trim s = s :=
  trim_eq_self_of_ends (fun c hc => h c (List.mem_of_mem_head? hc))
    fun c hc => h c (List.mem_of_getLast? hc)

/-- Leading whitespace is trimmed. -/
theorem trim_append_of_isWhitespace {ws : Text} (h : ∀ c ∈ ws, isWhitespace c) (s : Text) :
    trim (ws ++ s) = trim s := by
  rw [trim, trim, trimStart, trimStart, List.dropWhile_append_of_pos h]

/-! ### Labels -/

/-- A label of lower-case letters, digits and inner hyphens. -/
structure IsLabel (l : Text) : Prop where
  ne_nil : l ≠ []
  length_le : l.length ≤ 63
  ldh : ∀ c ∈ l, isLdh c
  head? : l.head? ≠ some '-'
  getLast? : l.getLast? ≠ some '-'

instance (l : Text) : Decidable (IsLabel l) :=
  decidable_of_iff (l ≠ [] ∧ l.length ≤ 63 ∧ (∀ c ∈ l, isLdh c) ∧ l.head? ≠ some '-' ∧
      l.getLast? ≠ some '-')
    ⟨fun ⟨h1, h2, h3, h4, h5⟩ => ⟨h1, h2, h3, h4, h5⟩, fun ⟨h1, h2, h3, h4, h5⟩ =>
      ⟨h1, h2, h3, h4, h5⟩⟩

/-- A name of such labels. -/
def IsLdhName (s : Text) : Prop := ∀ l ∈ s.splitOn '.', IsLabel l

instance (s : Text) : Decidable (IsLdhName s) :=
  inferInstanceAs (Decidable (∀ l ∈ s.splitOn '.', IsLabel l))

theorem IsLdhName.not_isWhitespace {s : Text} (h : IsLdhName s) : ∀ c ∈ s, isWhitespace c = false :=
  forall_mem_of_splitOn (by decide) fun l hl c hc => isWhitespace_of_isLdh ((h l hl).ldh c hc)

theorem IsLdhName.star_notMem {s : Text} (h : IsLdhName s) : '*' ∉ s := by
  intro hmem
  have hne := forall_mem_of_splitOn (a := '.') (P := fun c => c ≠ '*') (by decide)
    fun l hl c hc hstar => absurd ((h l hl).ldh c hc) (by rw [hstar]; decide)
  exact hne _ hmem rfl

end BancuhDns
