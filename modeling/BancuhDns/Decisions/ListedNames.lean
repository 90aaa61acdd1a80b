import BancuhDns.Decisions.Listed
import BancuhDns.Compiler.Formats
import BancuhDns.Compiler.WholeNames

/-!
# Listed names

Not every name that is listed is blocked. The expressions take a stem of 2 to 200
characters and a top-level label of 2 to 6 letters. Nothing is captured of `j.mp`; of a name
with a stem of 220 characters, and of `phimsexhay.monster`, a piece is captured that is
another name, or none.

These bounds are all there is to it. A line with an ordinary name on it guarantees the name
to be blocked exactly when the name is within them (`BancuhDns.guaranteesBlocking_iff`), on
a list of domains and on a list of hosts alike: the second expression a line of hosts is
run through takes back all that the first one took.
-/

namespace BancuhDns

/-! ### Ordinary names -/

/-- **An ordinary name**: two labels or more, the last of two lower-case letters or more. -/
structure ListedName where
  /-- The labels before the last. -/
  stem : List Text
  /-- The last label. -/
  tld : Text
  stem_ne_nil : stem ≠ []
  isLabel : ∀ l ∈ stem ++ [tld], IsLabel l
  two_le_tld : 2 ≤ tld.length
  lower : ∀ c ∈ tld, isLower c
  length_le : (List.intercalate ['.'] (stem ++ [tld])).length ≤ 253

namespace ListedName

variable (n : ListedName)

/-- The name on its line. -/
def text : Text := List.intercalate ['.'] (n.stem ++ [n.tld])

/-- The text before the last dot. -/
def stemText : Text := List.intercalate ['.'] n.stem

theorem dot_notMem {l : Text} (h : l ∈ n.stem ++ [n.tld]) : '.' ∉ l :=
  fun hdot => absurd ((n.isLabel l h).ldh '.' hdot) (by decide)

/-- The name that is asked for. -/
def name : Name where
  labels := n.stem ++ [n.tld]
  ne_nil l hl := (n.isLabel l hl).ne_nil
  dot_notMem _ := n.dot_notMem

theorem dot_notMem_tld : '.' ∉ n.tld := n.dot_notMem (by simp)

theorem splitOn_text : n.text.splitOn '.' = n.stem ++ [n.tld] :=
  List.splitOn_intercalate _ (fun _ => n.dot_notMem) (by simp)

theorem text_eq : n.text = n.stemText ++ '.' :: n.tld := by
  have hstem : ∀ l ∈ n.stem, '.' ∉ l := fun l hl => n.dot_notMem (List.mem_append_left _ hl)
  have hsplit : (n.stemText ++ '.' :: n.tld).splitOn '.' = n.stem ++ [n.tld] := by
    rw [List.splitOn_append_cons_self, stemText,
      List.splitOn_intercalate _ hstem n.stem_ne_nil, List.splitOn_eq_singleton n.dot_notMem_tld]
  rw [text, ← hsplit, List.intercalate_splitOn]

/-- The name is a name, whatever else is. -/
theorem isName : Alphabet.ascii.IsName n.text := by
  intro l hl
  rw [splitOn_text] at hl
  have hlabel := n.isLabel l hl
  refine ⟨hlabel.ne_nil, fun c hc => ?_, hlabel.head?, hlabel.getLast?⟩
  have hldh := hlabel.ldh c hc
  simp only [isLdh, Bool.or_eq_true] at hldh
  simp only [Alphabet.ldh, Alphabet.ascii, isAlnum, Bool.or_eq_true]
  tauto

theorem not_isWhitespace : ∀ c ∈ n.text, isWhitespace c = false := n.isName.not_isWhitespace

theorem newline_notMem : '\n' ∉ n.text := fun h => absurd (n.not_isWhitespace _ h) (by decide)

theorem star_notMem : '*' ∉ n.text := n.isName.star_notMem

/-! ### What is captured of an ordinary name -/

/-- **The bounds of the expressions**: 2 to 200 characters before the last dot, and six
letters after it at most. -/
def WithinBounds : Prop :=
  2 ≤ n.stemText.length ∧ n.stemText.length ≤ 200 ∧ n.tld.length ≤ 6

variable {n}

theorem WithinBounds.tldOf (h : n.WithinBounds) : tldOf n.tld = n.tld ∧ afterTld n.tld = [] :=
  tldOf_eq_self n.lower h.2.2

theorem WithinBounds.stemAt (h : n.WithinBounds) : StemAt n.text n.stemText n.tld where
  split := n.text_eq
  two_le := h.1
  le_max := h.2.1
  newline hnl := n.newline_notMem (by rw [n.text_eq]; exact List.mem_append_left _ hnl)
  tld := by
    rw [h.tldOf.1]
    exact n.two_le_tld

/-- On its own line the name is captured, whole. -/
theorem WithinBounds.domainCapture (h : n.WithinBounds) :
    domainCapture n.text = some ⟨[], n.text, []⟩ := by
  have hcapture := domainCapture_stem h.stemAt
  rwa [h.tldOf.1, ← n.text_eq] at hcapture

/-- After an address the name is captured, whole. -/
theorem WithinBounds.hostCapture (h : n.WithinBounds) {ip ws : Text} (hip : IsQuad ip)
    (hne : ws ≠ []) (hspaces : ∀ c ∈ ws, isWhitespace c) :
    hostCapture (ip ++ ws ++ n.text) = some ⟨ip ++ ws, n.text, []⟩ := by
  have hlongest : LongestStem n.text n.stemText n.tld := by
    refine ⟨h.stemAt, fun x y hstem => ?_⟩
    have hsplit := hstem.split
    rw [n.text_eq] at hsplit
    exact length_le_of_append_dot n.dot_notMem_tld hsplit
  have hfirst := hostFirst_of_stemAt hip hne hspaces
    (fun c hc => n.not_isWhitespace c (List.mem_of_mem_head? hc)) h.stemAt
  have hcapture := hostCapture_eq_some_iff.mpr
    ⟨[], ip, ws, n.text, n.stemText, n.tld, hfirst, hlongest, rfl⟩
  rwa [h.tldOf.1, h.tldOf.2, ← n.text_eq, List.nil_append, ← List.append_assoc] at hcapture

/-- **Only a name within the bounds is captured whole.** -/
theorem withinBounds_of_stemAt {v x y : Text} (h : StemAt v x y)
    (heq : x ++ '.' :: tldOf y = n.text) : n.WithinBounds := by
  rw [n.text_eq] at heq
  obtain ⟨rfl, htld⟩ := append_dot_inj (dot_notMem_tldOf y) n.dot_notMem_tld heq
  exact ⟨h.two_le, h.le_max, htld ▸ length_tldOf_le y⟩

/-- The key of a name without asterisks is the name. -/
theorem eq_text_of_matches {x y : Text} (hstar : '*' ∉ x ++ '.' :: tldOf y) (hne : tldOf y ≠ [])
    (h : Matches (x ++ '.' :: tldOf y) n.name) : x ++ '.' :: tldOf y = n.text := by
  rcases h with h | ⟨s, -, -, hs, -⟩
  · have hname : n.name.text = n.text ++ ['.'] := rfl
    rw [hname] at h
    by_cases hdot : endsWith '.' (x ++ '.' :: tldOf y)
    · rw [normalizeName_of_endsWith hdot] at h
      exact absurd (append_dot_inj (dot_notMem_tldOf y) List.not_mem_nil h).2 hne
    · rw [normalizeName_of_not hdot] at h
      exact List.append_cancel_right h
  · rw [hs] at hstar
    exact absurd (List.mem_append_left s List.mem_cons_self) hstar

end ListedName

/-! ### What listing a name guarantees -/

/-- **What the crates are documented to do with ordinary names**: accept them, and change
none. -/
def Crates.AcceptsNames (cr : Crates) : Prop :=
  ∀ n : ListedName, cr.parseDomainName n.text = some n.text ∧ cr.domainToAscii n.text = some n.text

theorem Crates.names_acceptsNames : (Crates.names .ascii).AcceptsNames :=
  fun n => ⟨if_pos n.isName, rfl⟩

namespace ListedName

/-- The lines that list a name: the name alone, or an address, whitespace and the name. -/
def IsListedOn (n : ListedName) : BlacklistFormat → Text → Prop
  | .domains, line => line = n.text
  | .hosts, line => ∃ ip ws, IsQuad ip ∧ ws ≠ [] ∧ (∀ c ∈ ws, isWhitespace c) ∧ '\n' ∉ ws ∧
      line = ip ++ ws ++ n.text

/-- **Listing the name blocks it**, on whichever line of the format it is listed. -/
def GuaranteesBlocking (cr : Crates) (format : BlacklistFormat) (n : ListedName) : Prop :=
  ∀ line, n.IsListedOn format line → BlockedWhereListed cr format line n.name

variable {cr : Crates} {n : ListedName} {format : BlacklistFormat} {line : Text}

theorem readDomain_text (hcr : cr.AcceptsNames) (n : ListedName) :
    readDomain cr n.text = some ⟨n.text⟩ :=
  readDomain_eq_self (hcr n).1 (hcr n).2 n.not_isWhitespace n.star_notMem

/-- Within the bounds a listed name is what its line yields. -/
theorem WithinBounds.parse (h : n.WithinBounds) (hcr : cr.AcceptsNames)
    (hline : n.IsListedOn format line) :
    (ParseBlacklist.ofFormat format).parse cr line = some ⟨n.text⟩ := by
  cases format with
  | domains =>
    obtain rfl : line = n.text := hline
    change Domain.parse cr n.text = _
    rw [parse_eq, h.domainCapture, Option.bind_some, readDomain_text hcr]
  | hosts =>
    obtain ⟨ip, ws, hip, hne, hspaces, -, rfl⟩ := hline
    refine hosts_parse_eq_some_iff.mpr ⟨_, h.hostCapture hip hne hspaces, ?_,
      readDomain_text hcr n⟩
    exact fun c hc => n.not_isWhitespace c (List.mem_of_mem_head? hc)

theorem newline_notMem_of_isListedOn (hline : n.IsListedOn format line) : '\n' ∉ line := by
  cases format with
  | domains =>
    obtain rfl : line = n.text := hline
    exact n.newline_notMem
  | hosts =>
    obtain ⟨ip, ws, hip, -, -, hws, rfl⟩ := hline
    have hquad : '\n' ∉ ip := fun h => absurd (hip.not_isWhitespace _ h) (by decide)
    simp [hquad, hws, n.newline_notMem]

/-- Out of the bounds a line without asterisks yields something else, with any crates that
change nothing. -/
theorem withinBounds_of_parse {al : Alphabet} (hcr : cr.NamesOnly al)
    (hascii : ∀ v w, cr.domainToAscii v = some w → w = v) (hstar : '*' ∉ line) {p : Domain}
    (hp : (ParseBlacklist.ofFormat format).parse cr line = some p) (hm : Matches p.val n.name) :
    n.WithinBounds := by
  obtain ⟨m, hcapture, hread⟩ := (list_parse_eq_some_iff hcr).mp hp
  obtain ⟨v, x, y, hstem, hv, htext⟩ := exists_stemAt_of_listCapture hcapture
  have hstar' : '*' ∉ x ++ '.' :: tldOf y := fun h => by
    refine hstar (hv ?_)
    rw [hstem.split, ← tldOf_append_afterTld y, ← List.cons_append, ← List.append_assoc]
    exact List.mem_append_left _ h
  have hval : p.val = m.text := readDomain_eq_of_not_star hcr hascii (fun h => by
    rw [htext] at h
    exact hstar' ((List.isPrefixOf_iff_prefix.mp h).subset List.mem_cons_self)) hread
  have hne : tldOf y ≠ [] := fun h => absurd hstem.tld (by simp [h])
  rw [hval, htext] at hm
  exact withinBounds_of_stemAt hstem (eq_text_of_matches hstar' hne hm)

/-- Every name stands on some line of every format. -/
theorem exists_isListedOn (n : ListedName) (format : BlacklistFormat) :
    ∃ line, n.IsListedOn format line ∧ '*' ∉ line := by
  cases format with
  | domains => exact ⟨n.text, rfl, n.star_notMem⟩
  | hosts =>
    have hgroup : IsGroup ['0'] := ⟨by decide, by decide, by decide⟩
    refine ⟨"0.0.0.0".toList ++ [' '] ++ n.text, ⟨_, _, ⟨['0'], ['0'], ['0'], ['0'], by decide,
      hgroup, hgroup, hgroup, hgroup⟩, by decide, by decide, by decide, rfl⟩, ?_⟩
    simp [n.star_notMem]

theorem withinBounds_of_guaranteesBlocking {al : Alphabet} (hcr : cr.NamesOnly al)
    (hascii : ∀ v w, cr.domainToAscii v = some w → w = v)
    (h : n.GuaranteesBlocking cr format) : n.WithinBounds := by
  obtain ⟨line, hline, hstar⟩ := n.exists_isListedOn format
  obtain ⟨p, hp, hm⟩ := (blockedWhereListed_iff (newline_notMem_of_isListedOn hline)).mp
    (h line hline)
  exact withinBounds_of_parse hcr hascii hstar hp hm

/-- **Which ordinary names are blocked by being listed.** -/
theorem guaranteesBlocking_iff (n : ListedName) (format : BlacklistFormat) :
    (∀ cr : Crates, cr.AcceptsNames → n.GuaranteesBlocking cr format) ↔
      2 ≤ n.stemText.length ∧ n.stemText.length ≤ 200 ∧ n.tld.length ≤ 6 := by
  constructor
  · intro h
    exact withinBounds_of_guaranteesBlocking (Crates.names_namesOnly .ascii)
      (fun v w hw => (Option.some.inj hw).symm) (h _ Crates.names_acceptsNames)
  · intro h cr hcr line hline
    -- what the line yields is the name, and its key is the name with a dot
    refine (blockedWhereListed_iff (newline_notMem_of_isListedOn hline)).mpr
      ⟨⟨n.text⟩, WithinBounds.parse h hcr hline, Or.inl ?_⟩
    have hdot : ¬endsWith '.' n.text := fun hends => by
      obtain ⟨t, ht⟩ := endsWith_iff.mp hends
      rw [n.text_eq] at ht
      have htld := (append_dot_inj n.dot_notMem_tld List.not_mem_nil ht).2
      exact absurd n.two_le_tld (by simp [htld])
    rw [normalizeName_of_not hdot]
    rfl

/-- A name that a whitelist of the repository has. -/
def jmp : ListedName where
  stem := [['j']]
  tld := ['m', 'p']
  stem_ne_nil := by decide
  isLabel l hl := by
    have hl : l = ['j'] ∨ l = ['m', 'p'] := by simpa using hl
    rcases hl with rfl | rfl <;> exact ⟨by decide, by decide, by decide, by decide, by decide⟩
  two_le_tld := by decide
  lower := by decide
  length_le := by decide

/-- **A stem of one letter is dropped**, without a word. -/
theorem guaranteesBlocking_jmp :
    jmp.text = "j.mp".toList ∧ (Crates.names .ascii).AcceptsNames ∧
      Domain.parse (.names .ascii) jmp.text = none ∧
      ∀ format, ¬jmp.GuaranteesBlocking (.names .ascii) format := by
  refine ⟨by decide, Crates.names_acceptsNames, by decide, fun format h => ?_⟩
  have hbounds := withinBounds_of_guaranteesBlocking (Crates.names_namesOnly .ascii)
    (fun v w hw => (Option.some.inj hw).symm) h
  exact absurd hbounds.1 (by decide)

end ListedName

end BancuhDns
