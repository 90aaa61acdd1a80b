import BancuhDns.Compiler.Parser
import BancuhDns.Db

/-!
# Names, patterns, and what matches what

The abstract side of the domain stores. A name is a list of labels, written with
a dot after each; a pattern of a list is either a name or a wildcard `*.s`, and a
wildcard stands for the names that have at least one label before the labels of
`s`.

The store knows none of this: it looks a name up under a list of key texts. The
bridge is `BancuhDns.matches_iff_mem_keys` – a pattern matches a name exactly
when its key is one of the keys the name is looked up under – and
`BancuhDns.normalizeName_of_matches`, which says *which* of them it is, so that
the order of the keys is the order from the most specific pattern down.
-/

namespace BancuhDns

/-! ### Names -/

/-- **A domain name**: its labels are non-empty and have no dot. -/
structure Name where
  labels : List Text
  ne_nil : ∀ l ∈ labels, l ≠ []
  dot_notMem : ∀ l ∈ labels, '.' ∉ l

/-- Labels joined by dots, with a dot at the end. -/
def labelsText (ls : List Text) : Text := List.intercalate ['.'] ls ++ ['.']

/-- A name as it is written: labels joined by dots, with a trailing dot. -/
def Name.text (n : Name) : Text := labelsText n.labels

/-- The labels of a text, its trailing dot left out if it has one. -/
def labelsOf (s : Text) : List Text :=
  (if endsWith '.' s then s.dropLast else s).splitOn '.'

theorem endsWith_iff {c : Char} {s : Text} : endsWith c s ↔ ∃ t, s = t ++ [c] := by
  rw [endsWith, beq_iff_eq]
  constructor
  · intro h
    exact ⟨s.dropLast, (List.dropLast_append_getLast? c (Option.mem_def.mpr h)).symm⟩
  · rintro ⟨t, rfl⟩
    simp

theorem normalizeName_of_endsWith {s : Text} (h : endsWith '.' s) : normalizeName s = s := by
  rw [normalizeName, if_pos h]

theorem normalizeName_of_not {s : Text} (h : ¬endsWith '.' s) :
    normalizeName s = s ++ ['.'] := by
  rw [normalizeName, if_neg h]

/-- **Normalising a text keeps its labels**: it writes them with a trailing dot. -/
theorem normalizeName_eq_labelsText (s : Text) : normalizeName s = labelsText (labelsOf s) := by
  rw [labelsText, labelsOf, List.intercalate_splitOn]
  by_cases h : endsWith '.' s
  · rw [if_pos h, normalizeName_of_endsWith h]
    obtain ⟨t, rfl⟩ := endsWith_iff.mp h
    simp
  · rw [if_neg h, normalizeName_of_not h]

theorem labelsOf_ne_nil (s : Text) : labelsOf s ≠ [] := List.splitOn_ne_nil _ _

theorem dot_notMem_of_mem_labelsOf {s l : Text} (h : l ∈ labelsOf s) : '.' ∉ l :=
  notMem_of_mem_splitOn h

theorem splitOn_labelsText {ls : List Text} (h : ls ≠ []) (hdot : ∀ l ∈ ls, '.' ∉ l) :
    (labelsText ls).splitOn '.' = ls ++ [[]] := by
  rw [labelsText, List.splitOn_append_cons_self, List.splitOn_intercalate _ hdot h,
    List.splitOn_nil]

/-- Labels can be read back off the text they are written as. -/
theorem labelsText_inj {ls ls' : List Text} (h : ls ≠ []) (h' : ls' ≠ [])
    (hdot : ∀ l ∈ ls, '.' ∉ l) (hdot' : ∀ l ∈ ls', '.' ∉ l)
    (heq : labelsText ls = labelsText ls') : ls = ls' := by
  have hsplit := congrArg (List.splitOn '.') heq
  rw [splitOn_labelsText h hdot, splitOn_labelsText h' hdot'] at hsplit
  exact List.append_cancel_right hsplit

/-- A text ending with a dot has the labels of the text without it. -/
theorem labelsOf_normalizeName (s : Text) : labelsOf (normalizeName s) = labelsOf s := by
  refine labelsText_inj (labelsOf_ne_nil _) (labelsOf_ne_nil _)
    (fun _ => dot_notMem_of_mem_labelsOf) (fun _ => dot_notMem_of_mem_labelsOf) ?_
  rw [← normalizeName_eq_labelsText, ← normalizeName_eq_labelsText]
  refine normalizeName_of_endsWith (endsWith_iff.mpr ?_)
  rw [normalizeName_eq_labelsText]
  exact ⟨_, rfl⟩

namespace Name

variable (n : Name)

/-- The parts the store cuts a name into are its labels. -/
theorem parts_text : parts n.text = n.labels := by
  have hfilter : n.labels.filter (· ≠ []) = n.labels :=
    List.filter_eq_self.mpr fun l hl => by simpa using n.ne_nil l hl
  rw [parts, text]
  rcases eq_or_ne n.labels [] with h | h
  · rw [h]
    decide
  · rw [splitOn_labelsText h n.dot_notMem, List.filter_append, hfilter]
    simp

/-- The key a name is looked up under after `i` others: the name itself, then the
wildcard over its labels from `i` on. -/
def key (i : ℕ) : Text := if i = 0 then n.text else star ++ labelsText (n.labels.drop i)

/-- The keys of a name, in order. -/
theorem keys_text : keys n.text = (List.range' 0 (n.labels.length - 1 + 1)).map n.key := by
  rw [keys, parts_text, List.range'_succ, List.map_cons]
  refine congrArg₂ List.cons (by rw [key, if_pos rfl]) (List.map_congr_left fun i hi => ?_)
  have hpos : i ≠ 0 := by
    have := (List.mem_range'_1.mp hi).1
    omega
  rw [key, if_neg hpos, labelsText, star, List.append_assoc]

/-- A lookup finds something exactly when some key has a value. -/
theorem isSome_findSome?_keys_iff {m : Text → Option Text} :
    ((keys n.text).findSome? m).isSome ↔ ∃ k ∈ keys n.text, (m k).isSome := by
  rw [← Option.ne_none_iff_isSome, Ne, List.findSome?_eq_none_iff]
  simp [Option.isSome_iff_ne_none]

end Name

/-! ### Patterns -/

/-- **A pattern matches a name** when it is the name, or is `*.s` with the name
made of one or more labels followed by exactly the labels of `s`. -/
def Matches (p : Text) (n : Name) : Prop :=
  normalizeName p = n.text ∨
    ∃ s front, s ≠ [] ∧ p = star ++ s ∧ front ≠ [] ∧ n.labels = front ++ labelsOf s

/-- How specific a pattern is for a name it matches: the name itself counts all
its labels, a wildcard `*.s` the labels of `s`. -/
def specificity (n : Name) (p : Text) : ℕ :=
  if normalizeName p = n.text then n.labels.length
  else (labelsOf ((normalizeName p).drop 2)).length

/-- Normalising a wildcard normalises what it is over. -/
theorem normalizeName_star {s : Text} (h : s ≠ []) :
    normalizeName (star ++ s) = star ++ normalizeName s := by
  have hends : endsWith '.' (star ++ s) ↔ endsWith '.' s := by
    rw [endsWith, endsWith, List.getLast?_append_of_ne_nil _ h]
  by_cases hs : endsWith '.' s
  · rw [normalizeName_of_endsWith hs, normalizeName_of_endsWith (hends.mpr hs)]
  · rw [normalizeName_of_not hs, normalizeName_of_not (mt hends.mp hs), List.append_assoc]

/-- A pattern whose key is a wildcard key is that wildcard. -/
theorem eq_star_of_normalizeName {p : Text} {ls : List Text} (hne : ls ≠ [])
    (hnil : ∀ l ∈ ls, l ≠ []) (hdot : ∀ l ∈ ls, '.' ∉ l)
    (h : normalizeName p = star ++ labelsText ls) :
    ∃ s, s ≠ [] ∧ p = star ++ s ∧ labelsOf s = ls := by
  obtain ⟨s, hs, rfl⟩ : ∃ s, s ≠ [] ∧ p = star ++ s := by
    by_cases hp : endsWith '.' p
    · rw [normalizeName_of_endsWith hp] at h
      exact ⟨labelsText ls, by simp [labelsText], h⟩
    · rw [normalizeName_of_not hp, labelsText, ← List.append_assoc] at h
      refine ⟨List.intercalate ['.'] ls, ?_, List.append_cancel_right h⟩
      obtain ⟨l, ls, rfl⟩ := List.exists_cons_of_ne_nil hne
      have hl := hnil l List.mem_cons_self
      cases ls with
      | nil => simpa using hl
      | cons l' ls => simp [hl]
  refine ⟨s, hs, rfl, ?_⟩
  rw [normalizeName_star hs] at h
  refine labelsText_inj (labelsOf_ne_nil s) hne (fun _ => dot_notMem_of_mem_labelsOf) hdot ?_
  rw [← normalizeName_eq_labelsText]
  exact List.append_cancel_left h

namespace Name

variable (n : Name)

/-- The key of a wildcard matching a name. -/
theorem key_of_append {front : List Text} {s : Text} (hfront : front ≠ [])
    (h : n.labels = front ++ labelsOf s) : n.key front.length = star ++ normalizeName s := by
  rw [key, if_neg (by simpa using hfront), h, List.drop_left, normalizeName_eq_labelsText]

/-- The position of the key of a pattern among the keys of a name it matches. -/
def rank (p : Text) : ℕ := n.labels.length - specificity n p

/-- **Which key a matching pattern has.** -/
theorem normalizeName_of_matches {p : Text} (h : Matches p n) :
    normalizeName p = n.key (n.rank p) ∧ n.rank p ≤ n.labels.length - 1 ∧
      specificity n p ≤ n.labels.length := by
  by_cases hp : normalizeName p = n.text
  · have hspec : specificity n p = n.labels.length := by rw [specificity, if_pos hp]
    have hrank : n.rank p = 0 := by rw [rank, hspec, Nat.sub_self]
    rw [hrank, key, if_pos rfl]
    exact ⟨hp, Nat.zero_le _, hspec.le⟩
  · obtain ⟨s, front, hs, rfl, hfront, hl⟩ := h.resolve_left hp
    have hspec : specificity n (star ++ s) = (labelsOf s).length := by
      rw [specificity, if_neg hp, normalizeName_star hs]
      exact congrArg List.length (labelsOf_normalizeName s)
    have hlen : n.labels.length = front.length + (labelsOf s).length := by
      rw [hl, List.length_append]
    have hrank : n.rank (star ++ s) = front.length := by
      rw [rank, hspec]
      omega
    have hpos : 0 < (labelsOf s).length := List.length_pos_iff.mpr (labelsOf_ne_nil s)
    rw [hrank, n.key_of_append hfront hl, normalizeName_star hs]
    exact ⟨rfl, by omega, by omega⟩

/-- A pattern with a key of the name matches the name. -/
theorem matches_of_key {p : Text} {i : ℕ} (hi : i ≤ n.labels.length - 1)
    (h : normalizeName p = n.key i) : Matches p n := by
  rcases Nat.eq_zero_or_pos i with rfl | hpos
  · exact Or.inl (h.trans (if_pos rfl))
  · rw [key, if_neg (by omega)] at h
    have hlt : i < n.labels.length := by omega
    have hne : n.labels.drop i ≠ [] := by
      rw [Ne, List.drop_eq_nil_iff]
      omega
    obtain ⟨s, hs, rfl, hls⟩ := eq_star_of_normalizeName hne
      (fun l hl => n.ne_nil l (List.mem_of_mem_drop hl))
      (fun l hl => n.dot_notMem l (List.mem_of_mem_drop hl)) h
    refine Or.inr ⟨s, n.labels.take i, hs, rfl, ?_, ?_⟩
    · rw [Ne, List.take_eq_nil_iff]
      rintro (h0 | h0)
      · omega
      · rw [h0] at hlt
        exact absurd hlt (by simp)
    · rw [hls, List.take_append_drop]

/-- A pattern whose key is that of position `i`, and not that of the name itself,
has that position. -/
theorem rank_of_key {p : Text} {i : ℕ} (hi : i ≤ n.labels.length - 1) (hpos : 0 < i)
    (hne : n.key i ≠ n.text) (h : normalizeName p = n.key i) : n.rank p = i := by
  rw [rank, specificity, if_neg (by rwa [h]), h, key, if_neg (by omega)]
  have hdrop : (star ++ labelsText (n.labels.drop i)).drop 2 = labelsText (n.labels.drop i) := rfl
  have hlabels : labelsOf (labelsText (n.labels.drop i)) = n.labels.drop i := by
    refine labelsText_inj (labelsOf_ne_nil _) (by rw [Ne, List.drop_eq_nil_iff]; omega)
      (fun _ => dot_notMem_of_mem_labelsOf)
      (fun l hl => n.dot_notMem l (List.mem_of_mem_drop hl)) ?_
    rw [← normalizeName_eq_labelsText]
    exact normalizeName_of_endsWith (endsWith_iff.mpr ⟨_, rfl⟩)
  rw [hdrop, hlabels, List.length_drop]
  omega

/-- **The first of the keys that is the key of a matching pattern** is at its position. A
wildcard key can be the name itself, but then the pattern is at position zero. -/
theorem idxOf_keys {p : Text} (h : Matches p n) :
    (keys n.text).idxOf (normalizeName p) = n.rank p := by
  obtain ⟨hkey, hle, -⟩ := n.normalizeName_of_matches h
  have hsplit : n.labels.length - 1 + 1 = n.rank p + ((n.labels.length - 1 - n.rank p) + 1) := by
    omega
  have hnot : normalizeName p ∉ (List.range' 0 (n.rank p)).map n.key := by
    intro hmem
    obtain ⟨j, hj, heq⟩ := List.mem_map.mp hmem
    have hlt := (List.mem_range'_1.mp hj).2
    have htext : n.key j ≠ n.text := by
      intro htext
      rw [rank, specificity, if_pos (heq.symm.trans htext)] at hlt
      omega
    have hpos : 0 < j := Nat.pos_of_ne_zero fun hzero => htext (if_pos hzero)
    have hrank := n.rank_of_key (by omega) hpos htext heq.symm
    omega
  rw [keys_text, hsplit, ← List.range'_append_1, List.range'_succ, List.map_append, List.map_cons,
    Nat.zero_add, List.idxOf_append_of_notMem hnot, hkey, List.idxOf_cons_self, List.length_map,
    List.length_range', Nat.add_zero]

end Name

/-- **Matching is having one of the keys looked up.** -/
theorem matches_iff_mem_keys {p : Text} {n : Name} :
    Matches p n ↔ normalizeName p ∈ keys n.text := by
  rw [n.keys_text, List.mem_map]
  constructor
  · intro h
    obtain ⟨hkey, hrank, -⟩ := n.normalizeName_of_matches h
    exact ⟨n.rank p, List.mem_range'_1.mpr ⟨Nat.zero_le _, by omega⟩, hkey.symm⟩
  · rintro ⟨i, hi, hkey⟩
    have := List.mem_range'_1.mp hi
    exact n.matches_of_key (by omega) hkey.symm

/-- **The order of the keys is that of specificity**: among the keys of a name, that of a
matching pattern stands before those of the patterns that are less specific. -/
theorem idxOf_keys_le_iff {p q : Text} {n : Name} (h : Matches p n) :
    (keys n.text).idxOf (normalizeName p) ≤ (keys n.text).idxOf (normalizeName q) ↔
      (Matches q n → specificity n q ≤ specificity n p) := by
  have hspec := (n.normalizeName_of_matches h).2.2
  by_cases hq : Matches q n
  · have hspec' := (n.normalizeName_of_matches hq).2.2
    rw [n.idxOf_keys h, n.idxOf_keys hq, Name.rank, Name.rank, forall_prop_of_true hq]
    omega
  · -- what does not match has no key
    rw [List.idxOf_eq_length_iff.mpr (mt matches_iff_mem_keys.mpr hq)]
    exact ⟨fun _ hmatch => absurd hmatch hq, fun _ => List.idxOf_le_length⟩

/-- Patterns with one key are equally specific. -/
theorem specificity_congr {n : Name} {p q : Text} (h : normalizeName p = normalizeName q) :
    specificity n p = specificity n q := by
  rw [specificity, specificity, h]

end BancuhDns
