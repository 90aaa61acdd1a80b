import Mathlib.Data.List.Basic
import Mathlib.Logic.Function.Basic

/-!
# Tags and entities

A text with markup is a run of tags, each with the text that comes after it
(`Markup.Piece`). It is read by cutting it before every `<`, and each of the cuts at its
first `>` (`Markup.read`). That undoes the writing as long as there are no other angle
brackets in the tags and the texts (`Markup.read_write`).

What is to stand in such a text as it is has its angle brackets and its ampersands written
as entities (`Markup.escape`). The entities can be read back, whatever the text was
(`Markup.unescape_escape`).

The rows of a table are read off the tags `tr` and `td` (`Markup.table`).
-/

namespace Markup

/-! ### Tags -/

/-- A tag, and the text after it. -/
structure Piece where
  tag : List Char
  text : List Char
  deriving DecidableEq

/-- A letter that is no angle bracket. -/
def IsPlain (c : Char) : Prop := c ≠ '<' ∧ c ≠ '>'

instance : DecidablePred IsPlain := fun c => inferInstanceAs (Decidable (c ≠ '<' ∧ c ≠ '>'))

theorem isPlain_of_all {s : List Char} (h : s.all fun c => decide (IsPlain c)) :
    ∀ c ∈ s, IsPlain c := fun c hc => of_decide_eq_true (List.all_eq_true.mp h c hc)

namespace Piece

/-- What a piece is written as. -/
def write (p : Piece) : List Char := '<' :: (p.tag ++ '>' :: p.text)

/-- A piece without other angle brackets than its own. -/
structure Plain (p : Piece) : Prop where
  tag : ∀ c ∈ p.tag, IsPlain c
  text : ∀ c ∈ p.text, IsPlain c

/-- The piece that stands between two `<`. -/
def read (s : List Char) : Piece := ⟨s.takeWhile (· ≠ '>'), (s.dropWhile (· ≠ '>')).tail⟩

theorem read_append {tag : List Char} (h : ∀ c ∈ tag, IsPlain c) (text : List Char) :
    read (tag ++ '>' :: text) = ⟨tag, text⟩ := by
  have hne : ∀ c ∈ tag, decide (c ≠ '>') = true := fun c hc => decide_eq_true (h c hc).2
  rw [read, List.takeWhile_append_of_pos hne, List.dropWhile_append_of_pos hne,
    List.takeWhile_cons_of_neg (by decide), List.dropWhile_cons_of_neg (by decide),
    List.append_nil, List.tail_cons]

end Piece

/-- What pieces are written as. -/
def write (ps : List Piece) : List Char := ps.flatMap Piece.write

/-- The pieces of a text; what comes before its first `<` belongs to none. -/
def read (s : List Char) : List Piece := (s.splitOn '<').tail.map Piece.read

theorem splitOn_append_write {ps : List Piece} (h : ∀ p ∈ ps, p.Plain) {s : List Char}
    (hs : '<' ∉ s) :
    (s ++ write ps).splitOn '<' = s :: ps.map fun p => p.tag ++ '>' :: p.text := by
  induction ps generalizing s with
  | nil => rw [write, List.flatMap_nil, List.append_nil, List.splitOn_eq_singleton hs, List.map_nil]
  | cons p ps ih =>
    obtain ⟨hp, hps⟩ := List.forall_mem_cons.mp h
    have hnot : '<' ∉ p.tag ++ '>' :: p.text := by
      rw [List.mem_append, List.mem_cons]
      rintro (hc | hc | hc)
      · exact (hp.tag _ hc).1 rfl
      · cases hc
      · exact (hp.text _ hc).1 rfl
    rw [write, List.flatMap_cons, Piece.write, List.cons_append,
      List.splitOn_append_cons_self_of_not_mem hs, ← write, ih hps hnot, List.map_cons]

/-- **What is written is read back.** -/
theorem read_write {ps : List Piece} (h : ∀ p ∈ ps, p.Plain) : read (write ps) = ps := by
  have hsplit := splitOn_append_write h (List.not_mem_nil (a := '<'))
  rw [List.nil_append] at hsplit
  rw [read, hsplit, List.tail_cons, List.map_map]
  exact (List.map_congr_left fun p hp => Piece.read_append (h p hp).tag p.text).trans
    (List.map_id ps)

/-- The angle brackets of what is written are those of its tags. -/
theorem count_write {ps : List Piece} (h : ∀ p ∈ ps, p.Plain) :
    (write ps).count '<' = ps.length ∧ (write ps).count '>' = ps.length := by
  induction ps with
  | nil => exact ⟨rfl, rfl⟩
  | cons p ps ih =>
    obtain ⟨hp, hps⟩ := List.forall_mem_cons.mp h
    obtain ⟨hopen, hclose⟩ := ih hps
    have htag : p.tag.count '<' = 0 ∧ p.tag.count '>' = 0 :=
      ⟨List.count_eq_zero.mpr fun hc => (hp.tag _ hc).1 rfl,
        List.count_eq_zero.mpr fun hc => (hp.tag _ hc).2 rfl⟩
    have htext : p.text.count '<' = 0 ∧ p.text.count '>' = 0 :=
      ⟨List.count_eq_zero.mpr fun hc => (hp.text _ hc).1 rfl,
        List.count_eq_zero.mpr fun hc => (hp.text _ hc).2 rfl⟩
    rw [write] at hopen hclose ⊢
    simp only [List.flatMap_cons, Piece.write, List.cons_append, List.append_assoc,
      List.count_cons, List.count_append, htag, htext, hopen, hclose, List.length_cons]
    exact ⟨by simp, by simp⟩

/-! ### Entities -/

/-- What is written for a letter. -/
def entity (c : Char) : List Char :=
  if c = '&' then "&amp;".toList
  else if c = '<' then "&lt;".toList
  else if c = '>' then "&gt;".toList
  else [c]

/-- A text with entities for its angle brackets and its ampersands. -/
def escape (s : List Char) : List Char := s.flatMap entity

/-- A text whose entities are read back. -/
def unescape : List Char → List Char
  | '&' :: 'a' :: 'm' :: 'p' :: ';' :: s => '&' :: unescape s
  | '&' :: 'l' :: 't' :: ';' :: s => '<' :: unescape s
  | '&' :: 'g' :: 't' :: ';' :: s => '>' :: unescape s
  | c :: s => c :: unescape s
  | [] => []

theorem unescape_cons_of_ne {c : Char} (h : c ≠ '&') (s : List Char) :
    unescape (c :: s) = c :: unescape s := by
  rw [unescape] <;> intros <;> contradiction

/-- What is written for a letter is read back as the letter. -/
theorem unescape_entity_append (c : Char) (s : List Char) :
    unescape (entity c ++ s) = c :: unescape s := by
  unfold entity
  split_ifs with hamp hlt hgt
  · rw [hamp]
    rfl
  · rw [hlt]
    rfl
  · rw [hgt]
    rfl
  · exact unescape_cons_of_ne hamp s

/-- **An escaped text is read back.** -/
theorem unescape_escape (s : List Char) : unescape (escape s) = s := by
  induction s with
  | nil => rfl
  | cons c s ih => rw [escape, List.flatMap_cons, unescape_entity_append, ← escape, ih]

theorem escape_injective : Function.Injective escape :=
  Function.LeftInverse.injective unescape_escape

/-- A text without ampersands has no entities. -/
theorem unescape_eq_self {s : List Char} (h : '&' ∉ s) : unescape s = s := by
  induction s with
  | nil => rfl
  | cons c s ih =>
    obtain ⟨hc, hs⟩ := not_or.mp (List.mem_cons.not.mp h)
    rw [unescape_cons_of_ne (Ne.symm hc), ih hs]

/-- An escaped text has no angle brackets. -/
theorem isPlain_of_mem_escape {s : List Char} {c : Char} (h : c ∈ escape s) : IsPlain c := by
  obtain ⟨d, -, hd⟩ := List.mem_flatMap.mp h
  unfold entity at hd
  split_ifs at hd with hamp hlt hgt
  · exact isPlain_of_all (s := "&amp;".toList) (by decide) c hd
  · exact isPlain_of_all (s := "&lt;".toList) (by decide) c hd
  · exact isPlain_of_all (s := "&gt;".toList) (by decide) c hd
  · obtain rfl := List.mem_singleton.mp hd
    exact ⟨hlt, hgt⟩

/-- A text in which every ampersand begins an entity. -/
def AmpersandsAreEntities (s : List Char) : Prop :=
  ∀ before after, s = before ++ '&' :: after →
    ∃ name ∈ ["amp;".toList, "lt;".toList, "gt;".toList], name <+: after

/-- What is written for a letter has an ampersand at its head, or none. -/
theorem entity_eq_or (c : Char) :
    (∃ name ∈ ["amp;".toList, "lt;".toList, "gt;".toList],
      entity c = '&' :: name ∧ '&' ∉ name) ∨ entity c = [c] ∧ c ≠ '&' := by
  unfold entity
  split_ifs with hamp hlt hgt
  · exact Or.inl ⟨"amp;".toList, .head _, rfl, by decide⟩
  · exact Or.inl ⟨"lt;".toList, .tail _ (.head _), rfl, by decide⟩
  · exact Or.inl ⟨"gt;".toList, .tail _ (.tail _ (.head _)), rfl, by decide⟩
  · exact Or.inr ⟨rfl, hamp⟩

/-- **In an escaped text every ampersand begins an entity.** -/
theorem ampersandsAreEntities_escape (s : List Char) : AmpersandsAreEntities (escape s) := by
  induction s with
  | nil =>
    intro before after h
    cases before <;> cases h
  | cons c s ih =>
    intro before after h
    rw [escape, List.flatMap_cons, ← escape] at h
    rcases List.append_eq_append_iff.mp h with ⟨l, -, hl⟩ | ⟨l, hl, hafter⟩
    · exact ih l after hl
    · -- the ampersand is that of the first letter, or comes after it
      rcases l with _ | ⟨d, l⟩
      · exact ih [] after hafter.symm
      · obtain ⟨rfl, rfl⟩ := List.cons.inj hafter
        rcases entity_eq_or c with ⟨name, hname, hentity, hnot⟩ | ⟨hentity, hne⟩
        · rw [hentity] at hl
          rcases before with _ | ⟨d, before⟩
          · obtain rfl := (List.cons.inj hl).2
            exact ⟨_, hname, List.prefix_append _ _⟩
          · exact absurd ((List.cons.inj hl).2 ▸ by simp) hnot
        · rw [hentity] at hl
          rcases before with _ | ⟨d, before⟩
          · exact absurd (List.cons.inj hl).1 hne
          · exact absurd (List.cons.inj hl).2 (by simp)

/-! ### Tables -/

/-- The cells before the first row, and the rows, each with its cells. -/
def tableFrom : List Piece → List (List Char) × List (List (List Char))
  | [] => ([], [])
  | p :: ps =>
    let rest := tableFrom ps
    if p.tag = "tr".toList then ([], rest.1 :: rest.2)
    else if p.tag = "td".toList then (p.text :: rest.1, rest.2)
    else rest

theorem tableFrom_tr (text : List Char) (ps : List Piece) :
    tableFrom (⟨"tr".toList, text⟩ :: ps) = ([], (tableFrom ps).1 :: (tableFrom ps).2) := by
  rw [tableFrom, if_pos rfl]

theorem tableFrom_td (text : List Char) (ps : List Piece) :
    tableFrom (⟨"td".toList, text⟩ :: ps) = (text :: (tableFrom ps).1, (tableFrom ps).2) := by
  have hne : "td".toList ≠ "tr".toList := by decide
  rw [tableFrom, if_neg hne, if_pos rfl]

/-- Other tags do not count. -/
theorem tableFrom_of_ne {p : Piece} (htr : p.tag ≠ "tr".toList) (htd : p.tag ≠ "td".toList)
    (ps : List Piece) : tableFrom (p :: ps) = tableFrom ps := by
  rw [tableFrom, if_neg htr, if_neg htd]

/-- **The rows of a table**, each with its cells. -/
def table (ps : List Piece) : List (List (List Char)) := (tableFrom ps).2

end Markup
