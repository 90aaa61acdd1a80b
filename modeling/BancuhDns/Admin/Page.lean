import BancuhDns.Admin
import BancuhDns.Lib.Markup

/-!
# The rows of the page

The names that a client asks for are chosen by whoever makes it ask, and they stand in the
page between tags. They are escaped first, by three replacements of the whole text. The
order matters: the ampersands go first, so that none of the ampersands written for an angle
bracket is written anew. So the three replacements are the replacement of each letter by
its entity (`BancuhDns.Admin.htmlEscape_eq_escape`).

With that, the rows are what they look like. The only tags in them are the row and its
three cells, for each entry, and the entries can be read back
(`BancuhDns.Admin.logRows_faithful`).
-/

namespace BancuhDns

namespace Admin

/-! ### Escaping -/

/-- **Replacing a letter**: each letter of the text is looked at by itself. -/
theorem replace_singleton (c : Char) (new s : Text) :
    replace [c] new s = s.flatMap fun d => if d = c then new else [d] := by
  induction s with
  | nil => rfl
  | cons d s ih =>
    rw [replace, replaceFrom, List.flatMap_cons, ← ih]
    by_cases hd : d = c
    · rw [if_pos hd, if_pos (by simp [startsWith, hd])]
      rfl
    · rw [if_neg hd, if_neg (by simp [startsWith, Ne.symm hd])]
      rfl

/-- **The three replacements at once.** -/
theorem htmlEscape_eq_escape (s : Text) : htmlEscape s = Markup.escape s := by
  rw [htmlEscape, replace_singleton, replace_singleton, replace_singleton, List.flatMap_assoc,
    List.flatMap_assoc, Markup.escape]
  refine List.flatMap_congr fun c _ => ?_
  unfold Markup.entity
  by_cases hamp : c = '&'
  · rw [if_pos hamp, if_pos hamp]
    decide
  · rw [if_neg hamp, if_neg hamp, List.flatMap_singleton]
    by_cases hlt : c = '<'
    · rw [if_pos hlt, if_pos hlt]
      decide
    · rw [if_neg hlt, if_neg hlt, List.flatMap_singleton]

/-! ### Rows -/

/-- The tags of a row, and the texts after them. -/
def rowPieces (formatTime : ℤ → Text) (q : QueryLog) : List Markup.Piece :=
  [⟨"tr".toList, []⟩, ⟨"td".toList, formatTime q.queryTime⟩, ⟨"/td".toList, []⟩,
    ⟨"td".toList, htmlEscape q.question⟩, ⟨"/td".toList, []⟩,
    ⟨"td".toList, htmlEscape q.answer⟩, ⟨"/td".toList, []⟩, ⟨"/tr".toList, ['\n']⟩]

/-- The rows that are read off a text, with the entities of their cells undone. -/
def readRows (s : Text) : List (List Text) :=
  (Markup.table (Markup.read s)).map (List.map Markup.unescape)

variable {formatTime : ℤ → Text}

/-- The texts between the cells are tags of their own. -/
theorem append_cells_eq_write {first next last : Text}
    (hfirst : first = '<' :: ("tr".toList ++ '>' :: '<' :: ("td".toList ++ ['>'])))
    (hnext : next = '<' :: ("/td".toList ++ '>' :: '<' :: ("td".toList ++ ['>'])))
    (hlast : last = '<' :: ("/td".toList ++ '>' :: '<' :: ("/tr".toList ++ ['>', '\n'])))
    (q : QueryLog) :
    first ++ formatTime q.queryTime ++ next ++ htmlEscape q.question ++ next ++
      htmlEscape q.answer ++ last = Markup.write (rowPieces formatTime q) := by
  simp only [hfirst, hnext, hlast, rowPieces, Markup.write, Markup.Piece.write, List.flatMap_cons,
    List.flatMap_nil, List.append_assoc, List.cons_append, List.nil_append, List.append_nil]

theorem logRow_eq_write (q : QueryLog) :
    logRow formatTime q = Markup.write (rowPieces formatTime q) :=
  append_cells_eq_write (by decide) (by decide) (by decide) q

theorem logRows_eq_write (queries : List QueryLog) :
    logRows formatTime queries = Markup.write (queries.flatMap (rowPieces formatTime)) := by
  rw [logRows, Markup.write, List.flatMap_assoc]
  exact List.flatMap_congr fun q _ => logRow_eq_write q

/-- The pieces of a row have no angle brackets but their own. -/
theorem plain_of_mem_rowPieces {q : QueryLog}
    (htime : ∀ c ∈ formatTime q.queryTime, c ≠ '<' ∧ c ≠ '>' ∧ c ≠ '&') {p : Markup.Piece}
    (hp : p ∈ rowPieces formatTime q) : p.Plain := by
  have hescape : ∀ s, ∀ c ∈ htmlEscape s, Markup.IsPlain c := fun s c hc =>
    Markup.isPlain_of_mem_escape (htmlEscape_eq_escape s ▸ hc)
  have htd : ∀ c ∈ "td".toList, Markup.IsPlain c := by decide
  simp only [rowPieces, List.mem_cons, List.not_mem_nil, or_false] at hp
  rcases hp with rfl | rfl | rfl | rfl | rfl | rfl | rfl | rfl
  · exact ⟨by decide, by decide⟩
  · exact ⟨htd, fun c hc => ⟨(htime c hc).1, (htime c hc).2.1⟩⟩
  · exact ⟨by decide, by decide⟩
  · exact ⟨htd, hescape _⟩
  · exact ⟨by decide, by decide⟩
  · exact ⟨htd, hescape _⟩
  · exact ⟨by decide, by decide⟩
  · exact ⟨by decide, by decide⟩

/-- A row of the table comes before the rows after it. -/
theorem tableFrom_flatMap_rowPieces (queries : List QueryLog) :
    Markup.tableFrom (queries.flatMap (rowPieces formatTime)) =
      ([], queries.map fun q =>
        [formatTime q.queryTime, htmlEscape q.question, htmlEscape q.answer]) := by
  induction queries with
  | nil => rfl
  | cons q queries ih =>
    have hcell : ∀ ps, Markup.tableFrom (⟨"/td".toList, []⟩ :: ps) = Markup.tableFrom ps :=
      Markup.tableFrom_of_ne (by decide) (by decide)
    have hrow : ∀ ps, Markup.tableFrom (⟨"/tr".toList, ['\n']⟩ :: ps) = Markup.tableFrom ps :=
      Markup.tableFrom_of_ne (by decide) (by decide)
    rw [List.flatMap_cons, rowPieces, List.map_cons]
    simp only [List.cons_append, List.nil_append, Markup.tableFrom_tr, Markup.tableFrom_td, hcell,
      hrow, ih]

/-- The cells of an entry, undone. -/
theorem map_unescape_cells {q : QueryLog}
    (htime : ∀ c ∈ formatTime q.queryTime, c ≠ '<' ∧ c ≠ '>' ∧ c ≠ '&') :
    [formatTime q.queryTime, htmlEscape q.question, htmlEscape q.answer].map Markup.unescape =
      [formatTime q.queryTime, q.question, q.answer] := by
  simp only [List.map_cons, List.map_nil, htmlEscape_eq_escape, Markup.unescape_escape,
    Markup.unescape_eq_self fun hamp => (htime _ hamp).2.2 rfl]

/-- **The page cannot be injected into, and loses nothing.** The tags of the rows are those
of one row with three cells for each entry, and there are no other angle brackets; every
ampersand in an escaped text begins an entity; and what is read off the rows is the times,
the questions and the answers of the entries, in order. -/
theorem logRows_faithful (queries : List QueryLog)
    (htime : ∀ q ∈ queries, ∀ c ∈ formatTime q.queryTime, c ≠ '<' ∧ c ≠ '>' ∧ c ≠ '&') :
    (Markup.read (logRows formatTime queries) = queries.flatMap (rowPieces formatTime) ∧
      Markup.write (queries.flatMap (rowPieces formatTime)) = logRows formatTime queries) ∧
    ((logRows formatTime queries).count '<' = 8 * queries.length ∧
      (logRows formatTime queries).count '>' = 8 * queries.length) ∧
    (∀ s, Markup.AmpersandsAreEntities (htmlEscape s)) ∧
    readRows (logRows formatTime queries) =
      queries.map (fun q => [formatTime q.queryTime, q.question, q.answer]) ∧
    Function.Injective htmlEscape := by
  have hplain : ∀ p ∈ queries.flatMap (rowPieces formatTime), p.Plain := by
    intro p hp
    obtain ⟨q, hq, hp⟩ := List.mem_flatMap.mp hp
    exact plain_of_mem_rowPieces (htime q hq) hp
  have hread : Markup.read (logRows formatTime queries) =
      queries.flatMap (rowPieces formatTime) := by
    rw [logRows_eq_write, Markup.read_write hplain]
  have hlength : (queries.flatMap (rowPieces formatTime)).length = 8 * queries.length := by
    simp [List.length_flatMap, rowPieces, Nat.mul_comm]
  refine ⟨⟨hread, (logRows_eq_write queries).symm⟩, ?_, fun s => ?_, ?_, fun s t h => ?_⟩
  · rw [logRows_eq_write, ← hlength]
    exact Markup.count_write hplain
  · rw [htmlEscape_eq_escape]
    exact Markup.ampersandsAreEntities_escape s
  · rw [readRows, hread, Markup.table, tableFrom_flatMap_rowPieces, List.map_map]
    exact List.map_congr_left fun q hq => map_unescape_cells (htime q hq)
  · rw [htmlEscape_eq_escape, htmlEscape_eq_escape] at h
    exact Markup.escape_injective h

theorem logRows_faithful_injection :
    readRows (logRows (fun _ => "12:00:00".toList)
        [⟨0, "<td>&lt;. A".toList, "forwarded".toList⟩]) =
      [["12:00:00".toList, "<td>&lt;. A".toList, "forwarded".toList]] := by
  have htime : ∀ c ∈ "12:00:00".toList, c ≠ '<' ∧ c ≠ '>' ∧ c ≠ '&' := by decide
  exact (logRows_faithful _ fun _ _ => htime).2.2.2.1

end Admin

end BancuhDns
