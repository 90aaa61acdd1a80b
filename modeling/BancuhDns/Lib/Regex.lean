import Mathlib.Data.List.Basic
import Mathlib.Data.List.TakeWhile

/-!
# Leftmost-first regular expressions

A backtracking reading of regular expressions, as the Perl family of engines
documents it: an expression does not have *a* match at a position but a list of
them, **in order of preference**, and a search reports the preferred match at
the first position that has one.

The expressions here repeat single-letter classes only. That is what keeps the
semantics first-order: a greedy repetition `p{lo,hi}` offers its runs from the
longest down to the shortest (`Regex.counts`), and nothing has to be said about
an iteration that consumes nothing.

## What a proof uses

* `Regex.first_seq` peels the first factor of a concatenation;
* `Regex.findSome?_counts_eq_some_iff` reads a greedy choice off: the reported
  count succeeds and every larger one fails;
* `Regex.search_eq_some_iff` reads a search off: the reported position succeeds
  and every earlier one fails.

Letters and capture names are arbitrary types.
-/

/-- A regular expression over the letters `α` with capture groups named by `κ`,
whose repetitions are of single-letter classes. -/
inductive Regex (κ α : Type) where
  /-- One letter of a class. -/
  | cls (p : α → Bool) : Regex κ α
  /-- Between `lo` and `hi` letters of a class, as many as possible; `none` is
  no upper bound. -/
  | rep (p : α → Bool) (lo : ℕ) (hi : Option ℕ) : Regex κ α
  /-- One expression after the other. -/
  | seq (r t : Regex κ α) : Regex κ α
  /-- One expression or the other, the first preferred. -/
  | alt (r t : Regex κ α) : Regex κ α
  /-- A named capture group. -/
  | cap (n : κ) (r : Regex κ α) : Regex κ α

namespace Regex

variable {κ α : Type}

/-- A piece of the searched text, with what stands before and after it. -/
structure Match (α : Type) where
  /-- The text before the piece. -/
  before : List α
  /-- The piece. -/
  text : List α
  /-- The text after the piece. -/
  after : List α
  deriving DecidableEq

/-- One way an expression matches at a position: the letters it takes, the
letters it leaves, and the groups it captured. -/
structure Hit (κ α : Type) where
  /-- The letters taken. -/
  taken : List α
  /-- The letters left. -/
  rest : List α
  /-- The captured groups. -/
  caps : List (κ × Match α)
  deriving DecidableEq

/-- The hit of a concatenation, from a hit of each factor. -/
def Hit.append (h g : Hit κ α) : Hit κ α :=
  ⟨h.taken ++ g.taken, g.rest, h.caps ++ g.caps⟩

/-- What a named group captured. -/
def Hit.name [DecidableEq κ] (h : Hit κ α) (n : κ) : Option (Match α) :=
  (h.caps.find? fun c => c.1 = n).map Prod.snd

/-- The expression of a fixed word. -/
def lit [DecidableEq α] : List α → Regex κ α
  | [] => .rep (fun _ => false) 0 none
  | a :: w => .seq (.cls fun b => b = a) (lit w)

/-- How many letters of a class a repetition can take at most. -/
def reach (p : α → Bool) : Option ℕ → List α → ℕ
  | none, s => (s.takeWhile p).length
  | some hi, s => min hi (s.takeWhile p).length

/-- The counts from `m` down to `lo`, the order in which a greedy repetition
tries them. -/
def counts (lo m : ℕ) : List ℕ := (List.range' lo (m + 1 - lo)).reverse

/-- **The matches of an expression at a position**, preferred ones first: `b` is
the text already passed and `s` the text ahead. -/
def hits : Regex κ α → List α → List α → List (Hit κ α)
  | .cls _, _, [] => []
  | .cls p, _, a :: s => if p a then [⟨[a], s, []⟩] else []
  | .rep p lo hi, _, s =>
      (counts lo (reach p hi s)).map fun k => ⟨s.take k, s.drop k, []⟩
  | .seq r t, b, s =>
      (hits r b s).flatMap fun h => (hits t (b ++ h.taken) h.rest).map h.append
  | .alt r t, b, s => hits r b s ++ hits t b s
  | .cap n r, b, s =>
      (hits r b s).map fun h => { h with caps := (n, ⟨b, h.taken, h.rest⟩) :: h.caps }

/-- The preferred match at a position. -/
def first (r : Regex κ α) (b s : List α) : Option (Hit κ α) := (hits r b s).head?

/-- The preferred match at the first position, from `b` on, that has one. -/
def searchFrom (r : Regex κ α) (b : List α) : List α → Option (Hit κ α)
  | [] => first r b []
  | a :: s => (first r b (a :: s)).or (searchFrom r (b ++ [a]) s)

/-- **The search**: leftmost position, preferred match. -/
def search (r : Regex κ α) (s : List α) : Option (Hit κ α) := searchFrom r [] s

/-! ### Greedy counts -/

theorem mem_counts {lo m k : ℕ} : k ∈ counts lo m ↔ lo ≤ k ∧ k ≤ m := by
  simp only [counts, List.mem_reverse, List.mem_range'_1]
  omega

/-- The counts from `m + 1` down are `m + 1` and the counts from `m` down. -/
theorem counts_succ {lo m : ℕ} (h : lo ≤ m + 1) : counts lo (m + 1) = (m + 1) :: counts lo m := by
  have hlen : m + 1 + 1 - lo = (m + 1 - lo) + 1 := by omega
  have hlast : lo + (m + 1 - lo) = m + 1 := by omega
  rw [counts, hlen, List.range'_concat, List.reverse_append]
  simp [counts, hlast]

theorem counts_eq_nil {lo m : ℕ} (h : m < lo) : counts lo m = [] := by
  have hlen : m + 1 - lo = 0 := by omega
  simp [counts, hlen]

theorem counts_self (m : ℕ) : counts m m = [m] := by simp [counts]

section FindSome

variable {ι β γ : Type}

theorem findSome?_flatMap {l : List ι} {g : ι → List γ} {f : γ → Option β} :
    (l.flatMap g).findSome? f = l.findSome? fun i => (g i).findSome? f := by
  induction l with
  | nil => rfl
  | cons i l ih =>
    rw [List.flatMap_cons, List.findSome?_append, ih, List.findSome?_cons]
    cases (g i).findSome? f <;> rfl

/-- **No choice**: when one element of a list succeeds at most, the order of the list does
not matter. -/
theorem findSome?_eq_some_iff_of_unique {l : List ι} {f : ι → Option β} {x : β}
    (huniq : ∀ i ∈ l, ∀ j ∈ l, f i ≠ none → f j ≠ none → i = j) :
    l.findSome? f = some x ↔ ∃ i ∈ l, f i = some x := by
  constructor
  · exact List.exists_of_findSome?_eq_some
  · rintro ⟨i, hi, hx⟩
    -- some element is reported, and there is only the one
    have hsome : l.findSome? f ≠ none := fun hnone => by
      rw [List.findSome?_eq_none_iff.mp hnone i hi] at hx
      cases hx
    obtain ⟨y, hy⟩ := Option.ne_none_iff_exists'.mp hsome
    obtain ⟨j, hj, hfj⟩ := List.exists_of_findSome?_eq_some hy
    obtain rfl := huniq i hi j hj (by simp [hx]) (by simp [hfj])
    rw [hy, ← hfj, hx]

variable {f : ℕ → Option β} {lo m : ℕ}

theorem findSome?_counts_eq_none_iff :
    (counts lo m).findSome? f = none ↔ ∀ k, lo ≤ k → k ≤ m → f k = none := by
  rw [List.findSome?_eq_none_iff]
  exact ⟨fun h k h1 h2 => h k (mem_counts.mpr ⟨h1, h2⟩),
    fun h k hk => h k (mem_counts.mp hk).1 (mem_counts.mp hk).2⟩

/-- **A greedy choice**: the count reported is one that succeeds while every
larger one fails. -/
theorem findSome?_counts_eq_some_iff {x : β} :
    (counts lo m).findSome? f = some x ↔
      ∃ k, lo ≤ k ∧ k ≤ m ∧ f k = some x ∧ ∀ j, k < j → j ≤ m → f j = none := by
  induction m with
  | zero =>
    rcases Nat.eq_zero_or_pos lo with rfl | hlo
    · rw [counts_self]
      constructor
      · intro h
        exact ⟨0, le_rfl, le_rfl, by simpa using h, fun j hj hj0 => absurd hj (by omega)⟩
      · rintro ⟨k, -, hk, hf, -⟩
        obtain rfl : k = 0 := by omega
        simpa using hf
    · rw [counts_eq_nil hlo]
      constructor
      · intro h
        simp at h
      · rintro ⟨k, h1, h2, -⟩
        omega
  | succ m ih =>
    rcases Nat.lt_or_ge (m + 1) lo with hlo | hlo
    · rw [counts_eq_nil hlo]
      constructor
      · intro h
        simp at h
      · rintro ⟨k, h1, h2, -⟩
        omega
    · rw [counts_succ hlo, List.findSome?_cons]
      -- the greatest count is tried first: either it is taken, or it is none of the others
      cases hf : f (m + 1) with
      | some y =>
        constructor
        · intro h
          exact ⟨m + 1, hlo, le_rfl, by rw [hf]; exact h, fun j h1 h2 => absurd h1 (by omega)⟩
        · rintro ⟨k, -, hk, hfk, hlast⟩
          rcases Nat.lt_or_ge k (m + 1) with hlt | hge
          · exact absurd (hlast (m + 1) hlt le_rfl) (by simp [hf])
          · obtain rfl : k = m + 1 := by omega
            exact hf.symm.trans hfk
      | none =>
        refine ih.trans ⟨?_, ?_⟩
        · rintro ⟨k, h1, h2, hfk, hlast⟩
          refine ⟨k, h1, by omega, hfk, fun j hj hjm => ?_⟩
          rcases Nat.lt_or_ge j (m + 1) with hlt | hge
          · exact hlast j hj (by omega)
          · obtain rfl : j = m + 1 := by omega
            exact hf
        · rintro ⟨k, h1, h2, hfk, hlast⟩
          have hne : k ≠ m + 1 := by
            rintro rfl
            rw [hf] at hfk
            cases hfk
          exact ⟨k, h1, by omega, hfk, fun j hj hjm => hlast j hj (by omega)⟩

end FindSome

/-! ### What a repetition can take -/

section Reach

variable {p : α → Bool} {s : List α}

/-- A count is within reach of an unbounded repetition when it counts letters of
the class at the head of the text. -/
theorem le_length_takeWhile_iff {k : ℕ} :
    k ≤ (s.takeWhile p).length ↔ k ≤ s.length ∧ ∀ a ∈ s.take k, p a := by
  induction s generalizing k with
  | nil => simp
  | cons a s ih =>
    cases k with
    | zero => simp
    | succ k =>
      rw [List.takeWhile_cons]
      cases ha : p a with
      | true => simp [ih, ha]
      | false => simp [ha]

theorem le_reach_none_iff {k : ℕ} :
    k ≤ reach p none s ↔ k ≤ s.length ∧ ∀ a ∈ s.take k, p a :=
  le_length_takeWhile_iff

theorem le_reach_some_iff {hi k : ℕ} :
    k ≤ reach p (some hi) s ↔ k ≤ hi ∧ k ≤ s.length ∧ ∀ a ∈ s.take k, p a := by
  rw [reach, Nat.le_min, le_length_takeWhile_iff]

/-- The letters at the head of a text are within reach when they are of the
class and within the bound. -/
theorem length_le_reach_some_iff {hi : ℕ} {x y : List α} :
    x.length ≤ reach p (some hi) (x ++ y) ↔ x.length ≤ hi ∧ ∀ a ∈ x, p a := by
  rw [le_reach_some_iff]
  simp

theorem length_le_reach_none_iff {x y : List α} :
    x.length ≤ reach p none (x ++ y) ↔ ∀ a ∈ x, p a := by
  rw [le_reach_none_iff]
  simp

/-- What a repetition takes at most is of its class. -/
theorem of_mem_take_reach {hi : Option ℕ} {a : α} (h : a ∈ s.take (reach p hi s)) : p a := by
  cases hi with
  | none => exact (le_reach_none_iff.mp (le_refl (reach p none s))).2 a h
  | some hi => exact (le_reach_some_iff.mp (le_refl (reach p (some hi) s))).2.2 a h

end Reach

/-! ### The hits of each construct -/

attribute [local simp] hits in
theorem mem_hits_cls_iff {p : α → Bool} {b s : List α} {h : Hit κ α} :
    h ∈ hits (.cls p) b s ↔ ∃ a, p a ∧ s = a :: h.rest ∧ h = ⟨[a], h.rest, []⟩ := by
  rcases s with _ | ⟨a, s⟩
  · simp
  · rw [hits]
    split_ifs with ha
    · rw [List.mem_singleton]
      constructor
      · rintro rfl
        exact ⟨a, ha, rfl, rfl⟩
      · rintro ⟨a', -, hs, hh⟩
        rw [hh, (List.cons.inj hs).1, (List.cons.inj hs).2]
    · refine iff_of_false List.not_mem_nil ?_
      rintro ⟨a', ha', hs, -⟩
      rw [(List.cons.inj hs).1] at ha
      exact ha ha'

/-- The runs a bounded repetition offers. -/
theorem mem_hits_rep_some_iff {p : α → Bool} {lo hi : ℕ} {b s : List α} {h : Hit κ α} :
    h ∈ hits (.rep p lo (some hi)) b s ↔
      lo ≤ h.taken.length ∧ h.taken.length ≤ hi ∧ (∀ a ∈ h.taken, p a) ∧
        s = h.taken ++ h.rest ∧ h = ⟨h.taken, h.rest, []⟩ := by
  simp only [hits, List.mem_map, mem_counts]
  constructor
  · rintro ⟨k, ⟨hlo, hk⟩, rfl⟩
    obtain ⟨hhi, hlen, hp⟩ := le_reach_some_iff.mp hk
    simp only [List.length_take_of_le hlen]
    exact ⟨hlo, hhi, hp, (List.take_append_drop k s).symm, trivial⟩
  · rintro ⟨hlo, hhi, hp, hs, hh⟩
    refine ⟨h.taken.length, ⟨hlo, ?_⟩, ?_⟩
    · rw [hs]
      exact length_le_reach_some_iff.mpr ⟨hhi, hp⟩
    · rw [hh, hs, List.take_left, List.drop_left]

theorem mem_hits_cap_iff {n : κ} {r : Regex κ α} {b s : List α} {h : Hit κ α} :
    h ∈ hits (.cap n r) b s ↔
      ∃ g ∈ hits r b s, h = ⟨g.taken, g.rest, (n, ⟨b, g.taken, g.rest⟩) :: g.caps⟩ := by
  simp only [hits, List.mem_map, eq_comm]

theorem mem_hits_seq_iff {r t : Regex κ α} {b s : List α} {h : Hit κ α} :
    h ∈ hits (.seq r t) b s ↔
      ∃ g ∈ hits r b s, ∃ g' ∈ hits t (b ++ g.taken) g.rest, h = g.append g' := by
  simp only [hits, List.mem_flatMap, List.mem_map, eq_comm]

/-- A fixed word matches where it stands. -/
theorem mem_hits_lit_iff [DecidableEq α] {w : List α} {b s : List α} {h : Hit κ α} :
    h ∈ hits (lit w) b s ↔ ∃ r, s = w ++ r ∧ h = ⟨w, r, []⟩ := by
  induction w generalizing b s h with
  | nil =>
    have hnone : s.takeWhile (fun _ : α => false) = [] := by cases s <;> rfl
    simp [lit, hits, reach, hnone, counts_self]
  | cons a w ih =>
    rw [lit, mem_hits_seq_iff]
    simp only [mem_hits_cls_iff, ih]
    constructor
    · rintro ⟨g, ⟨c, hc, rfl, hg⟩, _, ⟨r, hr, rfl⟩, rfl⟩
      obtain rfl : c = a := by simpa using hc
      rw [hg, hr]
      exact ⟨r, rfl, rfl⟩
    · rintro ⟨r, rfl, rfl⟩
      exact ⟨⟨[a], w ++ r, []⟩, ⟨a, by simp, rfl, rfl⟩, ⟨w, r, []⟩, ⟨r, rfl, rfl⟩, rfl⟩

/-- **Peeling a concatenation**: the preferred match follows the first hit of the
first factor after which the second one matches. -/
theorem first_seq (r t : Regex κ α) (b s : List α) :
    first (.seq r t) b s =
      (hits r b s).findSome? fun h => (first t (b ++ h.taken) h.rest).map h.append := by
  simp only [first, hits, List.head?_flatMap, List.head?_map]

theorem first_seq_eq_none_iff {r t : Regex κ α} {b s : List α} :
    first (.seq r t) b s = none ↔ ∀ g ∈ hits r b s, first t (b ++ g.taken) g.rest = none := by
  rw [first_seq, List.findSome?_eq_none_iff]
  simp only [Option.map_eq_none_iff]

/-- When the second factor matches after one hit of the first at most, there is no choice
between the hits of the first. -/
theorem first_seq_eq_some_iff_of_unique {r t : Regex κ α} {b s : List α} {h : Hit κ α}
    (huniq : ∀ g ∈ hits r b s, ∀ g' ∈ hits r b s, first t (b ++ g.taken) g.rest ≠ none →
      first t (b ++ g'.taken) g'.rest ≠ none → g = g') :
    first (.seq r t) b s = some h ↔
      ∃ g ∈ hits r b s, ∃ g', first t (b ++ g.taken) g.rest = some g' ∧ h = g.append g' := by
  rw [first_seq, findSome?_eq_some_iff_of_unique]
  · refine exists_congr fun g => and_congr_right fun _ => ?_
    rw [Option.map_eq_some_iff]
    exact exists_congr fun g' => and_congr_right fun _ => eq_comm
  · intro g hg g' hg' hne hne'
    exact huniq g hg g' hg' (fun h => hne (by rw [h]; rfl)) fun h => hne' (by rw [h]; rfl)

/-- **Peeling a captured concatenation**: the preferred match follows the first hit of the
first factor, and then the first one of the second, after which the rest matches. -/
theorem first_cap_seq (n : κ) (r t u : Regex κ α) (b s : List α) :
    first (.seq (.cap n (.seq r t)) u) b s =
      (hits r b s).findSome? fun h => (hits t (b ++ h.taken) h.rest).findSome? fun g =>
        (first u (b ++ (h.taken ++ g.taken)) g.rest).map
          (Hit.append ⟨h.taken ++ g.taken, g.rest,
            (n, ⟨b, h.taken ++ g.taken, g.rest⟩) :: (h.caps ++ g.caps)⟩) := by
  rw [first_seq, hits, hits, List.map_flatMap, findSome?_flatMap]
  simp only [List.map_map, List.findSome?_map, Function.comp_def]
  rfl

theorem first_cap (n : κ) (r : Regex κ α) (b s : List α) :
    first (.cap n r) b s =
      (first r b s).map fun h => { h with caps := (n, ⟨b, h.taken, h.rest⟩) :: h.caps } := by
  simp only [first, hits, List.head?_map]

/-- A repetition on its own takes all it can. -/
theorem first_rep (p : α → Bool) (lo : ℕ) (hi : Option ℕ) (b s : List α) :
    first (.rep p lo hi : Regex κ α) b s =
      if lo ≤ reach p hi s then some ⟨s.take (reach p hi s), s.drop (reach p hi s), []⟩
      else none := by
  rw [first, hits, List.head?_map]
  rcases Nat.lt_or_ge (reach p hi s) lo with h | h
  · rw [counts_eq_nil h, if_neg (by omega)]
    rfl
  · rw [if_pos h]
    cases hm : reach p hi s with
    | zero =>
      obtain rfl : lo = 0 := by omega
      simp [counts_self]
    | succ m =>
      rw [counts_succ (by omega)]
      rfl

theorem first_cls_seq_cons {p : α → Bool} {t : Regex κ α} {b : List α} {a : α} {s : List α}
    (h : p a) : first (.seq (.cls p) t) b (a :: s) =
      (first t (b ++ [a]) s).map (Hit.append ⟨[a], s, []⟩) := by
  rw [first_seq, hits, if_pos h]
  simp

theorem first_cls_seq_nil (p : α → Bool) (t : Regex κ α) (b : List α) :
    first (.seq (.cls p) t) b [] = none := by
  rw [first_seq, hits]
  rfl

theorem first_cls_seq_cons_of_not {p : α → Bool} {t : Regex κ α} {b : List α} {a : α}
    {s : List α} (h : p a = false) : first (.seq (.cls p) t) b (a :: s) = none := by
  rw [first_seq, hits, if_neg (by simp [h])]
  rfl

/-- **Peeling a greedy repetition**: the preferred match takes the greatest count
after which the rest matches. -/
theorem first_rep_seq_eq_some_iff {p : α → Bool} {lo : ℕ} {hi : Option ℕ} {t : Regex κ α}
    {b s : List α} {h : Hit κ α} :
    first (.seq (.rep p lo hi) t) b s = some h ↔
      ∃ k, lo ≤ k ∧ k ≤ reach p hi s ∧
        (∃ g, first t (b ++ s.take k) (s.drop k) = some g ∧
          h = ⟨s.take k ++ g.taken, g.rest, g.caps⟩) ∧
        ∀ j, k < j → j ≤ reach p hi s → first t (b ++ s.take j) (s.drop j) = none := by
  rw [first_seq, hits, List.findSome?_map, findSome?_counts_eq_some_iff]
  refine exists_congr fun k => and_congr_right fun _ => and_congr_right fun _ => ?_
  simp only [Function.comp_apply, Option.map_eq_some_iff, Option.map_eq_none_iff, Hit.append,
    List.nil_append]
  refine and_congr_left fun _ => exists_congr fun g => and_congr_right fun _ => ?_
  exact eq_comm

theorem first_rep_seq_eq_none_iff {p : α → Bool} {lo : ℕ} {hi : Option ℕ} {t : Regex κ α}
    {b s : List α} :
    first (.seq (.rep p lo hi) t) b s = none ↔
      ∀ k, lo ≤ k → k ≤ reach p hi s → first t (b ++ s.take k) (s.drop k) = none := by
  rw [first_seq, hits, List.findSome?_map, findSome?_counts_eq_none_iff]
  refine forall_congr' fun k => forall_congr' fun _ => forall_congr' fun _ => ?_
  simp

/-! ### The search -/

/-- **Reading a search off**: the text is cut at a position where the expression
matches, and it matches at no earlier one. -/
theorem searchFrom_eq_some_iff {r : Regex κ α} {b s : List α} {h : Hit κ α} :
    searchFrom r b s = some h ↔
      ∃ u v, s = u ++ v ∧ first r (b ++ u) v = some h ∧
        ∀ u' v', s = u' ++ v' → u'.length < u.length → first r (b ++ u') v' = none := by
  induction s generalizing b with
  | nil =>
    constructor
    · intro hs
      exact ⟨[], [], rfl, by simpa [searchFrom] using hs, fun u' v' _ hlt => absurd hlt (by simp)⟩
    · rintro ⟨u, v, huv, hf, -⟩
      obtain ⟨rfl, rfl⟩ := List.append_eq_nil_iff.mp huv.symm
      simpa [searchFrom] using hf
  | cons a s ih =>
    rw [searchFrom]
    -- a match here is found before any other; without one the search moves on a letter
    cases hf : first r b (a :: s) with
    | some g =>
      rw [Option.some_or]
      constructor
      · intro hs
        exact ⟨[], a :: s, rfl, by simpa [hf] using hs, fun u' v' _ hlt => absurd hlt (by simp)⟩
      · rintro ⟨u, v, huv, hfu, hmin⟩
        cases u with
        | nil =>
          obtain rfl : a :: s = v := huv
          simpa [hf] using hfu
        | cons c u =>
          exact absurd (hmin [] (a :: s) rfl (by simp)) (by simp [hf])
    | none =>
      rw [Option.none_or, ih]
      constructor
      · rintro ⟨u, v, huv, hfu, hmin⟩
        refine ⟨a :: u, v, by rw [huv]; rfl, by simpa using hfu, fun u' v' huv' hlt => ?_⟩
        cases u' with
        | nil =>
          obtain rfl : a :: s = v' := huv'
          simpa using hf
        | cons c u' =>
          obtain ⟨rfl, hs⟩ := List.cons.inj huv'
          have := hmin u' v' hs (by simpa using hlt)
          simpa using this
      · rintro ⟨u, v, huv, hfu, hmin⟩
        cases u with
        | nil =>
          obtain rfl : a :: s = v := huv
          rw [List.append_nil, hf] at hfu
          cases hfu
        | cons c u =>
          obtain ⟨rfl, hs⟩ := List.cons.inj huv
          refine ⟨u, v, hs, by simpa using hfu, fun u' v' huv' hlt => ?_⟩
          have := hmin (a :: u') v' (by rw [huv']; rfl) (by simpa using hlt)
          simpa using this

theorem search_eq_some_iff {r : Regex κ α} {s : List α} {h : Hit κ α} :
    search r s = some h ↔
      ∃ u v, s = u ++ v ∧ first r u v = some h ∧
        ∀ u' v', s = u' ++ v' → u'.length < u.length → first r u' v' = none := by
  simpa [search] using searchFrom_eq_some_iff (r := r) (b := []) (s := s) (h := h)

theorem searchFrom_eq_none_iff {r : Regex κ α} {b s : List α} :
    searchFrom r b s = none ↔ ∀ u v, s = u ++ v → first r (b ++ u) v = none := by
  induction s generalizing b with
  | nil =>
    constructor
    · intro hs u v huv
      obtain ⟨rfl, rfl⟩ := List.append_eq_nil_iff.mp huv.symm
      simpa [searchFrom] using hs
    · intro h
      simpa [searchFrom] using h [] [] rfl
  | cons a s ih =>
    rw [searchFrom, Option.or_eq_none_iff, ih]
    constructor
    · rintro ⟨hf, hs⟩ u v huv
      cases u with
      | nil =>
        obtain rfl : a :: s = v := huv
        simpa using hf
      | cons c u =>
        obtain ⟨rfl, hs'⟩ := List.cons.inj huv
        simpa using hs u v hs'
    · intro h
      refine ⟨by simpa using h [] (a :: s) rfl, fun u v huv => ?_⟩
      simpa using h (a :: u) v (by rw [huv]; rfl)

theorem search_eq_none_iff {r : Regex κ α} {s : List α} :
    search r s = none ↔ ∀ u v, s = u ++ v → first r u v = none := by
  simpa [search] using searchFrom_eq_none_iff (r := r) (b := []) (s := s)

end Regex
