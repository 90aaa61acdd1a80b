import Mathlib.Data.List.Induction

/-!
# Patterns of labels

A name is a list of labels, the most general one last. A pattern is either a name or stands for
all names below one, and rules attach something to patterns. Of several rules whose patterns
cover a name the most specific one counts: the name itself before any wildcard, a longer wildcard
before a shorter one, and of equal patterns the last (`LabelPattern.mostSpecific`).

What is needed of this is how it changes with the rules: which rule counts is a matter of the
rules that cover the name (`LabelPattern.mostSpecific_filter`), so that the others can be put in
and taken out at will.
-/

/-- **A pattern**: a name, or the names below one. -/
inductive LabelPattern (α : Type) where
  | exact (labels : List α)
  | below (labels : List α)
  deriving DecidableEq

namespace LabelPattern

variable {α β : Type}

/-- The names that a pattern covers. -/
def Covers : LabelPattern α → List α → Prop
  | .exact labels, n => n = labels
  | .below labels, n => ∃ front, front ≠ [] ∧ n = front ++ labels

/-- How specific a pattern is: by its labels, and a name more than what is below it. -/
def weight : LabelPattern α → ℕ
  | .exact labels => 2 * labels.length + 1
  | .below labels => 2 * labels.length

variable {p q : LabelPattern α} {n : List α}

theorem covers_below_iff {labels : List α} :
    (below labels).Covers n ↔ labels <:+ n ∧ labels.length < n.length := by
  constructor
  · rintro ⟨front, hne, rfl⟩
    have hpos := List.length_pos_iff.mpr hne
    exact ⟨List.suffix_append front labels, by rw [List.length_append]; omega⟩
  · rintro ⟨⟨front, rfl⟩, hlt⟩
    refine ⟨front, ?_, rfl⟩
    rintro rfl
    exact Nat.lt_irrefl _ hlt

instance [DecidableEq α] : (p : LabelPattern α) → (n : List α) → Decidable (p.Covers n)
  | .exact labels, n => inferInstanceAs (Decidable (n = labels))
  | .below _, _ => decidable_of_iff _ covers_below_iff.symm

/-- **Patterns that cover one name** are equal when they are as specific as each other. -/
theorem eq_of_weight_eq (hp : p.Covers n) (hq : q.Covers n) (h : p.weight = q.weight) : p = q := by
  cases p with
  | exact labels =>
    cases q with
    | exact labels' =>
      obtain rfl : n = labels := hp
      obtain rfl : n = labels' := hq
      rfl
    | below labels' =>
      simp only [weight] at h
      omega
  | below labels =>
    cases q with
    | exact labels' =>
      simp only [weight] at h
      omega
    | below labels' =>
      have hlen : labels.length = labels'.length := by
        simp only [weight] at h
        omega
      -- two ends of a name that are as long as each other
      have hsuffix := List.suffix_of_suffix_length_le (covers_below_iff.mp hp).1
        (covers_below_iff.mp hq).1 (Nat.le_of_eq hlen)
      rw [hsuffix.eq_of_length hlen]

/-! ### The rule that counts -/

variable [DecidableEq α]

/-- A rule is looked at, and taken when it covers the name and is as specific as the one taken
before, or more. -/
def better (n : List α) (best : Option (LabelPattern α × β)) (r : LabelPattern α × β) :
    Option (LabelPattern α × β) :=
  if r.1.Covers n ∧ best.all fun b => b.1.weight ≤ r.1.weight then some r else best

/-- **The rule that counts** for a name. -/
def mostSpecific (rules : List (LabelPattern α × β)) (n : List α) :
    Option (LabelPattern α × β) :=
  rules.foldl (better n) none

variable {rules rules' : List (LabelPattern α × β)} {r : LabelPattern α × β}

theorem mostSpecific_concat :
    mostSpecific (rules ++ [r]) n = better n (mostSpecific rules n) r := by
  rw [mostSpecific, List.foldl_append]
  rfl

theorem better_of_not_covers {best : Option (LabelPattern α × β)} (h : ¬r.1.Covers n) :
    better n best r = best :=
  if_neg fun hboth => h hboth.1

/-- **The rules that do not cover the name do not count.** -/
theorem mostSpecific_filter :
    mostSpecific (rules.filter fun r => r.1.Covers n) n = mostSpecific rules n := by
  induction rules using List.reverseRecOn with
  | nil => rfl
  | append_singleton rules r ih =>
    rw [List.filter_append, mostSpecific_concat]
    by_cases h : r.1.Covers n
    · have hone : [r].filter (fun r => r.1.Covers n) = [r] := by simp [h]
      rw [hone, mostSpecific_concat, ih]
    · have hnone : [r].filter (fun r => r.1.Covers n) = [] := by simp [h]
      rw [hnone, List.append_nil, ih, better_of_not_covers h]

theorem mem_of_mostSpecific (h : mostSpecific rules n = some r) : r ∈ rules ∧ r.1.Covers n := by
  induction rules using List.reverseRecOn with
  | nil => cases h
  | append_singleton rules x ih =>
    rw [mostSpecific_concat, better] at h
    split_ifs at h with hx
    · obtain rfl := Option.some.inj h
      exact ⟨List.mem_append_right _ (List.mem_singleton_self x), hx.1⟩
    · exact ⟨List.mem_append_left _ (ih h).1, (ih h).2⟩

/-- A rule that covers the name counts, or one that is as specific or more. -/
theorem exists_mostSpecific_of_mem (hr : r ∈ rules) (h : r.1.Covers n) :
    ∃ b, mostSpecific rules n = some b ∧ r.1.weight ≤ b.1.weight := by
  induction rules using List.reverseRecOn with
  | nil => cases hr
  | append_singleton rules x ih =>
    rw [mostSpecific_concat, better]
    rcases List.mem_append.mp hr with hr | hr
    · obtain ⟨b, hb, hle⟩ := ih hr
      split_ifs with hx
      · have hx := hx.2
        rw [hb] at hx
        exact ⟨x, rfl, Nat.le_trans hle (of_decide_eq_true hx)⟩
      · exact ⟨b, hb, hle⟩
    · obtain rfl := List.mem_singleton.mp hr
      split_ifs with hx
      · exact ⟨r, rfl, Nat.le_refl _⟩
      · rcases hb : mostSpecific rules n with _ | b
        · rw [hb] at hx
          exact absurd ⟨h, rfl⟩ hx
        · rw [hb] at hx
          have hlt : ¬b.1.weight ≤ r.1.weight := fun hle => hx ⟨h, decide_eq_true hle⟩
          exact ⟨b, rfl, Nat.le_of_not_le hlt⟩

/-- **Which rule counts**: one that covers the name, and than which none before is more specific
and none after as specific. -/
theorem mostSpecific_eq_some_iff : mostSpecific rules n = some r ↔
    ∃ before after, rules = before ++ r :: after ∧ r.1.Covers n ∧
      (∀ q ∈ before, q.1.Covers n → q.1.weight ≤ r.1.weight) ∧
      ∀ q ∈ after, q.1.Covers n → q.1.weight < r.1.weight := by
  constructor
  · intro h
    induction rules using List.reverseRecOn with
    | nil => cases h
    | append_singleton rules x ih =>
      have hlast := h
      rw [mostSpecific_concat, better] at h
      split_ifs at h with hx
      · -- the last rule is taken
        obtain rfl := Option.some.inj h
        refine ⟨rules, [], rfl, hx.1, fun q hq hcovers => ?_, fun q hq => by cases hq⟩
        obtain ⟨b, hb, hle⟩ := exists_mostSpecific_of_mem (List.mem_append_left [x] hq) hcovers
        obtain rfl := Option.some.inj (hlast.symm.trans hb)
        exact hle
      · obtain ⟨before, after, rfl, hr, hbefore, hafter⟩ := ih h
        refine ⟨before, after ++ [x], by simp, hr, hbefore, fun q hq hcovers => ?_⟩
        rcases List.mem_append.mp hq with hq | hq
        · exact hafter q hq hcovers
        · obtain rfl := List.mem_singleton.mp hq
          rw [h] at hx
          exact Nat.lt_of_not_le fun hle => hx ⟨hcovers, decide_eq_true hle⟩
  · rintro ⟨before, after, rfl, hr, hbefore, hafter⟩
    induction after using List.reverseRecOn with
    | nil =>
      rw [mostSpecific_concat, better, if_pos]
      refine ⟨hr, ?_⟩
      rcases hb : mostSpecific before n with _ | b
      · rfl
      · exact decide_eq_true (hbefore b (mem_of_mostSpecific hb).1 (mem_of_mostSpecific hb).2)
    | append_singleton after x ih =>
      rw [← List.cons_append, ← List.append_assoc, mostSpecific_concat,
        ih fun q hq => hafter q (List.mem_append_left _ hq), better, if_neg]
      rintro ⟨hcovers, hle⟩
      have hlt := hafter x (List.mem_append_right _ (List.mem_singleton_self x)) hcovers
      exact absurd (of_decide_eq_true hle) (Nat.not_le_of_lt hlt)

end LabelPattern
