import Mathlib.Data.Set.Card
import Mathlib.Data.Finset.Basic

/-!
# Owning and sharing

Two disciplines by which a program keeps track of what it has opened, as the steps of the program
maintain them.

*Owning* (`Owns`): everything that is there is in the hands of exactly one owner, who may pass it
on, or let it go for good.

*Sharing* (`Counts`): any number of holders refer to an object, and a count says how many they
are. What a holder has to know when it lets go is whether it was the last, and the count tells it
(`Counts.eq_zero_iff`).
-/

/-! ### Owning -/

section Owning

variable {π α : Type} {has : π → List α} {all : Finset α} {p q : π} {x : α} {xs : List α}

/-- **Everything has one owner**: nothing is there twice, be it with one owner or with two. -/
structure Owns (has : π → List α) (all : Finset α) : Prop where
  nodup : ∀ p, (has p).Nodup
  unique : ∀ p q x, x ∈ has p → x ∈ has q → p = q
  mem_iff : ∀ x, x ∈ all ↔ ∃ p, x ∈ has p

namespace Owns

theorem subset (h : Owns has all) (hx : x ∈ has p) : x ∈ all :=
  (h.mem_iff x).mpr ⟨p, hx⟩

variable [DecidableEq π]

/-- An owner puts its things into another order. -/
theorem reorder (h : Owns has all) (hperm : xs.Perm (has p)) :
    Owns (Function.update has p xs) all := by
  have hmem : ∀ q y, y ∈ Function.update has p xs q ↔ y ∈ has q := by
    intro q y
    rcases eq_or_ne q p with rfl | hne
    · simp [hperm.mem_iff]
    · simp [hne]
  refine ⟨fun q => ?_, fun q r y hq hr => ?_, fun y => ?_⟩
  · rcases eq_or_ne q p with rfl | hne
    · rw [Function.update_self]
      exact hperm.nodup_iff.mpr (h.nodup q)
    · rw [Function.update_of_ne hne]
      exact h.nodup q
  · exact h.unique q r y ((hmem q y).mp hq) ((hmem r y).mp hr)
  · simp only [hmem, h.mem_iff]

/-- An owner passes everything on to one that has nothing. -/
theorem pass (h : Owns has all) (hq : has q = []) (hperm : xs.Perm (has p)) :
    Owns (Function.update (Function.update has p []) q xs) all := by
  have hmem : ∀ r y, y ∈ Function.update (Function.update has p []) q xs r ↔
      (r = q ∧ y ∈ has p) ∨ (r ≠ q ∧ r ≠ p ∧ y ∈ has r) := by
    intro r y
    rcases eq_or_ne r q with rfl | hne
    · simp [hperm.mem_iff]
    · rcases eq_or_ne r p with rfl | hne'
      · simp [hne]
      · simp [hne, hne']
  refine ⟨fun r => ?_, fun r r' y hr hr' => ?_, fun y => ?_⟩
  · rcases eq_or_ne r q with rfl | hne
    · rw [Function.update_self]
      exact hperm.nodup_iff.mpr (h.nodup p)
    · rw [Function.update_of_ne hne]
      rcases eq_or_ne r p with rfl | hne'
      · rw [Function.update_self]
        exact List.nodup_nil
      · rw [Function.update_of_ne hne']
        exact h.nodup r
  · rw [hmem] at hr hr'
    rcases hr with ⟨rfl, hr⟩ | ⟨hrq, hrp, hr⟩ <;> rcases hr' with ⟨rfl, hr'⟩ | ⟨-, hrp', hr'⟩
    · rfl
    · exact absurd (h.unique p r' y hr hr').symm hrp'
    · exact absurd (h.unique r p y hr hr') hrp
    · exact h.unique r r' y hr hr'
  · simp only [hmem, h.mem_iff]
    constructor
    · rintro ⟨r, hr⟩
      rcases eq_or_ne r p with rfl | hne
      · exact ⟨q, Or.inl ⟨rfl, hr⟩⟩
      · refine ⟨r, Or.inr ⟨?_, hne, hr⟩⟩
        rintro rfl
        rw [hq] at hr
        cases hr
    · rintro ⟨r, ⟨-, hr⟩ | ⟨-, -, hr⟩⟩
      · exact ⟨p, hr⟩
      · exact ⟨r, hr⟩

variable [DecidableEq α]

/-- An owner gets something new. -/
theorem acquire (h : Owns has all) (hx : x ∉ all) (p : π) :
    Owns (Function.update has p (has p ++ [x])) (insert x all) := by
  have hnew : ∀ q, x ∉ has q := fun q hq => hx (h.subset hq)
  have hmem : ∀ q y, y ∈ Function.update has p (has p ++ [x]) q ↔
      y ∈ has q ∨ (q = p ∧ y = x) := by
    intro q y
    rcases eq_or_ne q p with rfl | hne
    · simp
    · simp [hne]
  refine ⟨fun q => ?_, fun q r y hq hr => ?_, fun y => ?_⟩
  · rcases eq_or_ne q p with rfl | hne
    · rw [Function.update_self]
      exact List.nodup_append.mpr ⟨h.nodup q, List.nodup_singleton x, by
        rintro y hy z hz rfl
        exact hnew q (List.mem_singleton.mp hz ▸ hy)⟩
    · rw [Function.update_of_ne hne]
      exact h.nodup q
  · rw [hmem] at hq hr
    rcases hq with hq | ⟨rfl, rfl⟩
    · rcases hr with hr | ⟨rfl, rfl⟩
      · exact h.unique q r y hq hr
      · exact absurd hq (hnew q)
    · rcases hr with hr | ⟨rfl, -⟩
      · exact absurd hr (hnew r)
      · rfl
  · simp only [hmem, Finset.mem_insert, h.mem_iff]
    constructor
    · rintro (rfl | ⟨q, hq⟩)
      · exact ⟨p, Or.inr ⟨rfl, rfl⟩⟩
      · exact ⟨q, Or.inl hq⟩
    · rintro ⟨q, hq | ⟨-, rfl⟩⟩
      · exact Or.inr ⟨q, hq⟩
      · exact Or.inl rfl

/-- An owner lets the first of its things go for good. -/
theorem discard (h : Owns has all) (hp : has p = x :: xs) :
    Owns (Function.update has p xs) (all.erase x) := by
  have hnodup : x ∉ xs ∧ xs.Nodup := List.nodup_cons.mp (hp ▸ h.nodup p)
  have hfirst : x ∈ has p := by simp [hp]
  have hmem : ∀ q y, y ∈ Function.update has p xs q ↔ y ∈ has q ∧ y ≠ x := by
    intro q y
    rcases eq_or_ne q p with rfl | hne
    · rw [Function.update_self, hp, List.mem_cons]
      constructor
      · exact fun hy => ⟨Or.inr hy, fun heq => hnodup.1 (heq ▸ hy)⟩
      · rintro ⟨rfl | hy, hyx⟩
        · exact absurd rfl hyx
        · exact hy
    · rw [Function.update_of_ne hne]
      refine ⟨fun hy => ⟨hy, ?_⟩, And.left⟩
      rintro rfl
      exact hne (h.unique q p y hy hfirst)
  refine ⟨fun q => ?_, fun q r y hq hr => ?_, fun y => ?_⟩
  · rcases eq_or_ne q p with rfl | hne
    · rw [Function.update_self]
      exact hnodup.2
    · rw [Function.update_of_ne hne]
      exact h.nodup q
  · exact h.unique q r y ((hmem q y).mp hq).1 ((hmem r y).mp hr).1
  · simp only [hmem, Finset.mem_erase, h.mem_iff]
    constructor
    · rintro ⟨hyx, q, hq⟩
      exact ⟨q, hq, hyx⟩
    · rintro ⟨q, hq, hyx⟩
      exact ⟨hyx, q, hq⟩

end Owns

end Owning

/-! ### Sharing -/

section Sharing

variable {η ι : Type} {holds : η → Option ι} {count : ι → ℕ} {k : η} {a : ι}

/-- **The counts are right**: an object has as many holders as its count says. -/
def Counts (holds : η → Option ι) (count : ι → ℕ) : Prop :=
  ∀ a, {k | holds k = some a}.encard = count a

namespace Counts

/-- **An object is nobody's** when its count is zero. -/
theorem eq_zero_iff (h : Counts holds count) : count a = 0 ↔ ∀ k, holds k ≠ some a := by
  rw [← ENat.natCast_inj, ← h a, ENat.natCast_zero, Set.encard_eq_zero,
    Set.eq_empty_iff_forall_notMem]
  rfl

theorem pos (h : Counts holds count) (hk : holds k = some a) : 0 < count a := by
  by_contra hzero
  exact h.eq_zero_iff.mp (Nat.eq_zero_of_not_pos hzero) k hk

variable [DecidableEq η] [DecidableEq ι]

/-- Somebody takes a reference. -/
theorem take (h : Counts holds count) (hk : holds k = none) (a : ι) :
    Counts (Function.update holds k (some a)) (Function.update count a (count a + 1)) := by
  intro b
  rcases eq_or_ne b a with rfl | hne
  · have hset : {j | Function.update holds k (some b) j = some b} =
        insert k {j | holds j = some b} := by
      ext j
      rcases eq_or_ne j k with rfl | hj
      · simp
      · simp [hj]
    have hnot : k ∉ {j | holds j = some b} := by simp [hk]
    rw [hset, Set.encard_insert_of_notMem hnot, h b, Function.update_self]
    rfl
  · have hset : {j | Function.update holds k (some a) j = some b} = {j | holds j = some b} := by
      ext j
      rcases eq_or_ne j k with rfl | hj
      · simp [hk, hne.symm]
      · simp [hj]
    rw [hset, h b, Function.update_of_ne hne]

/-- Somebody lets go of a reference. -/
theorem release (h : Counts holds count) (hk : holds k = some a) :
    Counts (Function.update holds k none) (Function.update count a (count a - 1)) := by
  intro b
  have hset : {j | Function.update holds k none j = some b} = {j | holds j = some b} \ {k} := by
    ext j
    rcases eq_or_ne j k with rfl | hj
    · simp
    · simp [hj]
  rw [hset]
  rcases eq_or_ne b a with rfl | hne
  · rw [Set.encard_sdiff_singleton_of_mem (by simpa using hk), h b, Function.update_self]
    rfl
  · have hnot : k ∉ {j | holds j = some b} := by simp [hk, hne.symm]
    rw [Set.sdiff_singleton_eq_self hnot, h b, Function.update_of_ne hne]

/-- A reference is passed on. -/
theorem pass {k' : η} (h : Counts holds count) (hk : holds k = some a) (hk' : holds k' = none) :
    Counts (Function.update (Function.update holds k none) k' (some a)) count := by
  have hne : k' ≠ k := by
    rintro rfl
    rw [hk] at hk'
    cases hk'
  have htake := (h.release hk).take (by rwa [Function.update_of_ne hne]) a
  have hback : count a - 1 + 1 = count a := Nat.sub_add_cancel (h.pos hk)
  simpa only [Function.update_self, Function.update_idem, hback, Function.update_eq_self]
    using htake

end Counts

end Sharing
