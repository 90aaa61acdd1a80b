import BancuhDns.Lib.Runs
import Mathlib.Algebra.Order.BigOperators.Group.Finset
import Mathlib.Data.Fintype.Basic
import Mathlib.Data.Fintype.EquivFin

/-!
# Workers that share a token

A program hands its work to workers and keeps a token for them: while it is not cancelled they
go on, and when it is they are to come to their ends. Each worker sees the token at every step
it takes, and may cancel it itself.

That they do come to their ends is asked of each worker alone (`Workers.Winds`). Once the token
is cancelled a step brings a worker nearer to its end, and one that does not has to be paid for
by a credit; and a worker that has not ended can always take a step of a kind that is counted
on, be it its own or what it waits for. Then the workers together can be counted on: what they
are away from their ends is the sum of what each of them is (`Workers.rankSum_work`), and as
long as some of them have not ended one of them can go on (`Workers.exists_work`).

Workers need not be waited for. Where they are left to themselves they can be dropped, each at
the place it has got to (`Workers.drop`).
-/

/-- **Workers**: where each of them starts, its steps, and whether it has ended. A step sees
whether the token is cancelled, and says whether to cancel it. -/
structure Workers (ι : Type) (S E : ι → Type) where
  init : (i : ι) → S i
  step : (i : ι) → Bool → S i → E i → Option (S i × Bool)
  ended : (i : ι) → S i → Bool

namespace Workers

variable {ι : Type} {S E : ι → Type} [DecidableEq ι]

/-- The token, and the workers that have been started. -/
structure State (S : ι → Type) where
  cancelled : Bool
  started : (i : ι) → Option (S i)

/-- Nothing has been started. -/
def State.init : State S := ⟨false, fun _ => none⟩

/-- Start a worker. -/
def spawn (w : Workers ι S E) (s : State S) (i : ι) : State S :=
  { s with started := Function.update s.started i (some (w.init i)) }

/-- A worker takes a step. -/
def work (w : Workers ι S E) (s : State S) (i : ι) (e : E i) : Option (State S) :=
  (s.started i).bind fun t => (w.step i s.cancelled t e).map fun r =>
    ⟨s.cancelled || r.2, Function.update s.started i (some r.1)⟩

/-- A worker is dropped, if it is under way. -/
def drop (w : Workers ι S E) (s : State S) (i : ι) : Option (State S) :=
  (s.started i).bind fun t =>
    if w.ended i t then none else some { s with started := Function.update s.started i none }

/-- All workers that have been started have ended. -/
def AllEnded (w : Workers ι S E) (s : State S) : Prop :=
  ∀ i, (s.started i).all (w.ended i) = true

instance [Fintype ι] (w : Workers ι S E) (s : State S) : Decidable (w.AllEnded s) :=
  inferInstanceAs (Decidable (∀ i, (s.started i).all (w.ended i) = true))

variable {w : Workers ι S E} {s s' : State S} {i : ι} {e : E i}

/-- **What a step of a worker is.** -/
theorem work_eq_some_iff : w.work s i e = some s' ↔
    ∃ t t' c, s.started i = some t ∧ w.step i s.cancelled t e = some (t', c) ∧
      s' = ⟨s.cancelled || c, Function.update s.started i (some t')⟩ := by
  rw [work, Option.bind_eq_some_iff]
  constructor
  · rintro ⟨t, ht, h⟩
    obtain ⟨⟨t', c⟩, hstep, rfl⟩ := Option.map_eq_some_iff.mp h
    exact ⟨t, t', c, ht, hstep, rfl⟩
  · rintro ⟨t, t', c, ht, hstep, rfl⟩
    exact ⟨t, ht, by rw [hstep]; rfl⟩

/-- **What dropping a worker is.** -/
theorem drop_eq_some_iff : w.drop s i = some s' ↔
    ∃ t, s.started i = some t ∧ w.ended i t = false ∧
      s' = { s with started := Function.update s.started i none } := by
  rw [drop, Option.bind_eq_some_iff]
  refine exists_congr fun t => and_congr_right fun _ => ?_
  cases w.ended i t with
  | true => simp
  | false => simp [eq_comm]

/-- A token that is cancelled stays cancelled. -/
theorem cancelled_of_work (h : w.work s i e = some s') (hc : s.cancelled = true) :
    s'.cancelled = true := by
  obtain ⟨t, t', c, -, -, rfl⟩ := work_eq_some_iff.mp h
  rw [hc]
  rfl

/-! ### Coming to an end -/

/-- **Workers that come to their ends** once the token is cancelled. The rank of a worker is how
far it is from its end; the credit of an event is what it may set a worker back; and the steps
that `helps` tells are those that can be counted on. -/
structure Winds (w : Workers ι S E) (rank : (i : ι) → S i → ℕ) (credit : (i : ι) → E i → ℕ)
    (helps : (i : ι) → E i → Prop) : Prop where
  rank_step : ∀ i t e t' c, w.step i true t e = some (t', c) →
    rank i t' + 1 ≤ rank i t + credit i e
  progress : ∀ i t, w.ended i t = false → ∃ e, helps i e ∧ (w.step i true t e).isSome
  credit_eq_zero : ∀ i e, helps i e → credit i e = 0

variable {rank : (i : ι) → S i → ℕ} {credit : (i : ι) → E i → ℕ} {helps : (i : ι) → E i → Prop}

omit [DecidableEq ι] in
/-- A worker that has not ended is away from its end. -/
theorem Winds.rank_pos (hwinds : w.Winds rank credit helps) {t : S i}
    (h : w.ended i t = false) : 0 < rank i t := by
  obtain ⟨e, he, hsome⟩ := hwinds.progress i t h
  obtain ⟨⟨t', c⟩, hstep⟩ := Option.isSome_iff_exists.mp hsome
  have hrank := hwinds.rank_step i t e t' c hstep
  rw [hwinds.credit_eq_zero i e he] at hrank
  omega

variable [Fintype ι]

/-- How far the workers are from their ends. -/
def rankSum (rank : (i : ι) → S i → ℕ) (s : State S) : ℕ :=
  ∑ i, (s.started i).elim 0 (rank i)

/-- When one worker is put elsewhere, the sum changes by what this changes for the worker. -/
theorem rankSum_update (rank : (i : ι) → S i → ℕ) (started : (i : ι) → Option (S i)) (c c' : Bool)
    (i : ι) (t : Option (S i)) :
    rankSum rank ⟨c', Function.update started i t⟩ + (started i).elim 0 (rank i) =
      rankSum rank ⟨c, started⟩ + t.elim 0 (rank i) := by
  have hrest : ∑ j ∈ Finset.univ.erase i, (Function.update started i t j).elim 0 (rank j) =
      ∑ j ∈ Finset.univ.erase i, (started j).elim 0 (rank j) :=
    Finset.sum_congr rfl fun j hj => by rw [Function.update_of_ne (Finset.ne_of_mem_erase hj)]
  rw [rankSum, rankSum, ← Finset.add_sum_erase _ _ (Finset.mem_univ i), hrest,
    ← Finset.add_sum_erase Finset.univ (fun j => (started j).elim 0 (rank j)) (Finset.mem_univ i)]
  simp only [Function.update_self]
  omega

/-- **A step of one worker brings all of them nearer to their ends.** -/
theorem rankSum_work (hwinds : w.Winds rank credit helps) (hc : s.cancelled = true)
    (h : w.work s i e = some s') : rankSum rank s' + 1 ≤ rankSum rank s + credit i e := by
  obtain ⟨t, t', c, ht, hstep, rfl⟩ := work_eq_some_iff.mp h
  rw [hc] at hstep
  have hrank := hwinds.rank_step i t e t' c hstep
  have hsum := rankSum_update rank s.started s.cancelled (s.cancelled || c) i (some t')
  rw [ht, Option.elim_some, Option.elim_some] at hsum
  have hs : rankSum rank ⟨s.cancelled, s.started⟩ = rankSum rank s := rfl
  omega

/-- So does dropping one. -/
theorem rankSum_drop (hwinds : w.Winds rank credit helps) (h : w.drop s i = some s') :
    rankSum rank s' + 1 ≤ rankSum rank s := by
  obtain ⟨t, ht, hended, rfl⟩ := drop_eq_some_iff.mp h
  have hrank := hwinds.rank_pos hended
  have hsum := rankSum_update rank s.started s.cancelled s.cancelled i none
  rw [ht, Option.elim_some, Option.elim_none] at hsum
  have hs : rankSum rank ⟨s.cancelled, s.started⟩ = rankSum rank s := rfl
  omega

/-- A worker that is started adds at most what it is away from its end. -/
theorem rankSum_spawn_le (rank : (i : ι) → S i → ℕ) (w : Workers ι S E) (s : State S) (i : ι) :
    rankSum rank (w.spawn s i) ≤ rankSum rank s + rank i (w.init i) := by
  have hsum := rankSum_update rank s.started s.cancelled s.cancelled i (some (w.init i))
  have hs : rankSum rank ⟨s.cancelled, s.started⟩ = rankSum rank s := rfl
  have hspawn : rankSum rank (w.spawn s i) =
      rankSum rank ⟨s.cancelled, Function.update s.started i (some (w.init i))⟩ := rfl
  rw [Option.elim_some] at hsum
  omega

omit [DecidableEq ι] in
/-- Workers that are never far from their ends are together not far from them. -/
theorem rankSum_le {bound : ι → ℕ} (hbound : ∀ i t, rank i t ≤ bound i) (s : State S) :
    rankSum rank s ≤ ∑ i, bound i := by
  refine Finset.sum_le_sum fun i _ => ?_
  cases s.started i with
  | none => exact Nat.zero_le _
  | some t => exact hbound i t

omit [Fintype ι] in
/-- **As long as some worker has not ended, one of them can go on.** -/
theorem exists_work (hwinds : w.Winds rank credit helps) (hc : s.cancelled = true)
    (h : ¬w.AllEnded s) : ∃ i e s', helps i e ∧ w.work s i e = some s' := by
  rw [AllEnded] at h
  push Not at h
  obtain ⟨i, hi⟩ := h
  rcases ht : s.started i with _ | t
  · rw [ht] at hi
    exact absurd rfl hi
  · rw [ht] at hi
    obtain ⟨e, he, hsome⟩ := hwinds.progress i t (Bool.eq_false_of_not_eq_true hi)
    obtain ⟨⟨t', c⟩, hstep⟩ := Option.isSome_iff_exists.mp hsome
    exact ⟨i, e, _, he, work_eq_some_iff.mpr ⟨t, t', c, ht, by rw [hc, hstep], rfl⟩⟩

end Workers
