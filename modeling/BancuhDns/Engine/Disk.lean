import BancuhDns.Engine.Lifetime
import Mathlib.Algebra.Order.BigOperators.Group.Finset

/-!
# What is in use, and what is on disk

Two things could go wrong with databases that nobody drops expressly: one could be destroyed under
a call that reads it, and directories could pile up on disk. Neither happens. What is in use is
open (`BancuhDns.Lifetime.stores_open`), and what is on disk is accounted for
(`BancuhDns.Lifetime.dirs_accounted`), with two exceptions: a directory that could not be
destroyed, which the code only logs, and one that could not be opened, which it leaves where it is.
-/

namespace BancuhDns

namespace Lifetime

variable {s s' : System} {e : Event} {es : List Event} {left : Finset Text} {i a : ℕ}

/-! ### What is in use -/

/-- The stores of a database that is referred to are not changed. -/
theorem heap_letGo {b : ℕ} (h : (s.letGo i b).strong a ≠ 0) : (s.letGo i b).heap a = s.heap a := by
  revert h
  rw [System.letGo]
  split_ifs with hlast
  · intro h
    have hne : a ≠ b := by
      rintro rfl
      exact h hlast
    exact Function.update_of_ne hne _ _
  · exact fun _ => rfl

theorem Inv.heap_eq (h : Inv s) (hm : Moves s e s') (ha : s.strong a ≠ 0)
    (ha' : s'.strong a ≠ 0) : s'.heap a = s.heap a := by
  have hshare : ∀ stores, (s.share stores).heap a = s.heap a := fun stores => by
    refine Function.update_of_ne ?_ _ _
    rintro rfl
    exact ha (h.fresh _ le_rfl)
  cases hm with
  | swap hi hp => exact (heap_letGo ha').trans (hshare _)
  | first hi hp => exact hshare _
  | release hi => exact heap_letGo ha'
  | dropEngine hi hp => exact heap_letGo ha'
  | _ => rfl

/-- Nobody gets a reference by another's letting go. -/
theorem holding_of_letGo {b j : ℕ} (h : (s.letGo i b).tasks j = .holding a) :
    j ≠ i ∧ s.tasks j = .holding a := by
  have hne : j ≠ i := by
    rintro rfl
    have haddr : ((s.letGo j b).tasks j).addr = none := by
      rw [System.letGo]
      split_ifs
      · rw [tasks_set_self, addr_drop]
      · rw [tasks_set_self]
        rfl
    rw [h] at haddr
    cases haddr
  refine ⟨hne, ?_⟩
  rw [← h, System.letGo]
  split_ifs <;> rw [tasks_set_of_ne hne]

theorem holding_of_set {j : ℕ} {t : Task} (ht : t.addr = none)
    (h : (s.set i t).tasks j = .holding a) : s.tasks j = .holding a := by
  rcases eq_or_ne j i with rfl | hne
  · rw [tasks_set_self] at h
    rw [h] at ht
    cases ht
  · rwa [tasks_set_of_ne hne] at h

/-- A task gets a reference by loading the pointer, and in no other way. -/
theorem Moves.holding (hm : Moves s e s') (h : s'.tasks i = .holding a) :
    s.tasks i = .holding a ∨ (e = .load i ∧ s.pointer = some a ∧ s'.heap a = s.heap a) := by
  cases hm with
  | begin hi => exact Or.inl (holding_of_set rfl h)
  | openStore hi hdir => exact Or.inl (holding_of_set (addr_create _) h)
  | openFails hi => exact Or.inl (holding_of_set (addr_drop _) h)
  | createFails hi => exact Or.inl (holding_of_set (addr_drop _) h)
  | fillFails hi => exact Or.inl (holding_of_set (addr_drop _) h)
  | swap hi hp =>
    obtain ⟨hne, h⟩ := holding_of_letGo h
    rw [tasks_set_of_ne hne] at h
    exact Or.inl h
  | first hi hp => exact Or.inl (holding_of_set rfl h)
  | @load j b hj hp =>
    rcases eq_or_ne i j with rfl | hne
    · rw [tasks_set_self] at h
      obtain rfl := Task.holding.inj h
      exact Or.inr ⟨rfl, hp, rfl⟩
    · rw [tasks_set_of_ne hne] at h
      exact Or.inl h
  | release hi => exact Or.inl (holding_of_letGo h).2
  | dropEngine hi hp =>
    obtain ⟨hne, h⟩ := holding_of_letGo h
    rw [tasks_set_of_ne hne] at h
    exact Or.inl h
  | close hi => exact Or.inl (holding_of_set rfl h)
  | destroy hi hdir => exact Or.inl (holding_of_set (addr_drop _) h)

/-- **What a call reads** was published when it loaded the pointer, and has not changed since. -/
theorem loaded_of_run (hrun : Run left es s) : ∀ i a, s.tasks i = .holding a →
    ∃ es₁ es₂ s₁, es = es₁ ++ .load i :: es₂ ∧ Run left es₁ s₁ ∧ s₁.pointer = some a ∧
      s₁.heap a = s.heap a := by
  refine Runs.invariant (fun es (s : System) => ∀ i a, s.tasks i = .holding a →
    ∃ es₁ es₂ s₁, es = es₁ ++ .load i :: es₂ ∧ Run left es₁ s₁ ∧ s₁.pointer = some a ∧
      s₁.heap a = s.heap a) (fun i a h => by cases h) ?_ hrun
  intro es s e s' hs ih hstep i a hi
  have hm := moves_of_step hstep
  have hinv : Inv s := inv_of_run hs
  rcases hm.holding hi with hbefore | ⟨rfl, hp, hheap⟩
  · obtain ⟨es₁, es₂, s₁, rfl, hs₁, hp, hheap⟩ := ih i a hbefore
    have ha : s.strong a ≠ 0 := (hinv.counts.pos (k := some i) (congrArg Task.addr hbefore)).ne'
    have ha' : s'.strong a ≠ 0 :=
      ((hinv.step hm).counts.pos (k := some i) (congrArg Task.addr hi)).ne'
    refine ⟨es₁, es₂ ++ [e], s₁, List.append_assoc _ _ _, hs₁, hp, ?_⟩
    rw [hheap, hinv.heap_eq hm ha ha']
  · exact ⟨es, [], s, rfl, hs, hp, hheap.symm⟩

/-- Stores that can be used: the three of a database, each with a directory of its own that is
open and on disk. -/
def System.Usable (s : System) (stores : List Text) : Prop :=
  stores.length = 3 ∧ stores.Nodup ∧ ∀ dir ∈ stores, dir ∈ s.locked ∧ dir ∈ s.dirs

/-- A database that somebody refers to can be used. -/
theorem Inv.usable_heap (h : Inv s) {k : Option ℕ} (hk : s.holds k = some a) :
    s.Usable (s.heap a) := by
  refine ⟨h.whole a (h.counts.pos hk).ne', h.owns.nodup (.inl a), fun dir hdir => ?_⟩
  have hlocked : dir ∈ s.locked := (h.owns.mem_iff dir).mpr ⟨.inl a, hdir⟩
  exact ⟨hlocked, h.on_disk hlocked⟩

/-- **Whoever uses a database finds its stores open.** In every run the published database, and
every database that an update fills or a call has loaded, has three stores in three directories
that are open and on disk, and no directory belongs to two of them. And what a call reads is what
was published when it loaded the pointer, whatever has been published or dropped since. -/
theorem stores_open (hrun : Run left es s) :
    (∀ a, s.pointer = some a → s.Usable (s.heap a)) ∧
      (∀ i stores, s.tasks i = .filling stores → s.Usable stores) ∧
      (∀ i a, s.tasks i = .holding a → s.Usable (s.heap a) ∧
        ∃ es₁ es₂ s₁, es = es₁ ++ .load i :: es₂ ∧ Run left es₁ s₁ ∧ s₁.pointer = some a ∧
          s₁.heap a = s.heap a) ∧
      ∀ p q dir, dir ∈ s.has p → dir ∈ s.has q → p = q := by
  have hinv := inv_of_run hrun
  refine ⟨fun a hp => hinv.usable_heap (k := none) hp, fun i stores hi => ?_, fun i a hi =>
    ⟨hinv.usable_heap (k := some i) (congrArg Task.addr hi), loaded_of_run hrun i a hi⟩,
    hinv.owns.unique⟩
  have hhas : s.has (.inr i) = stores := congrArg Task.stores hi
  have hfits := hinv.fits i
  rw [hi] at hfits
  refine ⟨hfits, hhas ▸ hinv.owns.nodup (.inr i), fun dir hdir => ?_⟩
  have hlocked : dir ∈ s.locked := (hinv.owns.mem_iff dir).mpr ⟨.inr i, hhas.symm ▸ hdir⟩
  exact ⟨hlocked, hinv.on_disk hlocked⟩

/-- `new` creates the first database, a call loads it, and an update publishes another. -/
def overtakenRun : List Event :=
  [.begin 0, .openStore 0 ['a'], .openStore 0 ['b'], .openStore 0 ['c'], .publish 0, .load 1,
    .begin 2, .openStore 2 ['d'], .openStore 2 ['e'], .openStore 2 ['f'], .publish 2]

theorem stores_open_overtaken :
    ∃ s, Run ∅ overtakenRun s ∧ s.pointer = some 1 ∧ s.tasks 1 = .holding 0 ∧
      s.Usable (s.heap 0) := by
  obtain ⟨s, hs⟩ : ∃ s, Run ∅ overtakenRun s := ⟨_, rfl⟩
  have hstate : s.pointer = some 1 ∧ s.tasks 1 = .holding 0 := by
    obtain rfl := Option.some.inj hs
    exact ⟨rfl, rfl⟩
  obtain ⟨-, -, hholding, -⟩ := stores_open hs
  exact ⟨s, hs, hstate.1, hstate.2, (hholding 1 0 hstate.2).1⟩

/-! ### What is on disk -/

/-- The stores that a holder of a reference, or a task, has to do with. -/
def System.storesOf (s : System) : Option ℕ → List Text
  | none => s.pointer.elim [] s.heap
  | some i => (s.tasks i).stores ++ (s.tasks i).addr.elim [] s.heap

/-- A shared database has stores only as long as there is a reference to it. -/
theorem Inv.exists_storesOf (h : Inv s) {dir : Text} (hdir : dir ∈ s.locked) :
    ∃ k, dir ∈ s.storesOf k ∧ ∀ i, k = some i → (s.tasks i).active = true := by
  obtain ⟨a | i, hmem⟩ := (h.owns.mem_iff dir).mp hdir
  · have hmem : dir ∈ s.heap a := hmem
    have hstrong : s.strong a ≠ 0 := by
      intro hzero
      rw [h.freed a hzero] at hmem
      cases hmem
    rw [Ne, h.counts.eq_zero_iff] at hstrong
    push Not at hstrong
    obtain ⟨_ | i, hk⟩ := hstrong
    · have hp : s.pointer = some a := hk
      exact ⟨none, by rwa [System.storesOf, hp], fun i hi => by cases hi⟩
    · have haddr : (s.tasks i).addr = some a := hk
      refine ⟨some i, ?_, ?_⟩
      · rw [System.storesOf, haddr]
        exact List.mem_append_right _ hmem
      · rintro j ⟨⟩
        cases ht : s.tasks i <;> rw [ht] at haddr <;> cases haddr
        rfl
  · have hmem : dir ∈ (s.tasks i).stores := hmem
    refine ⟨some i, List.mem_append_left _ hmem, ?_⟩
    rintro j ⟨⟩
    cases ht : s.tasks i <;> rw [ht] at hmem <;> first | rfl | cases hmem

theorem Inv.length_storesOf_le (h : Inv s) (k : Option ℕ) : (s.storesOf k).length ≤ 3 := by
  have hheap : ∀ a, (s.heap a).length ≤ 3 := fun a => by
    by_cases ha : s.strong a = 0
    · rw [h.freed a ha]
      exact Nat.zero_le 3
    · exact (h.whole a ha).le
  rcases k with _ | i
  · rw [System.storesOf]
    cases s.pointer with
    | none => exact Nat.zero_le 3
    | some a => exact hheap a
  · have hfits := (h.fits i).length_le
    rw [System.storesOf]
    -- a task with a reference has no stores of its own
    rcases haddr : (s.tasks i).addr with _ | a
    · rwa [Option.elim_none, List.append_nil]
    · have hnone : (s.tasks i).stores = [] := by
        cases ht : s.tasks i <;> rw [ht] at haddr <;> cases haddr
        rfl
      rw [hnone]
      exact hheap a

theorem dirs_letGo (s : System) (i a : ℕ) : (s.letGo i a).dirs = s.dirs := by
  rw [System.letGo]
  split_ifs <;> rfl

theorem locked_letGo (s : System) (i a : ℕ) : (s.letGo i a).locked = s.locked := by
  rw [System.letGo]
  split_ifs <;> rfl

/-- What is new on disk is open, or could not be opened. -/
theorem Moves.of_mem_dirs (hm : Moves s e s') {dir : Text} (h : dir ∈ s'.dirs) :
    dir ∈ s.dirs ∨ dir ∈ s'.locked ∨ ∃ i, e = .openFails i dir := by
  cases hm with
  | openStore hi hdir =>
    rcases Finset.mem_insert.mp h with rfl | h
    · exact Or.inr (Or.inl (Finset.mem_insert_self _ _))
    · exact Or.inl h
  | @openFails i dir' stores hi =>
    rcases Finset.mem_insert.mp h with rfl | h
    · exact Or.inr (Or.inr ⟨i, rfl⟩)
    · exact Or.inl h
  | @destroy i dir' stores ok hi hdir =>
    have h : dir ∈ if ok then s.dirs.erase dir' else s.dirs := h
    cases ok with
    | false => exact Or.inl h
    | true => exact Or.inl (Finset.mem_of_mem_erase h)
  | swap hi hp =>
    rw [dirs_letGo] at h
    exact Or.inl h
  | release hi =>
    rw [dirs_letGo] at h
    exact Or.inl h
  | dropEngine hi hp =>
    rw [dirs_letGo] at h
    exact Or.inl h
  | _ => exact Or.inl h

/-- What is closed is to be destroyed. -/
theorem Moves.of_mem_locked (hm : Moves s e s') {dir : Text} (h : dir ∈ s.locked) :
    dir ∈ s'.locked ∨ ∃ i stores, s'.tasks i = .destroying dir stores := by
  cases hm with
  | openStore hi hdir => exact Or.inl (Finset.mem_insert_of_mem h)
  | @close i dir' stores hi =>
    rcases eq_or_ne dir dir' with rfl | hne
    · exact Or.inr ⟨i, stores, tasks_set_self _ _ _⟩
    · exact Or.inl (Finset.mem_erase_of_ne_of_mem hne h)
  | swap hi hp =>
    rw [locked_letGo]
    exact Or.inl h
  | release hi =>
    rw [locked_letGo]
    exact Or.inl h
  | dropEngine hi hp =>
    rw [locked_letGo]
    exact Or.inl h
  | _ => exact Or.inl h

theorem tasks_letGo_of_ne {j : ℕ} (hne : j ≠ i) (s : System) (a : ℕ) :
    (s.letGo i a).tasks j = s.tasks j := by
  rw [System.letGo]
  split_ifs <;> rw [tasks_set_of_ne hne]

/-- What is to be destroyed still is, or has been, unless that failed. -/
theorem Moves.of_destroying (hm : Moves s e s') {j : ℕ} {dir : Text} {stores : List Text}
    (h : s.tasks j = .destroying dir stores) (hdir : dir ∈ s'.dirs) :
    s'.tasks j = .destroying dir stores ∨ e = .destroy j dir false := by
  have hne : ∀ {i t}, s.tasks i = t → t ≠ .destroying dir stores → j ≠ i := by
    rintro i t hi ht rfl
    exact ht (hi.symm.trans h)
  cases hm with
  | begin hi => exact Or.inl ((tasks_set_of_ne (hne hi (by simp)) _ _).trans h)
  | openStore hi _ => exact Or.inl ((tasks_set_of_ne (hne hi (by simp)) _ _).trans h)
  | openFails hi => exact Or.inl ((tasks_set_of_ne (hne hi (by simp)) _ _).trans h)
  | createFails hi => exact Or.inl ((tasks_set_of_ne (hne hi (by simp)) _ _).trans h)
  | fillFails hi => exact Or.inl ((tasks_set_of_ne (hne hi (by simp)) _ _).trans h)
  | swap hi hp =>
    exact Or.inl (((tasks_letGo_of_ne (hne hi (by simp)) _ _).trans
      (tasks_set_of_ne (hne hi (by simp)) _ _)).trans h)
  | first hi hp => exact Or.inl ((tasks_set_of_ne (hne hi (by simp)) _ _).trans h)
  | load hi hp => exact Or.inl ((tasks_set_of_ne (hne hi (by simp)) _ _).trans h)
  | release hi => exact Or.inl ((tasks_letGo_of_ne (hne hi (by simp)) _ _).trans h)
  | dropEngine hi hp =>
    exact Or.inl (((tasks_letGo_of_ne (hne hi (by simp)) _ _).trans
      (tasks_set_of_ne (hne hi (by simp)) _ _)).trans h)
  | close hi => exact Or.inl ((tasks_set_of_ne (hne hi (by simp)) _ _).trans h)
  | @destroy i dir' stores' ok hi hfree =>
    rcases eq_or_ne j i with rfl | hji
    · obtain ⟨rfl, rfl⟩ := Task.destroying.inj (hi.symm.trans h)
      cases ok with
      | false => exact Or.inr rfl
      | true => exact absurd rfl (Finset.ne_of_mem_erase hdir)
    · exact Or.inl ((tasks_set_of_ne hji _ _).trans h)

/-- Where a directory on disk comes from, that is of no use to a store any more or is not yet. -/
def Remains (left : Finset Text) (es : List Event) (dir : Text) : Prop :=
  dir ∈ left ∨ (∃ i, .destroy i dir false ∈ es) ∨ ∃ i, .openFails i dir ∈ es

theorem Remains.concat {dir : Text} (h : Remains left es dir) (e : Event) :
    Remains left (es ++ [e]) dir :=
  h.imp_right fun h => h.imp (fun ⟨i, hi⟩ => ⟨i, List.mem_append_left _ hi⟩)
    fun ⟨i, hi⟩ => ⟨i, List.mem_append_left _ hi⟩

/-- **What is on disk** is open, or about to be destroyed, or remains: it was left there by an
earlier life, or could not be destroyed, or not be opened. -/
theorem accounted_of_run (hrun : Run left es s) : ∀ dir ∈ s.dirs, dir ∈ s.locked ∨
    (∃ i stores, s.tasks i = .destroying dir stores) ∨ Remains left es dir := by
  refine Runs.invariant (fun es (s : System) => ∀ dir ∈ s.dirs, dir ∈ s.locked ∨
    (∃ i stores, s.tasks i = .destroying dir stores) ∨ Remains left es dir)
    (fun dir h => Or.inr (Or.inr (Or.inl h))) ?_ hrun
  rintro es s e s' - ih hstep dir hdir
  have hm := moves_of_step hstep
  have hlast : e ∈ es ++ [e] := List.mem_append_right _ (List.mem_singleton_self _)
  rcases hm.of_mem_dirs hdir with hbefore | hlocked | ⟨i, rfl⟩
  · rcases ih dir hbefore with hlocked | ⟨i, stores, hi⟩ | hremains
    · exact (hm.of_mem_locked hlocked).imp_right Or.inl
    · rcases hm.of_destroying hi hdir with hi | rfl
      · exact Or.inr (Or.inl ⟨i, stores, hi⟩)
      · exact Or.inr (Or.inr (Or.inr (Or.inl ⟨i, hlast⟩)))
    · exact Or.inr (Or.inr (hremains.concat e))
  · exact Or.inl hlocked
  · exact Or.inr (Or.inr (Or.inr (Or.inr ⟨i, hlast⟩)))

/-- **No directories pile up** but by failures. In every run what is open is on disk, and what is
on disk is open, or about to be destroyed, or was there at the beginning, or could not be
destroyed, or not be opened. At most three stores are open for the engine and three for each task
that is under way; and when none is, these are the stores of the published database, or none when
the engine has been dropped. -/
theorem dirs_accounted (hrun : Run left es s) :
    s.locked ⊆ s.dirs ∧
      (∀ dir ∈ s.dirs, dir ∈ s.locked ∨ (∃ i stores, s.tasks i = .destroying dir stores) ∨
        dir ∈ left ∨ (∃ i, .destroy i dir false ∈ es) ∨ ∃ i, .openFails i dir ∈ es) ∧
      (∀ active : Finset ℕ, (∀ i, (s.tasks i).active = true → i ∈ active) →
        s.locked.card ≤ 3 * (1 + active.card)) ∧
      ((∀ i, (s.tasks i).active = false) →
        s.locked = (s.pointer.elim [] s.heap).toFinset) := by
  have hinv := inv_of_run hrun
  refine ⟨hinv.on_disk, accounted_of_run hrun, fun active hactive => ?_, fun hrest => ?_⟩
  · have hsubset : s.locked ⊆ (insert none (active.image some)).biUnion fun k =>
        (s.storesOf k).toFinset := by
      intro dir hdir
      obtain ⟨k, hk, hki⟩ := hinv.exists_storesOf hdir
      refine Finset.mem_biUnion.mpr ⟨k, ?_, List.mem_toFinset.mpr hk⟩
      rcases k with _ | i
      · exact Finset.mem_insert_self _ _
      · exact Finset.mem_insert_of_mem (Finset.mem_image_of_mem some (hactive i (hki i rfl)))
    have hcard : (insert none (active.image some)).card ≤ 1 + active.card := by
      rw [Nat.add_comm]
      exact (Finset.card_insert_le _ _).trans (Nat.succ_le_succ Finset.card_image_le)
    calc s.locked.card ≤ _ := Finset.card_le_card hsubset
      _ ≤ (insert none (active.image some)).card * 3 := Finset.card_biUnion_le_card_mul _ _ _
          fun k _ => (List.toFinset_card_le _).trans (hinv.length_storesOf_le k)
      _ ≤ 3 * (1 + active.card) := by omega
  · ext dir
    rw [List.mem_toFinset]
    constructor
    · intro hdir
      obtain ⟨_ | i, hk, hki⟩ := hinv.exists_storesOf hdir
      · exact hk
      · exact absurd ((hrest i).symm.trans (hki i rfl)) Bool.false_ne_true
    · intro hdir
      rcases hp : s.pointer with _ | a
      · rw [hp] at hdir
        cases hdir
      · rw [hp] at hdir
        exact (hinv.owns.mem_iff dir).mpr ⟨.inl a, hdir⟩

/-- The call returns, and drops the database that it was the last to hold; one of its directories
cannot be destroyed. An update fails as it cannot open its second store. -/
def restRun : List Event :=
  overtakenRun ++ [.release 1, .close 1, .destroy 1 ['a'] true, .close 1, .destroy 1 ['b'] false,
    .close 1, .destroy 1 ['c'] true, .begin 3, .openStore 3 ['g'], .openFails 3 ['h'], .close 3,
    .destroy 3 ['g'] true]

theorem dirs_accounted_rest :
    ∃ s, Run ∅ restRun s ∧ s.dirs = {['b'], ['d'], ['e'], ['f'], ['h']} ∧
      ∀ dir ∈ s.dirs, dir ∈ s.locked ∨ (∃ i stores, s.tasks i = .destroying dir stores) ∨
        dir ∈ (∅ : Finset Text) ∨ (∃ i, .destroy i dir false ∈ restRun) ∨
          ∃ i, .openFails i dir ∈ restRun := by
  obtain ⟨s, hs⟩ : ∃ s, Run ∅ restRun s := ⟨_, rfl⟩
  have hdirs : s.dirs = {['b'], ['d'], ['e'], ['f'], ['h']} := by
    obtain rfl := Option.some.inj hs
    decide
  exact ⟨s, hs, hdirs, (dirs_accounted hs).2.1⟩

end Lifetime

end BancuhDns
