import BancuhDns.Text
import BancuhDns.Lib.Ownership
import BancuhDns.Lib.Runs
import Mathlib.Data.Set.Card

/-!
# How long a database lives

A store is a directory on disk, open as long as the store is there; dropping the store closes it
and destroys the directory. Nobody drops a database expressly. An update that fails drops the one
that it was filling; and the one that a later update replaces is dropped by whoever lets go of it
last, be it the update that swaps the pointer or a call that still has a guard of it.

Here is the engine seen from this side: who has which stores in hand and who has a reference to
which database, all else left out. What is kept up (`BancuhDns.Lifetime.Inv`) is that every open
store is in one place only, and that the counts of the references are right, so that whoever lets
go of one knows whether it was the last.

The names of the directories are random, and one may be there already: from an earlier life of
the program, which leaves its directories behind when it is killed, or even from this one. What is
relied on is that RocksDB locks the directory of an open store, so that no other store is opened
there and it is not destroyed. A directory is created before it is opened; when that fails it may
have been created or not, and nobody destroys it, as there is no store yet that could be dropped.
-/

namespace BancuhDns

namespace Lifetime

/-! ### The system -/

/-- How far a task of the engine has got, be it an update, a call or the drop of the engine, and
which stores it has in its hands. -/
inductive Task where
  | idle
  /-- `AdblockDB::create`, with the stores that it has created. -/
  | creating (stores : List Text)
  /-- `load_definition`, which fills them. -/
  | filling (stores : List Text)
  /-- A reference to the database at an address: the guard of a call, or a pointer that has been
  swapped out. -/
  | holding (addr : ℕ)
  /-- Stores are dropped, one after the other. -/
  | dropping (stores : List Text)
  /-- One of them is closed, and its directory is to be destroyed. -/
  | destroying (dir : Text) (stores : List Text)
  | done

/-- The open stores that a task has in its hands. -/
def Task.stores : Task → List Text
  | .creating stores => stores
  | .filling stores => stores
  | .dropping stores => stores
  | .destroying _ stores => stores
  | _ => []

/-- The database that a task has a reference to. -/
def Task.addr : Task → Option ℕ
  | .holding addr => some addr
  | _ => none

/-- A task is under way. -/
def Task.active : Task → Bool
  | .idle => false
  | .done => false
  | _ => true

/-- What is left to do with stores that are let go of. -/
def Task.drop : List Text → Task
  | [] => .done
  | dir :: stores => .dropping (dir :: stores)

/-- What `AdblockDB::create` goes on with. -/
def Task.create (stores : List Text) : Task :=
  if stores.length < 3 then .creating stores else .filling stores

/-- **The engine, its databases and the directory that these are in.** -/
structure System where
  /-- The directories in `./bancuh_db`. -/
  dirs : Finset Text
  /-- Those that a store has open, and that RocksDB has locked. -/
  locked : Finset Text
  /-- The databases that are shared, by their addresses. -/
  heap : ℕ → List Text
  /-- How many references there are to each of them. -/
  strong : ℕ → ℕ
  /-- The next address. -/
  fresh : ℕ
  /-- The published pointer, as long as the engine is there. -/
  pointer : Option ℕ
  tasks : ℕ → Task

/-- The beginning, with what earlier lives have left. -/
def System.init (left : Finset Text) : System where
  dirs := left
  locked := ∅
  heap _ := []
  strong _ := 0
  fresh := 0
  pointer := none
  tasks _ := .idle

/-- A task goes on. -/
def System.set (s : System) (i : ℕ) (t : Task) : System :=
  { s with tasks := Function.update s.tasks i t }

/-- A task lets go of a reference, and when it was the last it drops the stores. -/
def System.letGo (s : System) (i a : ℕ) : System :=
  let strong := Function.update s.strong a (s.strong a - 1)
  if strong a = 0 then
    ({ s with strong := strong, heap := Function.update s.heap a [] }).set i (.drop (s.heap a))
  else ({ s with strong := strong }).set i .done

/-- A database is shared, with the engine for its first holder. -/
def System.share (s : System) (stores : List Text) : System :=
  { s with
    heap := Function.update s.heap s.fresh stores
    strong := Function.update s.strong s.fresh 1
    fresh := s.fresh + 1
    pointer := some s.fresh }

/-- What can happen next. -/
inductive Event where
  /-- `run_update`, or `new`, begins. -/
  | begin (i : ℕ)
  /-- `DomainStore::create` opens a directory. -/
  | openStore (i : ℕ) (dir : Text)
  /-- The same, which creates the directory and then fails to open it. -/
  | openFails (i : ℕ) (dir : Text)
  /-- A store cannot be created, and leaves nothing behind, the configuration cannot be loaded, or
  the task is dropped. -/
  | fail (i : ℕ)
  /-- The pointer is swapped, or set for the first time. -/
  | publish (i : ℕ)
  /-- A call loads the pointer. -/
  | load (i : ℕ)
  /-- It returns, and its guard is dropped. -/
  | release (i : ℕ)
  /-- The engine is dropped. -/
  | dropEngine (i : ℕ)
  /-- `drop` of a store: it is closed. -/
  | close (i : ℕ)
  /-- `DB::destroy`, whose outcome is only logged. -/
  | destroy (i : ℕ) (dir : Text) (ok : Bool)

/-- **One step of the system.** -/
def step (s : System) : Event → Option System
  | .begin i =>
    match s.tasks i with
    | .idle => some (s.set i (.creating []))
    | _ => none
  | .openStore i dir =>
    match s.tasks i with
    | .creating stores =>
      -- a directory that is open is locked, any other is opened as it is
      if dir ∈ s.locked then none
      else some (({ s with dirs := insert dir s.dirs, locked := insert dir s.locked }).set i
        (.create (stores ++ [dir])))
    | _ => none
  | .openFails i dir =>
    match s.tasks i with
    | .creating stores =>
      some (({ s with dirs := insert dir s.dirs }).set i (.drop stores.reverse))
    | _ => none
  | .fail i =>
    match s.tasks i with
    -- the locals of `create` are dropped last first, the fields of a database first first
    | .creating stores => some (s.set i (.drop stores.reverse))
    | .filling stores => some (s.set i (.drop stores))
    | _ => none
  | .publish i =>
    match s.tasks i with
    | .filling stores =>
      match s.pointer with
      -- the pointer that is swapped out is in the hands of the update, which drops it
      | some a => some (((s.share stores).set i (.holding a)).letGo i a)
      | none => some ((s.share stores).set i .done)
    | _ => none
  | .load i =>
    match s.tasks i, s.pointer with
    | .idle, some a =>
      some (({ s with strong := Function.update s.strong a (s.strong a + 1) }).set i (.holding a))
    | _, _ => none
  | .release i =>
    match s.tasks i with
    | .holding a => some (s.letGo i a)
    | _ => none
  | .dropEngine i =>
    match s.tasks i, s.pointer with
    | .idle, some a => some ((({ s with pointer := none }).set i (.holding a)).letGo i a)
    | _, _ => none
  | .close i =>
    match s.tasks i with
    | .dropping (dir :: stores) =>
      some (({ s with locked := s.locked.erase dir }).set i (.destroying dir stores))
    | _ => none
  | .destroy i dir ok =>
    match s.tasks i with
    | .destroying dir' stores =>
      if dir' = dir ∧ (ok = true → dir ∉ s.locked) then
        some (({ s with dirs := if ok then s.dirs.erase dir else s.dirs }).set i (.drop stores))
      else none
    | _ => none

/-- A run from the start of the program. -/
def Run (left : Finset Text) (es : List Event) (s : System) : Prop :=
  Runs.run step (.init left) es = some s

variable {s s' : System} {e : Event} {es : List Event} {left : Finset Text} {i a : ℕ}

/-! ### What a step can do -/

/-- **The moves of the system.** -/
inductive Moves (s : System) : Event → System → Prop
  | begin {i : ℕ} (h : s.tasks i = .idle) : Moves s (.begin i) (s.set i (.creating []))
  | openStore {i : ℕ} {dir : Text} {stores : List Text} (h : s.tasks i = .creating stores)
      (hdir : dir ∉ s.locked) : Moves s (.openStore i dir)
      (({ s with dirs := insert dir s.dirs, locked := insert dir s.locked }).set i
        (.create (stores ++ [dir])))
  | openFails {i : ℕ} {dir : Text} {stores : List Text} (h : s.tasks i = .creating stores) :
      Moves s (.openFails i dir)
      (({ s with dirs := insert dir s.dirs }).set i (.drop stores.reverse))
  | createFails {i : ℕ} {stores : List Text} (h : s.tasks i = .creating stores) :
      Moves s (.fail i) (s.set i (.drop stores.reverse))
  | fillFails {i : ℕ} {stores : List Text} (h : s.tasks i = .filling stores) :
      Moves s (.fail i) (s.set i (.drop stores))
  | swap {i a : ℕ} {stores : List Text} (h : s.tasks i = .filling stores)
      (hp : s.pointer = some a) :
      Moves s (.publish i) (((s.share stores).set i (.holding a)).letGo i a)
  | first {i : ℕ} {stores : List Text} (h : s.tasks i = .filling stores)
      (hp : s.pointer = none) : Moves s (.publish i) ((s.share stores).set i .done)
  | load {i a : ℕ} (h : s.tasks i = .idle) (hp : s.pointer = some a) : Moves s (.load i)
      (({ s with strong := Function.update s.strong a (s.strong a + 1) }).set i (.holding a))
  | release {i a : ℕ} (h : s.tasks i = .holding a) : Moves s (.release i) (s.letGo i a)
  | dropEngine {i a : ℕ} (h : s.tasks i = .idle) (hp : s.pointer = some a) :
      Moves s (.dropEngine i) ((({ s with pointer := none }).set i (.holding a)).letGo i a)
  | close {i : ℕ} {dir : Text} {stores : List Text}
      (h : s.tasks i = .dropping (dir :: stores)) : Moves s (.close i)
      (({ s with locked := s.locked.erase dir }).set i (.destroying dir stores))
  | destroy {i : ℕ} {dir : Text} {stores : List Text} {ok : Bool}
      (h : s.tasks i = .destroying dir stores) (hdir : ok = true → dir ∉ s.locked) :
      Moves s (.destroy i dir ok)
      (({ s with dirs := if ok then s.dirs.erase dir else s.dirs }).set i (.drop stores))

theorem moves_of_step (h : step s e = some s') : Moves s e s' := by
  cases e with
  | begin i =>
    rw [step] at h
    split at h
    next hi =>
      obtain rfl := Option.some.inj h
      exact .begin hi
    next => cases h
  | openStore i dir =>
    rw [step] at h
    split at h
    next stores hi =>
      obtain ⟨hdir, h⟩ := Option.ite_none_left_eq_some.mp h
      obtain rfl := Option.some.inj h
      exact .openStore hi hdir
    next => cases h
  | openFails i dir =>
    rw [step] at h
    split at h
    next stores hi =>
      obtain rfl := Option.some.inj h
      exact .openFails hi
    next => cases h
  | fail i =>
    rw [step] at h
    split at h
    next stores hi =>
      obtain rfl := Option.some.inj h
      exact .createFails hi
    next stores hi =>
      obtain rfl := Option.some.inj h
      exact .fillFails hi
    next => cases h
  | publish i =>
    rw [step] at h
    split at h
    next stores hi =>
      split at h
      next a hp =>
        obtain rfl := Option.some.inj h
        exact .swap hi hp
      next hp =>
        obtain rfl := Option.some.inj h
        exact .first hi hp
    next => cases h
  | load i =>
    rw [step] at h
    split at h
    next a hi hp =>
      obtain rfl := Option.some.inj h
      exact .load hi hp
    next => cases h
  | release i =>
    rw [step] at h
    split at h
    next a hi =>
      obtain rfl := Option.some.inj h
      exact .release hi
    next => cases h
  | dropEngine i =>
    rw [step] at h
    split at h
    next a hi hp =>
      obtain rfl := Option.some.inj h
      exact .dropEngine hi hp
    next => cases h
  | close i =>
    rw [step] at h
    split at h
    next dir stores hi =>
      obtain rfl := Option.some.inj h
      exact .close hi
    next => cases h
  | destroy i dir ok =>
    rw [step] at h
    split at h
    next dir' stores hi =>
      obtain ⟨⟨rfl, hdir⟩, h⟩ := Option.ite_none_right_eq_some.mp h
      obtain rfl := Option.some.inj h
      exact .destroy hi hdir
    next => cases h

/-! ### Who has what -/

/-- The stores of a shared database, or of a task. -/
def System.has (s : System) : ℕ ⊕ ℕ → List Text :=
  Sum.elim s.heap fun i => (s.tasks i).stores

/-- Whom a reference is held by: the engine, or a task. -/
def System.holds (s : System) : Option ℕ → Option ℕ
  | none => s.pointer
  | some i => (s.tasks i).addr

@[simp] theorem tasks_set_self (s : System) (i : ℕ) (t : Task) : (s.set i t).tasks i = t :=
  Function.update_self ..

theorem tasks_set_of_ne {j : ℕ} (hne : j ≠ i) (s : System) (t : Task) :
    (s.set i t).tasks j = s.tasks j :=
  Function.update_of_ne hne ..

theorem has_set (s : System) (i : ℕ) (t : Task) :
    (s.set i t).has = Function.update s.has (.inr i) t.stores := by
  rw [System.has, System.has, Sum.update_elim_inr]
  exact congrArg (Sum.elim s.heap) (Function.comp_update Task.stores s.tasks i t)

theorem has_heap (s : System) (a : ℕ) (stores : List Text) :
    Function.update s.has (.inl a) stores =
      Sum.elim (Function.update s.heap a stores) fun i => (s.tasks i).stores :=
  Sum.update_elim_inl

theorem holds_set (s : System) (i : ℕ) (t : Task) :
    (s.set i t).holds = Function.update s.holds (some i) t.addr := by
  funext k
  rcases k with _ | j
  · rfl
  · rcases eq_or_ne j i with rfl | hne
    · simp [System.holds, System.set]
    · simp [System.holds, System.set, hne]

theorem stores_drop (stores : List Text) : (Task.drop stores).stores = stores := by
  cases stores <;> rfl

theorem addr_drop (stores : List Text) : (Task.drop stores).addr = none := by
  cases stores <;> rfl

theorem stores_create (stores : List Text) : (Task.create stores).stores = stores := by
  rw [Task.create]
  split <;> rfl

theorem addr_create (stores : List Text) : (Task.create stores).addr = none := by
  rw [Task.create]
  split <;> rfl

/-! ### The invariant -/

/-- A task creates three stores and fills three, and never has more in its hands. -/
def Task.Fits : Task → Prop
  | .creating stores => stores.length < 3
  | .filling stores => stores.length = 3
  | t => t.stores.length ≤ 3

/-- **The invariant of the system.** -/
structure Inv (s : System) : Prop where
  /-- A directory is open for one store only. -/
  owns : Owns s.has s.locked
  /-- The counts are right. -/
  counts : Counts s.holds s.strong
  /-- An address that is not in use has no references. -/
  fresh : ∀ a, s.fresh ≤ a → s.strong a = 0
  /-- A database that is referred to has its three stores. -/
  whole : ∀ a, s.strong a ≠ 0 → (s.heap a).length = 3
  /-- One that is not has none. -/
  freed : ∀ a, s.strong a = 0 → s.heap a = []
  fits : ∀ i, (s.tasks i).Fits
  /-- What is open is on disk. -/
  on_disk : s.locked ⊆ s.dirs

theorem inv_init (left : Finset Text) : Inv (.init left) where
  owns := by
    have hhas : ∀ p, (System.init left).has p = [] := by
      rintro (a | i) <;> rfl
    refine ⟨fun p => by rw [hhas]; exact List.nodup_nil, fun p q x hp => ?_, fun x => ?_⟩
    · rw [hhas] at hp
      cases hp
    · refine iff_of_false (Finset.notMem_empty x) ?_
      rintro ⟨p, hp⟩
      rw [hhas] at hp
      cases hp
  counts a := by
    have hnone : {k | (System.init left).holds k = some a} = ∅ := by
      ext k
      cases k <;> simp [System.holds, System.init, Task.addr]
    rw [hnone, Set.encard_empty]
    rfl
  fresh _ _ := rfl
  whole _ h := absurd rfl h
  freed _ _ := rfl
  fits _ := Nat.zero_le _
  on_disk := Finset.empty_subset _

theorem Task.Fits.length_le {t : Task} (h : t.Fits) : t.stores.length ≤ 3 := by
  cases t <;> first | exact h | exact le_of_eq h | exact le_of_lt h

theorem fits_drop {stores : List Text} (h : stores.length ≤ 3) : (Task.drop stores).Fits := by
  cases stores with
  | nil => exact Nat.zero_le _
  | cons => exact h

theorem Inv.fits_update (h : Inv s) {t : Task} (ht : t.Fits) (i j : ℕ) :
    (Function.update s.tasks i t j).Fits := by
  rcases eq_or_ne j i with rfl | hne
  · simpa using ht
  · simpa [hne] using h.fits j

/-- A task goes on with the stores that it has. -/
theorem Inv.set (h : Inv s) {t : Task} (hstores : t.stores.Perm (s.tasks i).stores)
    (haddr : t.addr = (s.tasks i).addr) (hfits : t.Fits) : Inv (s.set i t) where
  owns := by
    rw [has_set]
    exact h.owns.reorder hstores
  counts := by
    have hsame : s.holds (some i) = t.addr := haddr.symm
    rw [holds_set, ← hsame, Function.update_eq_self]
    exact h.counts
  fresh := h.fresh
  whole := h.whole
  freed := h.freed
  fits := h.fits_update hfits i
  on_disk := h.on_disk

/-- A store is created. -/
theorem Inv.openStore (h : Inv s) {dir : Text} {stores : List Text}
    (hi : s.tasks i = .creating stores) (hdir : dir ∉ s.locked) :
    Inv (({ s with dirs := insert dir s.dirs, locked := insert dir s.locked }).set i
      (.create (stores ++ [dir]))) where
  owns := by
    have hhas : s.has (.inr i) = stores := congrArg Task.stores hi
    rw [has_set, stores_create, ← hhas]
    exact h.owns.acquire hdir (.inr i)
  counts := by
    have hsame : s.holds (some i) = (Task.create (stores ++ [dir])).addr := by
      rw [addr_create]
      exact congrArg Task.addr hi
    rw [holds_set, ← hsame]
    exact (Function.update_eq_self (some i) s.holds).symm ▸ h.counts
  fresh := h.fresh
  whole := h.whole
  freed := h.freed
  fits := by
    have hlength : stores.length < 3 := by
      have hfits := h.fits i
      rw [hi] at hfits
      exact hfits
    refine h.fits_update ?_ i
    rw [Task.create]
    split_ifs with hmore
    · exact hmore
    · rw [List.length_append, List.length_singleton] at hmore
      change (stores ++ [dir]).length = 3
      rw [List.length_append, List.length_singleton]
      omega
  on_disk := Finset.insert_subset_insert dir h.on_disk

/-- The creation of a store fails, and those before it are dropped. -/
theorem Inv.createFails (h : Inv s) {stores : List Text} (hi : s.tasks i = .creating stores) :
    Inv (s.set i (.drop stores.reverse)) := by
  have hfits := (h.fits i).length_le
  rw [hi] at hfits
  refine h.set ?_ (by rw [addr_drop, hi]; rfl) (fits_drop (by rwa [List.length_reverse]))
  rw [stores_drop, hi]
  exact List.reverse_perm stores

/-- A directory more on disk. -/
theorem Inv.insert_dir (h : Inv s) (dir : Text) : Inv { s with dirs := insert dir s.dirs } :=
  { h with on_disk := h.on_disk.trans (Finset.subset_insert _ _) }

/-- **A reference is let go of**: the counts say whether the stores are in use any more. -/
theorem Inv.letGo (h : Inv s) (hi : s.tasks i = .holding a) : Inv (s.letGo i a) := by
  have hholds : s.holds (some i) = some a := congrArg Task.addr hi
  have hnone : s.has (.inr i) = [] := congrArg Task.stores hi
  have hcounts := h.counts.release hholds
  have hpos := h.counts.pos hholds
  have hwhole := h.whole a hpos.ne'
  have hfresh : ∀ b, s.fresh ≤ b → Function.update s.strong a (s.strong a - 1) b = 0 := by
    intro b hb
    have hne : b ≠ a := by
      rintro rfl
      exact hpos.ne' (h.fresh b hb)
    rw [Function.update_of_ne hne]
    exact h.fresh b hb
  rw [System.letGo]
  by_cases hlast : s.strong a - 1 = 0
  · -- the last reference: the stores pass into the hands of the task
    rw [if_pos (by simpa using hlast)]
    constructor
    case owns =>
      rw [has_set, stores_drop, System.has, ← has_heap]
      exact h.owns.pass hnone (List.Perm.refl (s.has (.inl a)))
    case counts =>
      rw [holds_set, addr_drop]
      exact hcounts
    case fresh => exact hfresh
    case whole =>
      intro b hb
      have hne : b ≠ a := by
        rintro rfl
        exact hb (by simpa [System.set] using hlast)
      have hb' : s.strong b ≠ 0 := by simpa [System.set, hne] using hb
      simpa [System.set, hne] using h.whole b hb'
    case freed =>
      intro b hb
      rcases eq_or_ne b a with rfl | hne
      · simp [System.set]
      · have hb' : s.strong b = 0 := by simpa [System.set, hne] using hb
        simpa [System.set, hne] using h.freed b hb'
    case fits => exact h.fits_update (fits_drop hwhole.le) i
    case on_disk => exact h.on_disk
  · rw [if_neg (by simpa using hlast)]
    constructor
    case owns =>
      have hsame : s.has (.inr i) = Task.done.stores := hnone
      rw [has_set, ← hsame]
      exact (Function.update_eq_self (Sum.inr i) s.has).symm ▸ h.owns
    case counts =>
      rw [holds_set]
      exact hcounts
    case fresh => exact hfresh
    case whole =>
      intro b hb
      rcases eq_or_ne b a with rfl | hne
      · exact hwhole
      · exact h.whole b (by simpa [System.set, hne] using hb)
    case freed =>
      intro b hb
      rcases eq_or_ne b a with rfl | hne
      · exact absurd (by simpa [System.set] using hb) hlast
      · exact h.freed b (by simpa [System.set, hne] using hb)
    case fits => exact h.fits_update (t := .done) (Nat.zero_le _) i
    case on_disk => exact h.on_disk

theorem holds_share (s : System) (stores : List Text) :
    (s.share stores).holds = Function.update s.holds none (some s.fresh) := by
  funext k
  cases k <;> rfl

/-- **A publication**: what was published before is in the hands of the update. -/
theorem Inv.publish (h : Inv s) {stores : List Text} {t : Task} (hi : s.tasks i = .filling stores)
    (haddr : t.addr = s.pointer) (hstores : t.stores = []) (hfits : t.Fits) :
    Inv ((s.share stores).set i t) := by
  have hhas : s.has (.inr i) = stores := congrArg Task.stores hi
  have hholds : s.holds (some i) = none := congrArg Task.addr hi
  have hunused : s.strong s.fresh = 0 := h.fresh s.fresh le_rfl
  have hnone : s.has (.inl s.fresh) = [] := h.freed s.fresh hunused
  have hlength : stores.length = 3 := by
    have hfits := h.fits i
    rw [hi] at hfits
    exact hfits
  constructor
  case owns =>
    have hpass := h.owns.pass hnone (List.Perm.refl (s.has (.inr i)))
    rw [hhas, Function.update_comm (by simp), has_heap] at hpass
    rw [has_set, hstores]
    exact hpass
  case counts =>
    -- the old pointer is passed on, and the new one taken
    have hcounts : Counts (Function.update (Function.update s.holds none none) (some i) t.addr)
        s.strong := by
      rw [haddr]
      rcases hp : s.pointer with _ | a
      · have hsame : Function.update (Function.update s.holds none none) (some i) none =
            s.holds := by
          have hpointer : Function.update s.holds none none = s.holds :=
            Function.update_eq_iff.mpr ⟨hp.symm, fun _ _ => rfl⟩
          rw [hpointer]
          exact Function.update_eq_iff.mpr ⟨hholds.symm, fun _ _ => rfl⟩
        exact hsame.symm ▸ h.counts
      · exact h.counts.pass (k := none) hp hholds
    have htake := hcounts.take (k := none)
      (by rw [Function.update_of_ne (by simp), Function.update_self]) s.fresh
    rw [hunused, Function.update_comm (by simp), Function.update_idem] at htake
    rw [holds_set, holds_share]
    exact htake
  case fresh =>
    intro b hb
    have hb' : s.fresh < b := hb
    simpa [System.set, System.share, hb'.ne'] using h.fresh b hb'.le
  case whole =>
    intro b hb
    rcases eq_or_ne b s.fresh with rfl | hne
    · simpa [System.set, System.share] using hlength
    · simpa [System.set, System.share, hne] using
        h.whole b (by simpa [System.set, System.share, hne] using hb)
  case freed =>
    intro b hb
    have hne : b ≠ s.fresh := by
      rintro rfl
      simp [System.set, System.share] at hb
    simpa [System.set, System.share, hne] using
      h.freed b (by simpa [System.set, System.share, hne] using hb)
  case fits => exact h.fits_update hfits i
  case on_disk => exact h.on_disk

/-- A call loads the pointer. -/
theorem Inv.load (h : Inv s) (hi : s.tasks i = .idle) (hp : s.pointer = some a) :
    Inv (({ s with strong := Function.update s.strong a (s.strong a + 1) }).set i
      (.holding a)) := by
  have hholds : s.holds (some i) = none := congrArg Task.addr hi
  have hpos : s.strong a ≠ 0 := (h.counts.pos (k := none) hp).ne'
  have hstrong : ∀ b, Function.update s.strong a (s.strong a + 1) b = 0 ↔ s.strong b = 0 := by
    intro b
    rcases eq_or_ne b a with rfl | hne
    · simp [hpos]
    · simp [hne]
  constructor
  case owns =>
    have hnone : s.has (.inr i) = [] := congrArg Task.stores hi
    have hsame : s.has (.inr i) = (Task.holding a).stores := hnone
    rw [has_set, ← hsame]
    exact (Function.update_eq_self (Sum.inr i) s.has).symm ▸ h.owns
  case counts =>
    rw [holds_set]
    exact h.counts.take hholds a
  case fresh => exact fun b hb => (hstrong b).mpr (h.fresh b hb)
  case whole => exact fun b hb => h.whole b fun hzero => hb ((hstrong b).mpr hzero)
  case freed => exact fun b hb => h.freed b ((hstrong b).mp hb)
  case fits => exact h.fits_update (t := .holding a) (Nat.zero_le _) i
  case on_disk => exact h.on_disk

/-- The engine is dropped: its reference is in the hands of the task that does it. -/
theorem Inv.dropEngine (h : Inv s) (hi : s.tasks i = .idle) (hp : s.pointer = some a) :
    Inv (({ s with pointer := none }).set i (.holding a)) := by
  have hholds : s.holds (some i) = none := congrArg Task.addr hi
  constructor
  case owns =>
    have hnone : s.has (.inr i) = [] := congrArg Task.stores hi
    have hsame : s.has (.inr i) = (Task.holding a).stores := hnone
    rw [has_set, ← hsame]
    exact (Function.update_eq_self (Sum.inr i) s.has).symm ▸ h.owns
  case counts =>
    have hpointer : ({ s with pointer := none } : System).holds =
        Function.update s.holds none none := by
      funext k
      cases k <;> rfl
    rw [holds_set, hpointer]
    exact h.counts.pass (k := none) hp hholds
  case fresh => exact h.fresh
  case whole => exact h.whole
  case freed => exact h.freed
  case fits => exact h.fits_update (t := .holding a) (Nat.zero_le _) i
  case on_disk => exact h.on_disk

/-- A store is closed. -/
theorem Inv.close (h : Inv s) {dir : Text} {stores : List Text}
    (hi : s.tasks i = .dropping (dir :: stores)) :
    Inv (({ s with locked := s.locked.erase dir }).set i (.destroying dir stores)) where
  owns := by
    have hhas : s.has (.inr i) = dir :: stores := congrArg Task.stores hi
    rw [has_set]
    exact h.owns.discard hhas
  counts := by
    have hnone : s.holds (some i) = none := congrArg Task.addr hi
    have hsame : s.holds (some i) = (Task.destroying dir stores).addr := hnone
    rw [holds_set, ← hsame]
    exact (Function.update_eq_self (some i) s.holds).symm ▸ h.counts
  fresh := h.fresh
  whole := h.whole
  freed := h.freed
  fits := by
    have hfits := (h.fits i).length_le
    rw [hi] at hfits
    exact h.fits_update (t := .destroying dir stores) ((Nat.le_succ _).trans hfits) i
  on_disk := (Finset.erase_subset _ _).trans h.on_disk

/-- A directory is destroyed, which it is not when it is locked. -/
theorem Inv.destroy (h : Inv s) {dir : Text} {stores : List Text} {ok : Bool}
    (hi : s.tasks i = .destroying dir stores) (hdir : ok = true → dir ∉ s.locked) :
    Inv (({ s with dirs := if ok then s.dirs.erase dir else s.dirs }).set i (.drop stores)) := by
  have hset : Inv (s.set i (.drop stores)) := by
    have hfits := (h.fits i).length_le
    rw [hi] at hfits
    exact h.set (by rw [stores_drop, hi]; rfl) (by rw [addr_drop, hi]; rfl) (fits_drop hfits)
  refine { hset with on_disk := ?_ }
  change s.locked ⊆ if ok then s.dirs.erase dir else s.dirs
  cases ok with
  | false => exact h.on_disk
  | true => exact Finset.subset_erase.mpr ⟨h.on_disk, hdir rfl⟩

/-- The step lemma. -/
theorem Inv.step (h : Inv s) (hm : Moves s e s') : Inv s' := by
  cases hm with
  | begin hi => exact h.set (by rw [hi]; rfl) (by rw [hi]; rfl) (Nat.zero_lt_succ 2)
  | openStore hi hdir => exact h.openStore hi hdir
  | @openFails i dir stores hi => exact (h.insert_dir dir).createFails hi
  | createFails hi => exact h.createFails hi
  | @fillFails i stores hi =>
    have hfits := (h.fits i).length_le
    rw [hi] at hfits
    exact h.set (by rw [stores_drop, hi]; rfl) (by rw [addr_drop, hi]; rfl) (fits_drop hfits)
  | @swap i a stores hi hp =>
    exact (h.publish (t := .holding a) hi hp.symm rfl (Nat.zero_le 3)).letGo
      (Function.update_self i _ _)
  | first hi hp => exact h.publish (t := .done) hi hp.symm rfl (Nat.zero_le 3)
  | load hi hp => exact h.load hi hp
  | release hi => exact h.letGo hi
  | @dropEngine i a hi hp => exact (h.dropEngine hi hp).letGo (Function.update_self i _ _)
  | close hi => exact h.close hi
  | destroy hi hdir => exact h.destroy hi hdir

/-- The run lemma. -/
theorem inv_of_run (hrun : Run left es s) : Inv s :=
  Runs.invariant (fun _ s => Inv s) (inv_init left)
    (fun _ _ _ _ _ h hstep => h.step (moves_of_step hstep)) hrun

end Lifetime

end BancuhDns
