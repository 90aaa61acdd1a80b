import Mathlib.Logic.Function.Basic
import Mathlib.Data.List.Basic

/-!
# Key-value stores in which the last write wins

A store is a type of states with a fallible write and a fallible read
(`KeyValue`); nothing is said about how a state represents its contents, so the
state may carry anything that decides whether the next write fails. What a proof
about a store uses is `KeyValue.Holds`, a state read back as a map, and the one
law `KeyValue.LastWriteWins` that a write updates that map.

From the law, a whole run of writes is the map of last writes
(`KeyValue.putAll_holds`), and a read that tries several keys in turn is a search
of the map (`KeyValue.getFirst_eq`).
-/

/-- The operations of a key-value store with states `σ`, keys `κ`, values `υ` and
errors `ε`. -/
structure KeyValue (σ κ υ ε : Type) where
  /-- Write a value, in a state that may refuse it. -/
  put : σ → κ → υ → σ × Except ε Unit
  /-- Read a key. -/
  get : σ → κ → Except ε (Option υ)

namespace KeyValue

variable {σ κ υ ε : Type}

/-- **A state read back as a map**: every key reads without error, and reads what
the map has. -/
def Holds (kv : KeyValue σ κ υ ε) (s : σ) (m : κ → Option υ) : Prop :=
  ∀ k, kv.get s k = .ok (m k)

/-- A state with nothing in it. -/
def Empty (kv : KeyValue σ κ υ ε) (s : σ) : Prop := kv.Holds s fun _ => none

/-- Write a list of entries, the refused ones being dropped. -/
def putAll (kv : KeyValue σ κ υ ε) (s : σ) (ws : List (κ × υ)) : σ :=
  ws.foldl (fun s w => (kv.put s w.1 w.2).1) s

/-- Read keys in turn until one is present. -/
def getFirst (kv : KeyValue σ κ υ ε) (s : σ) : List κ → Except ε (Option υ)
  | [] => .ok none
  | k :: ks => do
    match ← kv.get s k with
    | some v => return some v
    | none => kv.getFirst s ks

variable [DecidableEq κ]

/-- **The law of a last-write-wins map**: no write is refused, and a write
replaces what its key held and nothing else. -/
structure LastWriteWins (kv : KeyValue σ κ υ ε) : Prop where
  /-- No write is refused. -/
  put_ok : ∀ s k v, (kv.put s k v).2 = .ok ()
  /-- A write updates the map its state holds. -/
  put_holds : ∀ {s m}, kv.Holds s m → ∀ k v,
    kv.Holds (kv.put s k v).1 (Function.update m k (some v))

/-- The last value a list of writes gives a key. -/
def lastWrite : List (κ × υ) → κ → Option υ
  | [], _ => none
  | w :: ws, k => (lastWrite ws k).or (if w.1 = k then some w.2 else none)

/-! ### The last write to a key -/

@[simp] theorem lastWrite_nil (k : κ) : lastWrite ([] : List (κ × υ)) k = none := rfl

@[simp] theorem lastWrite_cons (w : κ × υ) (ws : List (κ × υ)) (k : κ) :
    lastWrite (w :: ws) k = (lastWrite ws k).or (if w.1 = k then some w.2 else none) := rfl

theorem lastWrite_eq_none_iff {ws : List (κ × υ)} {k : κ} :
    lastWrite ws k = none ↔ ∀ w ∈ ws, w.1 ≠ k := by
  induction ws with
  | nil => simp
  | cons w ws ih => simp [ih, and_comm]

/-- The last write is the one no later write to its key follows. -/
theorem lastWrite_eq_some_iff {ws : List (κ × υ)} {k : κ} {v : υ} :
    lastWrite ws k = some v ↔ ∃ l r, ws = l ++ (k, v) :: r ∧ ∀ w ∈ r, w.1 ≠ k := by
  induction ws with
  | nil => simp
  | cons w ws ih =>
    rw [lastWrite_cons]
    -- the first write counts only when no later one is to its key
    cases hl : lastWrite ws k with
    | some u =>
      rw [Option.some_or, ← hl, ih]
      constructor
      · rintro ⟨l, r, rfl, hr⟩
        exact ⟨w :: l, r, rfl, hr⟩
      · rintro ⟨l, r, hlr, hr⟩
        cases l with
        | nil =>
          obtain ⟨rfl, rfl⟩ := List.cons.inj hlr
          rw [lastWrite_eq_none_iff.mpr hr] at hl
          cases hl
        | cons c l =>
          obtain ⟨rfl, hws⟩ := List.cons.inj hlr
          exact ⟨l, r, hws, hr⟩
    | none =>
      have hnone := lastWrite_eq_none_iff.mp hl
      rw [Option.none_or]
      constructor
      · intro h
        split at h
        · rename_i hk
          obtain rfl := Option.some.inj h
          exact ⟨[], ws, by rw [← hk]; rfl, hnone⟩
        · cases h
      · rintro ⟨l, r, hlr, hr⟩
        cases l with
        | nil =>
          obtain ⟨rfl, rfl⟩ := List.cons.inj hlr
          simp
        | cons c l =>
          obtain ⟨rfl, rfl⟩ := List.cons.inj hlr
          exact absurd rfl (hnone (k, v) (by simp))

theorem isSome_lastWrite_iff {ws : List (κ × υ)} {k : κ} :
    (lastWrite ws k).isSome ↔ ∃ w ∈ ws, w.1 = k := by
  rw [← Option.ne_none_iff_isSome, Ne, lastWrite_eq_none_iff]
  simp

/-! ### Runs of writes and of reads -/

/-- **A run of writes**: a key reads its last write, or what it read before when
it was not written. -/
theorem putAll_holds {kv : KeyValue σ κ υ ε} (hkv : kv.LastWriteWins) (ws : List (κ × υ)) :
    ∀ {s : σ} {m : κ → Option υ}, kv.Holds s m →
      kv.Holds (kv.putAll s ws) fun k => (lastWrite ws k).or (m k) := by
  induction ws with
  | nil =>
    intro s m h k
    simpa [putAll] using h k
  | cons w ws ih =>
    intro s m h k
    have hstep := ih (hkv.put_holds h w.1 w.2) k
    rw [putAll, List.foldl_cons]
    refine hstep.trans (congrArg Except.ok ?_)
    simp only [lastWrite_cons, Option.or_assoc]
    rcases eq_or_ne w.1 k with rfl | hne
    · simp
    · rw [Function.update_of_ne hne.symm, if_neg hne, Option.none_or]

/-- A run of writes into an empty state leaves the last writes. -/
theorem putAll_holds_of_empty {kv : KeyValue σ κ υ ε} (hkv : kv.LastWriteWins) {s : σ}
    (hs : kv.Empty s) (ws : List (κ × υ)) : kv.Holds (kv.putAll s ws) (lastWrite ws) := by
  intro k
  simpa using putAll_holds hkv ws hs k

omit [DecidableEq κ] in
/-- **Reading keys in turn** is searching the map for the first one present. -/
theorem getFirst_eq {kv : KeyValue σ κ υ ε} {s : σ} {m : κ → Option υ} (h : kv.Holds s m)
    (ks : List κ) : kv.getFirst s ks = .ok (ks.findSome? m) := by
  induction ks with
  | nil => rfl
  | cons k ks ih =>
    rw [getFirst, h k, List.findSome?_cons]
    cases hm : m k with
    | some v => rfl
    | none => exact ih

omit [DecidableEq κ] in
/-- What such a search finds is the value of the first key that has one. -/
theorem findSome?_eq_some_iff_idxOf [BEq κ] [LawfulBEq κ] {ks : List κ} {m : κ → Option υ} {v : υ} :
    ks.findSome? m = some v ↔
      ∃ k ∈ ks, m k = some v ∧ ∀ k', (m k').isSome → ks.idxOf k ≤ ks.idxOf k' := by
  rw [List.findSome?_eq_some_iff]
  constructor
  · rintro ⟨before, k, after, rfl, hk, hnone⟩
    have hnot : ∀ k', (m k').isSome → k' ∉ before := by
      intro k' hsome hmem
      rw [hnone k' hmem] at hsome
      cases hsome
    refine ⟨k, by simp, hk, fun k' hk' => ?_⟩
    rw [List.idxOf_append_of_notMem (hnot k (by rw [hk]; rfl)),
      List.idxOf_append_of_notMem (hnot k' hk'), List.idxOf_cons_self, Nat.add_zero]
    exact Nat.le_add_right _ _
  · rintro ⟨k, hmem, hk, hfirst⟩
    obtain ⟨before, after, rfl, hnot⟩ := List.eq_append_cons_of_mem hmem
    refine ⟨before, k, after, rfl, hk, fun k' hk' => ?_⟩
    by_contra hsome
    -- what comes before `k` has a smaller index
    have hle := hfirst k' (Option.isSome_iff_ne_none.mpr hsome)
    have hlt := List.idxOf_lt_length_of_mem hk'
    rw [List.idxOf_append_of_notMem hnot, List.idxOf_cons_self,
      List.idxOf_append_of_mem hk'] at hle
    omega

/-! ### A store of association lists -/

/-- The store whose state is the list of its writes, the latest first. -/
def assoc (κ υ ε : Type) [DecidableEq κ] : KeyValue (List (κ × υ)) κ υ ε where
  put s k v := ((k, v) :: s, .ok ())
  get s k := .ok ((s.find? fun w => w.1 = k).map Prod.snd)

theorem assoc_lastWriteWins : (assoc κ υ ε).LastWriteWins where
  put_ok _ _ _ := rfl
  put_holds {s m} h k v k' := by
    have hget := h k'
    simp only [assoc, Except.ok.injEq] at hget ⊢
    rcases eq_or_ne k' k with rfl | hne
    · simp
    · rw [Function.update_of_ne hne, List.find?_cons_of_neg (by simpa using hne.symm), hget]

theorem assoc_empty : (assoc κ υ ε).Empty [] := fun _ => rfl

end KeyValue
