import Mathlib.Data.List.DropRight
import Mathlib.Data.List.Induction
import Mathlib.Order.Lattice

/-!
# A queue that expires at the front

A bounded queue of stamped entries. Each push first drops the entries at the front
whose stamp is older than a cutoff, *stopping at the first that is not*, then drops
one more when the queue is full, and then appends the new entry.

The queue is always a suffix of what has been pushed. Two questions are asked of it
here. Stamps in any order: what does a reader miss who filters the queue by a later
cutoff? Nothing that the last `cap` entries pushed would have shown
(`Window.Retains.filter_eq`). Stamps in the order of the pushes: which entries are
still there? Those that no later push expired, and that have fewer than `cap` entries
behind them (`Window.suffix_contents_iff`).
-/

namespace Window

variable {α T : Type} [LinearOrder T] (stamp : α → T) (cap : ℕ)

/-- Drop the stale entries at the front. -/
def expire (cutoff : T) (q : List α) : List α := q.dropWhile fun e => stamp e < cutoff

/-- Drop one entry from a full queue. -/
def makeRoom (q : List α) : List α := if cap ≤ q.length then q.tail else q

/-- One push: expire, make room, append. -/
def push (cutoff : T) (q : List α) (x : α) : List α :=
  makeRoom cap (expire stamp cutoff q) ++ [x]

/-- The queue after pushes that each come with their cutoff. -/
def contents (es : List (T × α)) : List α :=
  es.foldl (fun q e => push stamp cap e.1 q e.2) []

@[simp] theorem contents_concat (es : List (T × α)) (e : T × α) :
    contents stamp cap (es ++ [e]) = push stamp cap e.1 (contents stamp cap es) e.2 := by
  simp [contents]

/-! ### One push -/

theorem expire_suffix (cutoff : T) (q : List α) : expire stamp cutoff q <:+ q :=
  List.dropWhile_suffix _

theorem makeRoom_suffix (q : List α) : makeRoom cap q <:+ q := by
  rw [makeRoom]
  split_ifs
  · exact List.tail_suffix q
  · exact List.suffix_rfl

variable {cap}

theorem length_makeRoom_lt (hcap : 0 < cap) {q : List α} (h : q.length ≤ cap) :
    (makeRoom cap q).length < cap := by
  rw [makeRoom]
  split_ifs with hfull
  · rw [List.length_tail]
    omega
  · exact not_le.mp hfull

/-- Making room leaves in place what has fewer than `cap` entries. -/
theorem suffix_makeRoom {s q : List α} (hs : s <:+ q) (hlen : s.length < cap) :
    s <:+ makeRoom cap q := by
  rw [makeRoom]
  split_ifs with hfull
  · refine List.suffix_of_suffix_length_le hs (List.tail_suffix q) ?_
    rw [List.length_tail]
    omega
  · exact hs

variable {stamp} {cutoff : T}

/-- An entry that is not stale keeps its place, and those behind it too. -/
theorem suffix_expire {x : α} {l q : List α} (hx : cutoff ≤ stamp x) (h : x :: l <:+ q) :
    x :: l <:+ expire stamp cutoff q := by
  induction q with
  | nil => exact absurd (List.suffix_nil.mp h) (List.cons_ne_nil x l)
  | cons y q ih =>
    by_cases hy : stamp y < cutoff
    · rcases List.suffix_cons_iff.mp h with heq | hq
      · rw [(List.cons.inj heq).1] at hx
        exact absurd hy (not_lt.mpr hx)
      · rw [expire, List.dropWhile_cons_of_pos (by simpa using hy)]
        exact ih hq
    · rw [expire, List.dropWhile_cons_of_neg (by simpa using hy)]
      exact h

/-- In a queue sorted by stamps nothing behind the first fresh entry is stale. -/
theorem le_of_mem_expire {q : List α} {x : α}
    (hsorted : q.Pairwise fun a b => stamp a ≤ stamp b) (h : x ∈ expire stamp cutoff q) :
    cutoff ≤ stamp x := by
  induction q with
  | nil => cases h
  | cons y q ih =>
    rw [List.pairwise_cons] at hsorted
    by_cases hy : stamp y < cutoff
    · rw [expire, List.dropWhile_cons_of_pos (by simpa using hy)] at h
      exact ih hsorted.2 h
    · rw [expire, List.dropWhile_cons_of_neg (by simpa using hy)] at h
      rcases List.mem_cons.mp h with rfl | hmem
      · exact not_lt.mp hy
      · exact (not_lt.mp hy).trans (hsorted.1 x hmem)

/-! ### All pushes -/

variable (stamp) (cap)

/-- **The queue is a suffix of what was pushed.** -/
theorem contents_suffix (es : List (T × α)) : contents stamp cap es <:+ es.map Prod.snd := by
  induction es using List.reverseRecOn with
  | nil => exact List.suffix_rfl
  | append_singleton es e ih =>
    rw [contents_concat, push, List.map_append, List.map_singleton, List.suffix_append_self_iff]
    exact ((makeRoom_suffix cap _).trans (expire_suffix stamp e.1 _)).trans ih

variable {cap}

/-- **The queue is bounded.** -/
theorem length_contents_le (hcap : 0 < cap) (es : List (T × α)) :
    (contents stamp cap es).length ≤ cap := by
  induction es using List.reverseRecOn with
  | nil => exact Nat.zero_le cap
  | append_singleton es e ih =>
    rw [contents_concat, push, List.length_append, List.length_singleton]
    exact length_makeRoom_lt hcap ((expire_suffix stamp e.1 _).length_le.trans ih)

/-- What was pushed last is there. -/
theorem exists_mem_contents {es : List (T × α)} (h : es ≠ []) :
    ∃ x, x ∈ contents stamp cap es := by
  rcases List.eq_nil_or_concat es with rfl | ⟨es, e, rfl⟩
  · exact absurd rfl h
  · refine ⟨e.2, ?_⟩
    rw [List.concat_eq_append, contents_concat, push]
    exact List.mem_append_right _ (List.mem_singleton_self e.2)

/-! ### Stamps in any order -/

theorem rtake_append_of_le {l₁ l₂ : List α} {n : ℕ} (h : l₂.length ≤ n) :
    (l₁ ++ l₂).rtake n = l₁.rtake (n - l₂.length) ++ l₂ := by
  have hskip : (l₁ ++ l₂).length - n = l₁.length - (n - l₂.length) := by
    rw [List.length_append]
    omega
  rw [List.rtake, List.rtake, hskip]
  exact List.drop_append_of_le_length (Nat.sub_le _ _)

theorem mem_rtake_append {l₁ l₂ : List α} {n : ℕ} {e : α} (h : e ∈ (l₁ ++ l₂).rtake n) :
    e ∈ l₁.rtake (n - l₂.length) ∨ e ∈ l₂ := by
  rw [List.rtake, List.drop_append, List.mem_append] at h
  refine h.imp (fun h => ?_) List.mem_of_mem_drop
  refine (List.drop_sublist_drop_left l₁ ?_).subset h
  rw [List.length_append]
  omega

theorem rtake_subset_of_le (l : List α) {m n : ℕ} (h : m ≤ n) : l.rtake m ⊆ l.rtake n :=
  (List.drop_sublist_drop_left l (Nat.sub_le_sub_left h _)).subset

variable (cap) in
/-- A queue within its bound, the end of what was pushed, such that an entry among
the last `cap` pushed that is missing from it is older than `cutoff`. -/
structure Retains (cutoff : T) (pushed q : List α) : Prop where
  length_le : q.length ≤ cap
  stale : ∃ gone, pushed = gone ++ q ∧ ∀ e ∈ gone.rtake (cap - q.length), stamp e < cutoff

variable {stamp} {pushed q : List α}

/-- A later cutoff asks for less. -/
theorem Retains.mono {cutoff' : T} (h : Retains stamp cap cutoff pushed q)
    (hle : cutoff ≤ cutoff') : Retains stamp cap cutoff' pushed q := by
  obtain ⟨hlen, gone, hpushed, hgone⟩ := h
  exact ⟨hlen, gone, hpushed, fun e he => (hgone e he).trans_le hle⟩

/-- Expiring keeps the retention: what it drops is stale. -/
theorem Retains.expire (h : Retains stamp cap cutoff pushed q) :
    Retains stamp cap cutoff pushed (expire stamp cutoff q) := by
  obtain ⟨hlen, gone, rfl, hgone⟩ := h
  set dropped := q.takeWhile fun e => stamp e < cutoff with hdropped
  have hq : dropped ++ Window.expire stamp cutoff q = q := List.takeWhile_append_dropWhile
  have hsum := congrArg List.length hq
  rw [List.length_append] at hsum
  refine ⟨by omega, gone ++ dropped, by rw [List.append_assoc, hq], fun e he => ?_⟩
  rcases mem_rtake_append he with he | he
  · refine hgone e (rtake_subset_of_le gone ?_ he)
    omega
  · rw [hdropped] at he
    simpa using List.mem_takeWhile_imp he

/-- Making room and appending keeps it: what is dropped is no longer among the
last `cap`. -/
theorem Retains.append (hcap : 0 < cap) (h : Retains stamp cap cutoff pushed q) (x : α) :
    Retains stamp cap cutoff (pushed ++ [x]) (makeRoom cap q ++ [x]) := by
  obtain ⟨hlen, gone, rfl, hgone⟩ := h
  rw [makeRoom]
  split_ifs with hfull
  -- the queue is full, so that it is itself the last `cap` pushed
  · obtain ⟨y, q, rfl⟩ := List.exists_cons_of_length_pos (hcap.trans_le hfull)
    have hzero : cap - (q ++ [x]).length = 0 := by
      rw [List.length_append, List.length_singleton, ← List.length_cons (a := y)]
      omega
    refine ⟨?_, gone ++ [y], by simp, ?_⟩
    · simpa using hlen
    · rw [List.tail_cons, hzero, List.rtake_zero]
      exact fun e he => by cases he
  · refine ⟨?_, gone, by simp, fun e he => hgone e (rtake_subset_of_le gone ?_ he)⟩
    · rw [List.length_append, List.length_singleton]
      omega
    · rw [List.length_append]
      omega

/-- **Pushes whose cutoffs never go back keep the retention.** -/
theorem contents_retains (hcap : 0 < cap) {es : List (T × α)}
    (hsorted : es.Pairwise fun e e' => e.1 ≤ e'.1) (hle : ∀ e ∈ es, e.1 ≤ cutoff) :
    Retains stamp cap cutoff (es.map Prod.snd) (contents stamp cap es) := by
  induction es using List.reverseRecOn generalizing cutoff with
  | nil => exact ⟨Nat.zero_le cap, [], rfl, by simp⟩
  | append_singleton es e ih =>
    obtain ⟨hsorted', -, hlast⟩ := List.pairwise_append.mp hsorted
    have hes : Retains stamp cap e.1 (es.map Prod.snd) (contents stamp cap es) :=
      ih hsorted' fun e' he' => hlast e' he' e (List.mem_singleton_self e)
    rw [contents_concat, List.map_append, List.map_singleton]
    exact (hes.expire.append hcap e.2).mono (hle e (by simp))

/-- **A reader who filters by the cutoff misses nothing** of the last `cap` entries. -/
theorem Retains.filter_eq (h : Retains stamp cap cutoff pushed q) :
    q.filter (fun e => cutoff ≤ stamp e) =
      (pushed.rtake cap).filter fun e => cutoff ≤ stamp e := by
  obtain ⟨hlen, gone, rfl, hgone⟩ := h
  have hnone : (gone.rtake (cap - q.length)).filter (fun e => cutoff ≤ stamp e) = [] :=
    List.filter_eq_nil_iff.mpr fun e he => by simpa using hgone e he
  rw [rtake_append_of_le hlen, List.filter_append, hnone, List.nil_append]

/-! ### Stamps in the order of the pushes -/

/-- **What is still there**, when the stamps are in the order of the pushes: an
entry stays until a later push comes with a cutoff above its stamp, or until `cap`
later pushes have been made. -/
theorem suffix_contents_iff (hcap : 0 < cap) {pre post : List (T × α)} {e : T × α}
    (hstamps : (pre ++ e :: post).Pairwise fun a b => stamp a.2 ≤ stamp b.2) :
    e.2 :: post.map Prod.snd <:+ contents stamp cap (pre ++ e :: post) ↔
      (∀ e' ∈ post, e'.1 ≤ stamp e.2) ∧ post.length < cap := by
  -- the last push is taken off; the stamps are in order, so the queue is sorted by them
  induction post using List.reverseRecOn with
  | nil =>
    have hlast : [e.2] <:+ contents stamp cap (pre ++ [e]) := by
      rw [contents_concat, push]
      exact List.suffix_append _ _
    simpa [hcap] using hlast
  | append_singleton post e' ih =>
    have hsplit : pre ++ e :: (post ++ [e']) = (pre ++ e :: post) ++ [e'] := by simp
    have hcons : e.2 :: (post ++ [e']).map Prod.snd = (e.2 :: post.map Prod.snd) ++ [e'.2] := by
      simp
    rw [hsplit] at hstamps ⊢
    have hbefore := (List.pairwise_append.mp hstamps).1
    have hpushed : ((pre ++ e :: post).map Prod.snd).Pairwise fun a b => stamp a ≤ stamp b :=
      List.pairwise_map.mpr hbefore
    have hq := hpushed.sublist (contents_suffix stamp cap _).sublist
    rw [contents_concat, push, hcons, List.suffix_append_self_iff, List.length_append,
      List.length_singleton]
    constructor
    · intro h
      have hkept : e.2 :: post.map Prod.snd <:+
          expire stamp e'.1 (contents stamp cap (pre ++ e :: post)) :=
        h.trans (makeRoom_suffix cap _)
      have hfresh : e'.1 ≤ stamp e.2 := le_of_mem_expire hq (hkept.subset List.mem_cons_self)
      obtain ⟨hall, -⟩ := (ih hbefore).mp (hkept.trans (expire_suffix stamp e'.1 _))
      refine ⟨fun a ha => ?_, ?_⟩
      · rcases List.mem_append.mp ha with ha | ha
        · exact hall a ha
        · rw [List.mem_singleton.mp ha]
          exact hfresh
      · have hroom := h.length_le.trans_lt (length_makeRoom_lt hcap
          ((expire_suffix stamp e'.1 _).length_le.trans (length_contents_le stamp hcap _)))
        rw [List.length_cons, List.length_map] at hroom
        exact hroom
    · rintro ⟨hall, hlen⟩
      have hfresh : e'.1 ≤ stamp e.2 := hall e' (by simp)
      have hheld := (ih hbefore).mpr ⟨fun a ha => hall a (by simp [ha]), by omega⟩
      refine suffix_makeRoom (suffix_expire hfresh hheld) ?_
      rw [List.length_cons, List.length_map]
      exact hlen

end Window
