import Mathlib.Data.List.Basic
import Mathlib.Data.List.Perm.Subperm

/-!
# Programs that ask

What a task of a concurrent system does is, seen from outside, a sequence of questions: it
asks one, waits for the answer, and goes on from there. A `Dialog` is such a task, and
`Dialog.Leads` is what it does when it is answered one way or the other – with nothing said
about where the answers come from, so that other tasks may well have changed things between
two of them.

A task that runs alone is answered by an oracle, which may look at the exchanges so far
(`Dialog.run`). The exchanges of a task among others are those of the task alone with an
oracle that gives the same answers (`Dialog.Leads.run_eq`). When the oracle is to be a simple
one, that answers each kind of question in one way, it has to be known how often a kind of
question is asked; that is read off the text of a program (`Dialog.AsksWithin`).

What a program asks can be justified by what it was answered before. The rules for that are
those of weakest preconditions (`Dialog.wp`), with a condition on every question beside that on
the result; and a condition that holds at the start holds on the way (`Dialog.Leads.wp`).
-/

/-- **A program that asks**: it returns, or asks a question and goes on with the answer. -/
inductive Dialog (Q : Type) (A : Q → Type) (R : Type) : Type where
  /-- Return. -/
  | done (r : R)
  /-- Ask, and go on. -/
  | ask (q : Q) (next : A q → Dialog Q A R)

namespace Dialog

variable {Q : Type} {A : Q → Type} {R R' K : Type}

/-- A question and its answer. -/
abbrev Exchange (A : Q → Type) := (q : Q) × A q

/-- Go on with another program when the first returns. -/
def bind (p : Dialog Q A R) (f : R → Dialog Q A R') : Dialog Q A R' :=
  match p with
  | done r => f r
  | ask q next => ask q fun a => (next a).bind f

instance : Monad (Dialog Q A) where
  pure := done
  bind := bind

@[simp] theorem pure_eq (r : R) : (pure r : Dialog Q A R) = done r := rfl

@[simp] theorem done_bind (r : R) (f : R → Dialog Q A R') : done r >>= f = f r := rfl

@[simp] theorem ask_bind (q : Q) (next : A q → Dialog Q A R) (f : R → Dialog Q A R') :
    ask q next >>= f = ask q fun a => next a >>= f := rfl

/-- Ask a question, and return the answer. -/
def call (q : Q) : Dialog Q A (A q) := ask q done

/-! ### What a program does -/

/-- `p.Leads d p'`: asked and answered as in `d`, the program `p` has `p'` left to do. -/
inductive Leads : Dialog Q A R → List (Exchange A) → Dialog Q A R → Prop
  | nil (p : Dialog Q A R) : Leads p [] p
  | cons {q : Q} {a : A q} {next : A q → Dialog Q A R} {d : List (Exchange A)}
      {p : Dialog Q A R} (h : Leads (next a) d p) : Leads (ask q next) (⟨q, a⟩ :: d) p

/-- One more exchange. -/
theorem Leads.concat {p : Dialog Q A R} {d : List (Exchange A)} {q : Q}
    {next : A q → Dialog Q A R} (h : p.Leads d (ask q next)) (a : A q) :
    p.Leads (d ++ [⟨q, a⟩]) (next a) := by
  generalize hp' : ask q next = p' at h
  induction h with
  | nil p =>
    subst hp'
    exact .cons (.nil _)
  | cons h ih => exact .cons (ih hp')

/-! ### A program alone -/

/-- What answers a program that runs alone, from the exchanges so far. -/
abbrev Oracle (A : Q → Type) := List (Exchange A) → (q : Q) → A q

/-- What a program returns when an oracle answers it, and the exchanges then. -/
def run (oracle : Oracle A) : Dialog Q A R → List (Exchange A) → R × List (Exchange A)
  | done r, past => (r, past)
  | ask q next, past => (next (oracle past q)).run oracle (past ++ [⟨q, oracle past q⟩])

variable {oracle : Oracle A}

@[simp] theorem run_done (r : R) (past : List (Exchange A)) :
    (done r : Dialog Q A R).run oracle past = (r, past) := rfl

@[simp] theorem run_ask (q : Q) (next : A q → Dialog Q A R) (past : List (Exchange A)) :
    (ask q next).run oracle past =
      (next (oracle past q)).run oracle (past ++ [⟨q, oracle past q⟩]) := rfl

@[simp] theorem run_call (q : Q) (past : List (Exchange A)) :
    (call q).run oracle past = (oracle past q, past ++ [⟨q, oracle past q⟩]) := rfl

@[simp] theorem run_bind (p : Dialog Q A R) (f : R → Dialog Q A R') (past : List (Exchange A)) :
    (p >>= f).run oracle past =
      (f (p.run oracle past).1).run oracle (p.run oracle past).2 := by
  induction p generalizing past with
  | done r => rfl
  | ask q next ih => exact ih _ _

/-- A run adds to the exchanges. -/
theorem exists_run_eq_append (p : Dialog Q A R) (past : List (Exchange A)) :
    ∃ d, (p.run oracle past).2 = past ++ d := by
  induction p generalizing past with
  | done r => exact ⟨[], (List.append_nil past).symm⟩
  | ask q next ih =>
    obtain ⟨d, hd⟩ := ih (oracle past q) (past ++ [⟨q, oracle past q⟩])
    exact ⟨⟨q, oracle past q⟩ :: d, by rw [run_ask, hd, List.append_assoc, List.singleton_append]⟩

/-- The oracle gives the answers that some exchanges have, after others. -/
def Gives (oracle : Oracle A) (past d : List (Exchange A)) : Prop :=
  ∀ d₁ q a d₂, d = d₁ ++ ⟨q, a⟩ :: d₂ → oracle (past ++ d₁) q = a

/-- **A program among others is a program alone** with an oracle that gives the same
answers. -/
theorem Leads.run_eq {p p' : Dialog Q A R} {d past : List (Exchange A)} (h : p.Leads d p')
    (hgives : Gives oracle past d) :
    p.run oracle past = p'.run oracle (past ++ d) := by
  induction h generalizing past with
  | nil p => rw [List.append_nil]
  | @cons q a next d p h ih =>
    have ha : oracle past q = a := by simpa using hgives [] q a d rfl
    rw [run_ask, ha, ih, List.append_assoc, List.singleton_append]
    intro d₁ q' a' d₂ hd
    rw [List.append_assoc, List.singleton_append]
    exact hgives (⟨q, a⟩ :: d₁) q' a' d₂ (by rw [hd, List.cons_append])

/-! ### What a program guarantees -/

section Guarantees

variable {P : List (Exchange A) → Q → Prop} {post post' : List (Exchange A) → R → Prop}
  {past : List (Exchange A)}

/-- **The weakest precondition**: what has to hold of the exchanges so far, for the program to
ask only what `P` allows after the exchanges before, and to return only what `post` allows after
all of them, whatever it is answered. -/
def wp (P : List (Exchange A) → Q → Prop) (post : List (Exchange A) → R → Prop) :
    Dialog Q A R → List (Exchange A) → Prop
  | done r, past => post past r
  | ask q next, past => P past q ∧ ∀ a, (next a).wp P post (past ++ [⟨q, a⟩])

@[simp] theorem wp_done {r : R} : (done r : Dialog Q A R).wp P post past ↔ post past r := Iff.rfl

/-- One program after the other. -/
theorem wp_bind {p : Dialog Q A R} {f : R → Dialog Q A R'}
    {post : List (Exchange A) → R' → Prop} :
    (p >>= f).wp P post past ↔ p.wp P (fun past r => (f r).wp P post past) past := by
  induction p generalizing past with
  | done r => rfl
  | ask q next ih => exact and_congr_right fun _ => forall_congr' fun a => ih a

/-- Less is guaranteed as well. -/
theorem wp.mono {p : Dialog Q A R} (h : p.wp P post past)
    (hpost : ∀ past r, post past r → post' past r) : p.wp P post' past := by
  induction p generalizing past with
  | done r => exact hpost past r h
  | ask q next ih => exact ⟨h.1, fun a => ih a (h.2 a)⟩

/-- **What is guaranteed at the start is guaranteed on the way**, for what is left to do. -/
theorem Leads.wp {p p' : Dialog Q A R} {d : List (Exchange A)} (h : p.Leads d p')
    (hp : p.wp P post past) : p'.wp P post (past ++ d) := by
  induction h generalizing past with
  | nil p => rwa [List.append_nil]
  | @cons q a next d p h ih =>
    have hnext := ih (hp.2 a)
    rwa [List.append_assoc, List.singleton_append] at hnext

end Guarantees

/-! ### How much is asked -/

section Budget

variable [DecidableEq K] {kind : Q → K} {budget budget' : List K}

/-- **A program that asks within a budget**: each question uses up one of its kind. -/
def AsksWithin (kind : Q → K) : List K → Dialog Q A R → Prop
  | _, done _ => True
  | budget, ask q next => kind q ∈ budget ∧ ∀ a, AsksWithin kind (budget.erase (kind q)) (next a)

@[simp] theorem asksWithin_done (r : R) : (done r : Dialog Q A R).AsksWithin kind budget :=
  trivial

theorem asksWithin_call {q : Q} (h : kind q ∈ budget) :
    (call q : Dialog Q A (A q)).AsksWithin kind budget :=
  ⟨h, fun _ => trivial⟩

/-- A larger budget does as well. -/
theorem AsksWithin.mono {p : Dialog Q A R} (h : p.AsksWithin kind budget)
    (hle : budget.Subperm budget') : p.AsksWithin kind budget' := by
  induction p generalizing budget budget' with
  | done r => trivial
  | ask q next ih => exact ⟨hle.subset h.1, fun a => ih a (h.2 a) (hle.erase _)⟩

/-- **Budgets add up.** -/
theorem AsksWithin.bind {p : Dialog Q A R} {f : R → Dialog Q A R'}
    (h : p.AsksWithin kind budget) (hf : ∀ r, (f r).AsksWithin kind budget') :
    (p >>= f).AsksWithin kind (budget ++ budget') := by
  induction p generalizing budget with
  | done r => exact (hf r).mono (List.sublist_append_right budget budget').subperm
  | ask q next ih =>
    refine ⟨List.mem_append_left _ h.1, fun a => ?_⟩
    rw [List.erase_append_left _ h.1]
    exact ih a (h.2 a)

/-- The kinds of the questions in some exchanges. -/
def kinds (kind : Q → K) (d : List (Exchange A)) : List K := d.map fun e => kind e.1

/-- **What such a program asks** is within the budget. -/
theorem Leads.kinds_subperm {p p' : Dialog Q A R} {d : List (Exchange A)} (h : p.Leads d p')
    (hp : p.AsksWithin kind budget) : (kinds kind d).Subperm budget := by
  induction h generalizing budget with
  | nil p => exact List.nil_subperm
  | @cons q a next d p h ih =>
    have hrest := (List.subperm_cons (kind q)).mpr (ih (hp.2 a))
    exact hrest.trans (List.perm_cons_erase hp.1).symm.subperm

/-- A question of a kind that is asked once at most comes after none of its kind. -/
theorem kind_ne_of_count_le {d d₁ d₂ : List (Exchange A)} {e : Exchange A}
    (hcount : (kinds kind d).count (kind e.1) ≤ 1) (hd : d = d₁ ++ e :: d₂) :
    ∀ e' ∈ d₁, kind e'.1 ≠ kind e.1 := by
  intro e' he' heq
  have hpos : 0 < (kinds kind d₁).count (kind e.1) :=
    List.count_pos_iff.mpr (List.mem_map.mpr ⟨e', he', heq⟩)
  subst hd
  rw [kinds, List.map_append, List.map_cons, List.count_append, List.count_cons_self] at hcount
  rw [kinds] at hpos
  omega

/-- There is one question of a kind that is asked once at most. -/
theorem eq_of_kind_eq {d : List (Exchange A)} {e e' : Exchange A}
    (hcount : (kinds kind d).count (kind e.1) ≤ 1) (he : e ∈ d) (he' : e' ∈ d)
    (heq : kind e'.1 = kind e.1) : e = e' := by
  obtain ⟨d₁, d₂, hd⟩ := List.append_of_mem he
  rw [hd, List.mem_append, List.mem_cons] at he'
  rcases he' with hbefore | rfl | hafter
  · exact absurd heq (kind_ne_of_count_le hcount hd e' hbefore)
  · rfl
  · -- seen from the other one, it is this one that comes before
    obtain ⟨d₂₁, d₂₂, rfl⟩ := List.append_of_mem hafter
    have hd' : d = (d₁ ++ e :: d₂₁) ++ e' :: d₂₂ := by rw [hd]; simp
    exact absurd heq.symm (kind_ne_of_count_le (heq ▸ hcount) hd' e (by simp))

end Budget

end Dialog
