import BancuhDns.Lib.Runs
import Mathlib.Data.List.Iterate
import Mathlib.Logic.Function.Iterate

/-!
# Trying again

Something that may fail is tried until it succeeds, or has failed so often that it is given up,
with a delay after every failure that depends on the one before (`Retry.Policy`). What it is
tried on, the world, may be another one each time.

A run consists of the attempts and the delays in between, and says what they have come to
(`Retry.runOk_of_run`): all attempts but the last one failed, there were no more of them than
the policy has, and the delays are the first ones of its sequence (`Retry.Policy.delays`).
-/

namespace Retry

variable {W α ε D : Type}

/-- **When to give up, and how long to wait before.** -/
structure Policy (D : Type) where
  /-- The number of the last attempt, the first one having number one. -/
  last : ℕ
  delay : D
  nextDelay : D → D

/-- The delays after the first `n` attempts. -/
def Policy.delays (policy : Policy D) (n : ℕ) : List D :=
  List.iterate policy.nextDelay policy.delay n

theorem Policy.delays_prefix (policy : Policy D) {m n : ℕ} (h : m ≤ n) :
    policy.delays m <+: policy.delays n := by
  obtain ⟨k, rfl⟩ := Nat.exists_eq_add_of_le h
  rw [delays, delays, List.iterate_add]
  exact List.prefix_append _ _

/-- How far it has got. -/
inductive Phase (ε D : Type) where
  | trying (attempt : ℕ) (delay : D)
  | sleeping (attempt : ℕ) (delay : D)
  | succeeded
  | failed (err : ε)

/-- What can happen next. -/
inductive Event (W D : Type) where
  /-- An attempt, in this world. -/
  | attempt (w : W)
  /-- A delay is over. -/
  | slept (delay : D)

variable (attempt : W → Except ε α) (policy : Policy D)

/-- **One step.** -/
def step [DecidableEq D] : Phase ε D → Event W D → Option (Phase ε D)
  | .trying n delay, .attempt w =>
    match attempt w with
    | .ok _ => some .succeeded
    | .error err => if policy.last ≤ n then some (.failed err) else some (.sleeping n delay)
  | .sleeping n delay, .slept delay' =>
    if delay' = delay then some (.trying (n + 1) (policy.nextDelay delay)) else none
  | _, _ => none

/-- A run from the first attempt on. -/
def Run [DecidableEq D] (es : List (Event W D)) (phase : Phase ε D) : Prop :=
  Runs.run (step attempt policy) (.trying 1 policy.delay) es = some phase

/-- The worlds of the attempts. -/
def attempts : List (Event W D) → List W :=
  List.filterMap fun
    | .attempt w => some w
    | .slept _ => none

/-- The delays. -/
def slept : List (Event W D) → List D :=
  List.filterMap fun
    | .attempt _ => none
    | .slept delay => some delay

/-- An attempt that failed. -/
def Failed (w : W) : Prop := ∃ err, attempt w = .error err

/-- **What a run says of the phase it leads to.** -/
inductive RunOk : List W → List D → Phase ε D → Prop
  | trying {ws : List W} (hall : ∀ w ∈ ws, Failed attempt w) (hlt : ws.length < policy.last) :
      RunOk ws (policy.delays ws.length)
        (.trying (ws.length + 1) (policy.nextDelay^[ws.length] policy.delay))
  | sleeping {ws : List W} {w : W} (hall : ∀ w' ∈ ws ++ [w], Failed attempt w')
      (hlt : ws.length + 1 < policy.last) :
      RunOk (ws ++ [w]) (policy.delays ws.length)
        (.sleeping (ws.length + 1) (policy.nextDelay^[ws.length] policy.delay))
  | succeeded {ws : List W} {w : W} {a : α} (hall : ∀ w ∈ ws, Failed attempt w)
      (hlt : ws.length < policy.last) (hw : attempt w = .ok a) :
      RunOk (ws ++ [w]) (policy.delays ws.length) .succeeded
  | failed {ws : List W} {w : W} {err : ε} (hall : ∀ w ∈ ws, Failed attempt w)
      (hlast : ws.length + 1 = policy.last) (hw : attempt w = .error err) :
      RunOk (ws ++ [w]) (policy.delays ws.length) (.failed err)

variable {attempt policy} {ws : List W} {delays : List D} {phase phase' : Phase ε D}

theorem RunOk.length_le (h : RunOk attempt policy ws delays phase) : ws.length ≤ policy.last := by
  cases h with
  | trying hall hlt => omega
  | sleeping hall hlt =>
    rw [List.length_append, List.length_singleton]
    omega
  | succeeded hall hlt hw =>
    rw [List.length_append, List.length_singleton]
    omega
  | failed hall hlast hw =>
    rw [List.length_append, List.length_singleton]
    omega

/-- There is no delay after the last attempt. -/
theorem RunOk.delays_prefix (h : RunOk attempt policy ws delays phase) :
    delays <+: policy.delays (policy.last - 1) := by
  cases h with
  | trying hall hlt => exact policy.delays_prefix (by omega)
  | sleeping hall hlt => exact policy.delays_prefix (by omega)
  | succeeded hall hlt hw => exact policy.delays_prefix (by omega)
  | failed hall hlast hw => exact policy.delays_prefix (by omega)

/-- **Only the last attempt** can have succeeded. -/
theorem RunOk.failed_of_mem_dropLast (h : RunOk attempt policy ws delays phase) {w : W}
    (hw : w ∈ ws.dropLast) : Failed attempt w := by
  cases h with
  | trying hall hlt => exact hall w (List.dropLast_subset _ hw)
  | sleeping hall hlt => exact hall w (List.dropLast_subset _ hw)
  | succeeded hall hlt hok =>
    rw [List.dropLast_concat] at hw
    exact hall w hw
  | failed hall hlast herr =>
    rw [List.dropLast_concat] at hw
    exact hall w hw

variable [DecidableEq D]

/-- The step lemma. -/
theorem RunOk.step (h : RunOk attempt policy ws delays phase) {e : Event W D}
    (hstep : Retry.step attempt policy phase e = some phase') :
    RunOk attempt policy (ws ++ attempts [e]) (delays ++ slept [e]) phase' := by
  cases h with
  | trying hall hlt =>
    cases e with
    | slept delay => cases hstep
    | attempt w =>
      have hattempts : attempts [(.attempt w : Event W D)] = [w] := rfl
      have hslept : slept [(.attempt w : Event W D)] = [] := rfl
      rw [hattempts, hslept, List.append_nil]
      rw [Retry.step] at hstep
      split at hstep
      next a hw =>
        obtain rfl := Option.some.inj hstep
        exact .succeeded hall hlt hw
      next err hw =>
        split at hstep
        next hlast =>
          obtain rfl := Option.some.inj hstep
          exact .failed hall (by omega) hw
        next hmore =>
          obtain rfl := Option.some.inj hstep
          refine .sleeping (fun w' hw' => ?_) (by omega)
          rcases List.mem_append.mp hw' with hbefore | hlast
          · exact hall w' hbefore
          · obtain rfl := List.mem_singleton.mp hlast
            exact ⟨err, hw⟩
  | @sleeping ws w hall hlt =>
    cases e with
    | attempt w => cases hstep
    | slept delay =>
      have hattempts : attempts [(.slept delay : Event W D)] = [] := rfl
      have hslept : slept [(.slept delay : Event W D)] = [delay] := rfl
      rw [hattempts, hslept, List.append_nil]
      rw [Retry.step] at hstep
      obtain ⟨hdelay, hnext⟩ := Option.ite_none_right_eq_some.mp hstep
      subst hdelay
      obtain rfl := Option.some.inj hnext
      have hlength : (ws ++ [w]).length = ws.length + 1 := by simp
      have hdelays : policy.delays (ws ++ [w]).length =
          policy.delays ws.length ++ [policy.nextDelay^[ws.length] policy.delay] := by
        rw [hlength, Policy.delays, List.iterate_add]
        rfl
      have hnext : policy.nextDelay^[(ws ++ [w]).length] policy.delay =
          policy.nextDelay (policy.nextDelay^[ws.length] policy.delay) := by
        rw [hlength, Function.iterate_succ_apply']
      rw [← hdelays, ← hnext, ← hlength]
      exact .trying hall (by omega)
  | succeeded hall hlt hw => cases hstep
  | failed hall hlast hw => cases hstep

/-- **What a run has come to.** -/
theorem runOk_of_run (hpos : 0 < policy.last) {es : List (Event W D)}
    (hrun : Run attempt policy es phase) :
    RunOk attempt policy (attempts es) (slept es) phase := by
  have hstart : RunOk attempt policy [] [] (.trying 1 policy.delay) := .trying (by simp) hpos
  refine Runs.invariant (fun es phase => RunOk attempt policy (attempts es) (slept es) phase)
    hstart (fun es phase e phase' _ h hstep => ?_) hrun
  have hattempts : attempts (es ++ [e]) = attempts es ++ attempts [e] := List.filterMap_append
  have hslept : slept (es ++ [e]) = slept es ++ slept [e] := List.filterMap_append
  rw [hattempts, hslept]
  exact h.step hstep

end Retry
