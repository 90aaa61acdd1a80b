import BancuhDns.Lib.WaitFree
import BancuhDns.Server.Steps

/-!
# The engine holds nobody up

In the server, step by step (`BancuhDns.Server.Inside`), a call of the engine is never held up:
it loads what is published, whatever the updates are doing, and reads stores that nobody writes
to. So the calls of the engine wait for nobody (`BancuhDns.Server.inside_waitFree`): in the
middle of any number of updates and of other requests each can be brought to its return by steps
that are taken for it alone, five at most (`BancuhDns.Server.engine_call_goes_on`). To load the
pointer is one step here, and so is to look a name up in one store.

The other calls are left out. An entry is inserted into the log in one step here, but under a
mutex in the program, for which a request may have to wait while another holds it.
-/

namespace BancuhDns

namespace Server

variable {σ L : Type} {srv : Server σ L} {configUrl : FileOrUrl} {t t' : Inside σ L} {i : ℕ}

/-- What is done for the call of a task. -/
def takenFor {kv : RocksDB σ} : Work kv → ℕ → Bool
  | .serve j _, i | .load j, i | .read j, i => j == i
  | _, _ => false

/-- How many steps may have been taken for a call of the engine. -/
def readStage : Publication.Call → ℕ
  | .idle => 1
  | .loaded _ _ => 2
  | .notWhitelisted _ _ => 3
  | .answered _ _ => 4

/-- How many steps may have been taken for the call of a task. -/
def Inside.stage (t : Inside σ L) (i : ℕ) : ℕ :=
  match t.doing i with
  | .nothing => 0
  | .told _ => 2
  | .asked _ => readStage (t.engine.calls i)

theorem Inside.stage_le (t : Inside σ L) (i : ℕ) : t.stage i ≤ 4 := by
  have hread : ∀ c, readStage c ≤ 4 := by
    intro c
    cases c <;> simp [readStage]
  rw [stage]
  split
  · omega
  · omega
  · exact hread _

theorem Inside.stage_congr (hdoing : t'.doing i = t.doing i)
    (hcalls : t'.engine.calls i = t.engine.calls i) : t'.stage i = t.stage i := by
  rw [stage, stage, hdoing, hcalls]

/-- A task whose call has not begun is in the middle of nothing. -/
theorem doing_of_status (h : t.status srv configUrl i = .idle) : t.doing i = .nothing := by
  rw [Inside.status] at h
  split at h
  next hi => exact hi
  next => cases h
  next call hi =>
    generalize t.engine.calls i = c at h
    cases c <;> cases h

/-! ### A step for a task brings it forward -/

/-- What is done that is not for a task changes nothing for it. -/
theorem frame_of_work {ι : Work srv.kv} (h : t.work srv configUrl ι = some t')
    (hi : takenFor ι i = false) :
    t'.doing i = t.doing i ∧ t'.engine.calls i = t.engine.calls i := by
  have hupdate : ∀ {t₁ : Inside σ L} {e : Publication.Event srv.kv} {u : ℕ},
      t₁.engineStep srv e = some t' → e.task = some u →
      t'.doing i = t₁.doing i ∧ t'.engine.calls i = t₁.engine.calls i := by
    intro t₁ e u hstep he
    obtain ⟨engine, hengine, rfl⟩ := Option.map_eq_some_iff.mp hstep
    exact ⟨rfl, congrFun ((Publication.moves_of_step _ hengine).calls_eq he) i⟩
  cases ι with
  | serve j e =>
    have hne : i ≠ j := fun heq => by simp [takenFor, heq] at hi
    simp only [Inside.work] at h
    split at h
    next call hcall =>
      obtain ⟨-, hserve⟩ := Option.ite_none_right_eq_some.mp h
      obtain ⟨shared, -, rfl⟩ := Option.map_eq_some_iff.mp hserve
      exact ⟨Function.update_of_ne hne _ _, rfl⟩
    next => cases h
  | load j =>
    have hne : i ≠ j := fun heq => by simp [takenFor, heq] at hi
    simp only [Inside.work] at h
    split at h
    next call hcall =>
      obtain ⟨q, -, hload⟩ := Option.bind_eq_some_iff.mp h
      obtain ⟨engine, hstep, rfl⟩ := Option.map_eq_some_iff.mp hload
      cases Publication.moves_of_step _ hstep with
      | ask => exact ⟨rfl, Function.update_of_ne hne _ _⟩
    next => cases h
  | read j =>
    have hne : i ≠ j := fun heq => by simp [takenFor, heq] at hi
    obtain ⟨engine, hstep, rfl⟩ := Option.map_eq_some_iff.mp h
    cases Publication.moves_of_step _ hstep with
    | read => exact ⟨rfl, Function.update_of_ne hne _ _⟩
  | create u w =>
    simp only [Inside.work] at h
    split at h
    next db hcreate =>
      have hframe := hupdate h rfl
      exact hframe
    next err hcreate => exact hupdate h rfl
  | loadConfig u =>
    obtain ⟨w, -, hload⟩ := Option.bind_eq_some_iff.mp h
    split at hload
    next config hconfig => exact hupdate hload rfl
    next err hconfig => exact hupdate hload rfl
  | write u => exact hupdate h rfl
  | publish u => exact hupdate h rfl
  | setClock now =>
    obtain rfl := Option.some.inj h
    exact ⟨rfl, rfl⟩
  | pass time =>
    obtain rfl := Option.some.inj h
    exact ⟨rfl, rfl⟩

/-- A read brings a call of the engine forward. -/
theorem readStage_lt {kv : RocksDB σ} {heap : ℕ → AdblockDB σ} {c c' : Publication.Call}
    (h : c.read kv heap = some c') : readStage c < readStage c' := by
  rw [Publication.Call.read.eq_def] at h
  split at h
  · split at h <;> (obtain rfl := Option.some.inj h; simp [readStage])
  · split at h <;> (obtain rfl := Option.some.inj h; simp [readStage])
  · split at h <;> (obtain rfl := Option.some.inj h; simp [readStage])
  · cases h

/-- **A step that is taken for a call of the engine brings it forward.** -/
theorem Sound.stage_lt (h : Sound srv configUrl t) {ι : Work srv.kv}
    (hcalls : ∀ call ∈ (t.status srv configUrl i).call, call.question.isSome = true)
    (hwork : t.work srv configUrl ι = some t') (hi : takenFor ι i = true) :
    t.stage i < t'.stage i := by
  cases ι with
  | serve j e =>
    -- what is served is no call of the engine
    obtain rfl : j = i := by simpa [takenFor] using hi
    simp only [Inside.work] at hwork
    split at hwork
    next call hcall =>
      obtain ⟨⟨-, hnone⟩, -⟩ := Option.ite_none_right_eq_some.mp hwork
      have hidle : t.engine.calls j = .idle := h.calls_idle fun call' hcall' => by
        obtain rfl := Doing.asked.inj (hcall.symm.trans hcall')
        exact hnone
      have hbegun : (t.status srv configUrl j).call = some call := by
        rw [Inside.status, hcall]
        simp only [hidle, readStatus, Atomic.CallStatus.call]
      rw [Option.isNone_eq_false_iff.mpr (hcalls call hbegun)] at hnone
      cases hnone
    next => cases hwork
  | load j =>
    obtain rfl : j = i := by simpa [takenFor] using hi
    simp only [Inside.work] at hwork
    split at hwork
    next call hcall =>
      obtain ⟨q, -, hload⟩ := Option.bind_eq_some_iff.mp hwork
      obtain ⟨engine, hstep, rfl⟩ := Option.map_eq_some_iff.mp hload
      cases Publication.moves_of_step _ hstep with
      | ask hidle => simp [Inside.stage, hcall, hidle, readStage]
    next => cases hwork
  | read j =>
    obtain rfl : j = i := by simpa [takenFor] using hi
    obtain ⟨engine, hstep, rfl⟩ := Option.map_eq_some_iff.mp hwork
    cases Publication.moves_of_step _ hstep with
    | @read _ c hread =>
      obtain ⟨call, hcall, -⟩ := h.busy j ((h.call j).read hread).1
      simpa [Inside.stage, hcall] using readStage_lt hread
  | _ => cases hi

/-! ### There is always such a step -/

/-- A call of the engine that has loaded what is published can read on until it is answered. -/
theorem exists_read (kv : RocksDB σ) (heap : ℕ → AdblockDB σ) {c : Publication.Call}
    (hidle : c ≠ .idle) (hanswered : ∀ q answer, c ≠ .answered q answer) :
    ∃ c', c.read kv heap = some c' := by
  cases c with
  | idle => exact absurd rfl hidle
  | answered q answer => exact absurd rfl (hanswered q answer)
  | loaded q a =>
    cases q with
    | isBlocked name =>
      rw [Publication.Call.read]
      split <;> exact ⟨_, rfl⟩
    | getRedirect name =>
      rw [Publication.Call.read]
      split <;> exact ⟨_, rfl⟩
  | notWhitelisted name a =>
    rw [Publication.Call.read]
    split <;> exact ⟨_, rfl⟩

/-- **A call of the engine can go on**, whatever else is going on. -/
theorem Inside.can_go_on (t : Inside σ L) (srv : Server σ L) (configUrl : FileOrUrl) {call : Call}
    (hcall : (t.status srv configUrl i).call = some call) (hq : call.question.isSome = true) :
    (t.result i).isSome ∨ ∃ ι, takenFor ι i = true ∧ (t.work srv configUrl ι).isSome := by
  rcases hdoing : t.doing i with _ | call' | e
  · rw [Inside.status, hdoing] at hcall
    cases hcall
  · by_cases hidle : t.engine.calls i = .idle
    · rw [Inside.status, hdoing] at hcall
      simp only [hidle, readStatus] at hcall
      obtain rfl := Option.some.inj hcall
      obtain ⟨q, hq⟩ := Option.isSome_iff_exists.mp hq
      refine Or.inr ⟨.load i, beq_self_eq_true i, ?_⟩
      simp [Inside.work, hdoing, hq, Inside.engineStep, Publication.step, hidle]
    · by_cases hanswered : ∃ q answer, t.engine.calls i = .answered q answer
      · obtain ⟨q, answer, hanswer⟩ := hanswered
        exact Or.inl (by simp [Inside.result, hdoing, hanswer])
      · obtain ⟨c, hread⟩ := exists_read srv.kv t.engine.heap hidle
          fun q answer hanswer => hanswered ⟨q, answer, hanswer⟩
        refine Or.inr ⟨.read i, beq_self_eq_true i, ?_⟩
        simp [Inside.work, Inside.engineStep, Publication.step, hread]
  · exact Or.inl (by simp [Inside.result, hdoing])

/-- **The calls of the engine wait for nobody.** -/
theorem inside_waitFree (srv : Server σ L) (configUrl : FileOrUrl) :
    Atomic.WaitFree (srv.inside configUrl) (Inside.status srv configUrl) (Sound srv configUrl)
      (fun call => call.question.isSome = true) takenFor Inside.stage 4 where
  stage_le := Inside.stage_le
  enter {t t' i call} h _ henter := by
    simp only [inside] at henter
    split at henter
    next hi =>
      obtain rfl := Option.some.inj henter
      have hidle : t.engine.calls i = .idle := h.calls_idle fun call hcall => by
        cases hi.symm.trans hcall
      simp [Inside.stage, hi, hidle, readStage]
    next => cases henter
  work {t t' ι i} h hcalls hwork hi := h.stage_lt hcalls hwork hi
  enter_of_ne {t t' i j call} h henter hne := by
    simp only [inside] at henter
    split at henter
    next hj =>
      obtain rfl := Option.some.inj henter
      exact Inside.stage_congr (Function.update_of_ne hne _ _) rfl
    next => cases henter
  work_of_not {t t' ι i} h hwork hi := by
    obtain ⟨hdoing, hcalls⟩ := frame_of_work hwork hi
    exact Inside.stage_congr hdoing hcalls
  leave_of_ne {t t' i j call a} h hleave hne := by
    simp only [inside] at hleave
    split at hleave
    next e he =>
      split at hleave
      next heq =>
        obtain ⟨-, rfl⟩ := Prod.mk.inj (Option.some.inj hleave)
        exact Inside.stage_congr (Function.update_of_ne hne _ _) (Function.update_of_ne hne _ _)
      next => cases hleave
    next => cases hleave
  can_enter {t i call} h _ hidle := by
    exact ⟨_, by simp only [inside, doing_of_status hidle]; rfl⟩
  can_go_on {t i call} h hq hcall := by
    rcases t.can_go_on srv configUrl hcall hq with hresult | ⟨ι, hι, hwork⟩
    · obtain ⟨e, he⟩ := Option.isSome_iff_exists.mp hresult
      rw [status_of_result he] at hcall
      obtain rfl : e.1 = call := Option.some.inj hcall
      exact Or.inl ⟨e.2, t.clear i, by simp only [inside, he, dif_pos]⟩
    · obtain ⟨t', hwork⟩ := Option.isSome_iff_exists.mp hwork
      exact Or.inr ⟨ι, t', hι, hwork⟩

/-- **A call of the engine waits for nobody.** Let a task have come to a call of the engine, and
let anything happen, to the updates and to the other requests, in which it does not return. Then
the call can be brought to its return by steps that are taken for it alone; and from its beginning
there are no more than five of these in all. -/
theorem engine_call_goes_on {start : Shared σ L}
    {es es' : List (Atomic.Event Request (Work srv.kv))} {s s₁ : InsideState σ L}
    {request : Request} {call : Call} {next : call.Answer → Talk (Option ResponseInfo)}
    (hrun : srv.RunInside start es s) (hi : s.tasks i = some (request, .ask call next))
    (hq : call.question.isSome = true) (hrun' : srv.RunInside start (es ++ es') s₁)
    (hleave : .leave i ∉ es') :
    ∃ own s₂ answer, (∀ e ∈ own, Atomic.Event.concerns takenFor i e = true) ∧
      srv.RunInside start (es ++ es' ++ own) s₂ ∧ s₂.tasks i = some (request, next answer) ∧
      es'.countP (Atomic.Event.concerns takenFor i) + own.length ≤ 5 :=
  Atomic.exists_return_of_run (inside_waitFree srv start.engine.configUrl)
    (inside_refines srv start.engine.configUrl) (sound_init srv start) (fun _ => rfl) hrun hi hq
    hrun' hleave

/-- A query whose call has loaded what was published when an update publishes something else. -/
theorem engine_call_goes_on_overtaken :
    ∃ s call next, oneNameServer.RunInside justStarted (overtakenQuery.take 3) s ∧
      s.tasks 0 = some ({ Handler.aQuery with requestInfo := .ok ⟨"aa.com.".toList, .a⟩ },
        .ask call next) ∧ ∃ own s₂ answer,
        oneNameServer.RunInside justStarted (overtakenQuery.take 7 ++ own) s₂ ∧
        s₂.tasks 0 = some ({ Handler.aQuery with requestInfo := .ok ⟨"aa.com.".toList, .a⟩ },
          next answer) ∧ own.length ≤ 3 := by
  obtain ⟨s, hs⟩ : ∃ s, oneNameServer.RunInside justStarted (overtakenQuery.take 3) s := ⟨_, rfl⟩
  obtain ⟨s₁, hs₁⟩ : ∃ s₁, oneNameServer.RunInside justStarted
    (overtakenQuery.take 3 ++ (overtakenQuery.drop 3).take 4) s₁ := ⟨_, rfl⟩
  obtain ⟨call, next, hi, hq⟩ : ∃ call next, s.tasks 0 = some
      ({ Handler.aQuery with requestInfo := .ok ⟨"aa.com.".toList, .a⟩ }, .ask call next) ∧
      call.question.isSome = true := by
    obtain rfl := Option.some.inj hs
    exact ⟨_, _, rfl, rfl⟩
  obtain ⟨own, s₂, answer, -, hs₂, hr, hle⟩ :=
    engine_call_goes_on hs hi hq hs₁ (by simp [overtakenQuery])
  have htwo : ((overtakenQuery.drop 3).take 4).countP (Atomic.Event.concerns takenFor 0) = 2 := rfl
  exact ⟨s, call, next, hs, hi, own, s₂, answer, hs₂, hr, by omega⟩

end Server

end BancuhDns
