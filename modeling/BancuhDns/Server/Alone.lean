import BancuhDns.Server.Program

/-!
# A task as a request alone

A task is answered in the course of time, and the request of
`BancuhDns.Handler.handleRequest` is given its answers beforehand. Whatever a task is
answered, there are answers that could have been given beforehand (`BancuhDns.Server.answersOf`):
nothing is asked twice but to send a response, and the responses are told apart by their
number. So everything that is known of the trace of a request is known of a task, and of a
task that has not come to its end, as far as it has come (`BancuhDns.Server.alone_of_leads`).

What the engine answers to other names than the one asked for is left open by what happened;
here it is a parameter, and will be what the engine would have answered.
-/

namespace BancuhDns

namespace Server

/-- What a task asked and was answered. -/
abbrev History := List (Dialog.Exchange Call.Answer)

/-- An exchange with the rate limiter. -/
def checked : Dialog.Exchange Call.Answer → Option Bool
  | ⟨.checkKey _, admitted⟩ => some admitted
  | _ => none

/-- An exchange with upstream. -/
def lookedUp : Dialog.Exchange Call.Answer → Option (Except ResolveError (List Record))
  | ⟨.lookup _ _, answer⟩ => some answer
  | _ => none

/-- An exchange with the responder. -/
def sent : Dialog.Exchange Call.Answer → Option (Except Text ResponseInfo)
  | ⟨.send _, answer⟩ => some answer
  | _ => none

/-- An exchange with the clock. -/
def stamped : Dialog.Exchange Call.Answer → Option ℤ
  | ⟨.now, now⟩ => some now
  | _ => none

/-- An exchange with the query log. -/
def inserted : Dialog.Exchange Call.Answer → Option ℤ
  | ⟨.insert _ _, now⟩ => some now
  | _ => none

/-- **Answers that could have been given beforehand** to a task that was answered as in `d`.
What it did not ask for is answered anyhow. -/
def answersOf (cv : Conversions) (getRedirect : Text → Except EngineError (Option Text))
    (isBlocked : Text → Except EngineError Bool) (d : History) : Answers where
  checkKey _ := (d.findSome? checked).getD true
  getRedirect := getRedirect
  isBlocked := isBlocked
  engineError := cv.engineError
  nameFromUtf8 := cv.nameFromUtf8
  lookup _ _ := (d.findSome? lookedUp).getD (.ok [])
  sendResponse n response := (d.filterMap sent)[n]?.getD (.ok ⟨response.header⟩)
  stamped := (d.findSome? stamped).getD 0
  inserted := (d.findSome? inserted).getD 0

/-- The engine has answered as given. -/
structure EngineSaid (getRedirect : Text → Except EngineError (Option Text))
    (isBlocked : Text → Except EngineError Bool) (d : History) : Prop where
  getRedirect : ∀ name answer, ⟨.getRedirect name, answer⟩ ∈ d → answer = getRedirect name
  isBlocked : ∀ name answer, ⟨.isBlocked name, answer⟩ ∈ d → answer = isBlocked name

variable {d d₁ d₂ : History} {e : Dialog.Exchange Call.Answer}

/-- What is asked once at most is found where it was asked. -/
theorem findSome?_eq_of_kind {α : Type} {f : Dialog.Exchange Call.Answer → Option α} {a : α}
    (hwithin : (Dialog.kinds Call.kind d).Subperm budget)
    (honce : budget.count e.1.kind = 1) (hd : d = d₁ ++ e :: d₂)
    (hf : ∀ e' : Dialog.Exchange Call.Answer, e'.1.kind ≠ e.1.kind → f e' = none)
    (he : f e = some a) : d.findSome? f = some a := by
  have hbefore := Dialog.kind_ne_of_count_le ((hwithin.count_le _).trans honce.le) hd
  have hnone : d₁.findSome? f = none :=
    List.findSome?_eq_none_iff.mpr fun e' he' => hf e' (hbefore e' he')
  rw [hd, List.findSome?_append, hnone, Option.none_or, List.findSome?_cons, he]

/-- Responses are counted in the trace as they are among the exchanges. -/
theorem length_sends_effects (d : History) :
    (sends (effects d)).length = (d.filterMap sent).length := by
  induction d with
  | nil => rfl
  | cons e d ih =>
    have hcons : effects (e :: d) = effects [e] ++ effects d := effects_append [e] d
    have hone : (sends (effects [e])).length = ([e].filterMap sent).length := by
      obtain ⟨q, a⟩ := e
      cases q <;> rfl
    rw [hcons, sends_append, List.length_append, hone, ih, ← List.length_append,
      ← List.filterMap_append, List.singleton_append]

variable {cv : Conversions} {getRedirect : Text → Except EngineError (Option Text)}
  {isBlocked : Text → Except EngineError Bool}

/-- **The answers given beforehand are those given in the course of time.** -/
theorem gives_answersOf (hwithin : (Dialog.kinds Call.kind d).Subperm budget)
    (hengine : EngineSaid getRedirect isBlocked d) :
    Dialog.Gives (oracle (answersOf cv getRedirect isBlocked d)) [] d := by
  intro d₁ q a d₂ hd
  have hmem : ⟨q, a⟩ ∈ d := by
    rw [hd]
    exact List.mem_append_right _ List.mem_cons_self
  -- by the kind of the question; those to the engine and to the responder go their own ways
  cases q with
  | getRedirect name => exact (hengine.getRedirect name a hmem).symm
  | isBlocked name => exact (hengine.isBlocked name a hmem).symm
  | send response =>
    have hsent : (d.filterMap sent)[(sends (effects d₁)).length]? = some a := by
      rw [length_sends_effects, hd, List.filterMap_append,
        List.getElem?_append_right le_rfl, Nat.sub_self]
      rfl
    exact congrArg (Option.getD · (.ok ⟨response.header⟩)) hsent
  | checkKey key =>
    have hfirst : d.findSome? checked = some a := findSome?_eq_of_kind hwithin rfl hd
      (fun ⟨q', _⟩ hne => by cases q' <;> first | rfl | exact absurd rfl hne) rfl
    exact congrArg (Option.getD · true) hfirst
  | lookup name queryType =>
    have hfirst : d.findSome? lookedUp = some a := findSome?_eq_of_kind hwithin rfl hd
      (fun ⟨q', _⟩ hne => by cases q' <;> first | rfl | exact absurd rfl hne) rfl
    exact congrArg (Option.getD · (.ok [])) hfirst
  | now =>
    have hfirst : d.findSome? stamped = some a := findSome?_eq_of_kind hwithin rfl hd
      (fun ⟨q', _⟩ hne => by cases q' <;> first | rfl | exact absurd rfl hne) rfl
    exact congrArg (Option.getD · 0) hfirst
  | insert ip log =>
    have hfirst : d.findSome? inserted = some a := findSome?_eq_of_kind hwithin rfl hd
      (fun ⟨q', _⟩ hne => by cases q' <;> first | rfl | exact absurd rfl hne) rfl
    exact congrArg (Option.getD · 0) hfirst

variable {profile : Profile} {self : Handler} {request : Request}

/-- **A task is a request alone**, as far as it has come: its trace is the beginning of that of
a request that is given its answers beforehand, and all of it when the task has returned; then
it returns what the request does. It has asked eight times at most. -/
theorem alone_of_leads {p : Talk (Option ResponseInfo)} {act : Traced ResponseInfo}
    (hleads : (handleRequest cv profile self request).Leads d p)
    (hengine : EngineSaid getRedirect isBlocked d)
    (hact : Handler.handleRequest (answersOf cv getRedirect isBlocked d) profile self request =
      some act) :
    d.length ≤ 8 ∧ effects d <+: (act.run []).2 ∧
      ∀ r, p = .done r → effects d = (act.run []).2 ∧ r = some (act.run []).1 := by
  have hwithin := hleads.kinds_subperm (Within.handleRequest cv profile self request)
  have hlength : d.length ≤ 8 := by
    have hle := hwithin.length_le
    rwa [Dialog.kinds, List.length_map] at hle
  have hsame := Simulates.handleRequest hact []
  set answers := answersOf cv getRedirect isBlocked d with hanswers
  have hgives : Dialog.Gives (oracle answers) [] d := gives_answersOf hwithin hengine
  have hrun := hleads.run_eq hgives
  have hconv : conversionsOf answers = cv := rfl
  rw [List.nil_append] at hrun
  rw [hconv, hrun] at hsame
  have htrace : (act.run []).2 = effects (p.run (oracle answers) d).2 := congrArg Prod.snd hsame
  have hresult : some (act.run []).1 = (p.run (oracle answers) d).1 := congrArg Prod.fst hsame
  refine ⟨hlength, ?_, ?_⟩
  · obtain ⟨rest, hrest⟩ : ∃ rest, (p.run (oracle answers) d).2 = d ++ rest :=
      Dialog.exists_run_eq_append p d
    rw [htrace, hrest, effects_append]
    exact List.prefix_append _ _
  · rintro r rfl
    exact ⟨htrace.symm, hresult.symm⟩

end Server

end BancuhDns
