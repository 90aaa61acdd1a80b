import BancuhDns.Handler.Replies

/-!
# What gets into the log

The last step of the request flow is that the query is logged, and the log is where a
client sees what became of its queries. The handler does it only when the inner function
has returned without an error. So a query is missing from the log when there was no reply
to it – the engine failed, upstream failed or does not know the name, or the name is
blocked and the query asks for neither kind of address – and when the reply could not be
sent (`BancuhDns.Handler.logged_iff`).

A blocked query for a mail exchanger is answered properly, with "no such name", and is one
of those (`BancuhDns.Handler.logged_blocked_mx`).
-/

namespace BancuhDns

/-- The log after a request. -/
def logAfter (store : QueryLogStore) (trace : List Effect) : QueryLogStore :=
  (inserts trace).foldl (fun store call => store.insert call.now call.ip call.log) store

namespace Handler

/-- **A query is logged**: one entry is inserted, for the address that the query came from
and with its name and type. -/
structure Logged (request : Request) (query : Query) (trace : List Effect) : Prop where
  /-- There is one insert. -/
  inserts_eq : ∃ call, inserts trace = [call] ∧ call.ip = normalizeIp request.src ∧
    call.log.question = question query
  /-- The entry is the last one of the address. -/
  lookup_self : ∀ store, ∃ entries log,
    (logAfter store trace).logs.lookup (normalizeIp request.src) = some (entries ++ [log]) ∧
      log.question = question query
  /-- The entries of the other addresses stay as they are. -/
  lookup_of_ne : ∀ store ip, ip ≠ normalizeIp request.src →
    (logAfter store trace).logs.lookup ip = store.logs.lookup ip

variable {profile : Profile} {self : Handler} {answers : Answers} {request : Request}
  {query : Query} {records : List Record} {answer : Text}

/-- One insert for the address of the client is all there is to it. -/
theorem logged_of_inserts_eq {trace : List Effect} {call : Insert}
    (h : inserts trace = [call]) (hip : call.ip = normalizeIp request.src)
    (hquestion : call.log.question = question query) : Logged request query trace := by
  have hafter : ∀ store, logAfter store trace = store.insert call.now call.ip call.log := by
    intro store
    rw [logAfter, h]
    rfl
  refine ⟨⟨call, h, hip, hquestion⟩, fun store => ?_, fun store ip hne => ?_⟩
  · rw [hafter, ← hip, QueryLogStore.lookup_insert_self]
    exact ⟨_, call.log, rfl, hquestion⟩
  · rw [hafter]
    exact QueryLogStore.lookup_insert_of_ne _ _ _ (by rwa [hip])

/-- What is not inserted is not logged. -/
theorem not_logged_of_inserts_eq_nil {trace : List Effect} (h : inserts trace = []) :
    ¬Logged request query trace := by
  rintro ⟨⟨call, hcall, -⟩, -, -⟩
  rw [h] at hcall
  cases hcall

/-- What is left to do after an error inserts nothing. -/
theorem inserts_run_finish_error (srcIp : IpAddr) (err : HandlerError) {trace : List Effect}
    (h : inserts trace = []) :
    inserts ((finish answers srcIp request (.error err)).run trace).2 = [] := by
  rw [run_finish_error, inserts_append, h]
  rfl

/-- A query without a reply is not logged. -/
theorem inserts_of_not_replies (hquery : IsQuery request query) (srcIp : IpAddr)
    (h : ∀ records answer, ¬Replies answers query records answer) {checked : List Effect}
    (hchecked : ∀ e ∈ checked, ∃ key, e = .checkKey key) :
    inserts (handledTrace answers request srcIp checked) = [] := by
  obtain ⟨calls, err, hcalls, hexec⟩ := exec_doHandleRequest_of_not_replies hquery h checked
  rw [handledTrace, hexec]
  exact inserts_run_finish_error srcIp err (hcalls.append_of_checkKey hchecked).inserts

/-- A query with a reply is logged when the reply can be sent. -/
theorem inserts_of_replies (hquery : IsQuery request query) (srcIp : IpAddr)
    (h : Replies answers query records answer) {checked : List Effect}
    (hchecked : ∀ e ∈ checked, ∃ key, e = .checkKey key) :
    inserts (handledTrace answers request srcIp checked) =
      match answers.sendResponse 0 ⟨request.header.responseFromRequest, records⟩ with
      | .ok _ => [⟨answers.inserted, srcIp, ⟨answers.stamped, question query, answer⟩⟩]
      | .error _ => [] := by
  obtain ⟨calls, hcalls, hexec⟩ := exec_doHandleRequest_of_replies hquery h checked
  obtain ⟨hsends, hinserts, -⟩ := hcalls.append_of_checkKey hchecked
  have hreply := exec_sendReply answers request query records answer (checked ++ calls)
  simp only [← hexec, hsends, List.length_nil] at hreply
  rcases hsend : answers.sendResponse 0 ⟨request.header.responseFromRequest, records⟩ with
    err | info
  · simp only [hsend] at hreply
    rw [handledTrace, hreply]
    refine inserts_run_finish_error srcIp _ ?_
    rw [inserts_append, hinserts]
    rfl
  · simp only [hsend] at hreply
    rw [handledTrace, hreply, run_finish_ok, inserts_append, inserts_append, hinserts]
    rfl

/-- **When a query is logged.** A query that the rate limiter lets through is logged exactly
when there is a reply to it and the responder takes the reply. There is one when the engine
answers and either rewrites the name to one that is a name and that upstream can look up,
or blocks it and the query asks for an address, or leaves it alone and upstream can look
it up. -/
theorem logged_iff (hadmits : Admits profile self answers request)
    (hquery : IsQuery request query) :
    ∃ run, handleRequest answers profile self request = some run ∧
      (Logged request query (run.run []).2 ↔ ∃ records answer,
        Replies answers query records answer ∧
          ∃ info, answers.sendResponse 0 ⟨request.header.responseFromRequest, records⟩ =
            .ok info) := by
  obtain ⟨key, run, -, hrun, heq⟩ := run_handleRequest_of_admits hadmits
  have hchecked : ∀ e ∈ keyChecks self key, ∃ key, e = .checkKey key :=
    fun e => checkKey_of_mem_keyChecks
  have htrace : (run.run []).2 =
      handledTrace answers request (normalizeIp request.src) (keyChecks self key) := by
    rw [heq]
    rfl
  refine ⟨run, hrun, ?_⟩
  rw [htrace]
  constructor
  · intro hlogged
    by_contra hnone
    refine not_logged_of_inserts_eq_nil ?_ hlogged
    by_cases hreplies : ∃ records answer, Replies answers query records answer
    · obtain ⟨records, answer, hreplies⟩ := hreplies
      rw [inserts_of_replies hquery _ hreplies hchecked]
      -- there is a reply, so that it is the responder that fails
      rcases hsend : answers.sendResponse 0 ⟨request.header.responseFromRequest, records⟩ with
        err | info
      · rfl
      · exact absurd ⟨records, answer, hreplies, info, hsend⟩ hnone
    · push Not at hreplies
      exact inserts_of_not_replies hquery _ hreplies hchecked
  · rintro ⟨records, answer, hreplies, info, hsend⟩
    have hinserts := inserts_of_replies hquery (normalizeIp request.src) hreplies hchecked
    rw [hsend] at hinserts
    exact logged_of_inserts_eq hinserts rfl rfl

theorem logged_iff_forwarded :
    ∃ run, handleRequest (forwarding (.ok [])) .debug unlimited aQuery = some run ∧
      Logged aQuery ⟨"a.com.".toList, .a⟩ (run.run []).2 := by
  obtain ⟨run, hrun, hiff⟩ := logged_iff (admits_aQuery (.ok [])) ⟨rfl, rfl, rfl⟩
  exact ⟨run, hrun, hiff.mpr ⟨[], _, .forwarded rfl rfl rfl, _, rfl⟩⟩

/-- A query for the mail exchangers of `a.com.`. -/
def mxQuery : Request :=
  { aQuery with requestInfo := .ok ⟨"a.com.".toList, .other "MX".toList⟩ }

/-- The name is blocked. -/
def blocking : Answers := { forwarding (.ok []) with isBlocked := fun _ => .ok true }

/-- **A blocked query for another type than an address is not logged.** -/
theorem logged_blocked_mx :
    ¬∀ (answers : Answers) (request : Request) (query : Query),
      Admits .debug unlimited answers request → IsQuery request query →
        ∃ run, handleRequest answers .debug unlimited request = some run ∧
          Logged request query (run.run []).2 := by
  intro h
  obtain ⟨run, hrun, ⟨call, hcall, -⟩, -, -⟩ :=
    h blocking mxQuery _ ⟨.v4 0x0A000001, by decide, fun h => nomatch h⟩ ⟨rfl, rfl, rfl⟩
  obtain rfl := Option.some.inj hrun
  have hnone : ([] : List Insert) = [call] := hcall
  cases hnone

end Handler

end BancuhDns
