import BancuhDns.Handler.RateKeys
import BancuhDns.Handler.Upstream

/-!
# One response to a request

The handler sends in four places: three times in the inner function, once for each way
to answer a query, and once more in the outer one when the inner one has failed. A send
that fails is such a failure, so that two responses may be handed to the responder for
one request. Only one of them reaches the client.

What the inner function does is settled before it sends anything: from what the engine
and upstream answer comes a reply (`BancuhDns.Handler.Replies`), or an error. After that
a trace can end in three ways (`BancuhDns.Handler.Ending`) – the reply is sent and
logged, the reply cannot be sent and an error is, or there was no reply and an error is
sent – and what is to be known of the responses to a request is read off them
(`BancuhDns.Handler.OneResponse`).

All this is about a request that is handled at all. One whose key is not to be had is not: a
debug build panics before it does anything, and with a prefix of length zero it does so whether
there is a rate limiter or not. So there is one response to a request in a release build, or
with a prefix of some length, and only then (`BancuhDns.Handler.one_response_iff`).
-/

namespace BancuhDns

/-- The lookups upstream. -/
def lookups (trace : List Effect) : List (Text × RecordType) :=
  trace.filterMap fun
    | .lookup name queryType => some (name, queryType)
    | _ => none

/-- The entries that are inserted into the log. -/
def inserts (trace : List Effect) : List Insert :=
  trace.filterMap fun
    | .insert call => some call
    | _ => none

theorem lookups_append (trace trace' : List Effect) :
    lookups (trace ++ trace') = lookups trace ++ lookups trace' :=
  List.filterMap_append

theorem inserts_append (trace trace' : List Effect) :
    inserts (trace ++ trace') = inserts trace ++ inserts trace' :=
  List.filterMap_append

/-- What reaches the client was handed to the responder. -/
theorem received_eq_nil_of_sends {trace : List Effect} (h : sends trace = []) :
    received trace = [] := by
  rw [sends, List.filterMap_eq_nil_iff] at h
  refine List.filterMap_eq_nil_iff.mpr fun e he => ?_
  cases e with
  | send response ok => cases h _ he
  | _ => rfl

namespace Handler

/-- A request that is a query, and one query only. -/
structure IsQuery (request : Request) (query : Query) : Prop where
  opCode : request.header.opCode = .query
  messageType : request.header.messageType = .query
  requestInfo : request.requestInfo = .ok query

/-- **What is replied to a query**, from what the engine and upstream answer: the records,
and how the log calls them. -/
inductive Replies (answers : Answers) (query : Query) : List Record → Text → Prop
  | rewritten {target cname : Text} {records : List Record}
      (hredirect : answers.getRedirect query.name = .ok (some target))
      (hname : answers.nameFromUtf8 target = .ok cname)
      (hlookup : lookupResult (answers.lookup target query.queryType) = .ok records) :
      Replies answers query (⟨query.name, 60, .cname cname⟩ :: records)
        ("rewritten: ".toList ++ target)
  | blockedA (hredirect : answers.getRedirect query.name = .ok none)
      (hblocked : answers.isBlocked query.name = .ok true) (htype : query.queryType = .a) :
      Replies answers query [⟨query.name, 60, .a 0⟩] "blocked".toList
  | blockedAaaa (hredirect : answers.getRedirect query.name = .ok none)
      (hblocked : answers.isBlocked query.name = .ok true) (htype : query.queryType = .aaaa) :
      Replies answers query [⟨query.name, 60, .aaaa 0⟩] "blocked".toList
  | forwarded {records : List Record} (hredirect : answers.getRedirect query.name = .ok none)
      (hblocked : answers.isBlocked query.name = .ok false)
      (hlookup : lookupResult (answers.lookup query.name query.queryType) = .ok records) :
      Replies answers query records "forwarded".toList

/-- **A rewritten name is answered with its alias first.** -/
theorem Replies.exists_cname {answers : Answers} {query : Query} {records : List Record}
    {answer target : Text} (h : Replies answers query records answer)
    (hredirect : answers.getRedirect query.name = .ok (some target)) :
    ∃ cname others, answers.nameFromUtf8 target = .ok cname ∧
      records = ⟨query.name, 60, .cname cname⟩ :: others := by
  cases h with
  | @rewritten target' cname others hredirect' hname _ =>
    obtain rfl : target = target' :=
      Option.some.inj (Except.ok.inj (hredirect.symm.trans hredirect'))
    exact ⟨cname, others, hname, rfl⟩
  | blockedA hnone => cases hredirect.symm.trans hnone
  | blockedAaaa hnone => cases hredirect.symm.trans hnone
  | forwarded hnone => cases hredirect.symm.trans hnone

/-- The question of a query, as the log has it. -/
def question (query : Query) : Text := query.name ++ ' ' :: query.queryType.display

/-- What the inner function does last when there is a reply. -/
def sendReply (answers : Answers) (request : Request) (query : Query) (records : List Record)
    (answer : Text) : Act (ResponseInfo × Text × Text) := do
  let info ← sendResponse answers request records
  return (info, question query, answer)

/-- Calls that ask upstream once at most, and neither send nor log. -/
structure Quiet (calls : List Effect) : Prop where
  sends : sends calls = []
  inserts : inserts calls = []
  lookups : (lookups calls).length ≤ 1

variable {profile : Profile} {self : Handler} {answers : Answers} {request : Request}
  {query : Query} {records : List Record} {answer : Text}

/-! ### The inner function -/

/-- A request that is no query is an error at once. -/
theorem exec_doHandleRequest_of_not_isQuery (answers : Answers)
    (h : ∀ query, ¬IsQuery request query) (trace : List Effect) :
    ∃ err, Act.exec (doHandleRequest answers request) trace = (.error err, trace) := by
  by_cases hop : request.header.opCode = .query
  · by_cases htype : request.header.messageType = .query
    · rcases hinfo : request.requestInfo with err | query
      · refine ⟨HandlerError.servFail err, ?_⟩
        simp [doHandleRequest, hop, htype, hinfo, Except.mapError]
      · exact absurd ⟨hop, htype, hinfo⟩ (h query)
    · refine ⟨HandlerError.refused "Unsupported MessageType".toList, ?_⟩
      simp [doHandleRequest, hop, htype]
  · refine ⟨HandlerError.refused "Unsupported OpCode".toList, ?_⟩
    simp only [doHandleRequest, ne_eq, hop, not_false_eq_true, if_true, Act.exec_bind,
      Act.exec_throw]

/-- **A query with a reply**: some calls are made, and the reply is sent. -/
theorem exec_doHandleRequest_of_replies (hquery : IsQuery request query)
    (h : Replies answers query records answer) (trace : List Effect) :
    ∃ calls, Quiet calls ∧ Act.exec (doHandleRequest answers request) trace =
      Act.exec (sendReply answers request query records answer) (trace ++ calls) := by
  obtain ⟨hop, htype, hinfo⟩ := hquery
  cases h with
  | @rewritten target cname records hredirect hname hlookup =>
    refine ⟨[.getRedirect query.name, .lookup target query.queryType], ⟨rfl, rfl, le_rfl⟩, ?_⟩
    simp [doHandleRequest, hop, htype, hinfo, hredirect, hname, hlookup, Except.mapError, sendReply,
      question]
  | blockedA hredirect hblocked hA =>
    refine ⟨[.getRedirect query.name, .isBlocked query.name], ⟨rfl, rfl, zero_le_one⟩, ?_⟩
    simp [doHandleRequest, hop, htype, hinfo, hredirect, hblocked, hA, Except.mapError, sendReply,
      question]
  | blockedAaaa hredirect hblocked hAaaa =>
    refine ⟨[.getRedirect query.name, .isBlocked query.name], ⟨rfl, rfl, zero_le_one⟩, ?_⟩
    simp [doHandleRequest, hop, htype, hinfo, hredirect, hblocked, hAaaa, Except.mapError,
      sendReply, question]
  | forwarded hredirect hblocked hlookup =>
    refine ⟨[.getRedirect query.name, .isBlocked query.name, .lookup query.name query.queryType],
      ⟨rfl, rfl, le_rfl⟩, ?_⟩
    simp [doHandleRequest, hop, htype, hinfo, hredirect, hblocked, hlookup, Except.mapError,
      sendReply, question]

/-- **A query without a reply**: some calls are made, and there is an error. -/
theorem exec_doHandleRequest_of_not_replies (hquery : IsQuery request query)
    (h : ∀ records answer, ¬Replies answers query records answer) (trace : List Effect) :
    ∃ calls err, Quiet calls ∧
      Act.exec (doHandleRequest answers request) trace = (.error err, trace ++ calls) := by
  obtain ⟨hop, htype, hinfo⟩ := hquery
  rcases hredirect : answers.getRedirect query.name with err | _ | target
  · refine ⟨[.getRedirect query.name], HandlerError.servFail (answers.engineError err),
      ⟨rfl, rfl, zero_le_one⟩, ?_⟩
    simp [doHandleRequest, hop, htype, hinfo, hredirect, Except.mapError]
  · rcases hblocked : answers.isBlocked query.name with err | _ | _
    · refine ⟨[.getRedirect query.name, .isBlocked query.name],
        HandlerError.servFail (answers.engineError err), ⟨rfl, rfl, zero_le_one⟩, ?_⟩
      simp [doHandleRequest, hop, htype, hinfo, hredirect, hblocked, Except.mapError]
    · rcases hlookup : lookupResult (answers.lookup query.name query.queryType) with err | records
      · refine ⟨[.getRedirect query.name, .isBlocked query.name,
          .lookup query.name query.queryType], HandlerError.ofResolveError err,
          ⟨rfl, rfl, le_rfl⟩, ?_⟩
        simp [doHandleRequest, hop, htype, hinfo, hredirect, hblocked, hlookup, Except.mapError]
      · exact absurd (.forwarded hredirect hblocked hlookup) (h records _)
    · rcases htypes : query.queryType with _ | _ | text
      · exact absurd (.blockedA hredirect hblocked htypes) (h _ _)
      · exact absurd (.blockedAaaa hredirect hblocked htypes) (h _ _)
      · refine ⟨[.getRedirect query.name, .isBlocked query.name],
          HandlerError.nxDomain query.name, ⟨rfl, rfl, zero_le_one⟩, ?_⟩
        simp [doHandleRequest, hop, htype, hinfo, hredirect, hblocked, htypes, Except.mapError]
  · rcases hname : answers.nameFromUtf8 target with err | cname
    · refine ⟨[.getRedirect query.name], HandlerError.servFail err, ⟨rfl, rfl, zero_le_one⟩, ?_⟩
      simp [doHandleRequest, hop, htype, hinfo, hredirect, hname, Except.mapError]
    · rcases hlookup : lookupResult (answers.lookup target query.queryType) with err | records
      · refine ⟨[.getRedirect query.name, .lookup target query.queryType],
          HandlerError.ofResolveError err, ⟨rfl, rfl, le_rfl⟩, ?_⟩
        simp [doHandleRequest, hop, htype, hinfo, hredirect, hname, hlookup, Except.mapError]
      · exact absurd (.rewritten hredirect hname hlookup) (h _ _)

/-- The reply is sent, and what then is returned goes by whether it could be. -/
theorem exec_sendReply (answers : Answers) (request : Request) (query : Query)
    (records : List Record) (answer : Text) (trace : List Effect) :
    let response := ⟨request.header.responseFromRequest, records⟩
    Act.exec (sendReply answers request query records answer) trace =
      match answers.sendResponse (sends trace).length response with
      | .ok info => (.ok (info, question query, answer), trace ++ [.send response true])
      | .error err => (.error (HandlerError.servFail err), trace ++ [.send response false]) := by
  simp only [sendReply, Act.exec_bind, exec_sendResponse, Act.exec_pure]
  cases answers.sendResponse (sends trace).length ⟨request.header.responseFromRequest, records⟩ <;>
    rfl

/-! ### The ends of a trace -/

/-- **How a trace ends**: what the inner function sends, and what comes after it. -/
inductive Ending (answers : Answers) : List Effect → List Effect → Prop
  /-- The reply is sent, and logged. -/
  | logged (response : MessageResponse) (call : Insert) :
      Ending answers [.send response true] [.insert call]
  /-- There is no reply, and an error is sent. -/
  | failed (n : ℕ) (response : MessageResponse) :
      Ending answers [] [.send response (answers.sendResponse n response).isOk]
  /-- The reply cannot be sent, and an error is sent in its place. -/
  | retried (n n' : ℕ) (response response' : MessageResponse)
      (h : (answers.sendResponse n response).isOk = false) :
      Ending answers [.send response false]
        [.send response' (answers.sendResponse n' response').isOk]

/-- **One response**: what is to be known of the trace of a request, given the trace up to
the end of the inner function. -/
structure RepliedOnce (answers : Answers) (inner trace : List Effect) : Prop where
  /-- At most one response reaches the client. -/
  received_le : (received trace).length ≤ 1
  /-- One response does when the responder never fails. -/
  received_eq : (∀ n response, ∃ info, answers.sendResponse n response = .ok info) →
    (received trace).length = 1
  /-- After a response has reached the client no other is handed to the responder. -/
  sends_eq_nil : ∀ before response after, trace = before ++ .send response true :: after →
    sends after = []
  /-- Upstream is asked at most once. -/
  lookups_le : (lookups trace).length ≤ 1
  /-- At most one entry is inserted into the log. -/
  inserts_le : (inserts trace).length ≤ 1
  /-- One is exactly when the response that reaches the client is that of the inner
  function. -/
  inserts_iff : inserts trace ≠ [] ↔ received inner ≠ []

/-- Checking keys is quiet. -/
theorem Quiet.append_of_checkKey {checked calls : List Effect}
    (hchecked : ∀ e ∈ checked, ∃ key, e = .checkKey key) (hcalls : Quiet calls) :
    Quiet (checked ++ calls) where
  sends := by
    rw [sends_append, hcalls.sends, BancuhDns.sends,
      filterMap_eq_nil_of_checkKey (fun _ => rfl) hchecked, List.append_nil]
  inserts := by
    rw [inserts_append, hcalls.inserts, BancuhDns.inserts,
      filterMap_eq_nil_of_checkKey (fun _ => rfl) hchecked, List.append_nil]
  lookups := by
    rw [lookups_append, BancuhDns.lookups,
      filterMap_eq_nil_of_checkKey (fun _ => rfl) hchecked, List.nil_append]
    exact hcalls.lookups

/-- What is sent after quiet calls is sent behind them. -/
theorem Quiet.exists_eq_append {calls l before rest : List Effect} (hcalls : Quiet calls)
    {response : MessageResponse} {ok : Bool}
    (h : calls ++ l = before ++ .send response ok :: rest) :
    ∃ before', l = before' ++ .send response ok :: rest := by
  rcases List.append_eq_append_iff.mp h with ⟨before', rfl, hl⟩ | ⟨after, rfl, hl⟩
  · exact ⟨before', hl⟩
  · rcases after with _ | ⟨e, after⟩
    · exact ⟨[], hl.symm⟩
    · obtain rfl : .send response ok = e := (List.cons.inj hl).1
      have hsends := hcalls.sends
      rw [sends_append] at hsends
      cases (List.append_eq_nil_iff.mp hsends).2

namespace Ending

variable {sent after : List Effect}

theorem length_received_le (h : Ending answers sent after) :
    (received (sent ++ after)).length ≤ 1 := by
  cases h with
  | logged response call => exact le_rfl
  | failed n response => cases (answers.sendResponse n response).isOk <;> simp [received]
  | retried n n' response response' hfail =>
    cases (answers.sendResponse n' response').isOk <;> simp [received]

theorem length_received_eq (h : Ending answers sent after)
    (hok : ∀ n response, ∃ info, answers.sendResponse n response = .ok info) :
    (received (sent ++ after)).length = 1 := by
  have hisOk : ∀ n response, (answers.sendResponse n response).isOk = true := by
    intro n response
    obtain ⟨info, hinfo⟩ := hok n response
    rw [hinfo]
    rfl
  cases h with
  | logged response call => rfl
  | failed n response =>
    rw [hisOk]
    rfl
  | retried n n' response response' hfail =>
    rw [hisOk] at hfail
    cases hfail

/-- A response that is received is the last one that is sent. -/
theorem sends_eq_nil (h : Ending answers sent after) {before rest : List Effect}
    {response : MessageResponse} (heq : sent ++ after = before ++ .send response true :: rest) :
    sends rest = [] := by
  cases h with
  | logged _ call =>
    rcases before with _ | ⟨e, _ | ⟨e', l⟩⟩ <;> simp at heq
    rw [← heq.2]
    rfl
  | failed n _ =>
    rcases before with _ | ⟨e, l⟩ <;> simp at heq
    rw [heq.2]
    rfl
  | retried n n' _ _ hfail =>
    rcases before with _ | ⟨e, _ | ⟨e', l⟩⟩ <;> simp at heq
    rw [heq.2.2]
    rfl

theorem lookups_eq_nil (h : Ending answers sent after) : lookups (sent ++ after) = [] := by
  cases h <;> rfl

theorem length_inserts_le (h : Ending answers sent after) :
    (inserts (sent ++ after)).length ≤ 1 := by
  cases h with
  | logged response call => exact le_rfl
  | failed n response => exact zero_le_one
  | retried n n' response response' hfail => exact zero_le_one

/-- An entry is inserted when the inner function has sent what is received. -/
theorem inserts_ne_nil_iff (h : Ending answers sent after) :
    inserts (sent ++ after) ≠ [] ↔ received sent ≠ [] := by
  cases h <;> simp [inserts, received]

/-- **What is read off the end of a trace.** -/
theorem repliedOnce {calls : List Effect} (h : Ending answers sent after)
    (hcalls : Quiet calls) : RepliedOnce answers (calls ++ sent) (calls ++ (sent ++ after)) := by
  have hreceived := received_eq_nil_of_sends hcalls.sends
  refine ⟨?_, fun hok => ?_, fun before response rest heq => ?_, ?_, ?_, ?_⟩
  · rw [received_append, hreceived]
    exact h.length_received_le
  · rw [received_append, hreceived]
    exact h.length_received_eq hok
  · obtain ⟨before', heq'⟩ := hcalls.exists_eq_append heq
    exact h.sends_eq_nil heq'
  · rw [lookups_append, h.lookups_eq_nil, List.append_nil]
    exact hcalls.lookups
  · rw [inserts_append, hcalls.inserts]
    exact h.length_inserts_le
  · rw [inserts_append, hcalls.inserts, received_append, hreceived]
    exact h.inserts_ne_nil_iff

end Ending

/-! ### A whole request -/

/-- The trace of a request that has been let through, `checked` being the trace so far. -/
def handledTrace (answers : Answers) (request : Request) (srcIp : IpAddr)
    (checked : List Effect) : List Effect :=
  let inner := Act.exec (doHandleRequest answers request) checked
  ((finish answers srcIp request inner.1).run inner.2).2

/-- A request whose trace, once its key has been checked, is some quiet calls, what the
inner function sends, and what comes after it. -/
def Ends (answers : Answers) (request : Request) (srcIp : IpAddr) (checked : List Effect) :
    Prop :=
  ∃ calls sent after, Quiet calls ∧ Ending answers sent after ∧
    (Act.exec (doHandleRequest answers request) checked).2 = checked ++ calls ++ sent ∧
    handledTrace answers request srcIp checked = checked ++ calls ++ (sent ++ after)

/-- An error before anything is sent is sent itself. -/
theorem ends_of_error {srcIp : IpAddr} {checked calls : List Effect} {err : HandlerError}
    (hcalls : Quiet calls)
    (hexec : Act.exec (doHandleRequest answers request) checked = (.error err, checked ++ calls)) :
    Ends answers request srcIp checked := by
  refine ⟨calls, [], _, hcalls, .failed (sends (checked ++ calls)).length
    (.errorMsg request.header.responseFromRequest err.code), ?_, ?_⟩
  · rw [hexec, List.append_nil]
  · rw [handledTrace, hexec, run_finish_error]
    rfl

/-- A reply is sent and logged, or else an error is sent. -/
theorem ends_of_replies {srcIp : IpAddr} {checked : List Effect} (hquery : IsQuery request query)
    (hreplies : Replies answers query records answer) : Ends answers request srcIp checked := by
  obtain ⟨calls, hcalls, hexec⟩ := exec_doHandleRequest_of_replies hquery hreplies checked
  set response : MessageResponse := ⟨request.header.responseFromRequest, records⟩ with hresponse
  have hreply := exec_sendReply answers request query records answer (checked ++ calls)
  simp only [← hexec, ← hresponse] at hreply
  rcases hsend : answers.sendResponse (sends (checked ++ calls)).length response with err | info
  · rw [hsend] at hreply
    refine ⟨calls, [.send response false], _, hcalls,
      .retried (sends (checked ++ calls)).length
        (sends (checked ++ calls ++ [.send response false])).length response
        (.errorMsg request.header.responseFromRequest .servFail) ?_, ?_, ?_⟩
    · rw [hsend]
      rfl
    · rw [hreply]
    · rw [handledTrace, hreply, run_finish_error, ← List.append_assoc]
      rfl
  · rw [hsend] at hreply
    refine ⟨calls, _, _, hcalls, .logged response
      ⟨answers.inserted, srcIp, ⟨answers.stamped, question query, answer⟩⟩, ?_, ?_⟩
    · rw [hreply]
    · rw [handledTrace, hreply, run_finish_ok, List.append_assoc]

/-- **Every request ends** in one of the three ways. -/
theorem ends (answers : Answers) (request : Request) (srcIp : IpAddr) (checked : List Effect) :
    Ends answers request srcIp checked := by
  by_cases hquery : ∃ query, IsQuery request query
  · obtain ⟨query, hquery⟩ := hquery
    by_cases hreplies : ∃ records answer, Replies answers query records answer
    · obtain ⟨records, answer, hreplies⟩ := hreplies
      exact ends_of_replies hquery hreplies
    · push Not at hreplies
      obtain ⟨calls, err, hcalls, hexec⟩ :=
        exec_doHandleRequest_of_not_replies hquery hreplies checked
      exact ends_of_error hcalls hexec
  · push Not at hquery
    obtain ⟨err, hexec⟩ := exec_doHandleRequest_of_not_isQuery answers hquery checked
    exact ends_of_error ⟨rfl, rfl, zero_le_one⟩ (by rw [hexec, List.append_nil])

/-- **A request that the rate limiter turns away.** -/
def RateLimited (profile : Profile) (self : Handler) (answers : Answers) (request : Request) :
    Prop :=
  self.rateLimiter = true ∧ ∃ key, maskIp profile (normalizeIp request.src)
    self.rateLimitIpv4Prefix self.rateLimitIpv6Prefix = some key ∧ answers.checkKey key = false

/-- A release build shifts by any amount. -/
theorem maskBits_release_ne_none {w : ℕ} (bits : BitVec w) (ipPrefix : UInt8) :
    maskBits .release bits ipPrefix ≠ none := by
  rw [maskBits]
  unfold shl
  split_ifs <;> exact Option.some_ne_none _

/-- **When a key is to be had**: in a release build, or for a prefix of some length. -/
theorem exists_key_iff {ip : IpAddr} {ipv4Prefix ipv6Prefix : UInt8} :
    (∃ key, maskIp profile ip ipv4Prefix ipv6Prefix = some key) ↔
      profile = .release ∨ 0 < ip.prefixLen ipv4Prefix ipv6Prefix := by
  rw [UInt8.lt_iff_toNat_lt, UInt8.toNat_zero]
  constructor
  · rintro ⟨key, hkey⟩
    cases profile with
    | release => exact Or.inl rfl
    | debug =>
      refine Or.inr (Nat.pos_of_ne_zero fun hzero => ?_)
      rw [maskIp_debug_zero hzero] at hkey
      cases hkey
  · rintro (rfl | hpos)
    · refine Option.ne_none_iff_exists'.mp fun h => ?_
      cases ip with
      | v4 bits => exact maskBits_release_ne_none bits _ (Option.map_eq_none_iff.mp h)
      | v6 bits => exact maskBits_release_ne_none bits _ (Option.map_eq_none_iff.mp h)
    · exact ⟨_, maskIp_of_pos hpos⟩

/-- The trace of a request. One over whose key the handler panics leaves nothing. -/
def traceOf (profile : Profile) (self : Handler) (answers : Answers) (request : Request) :
    List Effect :=
  match handleRequest answers profile self request with
  | some run => (run.run []).2
  | none => []

/-- Its trace up to the end of the inner function, if it gets there. -/
def innerTraceOf (profile : Profile) (self : Handler) (answers : Answers) (request : Request) :
    List Effect :=
  match maskIp profile (normalizeIp request.src) self.rateLimitIpv4Prefix
      self.rateLimitIpv6Prefix with
  | some key => (Act.exec (doHandleRequest answers request) (keyChecks self key)).2
  | none => []

/-- **One response to a request.** One that the rate limiter turns away leaves nothing but the
check of its key: nothing is sent, nobody is asked, nothing is logged. Any other is replied to
once. -/
structure OneResponse (profile : Profile) (handler : Handler) (answers : Answers)
    (request : Request) : Prop where
  limited : RateLimited profile handler answers request →
    ∃ key, traceOf profile handler answers request = [.checkKey key]
  replied : ¬RateLimited profile handler answers request →
    innerTraceOf profile handler answers request <+: traceOf profile handler answers request ∧
      RepliedOnce answers (innerTraceOf profile handler answers request)
        (traceOf profile handler answers request)

/-- A request that is handled has a key. -/
theorem exists_key_of_handled {run : Traced ResponseInfo}
    (h : handleRequest answers profile self request = some run) :
    ∃ key, maskIp profile (normalizeIp request.src) self.rateLimitIpv4Prefix
      self.rateLimitIpv6Prefix = some key := by
  obtain ⟨key, hkey, -⟩ := Option.bind_eq_some_iff.mp h
  exact ⟨key, hkey⟩

theorem traceOf_of_handled {run : Traced ResponseInfo}
    (h : handleRequest answers profile self request = some run) :
    traceOf profile self answers request = (run.run []).2 := by
  rw [traceOf, h]

/-- A request that is turned away leaves nothing but the check of its key. -/
theorem traceOf_of_rateLimited (h : RateLimited profile self answers request) :
    ∃ key, traceOf profile self answers request = [.checkKey key] := by
  obtain ⟨hlimiter, key, hkey, hcheck⟩ := h
  refine ⟨key, ?_⟩
  rw [traceOf, handleRequest, hkey, hlimiter]
  simp only [Option.bind_eq_bind, Option.bind_some, hcheck]
  rfl

/-- A request that is let through is handled, and nothing but the check of its key comes
before. -/
theorem traceOf_of_admits (h : Admits profile self answers request) :
    ∃ checked, (∀ e ∈ checked, ∃ key, e = .checkKey key) ∧
      innerTraceOf profile self answers request =
        (Act.exec (doHandleRequest answers request) checked).2 ∧
      traceOf profile self answers request =
        handledTrace answers request (normalizeIp request.src) checked := by
  obtain ⟨key, run, hkey, hrun, heq⟩ := run_handleRequest_of_admits h
  refine ⟨keyChecks self key, fun e => checkKey_of_mem_keyChecks, by rw [innerTraceOf, hkey], ?_⟩
  rw [traceOf_of_handled hrun, heq]
  rfl

/-- A request that is let through is replied to once. -/
theorem repliedOnce_of_admits (h : Admits profile self answers request) :
    innerTraceOf profile self answers request <+: traceOf profile self answers request ∧
      RepliedOnce answers (innerTraceOf profile self answers request)
        (traceOf profile self answers request) := by
  obtain ⟨checked, hchecked, hinner, htrace⟩ := traceOf_of_admits h
  obtain ⟨calls, sent, after, hcalls, hending, hsent, hhandled⟩ :=
    ends answers request (normalizeIp request.src) checked
  rw [hinner, hsent, htrace, hhandled]
  refine ⟨⟨after, (List.append_assoc ..)⟩, ?_⟩
  exact hending.repliedOnce (hcalls.append_of_checkKey hchecked)

/-- A request whose key is to be had is turned away or let through. -/
theorem admits_of_not_rateLimited {key : IpAddr} (hkey : maskIp profile (normalizeIp request.src)
    self.rateLimitIpv4Prefix self.rateLimitIpv6Prefix = some key)
    (h : ¬RateLimited profile self answers request) : Admits profile self answers request := by
  refine ⟨key, hkey, fun hlimiter => ?_⟩
  by_contra hcheck
  exact h ⟨hlimiter, key, hkey, Bool.eq_false_of_not_eq_true hcheck⟩

/-- **A request whose key is to be had has one response.** -/
theorem oneResponse_of_key {key : IpAddr} (hkey : maskIp profile (normalizeIp request.src)
    self.rateLimitIpv4Prefix self.rateLimitIpv6Prefix = some key) :
    OneResponse profile self answers request where
  limited := traceOf_of_rateLimited
  replied hlimited := repliedOnce_of_admits (admits_of_not_rateLimited hkey hlimited)

/-- Without a key nothing is sent, and a responder that never fails is of no use. -/
theorem not_oneResponse_of_no_key (hkey : maskIp profile (normalizeIp request.src)
      self.rateLimitIpv4Prefix self.rateLimitIpv6Prefix = none)
    (hsends : ∀ n response, ∃ info, answers.sendResponse n response = .ok info) :
    ¬OneResponse profile self answers request := by
  intro hone
  have hlimited : ¬RateLimited profile self answers request := by
    rintro ⟨-, key, hkey', -⟩
    cases hkey.symm.trans hkey'
  have htrace : traceOf profile self answers request = [] := by
    rw [traceOf, handleRequest, hkey]
    rfl
  have hreceived := (hone.replied hlimited).2.received_eq hsends
  rw [htrace] at hreceived
  cases hreceived

/-- **When there is one response to a request**, whatever the rate limiter, the engine, upstream
and the responder answer: in a release build, or when the prefix length for the family of the
address is not zero, and in no other case.

Then a request that the rate limiter turns away leaves nothing but the check of its key. For any
other one response at most reaches the client, and exactly one if the responder never fails;
nothing is sent after it; upstream is asked once at most; and there is one log entry or none, one
exactly when the response is that of `do_handle_request`. -/
theorem one_response_iff (profile : Profile) (self : Handler) (request : Request) :
    (∀ answers, OneResponse profile self answers request) ↔
      profile = .release ∨ 0 <
        (normalizeIp request.src).prefixLen self.rateLimitIpv4Prefix self.rateLimitIpv6Prefix := by
  rw [← exists_key_iff]
  constructor
  · intro h
    refine Option.ne_none_iff_exists'.mp fun hnone => ?_
    exact not_oneResponse_of_no_key hnone (fun _ response => ⟨⟨response.header⟩, rfl⟩)
      (h (forwarding (.ok [])))
  · rintro ⟨key, hkey⟩ answers
    exact oneResponse_of_key hkey

/-- **A prefix of length zero.** In a debug build a query from 10.0.0.1 is not replied to, though
no limiter drops it and everyone answers. -/
theorem one_response_zero :
    ¬∀ (profile : Profile) (self : Handler) (answers : Answers) (request : Request),
      OneResponse profile self answers request := by
  intro h
  refine not_oneResponse_of_no_key ?_ (fun _ response => ⟨⟨response.header⟩, rfl⟩)
    (h .debug ⟨false, 0, 48⟩ (forwarding (.ok [])) aQuery)
  decide

end Handler

end BancuhDns
