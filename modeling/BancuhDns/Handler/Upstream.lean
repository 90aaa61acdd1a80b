import BancuhDns.Handler

/-!
# How a failure upstream is answered

What upstream answers is classified twice on its way to the client. `Resolver::lookup`
makes a success with no records of a failure that found none, unless the name does not
exist; and the conversion of its errors makes "no such name" of what is left of the
failures that found none, and a server failure of all others.

The first of these is meant for the response code `NoError`, and takes in every other
one as well. So a refusal or a server failure upstream reaches the client as a success
(`BancuhDns.Handler.upstream_servFail`); any other answer reaches it as it should
(`BancuhDns.Handler.upstream_code_iff`).
-/

namespace BancuhDns

/-- What a client should be told of an answer upstream. -/
def properCode : Except ResolveError (List Record) → ResponseCode
  | .ok _ => .noError
  | .error (.noRecordsFound .noError _) => .noError
  | .error (.noRecordsFound .nxDomain _) => .nxDomain
  | .error _ => .servFail

namespace Handler

/-- **The name that is looked up upstream**: that of the query when it is neither rewritten
nor blocked, and else the one that it is rewritten to. -/
inductive Asks (answers : Answers) (query : Query) : Text → Prop
  | forward (hredirect : answers.getRedirect query.name = .ok none)
      (hblocked : answers.isBlocked query.name = .ok false) : Asks answers query query.name
  | rewrite {target cname : Text} (hredirect : answers.getRedirect query.name = .ok (some target))
      (hname : answers.nameFromUtf8 target = .ok cname) : Asks answers query target

variable {profile : Profile} {self : Handler} {answers : Answers} {request : Request}
  {query : Query} {asked : Text}

/-- The code that a client is told after both classifications. -/
def toldCode (answer : Except ResolveError (List Record)) : ResponseCode :=
  match lookupResult answer with
  | .ok _ => .noError
  | .error err => (HandlerError.ofResolveError err).code

/-- **The two classifications together.** -/
theorem toldCode_eq_properCode_iff (answer : Except ResolveError (List Record)) :
    toldCode answer = properCode answer ↔
      ∀ code message, answer = .error (.noRecordsFound code message) →
        code = .noError ∨ code = .nxDomain := by
  rcases answer with (⟨code, message⟩ | message) | records
  · cases code <;> simp [toldCode, lookupResult, properCode, ResolveError.isNoRecordsFound,
      ResolveError.isNxDomain, HandlerError.ofResolveError, HandlerError.nxDomain]
  · simp [toldCode, lookupResult, properCode, ResolveError.isNoRecordsFound,
      ResolveError.isNxDomain, HandlerError.ofResolveError, HandlerError.servFail]
  · simp [toldCode, lookupResult, properCode]

/-! ### One request -/

/-- **What the inner handler does with an answer upstream**: it fails with the error that is
left of it, or sends the records that are left of it. -/
theorem exec_doHandleRequest_of_asks (hop : request.header.opCode = .query)
    (htype : request.header.messageType = .query) (hquery : request.requestInfo = .ok query)
    (hasks : Asks answers query asked) (trace : List Effect) :
    ∃ calls lead answer, received calls = [] ∧
      Act.exec (doHandleRequest answers request) trace =
        match lookupResult (answers.lookup asked query.queryType) with
        | .ok records => Act.exec (do
            let info ← sendResponse answers request (lead ++ records)
            return (info, query.name ++ ' ' :: query.queryType.display, answer)) (trace ++ calls)
        | .error err => (.error (HandlerError.ofResolveError err), trace ++ calls) := by
  cases hasks with
  | forward hredirect hblocked =>
    refine ⟨[.getRedirect query.name, .isBlocked query.name, .lookup query.name query.queryType],
      [], "forwarded".toList, rfl, ?_⟩
    simp only [doHandleRequest, hop, htype, ne_eq, not_true_eq_false, if_false, Act.exec_bind,
      Act.exec_pure, hquery, Act.exec_orFail_pure, Answers.exec_callGetRedirect, hredirect,
      Answers.exec_callIsBlocked, hblocked, Answers.exec_resolverLookup, Except.mapError,
      Bool.false_eq_true, List.append_assoc, List.nil_append, List.cons_append]
    cases lookupResult (answers.lookup query.name query.queryType) <;> rfl
  | @rewrite _ cname hredirect hname =>
    refine ⟨[.getRedirect query.name, .lookup asked query.queryType],
      [⟨query.name, 60, .cname cname⟩], "rewritten: ".toList ++ asked, rfl, ?_⟩
    simp only [doHandleRequest, hop, htype, ne_eq, not_true_eq_false, if_false, Act.exec_bind,
      Act.exec_pure, hquery, Act.exec_orFail_pure, Answers.exec_callGetRedirect, hredirect,
      hname, Answers.exec_resolverLookup, Except.mapError, List.append_assoc, List.cons_append,
      List.nil_append]
    cases lookupResult (answers.lookup asked query.queryType) <;> rfl

/-- **One response**: a request whose name is looked up upstream gets one, with the code
that is made of the answer. -/
theorem exists_response_of_asks (hadmits : Admits profile self answers request)
    (hop : request.header.opCode = .query) (htype : request.header.messageType = .query)
    (hquery : request.requestInfo = .ok query) (hasks : Asks answers query asked)
    (hsend : ∀ n response, ∃ info, answers.sendResponse n response = .ok info) :
    ∃ run response, handleRequest answers profile self request = some run ∧
      received (run.run []).2 = [response] ∧
      response.header.responseCode = toldCode (answers.lookup asked query.queryType) := by
  obtain ⟨key, run, -, hrun, heq⟩ := run_handleRequest_of_admits hadmits
  have hchecked : ∀ e ∈ keyChecks self key, ∃ key, e = .checkKey key :=
    fun e => checkKey_of_mem_keyChecks
  obtain ⟨calls, lead, answer, hcalls, hexec⟩ :=
    exec_doHandleRequest_of_asks hop htype hquery hasks (keyChecks self key)
  refine ⟨run, ?_⟩
  rw [heq, hexec, toldCode]
  cases lookupResult (answers.lookup asked query.queryType) with
  | ok records =>
    -- the records are sent, and then the entry is inserted
    set response : MessageResponse := ⟨request.header.responseFromRequest, lead ++ records⟩
      with hresponse
    obtain ⟨info, hinfo⟩ := hsend (sends (keyChecks self key ++ calls)).length response
    refine ⟨response, hrun, ?_, rfl⟩
    simp only [Act.exec_bind, exec_sendResponse, ← hresponse, hinfo, Except.mapError,
      Act.exec_pure, Except.isOk, Except.toBool, run_finish_ok, received_append,
      received_eq_nil_of_checkKey hchecked, hcalls]
    rfl
  | error err =>
    -- the error is sent, and nothing more happens
    set response : MessageResponse :=
      .errorMsg request.header.responseFromRequest (HandlerError.ofResolveError err).code
      with hresponse
    obtain ⟨info, hinfo⟩ := hsend (sends (keyChecks self key ++ calls)).length response
    refine ⟨response, hrun, ?_, rfl⟩
    simp only [run_finish_error, ← hresponse, hinfo, Except.isOk, Except.toBool, received_append,
      received_eq_nil_of_checkKey hchecked, hcalls]
    rfl

/-- **When a failure upstream is answered as it should be.** A request that is looked up
upstream – under its own name or under the one that it is rewritten to – is sent one
response, with a responder that does not fail. Its code is the proper one exactly when
upstream did not find that there are no records with a response code other than `NoError`
and `NXDomain`. -/
theorem upstream_code_iff (hadmits : Admits profile self answers request)
    (hop : request.header.opCode = .query) (htype : request.header.messageType = .query)
    (hquery : request.requestInfo = .ok query) (hasks : Asks answers query asked)
    (hsend : ∀ n response, ∃ info, answers.sendResponse n response = .ok info) :
    ∃ run response, handleRequest answers profile self request = some run ∧
      received (run.run []).2 = [response] ∧
      (response.header.responseCode = properCode (answers.lookup asked query.queryType) ↔
        ∀ code message,
          answers.lookup asked query.queryType = .error (.noRecordsFound code message) →
            code = .noError ∨ code = .nxDomain) := by
  obtain ⟨run, response, hrun, hreceived, hcode⟩ :=
    exists_response_of_asks hadmits hop htype hquery hasks hsend
  refine ⟨run, response, hrun, hreceived, ?_⟩
  rw [hcode]
  exact toldCode_eq_properCode_iff _

/-- A query for `a.com.`. -/
def aQuery : Request where
  src := ⟨.v4 0x0A000001, 53⟩
  header := ⟨1, .query, .query, .noError⟩
  requestInfo := .ok ⟨"a.com.".toList, .a⟩

/-- A handler without a rate limiter. -/
def unlimited : Handler := ⟨false, 32, 48⟩

/-- The name is forwarded, and upstream answers as given. -/
def forwarding (answer : Except ResolveError (List Record)) : Answers where
  checkKey _ := true
  getRedirect _ := .ok none
  isBlocked _ := .ok false
  engineError _ := []
  nameFromUtf8 name := .ok name
  lookup _ _ := answer
  sendResponse _ response := .ok ⟨response.header⟩
  stamped := 0
  inserted := 0

theorem admits_aQuery (answer : Except ResolveError (List Record)) :
    Admits .debug unlimited (forwarding answer) aQuery :=
  ⟨.v4 0x0A000001, by decide, fun h => nomatch h⟩

theorem upstream_code_iff_nxDomain :
    ∃ run response,
      handleRequest (forwarding (.error (.noRecordsFound .nxDomain []))) .debug unlimited aQuery =
          some run ∧
        received (run.run []).2 = [response] ∧ response.header.responseCode = .nxDomain := by
  obtain ⟨run, response, hrun, hreceived, hcode⟩ :=
    upstream_code_iff (admits_aQuery (.error (.noRecordsFound .nxDomain []))) rfl rfl rfl
      (.forward rfl rfl) fun _ response => ⟨⟨response.header⟩, rfl⟩
  refine ⟨run, response, hrun, hreceived, hcode.mpr fun code message h => ?_⟩
  exact Or.inr (ResolveError.noRecordsFound.inj (Except.error.inj h)).1.symm

/-- **A server failure upstream is answered as a success.** -/
theorem upstream_servFail :
    ¬∀ (answers : Answers) (request : Request) (query : Query) (asked : Text),
      Admits .debug unlimited answers request → request.header.opCode = .query →
      request.header.messageType = .query → request.requestInfo = .ok query →
      Asks answers query asked →
      (∀ n response, ∃ info, answers.sendResponse n response = .ok info) →
        ∃ run response, handleRequest answers .debug unlimited request = some run ∧
          received (run.run []).2 = [response] ∧
          response.header.responseCode = properCode (answers.lookup asked query.queryType) := by
  intro h
  obtain ⟨run, response, hrun, hreceived, hcode⟩ :=
    h (forwarding (.error (.noRecordsFound .servFail []))) aQuery _ _ (admits_aQuery _) rfl rfl rfl
      (.forward rfl rfl) fun _ response => ⟨⟨response.header⟩, rfl⟩
  obtain rfl := Option.some.inj hrun
  have hsent : [(⟨⟨1, .response, .query, .noError⟩, []⟩ : MessageResponse)] = [response] :=
    hreceived
  rw [← (List.cons.inj hsent).1] at hcode
  cases hcode

end Handler

end BancuhDns
