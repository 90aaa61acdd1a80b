import BancuhDns.Engine
import BancuhDns.QueryLog
import BancuhDns.RateLimiter

/-!
# The request handler

What becomes of one request: it is dropped when its network sends too many, and else
answered – rewritten, blocked or forwarded – and logged; when something fails on the
way, an error is sent in place of the answer and nothing is logged.

The handler calls on others all the time: the rate limiter, the engine, the resolver
upstream, the responder that it answers through, the clock. What they answer during the
request is given beforehand (`BancuhDns.Answers`), and what the handler asks of them is
kept in a trace, in the order in which it happens (`BancuhDns.Effect`). So the trace of
a request shows what was sent to the client, what was asked of whom and what was logged.
-/

namespace BancuhDns

/-! ### Messages -/

/-- `hickory_proto::op::ResponseCode`. -/
inductive ResponseCode where
  | noError
  | formErr
  | servFail
  | nxDomain
  | notImp
  | refused
  | yxDomain
  | yxrrSet
  | nxrrSet
  | notAuth
  | notZone
  | badVers
  | badSig
  | badKey
  | badTime
  | badMode
  | badName
  | badAlg
  | badTrunc
  | badCookie
  | unknown (code : UInt16)
  deriving DecidableEq

/-- `hickory_proto::op::OpCode`. -/
inductive OpCode where
  | query
  | status
  | notify
  | update
  | unknown (code : UInt8)
  deriving DecidableEq

/-- `hickory_proto::op::MessageType`. -/
inductive MessageType where
  | query
  | response
  deriving DecidableEq

/-- `hickory_proto::rr::RecordType`, the types that the handler tells apart by name and
the others by their text. -/
inductive RecordType where
  | a
  | aaaa
  | other (text : Text)
  deriving DecidableEq

/-- `RecordType`'s `Display`. -/
def RecordType.display : RecordType → Text
  | .a => "A".toList
  | .aaaa => "AAAA".toList
  | .other text => text

/-- `hickory_proto::rr::RData`. -/
inductive RData where
  | cname (target : Text)
  | a (addr : BitVec 32)
  | aaaa (addr : BitVec 128)
  | other (text : Text)
  deriving DecidableEq

/-- `hickory_proto::rr::Record`. -/
structure Record where
  name : Text
  ttl : ℕ
  rdata : RData
  deriving DecidableEq

/-- `hickory_proto::op::Header`. -/
structure Header where
  id : UInt16
  messageType : MessageType
  opCode : OpCode
  responseCode : ResponseCode
  deriving DecidableEq

/-- `Header::new`. -/
def Header.new : Header := ⟨0, .query, .query, .noError⟩

/-- `Header::response_from_request`: a success, until it is given another code. -/
def Header.responseFromRequest (header : Header) : Header :=
  { header with messageType := .response, responseCode := .noError }

/-- A query: the text of its name, and its type. -/
structure Query where
  name : Text
  queryType : RecordType
  deriving DecidableEq

/-- `hickory_server::server::Request`. -/
structure Request where
  src : SocketAddr
  header : Header
  /-- `request_info`, which wants exactly one query. -/
  requestInfo : Except Text Query

/-- A response, as `MessageResponseBuilder` builds it. -/
structure MessageResponse where
  header : Header
  answers : List Record
  deriving DecidableEq

/-- `MessageResponseBuilder::error_msg`. -/
def MessageResponse.errorMsg (header : Header) (code : ResponseCode) : MessageResponse :=
  ⟨{ header with responseCode := code }, []⟩

/-- `hickory_server::server::ResponseInfo`: the header of what was sent. -/
structure ResponseInfo where
  header : Header
  deriving DecidableEq

/-! ### Errors -/

/-- `hickory_resolver::ResolveError`: no records, with the response code that said so, or
anything else. -/
inductive ResolveError where
  | noRecordsFound (responseCode : ResponseCode) (message : Text)
  | other (message : Text)
  deriving DecidableEq

namespace ResolveError

/-- `ResolveError::is_no_records_found`. -/
def isNoRecordsFound : ResolveError → Bool
  | .noRecordsFound _ _ => true
  | .other _ => false

/-- `ResolveError::is_nx_domain`. -/
def isNxDomain : ResolveError → Bool
  | .noRecordsFound code _ => code == .nxDomain
  | .other _ => false

/-- `ResolveError`'s `Display`. -/
def message : ResolveError → Text
  | .noRecordsFound _ message => message
  | .other message => message

end ResolveError

/-- `HandlerError`. -/
structure HandlerError where
  code : ResponseCode
  message : Text
  deriving DecidableEq

namespace HandlerError

/-- `HandlerError::refused`. -/
def refused (msg : Text) : HandlerError := ⟨.refused, msg⟩

/-- `HandlerError::serv_fail`. -/
def servFail (err : Text) : HandlerError := ⟨.servFail, err⟩

/-- `HandlerError::nx_domain`. -/
def nxDomain (domain : Text) : HandlerError := ⟨.nxDomain, "No record found for ".toList ++ domain⟩

/-- `From<ResolveError>`. -/
def ofResolveError (err : ResolveError) : HandlerError :=
  if err.isNxDomain || err.isNoRecordsFound then nxDomain err.message else servFail err.message

end HandlerError

/-! ### The handler and those it calls -/

/-- `normalize_ip`. -/
def normalizeIp (addr : SocketAddr) : IpAddr :=
  match addr.ip with
  | .v6 v6 =>
    -- an address that stands for an IPv4 one is made that one again
    match Ipv6Addr.toIpv4Mapped v6 with
    | some v4 => .v4 v4
    | none => .v6 v6
  | ip => ip

/-- `Handler`, but for those that it calls. -/
structure Handler where
  /-- Whether there is a rate limiter. -/
  rateLimiter : Bool
  rateLimitIpv4Prefix : UInt8
  rateLimitIpv6Prefix : UInt8

/-- What is answered to the handler during one request. -/
structure Answers where
  /-- `check_key` of the rate limiter: whether the query is let through. -/
  checkKey : IpAddr → Bool
  /-- `get_redirect` of the engine. -/
  getRedirect : Text → Except EngineError (Option Text)
  /-- `is_blocked` of the engine. -/
  isBlocked : Text → Except EngineError Bool
  /-- `Display` of an error of the engine. -/
  engineError : EngineError → Text
  /-- `Name::from_utf8`: the text of the name, or that of the error. -/
  nameFromUtf8 : Text → Except Text Text
  /-- The lookup of a name upstream. -/
  lookup : Text → RecordType → Except ResolveError (List Record)
  /-- `send_response` of the responder, which was handed so many responses before. -/
  sendResponse : ℕ → MessageResponse → Except Text ResponseInfo
  /-- The clock when the entry is stamped. -/
  stamped : ℤ
  /-- The clock when it is inserted. -/
  inserted : ℤ

/-- What the handler asks of others. -/
inductive Effect where
  | checkKey (key : IpAddr)
  | getRedirect (name : Text)
  | isBlocked (name : Text)
  | lookup (name : Text) (queryType : RecordType)
  | send (response : MessageResponse) (ok : Bool)
  | insert (call : Insert)

/-- A computation that leaves a trace. -/
abbrev Traced := StateM (List Effect)

/-- A computation that leaves a trace and may fail. -/
abbrev Act := ExceptT HandlerError Traced

/-- Leave something in the trace. -/
def emit (e : Effect) : Traced Unit := modify fun trace => trace ++ [e]

/-- `?`, with the conversion of the error. -/
def orFail {ε α : Type} (convert : ε → HandlerError) (r : Traced (Except ε α)) : Act α :=
  ExceptT.mk do return (← r).mapError convert

/-- The responses handed to the responder. -/
def sends (trace : List Effect) : List MessageResponse :=
  trace.filterMap fun
    | .send response _ => some response
    | _ => none

/-- The responses that reached the client. -/
def received (trace : List Effect) : List MessageResponse :=
  trace.filterMap fun
    | .send response true => some response
    | _ => none

theorem sends_append (trace trace' : List Effect) :
    sends (trace ++ trace') = sends trace ++ sends trace' :=
  List.filterMap_append

theorem received_append (trace trace' : List Effect) :
    received (trace ++ trace') = received trace ++ received trace' :=
  List.filterMap_append

/-- Where keys are checked, and nothing else, there is nothing else to be found. -/
theorem filterMap_eq_nil_of_checkKey {α : Type} {f : Effect → Option α} {trace : List Effect}
    (hf : ∀ key, f (.checkKey key) = none) (h : ∀ e ∈ trace, ∃ key, e = .checkKey key) :
    trace.filterMap f = [] :=
  List.filterMap_eq_nil_iff.mpr fun e he => by
    obtain ⟨key, rfl⟩ := h e he
    exact hf key

theorem received_eq_nil_of_checkKey {trace : List Effect}
    (h : ∀ e ∈ trace, ∃ key, e = .checkKey key) : received trace = [] :=
  filterMap_eq_nil_of_checkKey (fun _ => rfl) h

/-- What `Resolver::lookup` makes of the answer upstream. -/
def lookupResult : Except ResolveError (List Record) → Except ResolveError (List Record)
  | .ok records => .ok records
  | .error err => if err.isNoRecordsFound && !err.isNxDomain then .ok [] else .error err

namespace Answers

variable (answers : Answers)

/-- `AdblockEngine::get_redirect`, as it is called. -/
def callGetRedirect (name : Text) : Traced (Except EngineError (Option Text)) := do
  emit (.getRedirect name)
  return answers.getRedirect name

/-- `AdblockEngine::is_blocked`, as it is called. -/
def callIsBlocked (name : Text) : Traced (Except EngineError Bool) := do
  emit (.isBlocked name)
  return answers.isBlocked name

/-- `ResponseHandler::send_response`, as it is called. -/
def callSendResponse (response : MessageResponse) : Traced (Except Text ResponseInfo) := do
  let answer := answers.sendResponse (sends (← get)).length response
  emit (.send response answer.isOk)
  return answer

/-- `Resolver::lookup`. -/
def resolverLookup (name : Text) (queryType : RecordType) :
    Traced (Except ResolveError (List Record)) := do
  emit (.lookup name queryType)
  return lookupResult (answers.lookup name queryType)

end Answers

namespace Handler

variable (answers : Answers)

/-- `Handler::send_response`. -/
def sendResponse (request : Request) (records : List Record) : Act ResponseInfo :=
  let header := request.header.responseFromRequest
  orFail HandlerError.servFail (answers.callSendResponse ⟨header, records⟩)

/-- `Handler::do_handle_request`. -/
def doHandleRequest (request : Request) : Act (ResponseInfo × Text × Text) := do
  if request.header.opCode ≠ .query then
    throw (.refused "Unsupported OpCode".toList)
  if request.header.messageType ≠ .query then
    throw (.refused "Unsupported MessageType".toList)
  let query ← orFail HandlerError.servFail (pure request.requestInfo)
  let name := query.name
  let question := name ++ ' ' :: query.queryType.display
  let engineFails := fun err => HandlerError.servFail (answers.engineError err)
  match ← orFail engineFails (answers.callGetRedirect name) with
  | some target =>
    let cname ← orFail HandlerError.servFail (pure (answers.nameFromUtf8 target))
    let record : Record := ⟨name, 60, .cname cname⟩
    let targetRecords ← orFail HandlerError.ofResolveError
      (answers.resolverLookup target query.queryType)
    let info ← sendResponse answers request (record :: targetRecords)
    return (info, question, "rewritten: ".toList ++ target)
  | none =>
    if ← orFail engineFails (answers.callIsBlocked name) then
      match query.queryType with
      | .a =>
        let info ← sendResponse answers request [⟨name, 60, .a 0⟩]
        return (info, question, "blocked".toList)
      | .aaaa =>
        let info ← sendResponse answers request [⟨name, 60, .aaaa 0⟩]
        return (info, question, "blocked".toList)
      -- there is no null record of the other types
      | _ => throw (.nxDomain name)
    else
      let records ← orFail HandlerError.ofResolveError
        (answers.resolverLookup name query.queryType)
      let info ← sendResponse answers request records
      return (info, question, "forwarded".toList)

/-- What is left to do when the answer has been sent, or could not be. -/
def finish (srcIp : IpAddr) (request : Request) :
    Except HandlerError (ResponseInfo × Text × Text) → Traced ResponseInfo
  | .ok (info, question, answer) => do
    emit (.insert ⟨answers.inserted, srcIp, ⟨answers.stamped, question, answer⟩⟩)
    return info
  | .error err => do
    let header := request.header.responseFromRequest
    match ← answers.callSendResponse (.errorMsg header err.code) with
    | .ok info => return info
    | .error _ => return ⟨{ Header.new with responseCode := .servFail }⟩

/-- `RequestHandler::handle_request`; `none` is a panic. -/
def handleRequest (profile : Profile) (self : Handler) (request : Request) :
    Option (Traced ResponseInfo) := do
  let srcIp := normalizeIp request.src
  let rateKey ← maskIp profile srcIp self.rateLimitIpv4Prefix self.rateLimitIpv6Prefix
  return do
    if self.rateLimiter then
      emit (.checkKey rateKey)
      -- a query too many is dropped without an answer
      if !answers.checkKey rateKey then
        return ⟨{ Header.new with responseCode := .refused }⟩
    finish answers srcIp request (← (doHandleRequest answers request).run)

end Handler

/-! ### Running -/

/-- A computation from a trace: its result, and the trace it leaves. -/
def Act.exec {α : Type} (act : Act α) (trace : List Effect) :
    Except HandlerError α × List Effect :=
  StateT.run (m := Id) act.run trace

namespace Act

variable {α β ε : Type} (trace : List Effect)

@[simp] theorem exec_pure (a : α) : exec (pure a) trace = (.ok a, trace) := rfl

@[simp] theorem exec_throw (err : HandlerError) :
    exec (throw err : Act α) trace = (.error err, trace) := rfl

@[simp] theorem exec_bind (act : Act α) (f : α → Act β) :
    exec (act >>= f) trace =
      match exec act trace with
      | (.ok a, trace') => exec (f a) trace'
      | (.error err, trace') => (.error err, trace') := by
  rw [exec, exec, ExceptT.run_bind]
  simp only [StateT.run_bind]
  rcases h : StateT.run (m := Id) act.run trace with ⟨a | err, trace'⟩ <;> rfl

/-- A result that needs no call leaves no trace. -/
@[simp] theorem exec_orFail_pure (convert : ε → HandlerError) (r : Except ε α) :
    exec (orFail convert (pure r)) trace = (r.mapError convert, trace) := rfl

end Act

namespace Answers

variable (answers : Answers) (trace : List Effect)

@[simp] theorem exec_callGetRedirect (convert : EngineError → HandlerError) (name : Text) :
    Act.exec (orFail convert (answers.callGetRedirect name)) trace =
      ((answers.getRedirect name).mapError convert, trace ++ [.getRedirect name]) := rfl

@[simp] theorem exec_callIsBlocked (convert : EngineError → HandlerError) (name : Text) :
    Act.exec (orFail convert (answers.callIsBlocked name)) trace =
      ((answers.isBlocked name).mapError convert, trace ++ [.isBlocked name]) := rfl

@[simp] theorem exec_resolverLookup (convert : ResolveError → HandlerError) (name : Text)
    (queryType : RecordType) :
    Act.exec (orFail convert (answers.resolverLookup name queryType)) trace =
      ((lookupResult (answers.lookup name queryType)).mapError convert,
        trace ++ [.lookup name queryType]) := rfl

theorem run_callSendResponse (response : MessageResponse) :
    (answers.callSendResponse response).run trace =
      (answers.sendResponse (sends trace).length response,
        trace ++ [.send response (answers.sendResponse (sends trace).length response).isOk]) := rfl

end Answers

namespace Handler

/-- A request that the rate limiter, if there is one, lets through. -/
def Admits (profile : Profile) (self : Handler) (answers : Answers) (request : Request) : Prop :=
  ∃ key, maskIp profile (normalizeIp request.src) self.rateLimitIpv4Prefix
      self.rateLimitIpv6Prefix = some key ∧
    (self.rateLimiter = true → answers.checkKey key = true)

variable {profile : Profile} {self : Handler} {answers : Answers} {request : Request}

theorem exec_sendResponse (records : List Record) (trace : List Effect) :
    Act.exec (sendResponse answers request records) trace =
      let response := ⟨request.header.responseFromRequest, records⟩
      let answer := answers.sendResponse (sends trace).length response
      (answer.mapError HandlerError.servFail, trace ++ [.send response answer.isOk]) := rfl

/-- An answer that was sent is logged. -/
theorem run_finish_ok (srcIp : IpAddr) (answer : ResponseInfo × Text × Text)
    (trace : List Effect) :
    (finish answers srcIp request (.ok answer)).run trace =
      (answer.1, trace ++ [.insert ⟨answers.inserted, srcIp,
        ⟨answers.stamped, answer.2.1, answer.2.2⟩⟩]) := rfl

/-- An error is sent. -/
theorem run_finish_error (srcIp : IpAddr) (err : HandlerError) (trace : List Effect) :
    ((finish answers srcIp request (.error err)).run trace).2 =
      let response := .errorMsg request.header.responseFromRequest err.code
      trace ++ [.send response (answers.sendResponse (sends trace).length response).isOk] := by
  simp only [finish, StateT.run_bind, Answers.run_callSendResponse]
  generalize answers.sendResponse _ _ = answer
  cases answer <;> rfl

/-- The check of a key, if there is a limiter. -/
def keyChecks (self : Handler) (key : IpAddr) : List Effect :=
  if self.rateLimiter then [.checkKey key] else []

theorem checkKey_of_mem_keyChecks {key : IpAddr} {e : Effect} (h : e ∈ keyChecks self key) :
    ∃ key, e = .checkKey key := by
  rw [keyChecks] at h
  split_ifs at h
  · exact ⟨key, List.mem_singleton.mp h⟩
  · cases h

/-- **A request that is let through** is handled: nothing but the check of its key comes
before. -/
theorem run_handleRequest_of_admits (h : Admits profile self answers request) :
    ∃ key run, maskIp profile (normalizeIp request.src) self.rateLimitIpv4Prefix
        self.rateLimitIpv6Prefix = some key ∧
      handleRequest answers profile self request = some run ∧
      run.run [] =
        (finish answers (normalizeIp request.src) request
          (Act.exec (doHandleRequest answers request) (keyChecks self key)).1).run
            (Act.exec (doHandleRequest answers request) (keyChecks self key)).2 := by
  obtain ⟨key, hkey, hcheck⟩ := h
  refine ⟨key, _, hkey, by rw [handleRequest, hkey]; rfl, ?_⟩
  rw [keyChecks]
  cases hlimiter : self.rateLimiter with
  | false => rfl
  | true =>
    rw [hcheck hlimiter]
    rfl

end Handler

end BancuhDns
