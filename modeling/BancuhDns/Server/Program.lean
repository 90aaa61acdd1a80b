import BancuhDns.Handler.Replies
import BancuhDns.Lib.Dialog

/-!
# The handler as a task among others

The server handles many requests at once, and each of them is a task of its own that gives
way to the others whenever it waits: for the engine, for upstream, for the client. Here the
handler is written a second time, as a program that asks (`Dialog`): line by line the one of
`BancuhDns.Handler.handleRequest`, except that nothing is said about where the answers come
from.

The two agree when the answers are those given beforehand
(`BancuhDns.Server.Simulates.handleRequest`). And whatever a task is answered in the course of
time, there are answers that could have been given beforehand: of every kind of question it
asks no more than a few (`BancuhDns.Server.Within.handleRequest`), and nothing twice but to
send a response.
-/

namespace BancuhDns

namespace Server

/-- What the handler asks of others. -/
inductive Call where
  /-- `check_key` of the rate limiter. -/
  | checkKey (key : IpAddr)
  /-- `get_redirect` of the engine. -/
  | getRedirect (name : Text)
  /-- `is_blocked` of the engine. -/
  | isBlocked (name : Text)
  /-- The lookup of a name upstream. -/
  | lookup (name : Text) (queryType : RecordType)
  /-- `send_response` of the responder. -/
  | send (response : MessageResponse)
  /-- `Utc::now`, for the stamp of the entry. -/
  | now
  /-- `insert` of the query log. -/
  | insert (ip : IpAddr) (log : QueryLog)
  deriving DecidableEq

/-- What is answered. For an insert it is the time that it reads under the lock, which the
handler does not get to see. -/
abbrev Call.Answer : Call → Type
  | .checkKey _ => Bool
  | .getRedirect _ => Except EngineError (Option Text)
  | .isBlocked _ => Except EngineError Bool
  | .lookup _ _ => Except ResolveError (List Record)
  | .send _ => Except Text ResponseInfo
  | .now => ℤ
  | .insert _ _ => ℤ

/-- A task of the server. -/
abbrev Talk := Dialog Call Call.Answer

/-- A task of the server that may fail. -/
abbrev TalkAct := ExceptT HandlerError Talk

/-- The conversions between names, texts and errors. -/
structure Conversions where
  /-- `Display` of an error of the engine. -/
  engineError : EngineError → Text
  /-- `Name::from_utf8`: the text of the name, or that of the error. -/
  nameFromUtf8 : Text → Except Text Text

/-- `?`, with the conversion of the error. -/
def orFail {ε α : Type} (convert : ε → HandlerError) (r : Talk (Except ε α)) : TalkAct α :=
  ExceptT.mk do return (← r).mapError convert

/-- `Resolver::lookup`. -/
def resolverLookup (name : Text) (queryType : RecordType) :
    Talk (Except ResolveError (List Record)) := do
  return lookupResult (← Dialog.call (Call.lookup name queryType))

/-- `Handler::send_response`. -/
def sendResponse (request : Request) (records : List Record) : TalkAct ResponseInfo :=
  let header := request.header.responseFromRequest
  orFail HandlerError.servFail (Dialog.call (Call.send ⟨header, records⟩))

variable (cv : Conversions)

/-- `Handler::do_handle_request`. -/
def doHandleRequest (request : Request) : TalkAct (ResponseInfo × Text × Text) := do
  if request.header.opCode ≠ .query then
    throw (.refused "Unsupported OpCode".toList)
  if request.header.messageType ≠ .query then
    throw (.refused "Unsupported MessageType".toList)
  let query ← orFail HandlerError.servFail (pure request.requestInfo)
  let name := query.name
  let question := name ++ ' ' :: query.queryType.display
  let engineFails := fun err => HandlerError.servFail (cv.engineError err)
  match ← orFail engineFails (Dialog.call (Call.getRedirect name)) with
  | some target =>
    let cname ← orFail HandlerError.servFail (pure (cv.nameFromUtf8 target))
    let record : Record := ⟨name, 60, .cname cname⟩
    let targetRecords ← orFail HandlerError.ofResolveError
      (resolverLookup target query.queryType)
    let info ← sendResponse request (record :: targetRecords)
    return (info, question, "rewritten: ".toList ++ target)
  | none =>
    if ← orFail engineFails (Dialog.call (Call.isBlocked name)) then
      match query.queryType with
      | .a =>
        let info ← sendResponse request [⟨name, 60, .a 0⟩]
        return (info, question, "blocked".toList)
      | .aaaa =>
        let info ← sendResponse request [⟨name, 60, .aaaa 0⟩]
        return (info, question, "blocked".toList)
      -- there is no null record of the other types
      | _ => throw (.nxDomain name)
    else
      let records ← orFail HandlerError.ofResolveError (resolverLookup name query.queryType)
      let info ← sendResponse request records
      return (info, question, "forwarded".toList)

/-- What is left to do when the answer has been sent, or could not be. -/
def finish (srcIp : IpAddr) (request : Request) :
    Except HandlerError (ResponseInfo × Text × Text) → Talk ResponseInfo
  | .ok (info, question, answer) => do
    let queryTime ← Dialog.call Call.now
    let _ ← Dialog.call (Call.insert srcIp ⟨queryTime, question, answer⟩)
    return info
  | .error err => do
    let header := request.header.responseFromRequest
    match ← Dialog.call (Call.send (.errorMsg header err.code)) with
    | .ok info => return info
    | .error _ => return ⟨{ Header.new with responseCode := .servFail }⟩

/-- `RequestHandler::handle_request`; a task that panics returns `none`. -/
def handleRequest (profile : Profile) (self : Handler) (request : Request) :
    Talk (Option ResponseInfo) := do
  let srcIp := normalizeIp request.src
  match maskIp profile srcIp self.rateLimitIpv4Prefix self.rateLimitIpv6Prefix with
  | none => return none
  | some rateKey =>
    if self.rateLimiter then
      -- a query too many is dropped without an answer
      if !(← Dialog.call (Call.checkKey rateKey)) then
        return some ⟨{ Header.new with responseCode := .refused }⟩
    return some (← finish srcIp request (← (doHandleRequest cv request).run))

/-! ### The same answers -/

/-- What an exchange leaves in the trace of a request. Reading the clock leaves nothing. -/
def effect : Dialog.Exchange Call.Answer → Option Effect
  | ⟨.checkKey key, _⟩ => some (.checkKey key)
  | ⟨.getRedirect name, _⟩ => some (.getRedirect name)
  | ⟨.isBlocked name, _⟩ => some (.isBlocked name)
  | ⟨.lookup name queryType, _⟩ => some (.lookup name queryType)
  | ⟨.send response, answer⟩ =>
    let answer : Except Text ResponseInfo := answer
    some (.send response answer.isOk)
  | ⟨.now, _⟩ => none
  | ⟨.insert ip log, now⟩ => some (.insert ⟨now, ip, log⟩)

/-- The trace that some exchanges leave. -/
def effects (d : List (Dialog.Exchange Call.Answer)) : List Effect := d.filterMap effect

theorem effects_append (d d' : List (Dialog.Exchange Call.Answer)) :
    effects (d ++ d') = effects d ++ effects d' :=
  List.filterMap_append

/-- Answers given beforehand. -/
def oracle (answers : Answers) : Dialog.Oracle Call.Answer
  | _, .checkKey key => answers.checkKey key
  | _, .getRedirect name => answers.getRedirect name
  | _, .isBlocked name => answers.isBlocked name
  | _, .lookup name queryType => answers.lookup name queryType
  -- a response goes by how many have been handed over before
  | past, .send response => answers.sendResponse (sends (effects past)).length response
  | _, .now => answers.stamped
  | _, .insert _ _ => answers.inserted

/-- The conversions that come with some answers. -/
def conversionsOf (answers : Answers) : Conversions := ⟨answers.engineError, answers.nameFromUtf8⟩

/-- **A task does what a computation does** that is given the same answers beforehand. -/
def Simulates {α : Type} (answers : Answers) (p : Talk α) (act : Traced α) : Prop :=
  ∀ past, act.run (effects past) =
    ((p.run (oracle answers) past).1, effects (p.run (oracle answers) past).2)

namespace Simulates

variable {α β ε : Type} {answers : Answers}

theorem pure (a : α) : Simulates answers (pure a) (pure a) := fun _ => rfl

theorem bind {p : Talk α} {act : Traced α} {f : α → Talk β} {g : α → Traced β}
    (h : Simulates answers p act) (hf : ∀ a, Simulates answers (f a) (g a)) :
    Simulates answers (p >>= f) (act >>= g) := by
  intro past
  rw [StateT.run_bind, Dialog.run_bind, h past]
  exact hf _ _

/-- Computations that may fail, one after the other. -/
theorem bindAct {p : TalkAct α} {act : Act α} {f : α → TalkAct β} {g : α → Act β}
    (h : Simulates answers p.run act.run) (hf : ∀ a, Simulates answers (f a).run (g a).run) :
    Simulates answers (p >>= f).run (act >>= g).run := by
  rw [ExceptT.run_bind, ExceptT.run_bind]
  refine bind h fun r => ?_
  cases r with
  | error err => exact pure _
  | ok a => exact hf a

theorem orFail {p : Talk (Except ε α)} {act : Traced (Except ε α)} (convert : ε → HandlerError)
    (h : Simulates answers p act) :
    Simulates answers (Server.orFail convert p).run (BancuhDns.orFail convert act).run :=
  bind h fun _ => pure _

/-- A call that leaves one effect. -/
theorem call (q : Call) (act : Traced q.Answer) {e : Effect}
    (heffect : ∀ past, effect ⟨q, oracle answers past q⟩ = some e)
    (hact : ∀ past, act.run (effects past) = (oracle answers past q, effects past ++ [e])) :
    Simulates answers (Dialog.call q) act := by
  intro past
  have hone : effects [⟨q, oracle answers past q⟩] = [e] :=
    List.filterMap_cons_some (heffect past)
  rw [hact, Dialog.run_call, effects_append, hone]

theorem callSendResponse (answers : Answers) (response : MessageResponse) :
    Simulates answers (Dialog.call (Call.send response)) (answers.callSendResponse response) := by
  intro past
  refine (Answers.run_callSendResponse answers (effects past) response).trans ?_
  rw [Dialog.run_call, effects_append]
  rfl

theorem resolverLookup (answers : Answers) (name : Text) (queryType : RecordType) :
    Simulates answers (Server.resolverLookup name queryType)
      (answers.resolverLookup name queryType) :=
  bind (call (.lookup name queryType) (do
    emit (.lookup name queryType)
    return answers.lookup name queryType) (fun _ => rfl) fun _ => rfl) fun _ => pure _

theorem sendResponse (answers : Answers) (request : Request) (records : List Record) :
    Simulates answers (Server.sendResponse request records).run
      (Handler.sendResponse answers request records).run :=
  orFail _ (callSendResponse answers _)

end Simulates

/-! ### The whole handler -/

theorem Simulates.doHandleRequest (answers : Answers) (request : Request) :
    Simulates answers (Server.doHandleRequest (conversionsOf answers) request).run
      (Handler.doHandleRequest answers request).run := by
  unfold Server.doHandleRequest Handler.doHandleRequest
  split_ifs with hop htype
  · exact .pure _
  · exact .pure _
  · exact .pure _
  refine .bindAct (.orFail _ (.pure _)) fun query => ?_
  refine .bindAct (.orFail _ (.call (.getRedirect query.name) _ (fun _ => rfl)
    fun _ => rfl)) fun found => ?_
  cases found with
  | some target =>
    refine .bindAct (.orFail _ (.pure _)) fun cname => ?_
    refine .bindAct (.orFail _ (.resolverLookup answers target query.queryType)) fun records => ?_
    exact .bindAct (.sendResponse answers request _) fun info => .pure _
  | none =>
    refine .bindAct (.orFail _ (.call (.isBlocked query.name) _ (fun _ => rfl)
      fun _ => rfl)) fun blocked => ?_
    cases blocked with
    | true =>
      cases query.queryType with
      | a => exact .bindAct (.sendResponse answers request _) fun info => .pure _
      | aaaa => exact .bindAct (.sendResponse answers request _) fun info => .pure _
      | other text => exact .pure _
    | false =>
      refine .bindAct (.orFail _ (.resolverLookup answers query.name query.queryType))
        fun records => ?_
      exact .bindAct (.sendResponse answers request _) fun info => .pure _

theorem Simulates.finish (answers : Answers) (srcIp : IpAddr) (request : Request)
    (result : Except HandlerError (ResponseInfo × Text × Text)) :
    Simulates answers (Server.finish srcIp request result)
      (Handler.finish answers srcIp request result) := by
  cases result with
  | ok result =>
    obtain ⟨info, question, answer⟩ := result
    have hnow : Simulates answers (Dialog.call Call.now) (Pure.pure answers.stamped) := by
      intro past
      rw [Dialog.run_call, effects_append]
      exact congrArg (Prod.mk answers.stamped) (List.append_nil _).symm
    exact hnow.bind fun queryTime => .bind
      (.call (.insert srcIp ⟨queryTime, question, answer⟩) (do
        emit (.insert ⟨answers.inserted, srcIp, ⟨queryTime, question, answer⟩⟩)
        return answers.inserted) (fun _ => rfl) fun _ => rfl) fun _ => .pure _
  | error err =>
    refine .bind (callSendResponse answers _) fun sent => ?_
    cases sent <;> exact .pure _

variable {answers : Answers} {profile : Profile} {self : Handler} {request : Request}

/-- Both handlers panic over the same keys. -/
theorem handleRequest_eq_done (cv : Conversions)
    (h : Handler.handleRequest answers profile self request = none) :
    handleRequest cv profile self request = .done none := by
  have hkey : maskIp profile (normalizeIp request.src) self.rateLimitIpv4Prefix
      self.rateLimitIpv6Prefix = none := by
    by_contra hsome
    obtain ⟨key, hkey⟩ := Option.ne_none_iff_exists'.mp hsome
    rw [Handler.handleRequest, hkey] at h
    cases h
  rw [handleRequest, hkey]
  rfl

/-- **The two handlers agree** when the answers are given beforehand. -/
theorem Simulates.handleRequest {act : Traced ResponseInfo}
    (h : Handler.handleRequest answers profile self request = some act) :
    Simulates answers (Server.handleRequest (conversionsOf answers) profile self request)
      (some <$> act) := by
  rcases hkey : maskIp profile (normalizeIp request.src) self.rateLimitIpv4Prefix
    self.rateLimitIpv6Prefix with _ | key
  · rw [Handler.handleRequest, hkey] at h
    cases h
  · have hadmitted : Simulates answers (do
        return some (← Server.finish (normalizeIp request.src) request
          (← (Server.doHandleRequest (conversionsOf answers) request).run)))
        (some <$> ((Handler.doHandleRequest answers request).run >>=
          Handler.finish answers (normalizeIp request.src) request)) :=
      .bind (.doHandleRequest answers request) fun result =>
        .bind (.finish answers _ request result) fun _ => .pure _
    rw [Handler.handleRequest, hkey] at h
    obtain rfl := Option.some.inj h
    rw [Server.handleRequest, hkey]
    cases self.rateLimiter with
    | false => exact hadmitted
    | true =>
      have hcheck : Simulates answers (Dialog.call (Call.checkKey key)) (do
          emit (.checkKey key)
          return answers.checkKey key) :=
        .call (.checkKey key) _ (fun _ => rfl) fun _ => rfl
      refine hcheck.bind (g := fun admitted => some <$>
        if !admitted then Pure.pure ⟨{ Header.new with responseCode := .refused }⟩
        else (Handler.doHandleRequest answers request).run >>=
          Handler.finish answers (normalizeIp request.src) request) fun admitted => ?_
      cases admitted with
      | false => exact .pure _
      | true => exact hadmitted

/-! ### How much a task asks -/

/-- The kinds of calls. -/
inductive Call.Kind where
  | checkKey
  | getRedirect
  | isBlocked
  | lookup
  | send
  | now
  | insert
  deriving DecidableEq

/-- The kind of a call. -/
def Call.kind : Call → Kind
  | .checkKey _ => .checkKey
  | .getRedirect _ => .getRedirect
  | .isBlocked _ => .isBlocked
  | .lookup _ _ => .lookup
  | .send _ => .send
  | .now => .now
  | .insert _ _ => .insert

/-- What a request may ask: everything once, and to send a response twice. -/
def budget : List Call.Kind :=
  [.checkKey, .getRedirect, .isBlocked, .lookup, .send, .now, .insert, .send]

/-- Within a budget of calls. -/
abbrev Within {α : Type} (b : List Call.Kind) (p : Talk α) : Prop := p.AsksWithin Call.kind b

namespace Within

variable {α β ε : Type} {b : List Call.Kind}

theorem call {q : Call} : Within [q.kind] (Dialog.call q) :=
  Dialog.asksWithin_call (List.mem_singleton_self _)

theorem bindAct (b b' : List Call.Kind) {p : TalkAct α} {f : α → TalkAct β}
    (h : Within b p.run) (hf : ∀ a, Within b' (f a).run) : Within (b ++ b') (p >>= f).run := by
  rw [ExceptT.run_bind]
  refine Dialog.AsksWithin.bind h fun r => ?_
  cases r with
  | error err => trivial
  | ok a => exact hf a

theorem orFail {convert : ε → HandlerError} {r : Talk (Except ε α)} (h : Within b r) :
    Within b (Server.orFail convert r).run := by
  have hbind : Within (b ++ []) (r >>= fun x => (pure (x.mapError convert) : Talk _)) :=
    Dialog.AsksWithin.bind h fun _ => trivial
  rwa [List.append_nil] at hbind

theorem orFailCall {convert : ε → HandlerError} {r : Talk (Except ε α)} (b b' : List Call.Kind)
    {f : α → TalkAct β} (h : Within b r) (hf : ∀ a, Within b' (f a).run) :
    Within (b ++ b') (Server.orFail convert r >>= f).run :=
  bindAct b b' (orFail h) hf

theorem resolverLookup {name : Text} {queryType : RecordType} :
    Within [.lookup] (Server.resolverLookup name queryType) :=
  call.bind fun _ => trivial

theorem sendResponse {request : Request} {records : List Record} :
    Within [.send] (Server.sendResponse request records).run :=
  orFail call

/-- Send some records, and return what they are an answer to. -/
theorem sendReply {request : Request} {records : List Record} {question answer : Text} :
    Within [.send] (do
      let info ← Server.sendResponse request records
      return (info, question, answer) : TalkAct _).run :=
  bindAct [.send] [] sendResponse fun _ => trivial

/-- The inner function asks each of four things once at most. -/
theorem doHandleRequest (cv : Conversions) (request : Request) :
    Within [.getRedirect, .isBlocked, .lookup, .send] (Server.doHandleRequest cv request).run := by
  unfold Server.doHandleRequest
  split_ifs with hop htype
  · trivial
  · trivial
  · trivial
  refine orFailCall [] _ trivial fun query => ?_
  refine orFailCall [.getRedirect] [.isBlocked, .lookup, .send] call fun found => ?_
  cases found with
  | some target =>
    have hrewrite : Within [.lookup, .send] (do
        let cname ← Server.orFail HandlerError.servFail (pure (cv.nameFromUtf8 target))
        let record : Record := ⟨query.name, 60, .cname cname⟩
        let targetRecords ← Server.orFail HandlerError.ofResolveError
          (Server.resolverLookup target query.queryType)
        let info ← Server.sendResponse request (record :: targetRecords)
        return (info, query.name ++ ' ' :: query.queryType.display,
          "rewritten: ".toList ++ target) : TalkAct _).run :=
      orFailCall [] _ trivial fun cname =>
        orFailCall [.lookup] [.send] resolverLookup fun records => sendReply
    exact hrewrite.mono (List.sublist_cons_self _ _).subperm
  | none =>
    refine orFailCall [.isBlocked] [.lookup, .send] call fun blocked => ?_
    have hsend : [Call.Kind.send].Subperm [.lookup, .send] := (List.sublist_cons_self _ _).subperm
    cases blocked with
    | true =>
      cases query.queryType with
      | a => exact sendReply.mono hsend
      | aaaa => exact sendReply.mono hsend
      | other text => trivial
    | false => exact orFailCall [.lookup] [.send] resolverLookup fun records => sendReply

theorem finish (srcIp : IpAddr) (request : Request)
    (result : Except HandlerError (ResponseInfo × Text × Text)) :
    Within [.now, .insert, .send] (Server.finish srcIp request result) := by
  cases result with
  | ok result =>
    obtain ⟨info, question, answer⟩ := result
    have hlog : Within ([.now] ++ ([.insert] ++ []))
        (Server.finish srcIp request (.ok (info, question, answer))) :=
      Dialog.AsksWithin.bind call fun _ => Dialog.AsksWithin.bind call fun _ => trivial
    exact hlog.mono (List.sublist_append_left [Call.Kind.now, .insert] [.send]).subperm
  | error err =>
    have hsend : Within ([.send] ++ []) (Server.finish srcIp request (.error err)) :=
      Dialog.AsksWithin.bind call fun sent => by cases sent <;> trivial
    exact hsend.mono (List.sublist_append_right [Call.Kind.now, .insert] [.send]).subperm

/-- **A request asks everything once at most**, but for a second response. -/
theorem handleRequest (cv : Conversions) (profile : Profile) (self : Handler)
    (request : Request) : Within budget (Server.handleRequest cv profile self request) := by
  have hadmitted : Within ([.getRedirect, .isBlocked, .lookup, .send] ++ [.now, .insert, .send])
      (do return some (← Server.finish (normalizeIp request.src) request
        (← (Server.doHandleRequest cv request).run)) : Talk (Option ResponseInfo)) := by
    refine Dialog.AsksWithin.bind (doHandleRequest cv request) fun result => ?_
    have hbind : Within ([.now, .insert, .send] ++ [])
        (Server.finish (normalizeIp request.src) request result >>=
          fun info => (pure (some info) : Talk _)) :=
      Dialog.AsksWithin.bind (finish _ request result) fun _ => trivial
    rwa [List.append_nil] at hbind
  rw [Server.handleRequest]
  cases maskIp profile (normalizeIp request.src) self.rateLimitIpv4Prefix
    self.rateLimitIpv6Prefix with
  | none => trivial
  | some key =>
    cases self.rateLimiter with
    | false => exact hadmitted.mono (List.sublist_cons_self _ _).subperm
    | true =>
      refine ⟨List.mem_cons_self, fun admitted => ?_⟩
      have hcheck : ∀ admitted : Bool, Within budget.tail
          (if !admitted then pure (some ⟨{ Header.new with responseCode := .refused }⟩)
          else do
            return some (← Server.finish (normalizeIp request.src) request
              (← (Server.doHandleRequest cv request).run)) : Talk (Option ResponseInfo)) := by
        rintro (_ | _)
        · trivial
        · exact hadmitted
      exact hcheck admitted

end Within

end Server

end BancuhDns
