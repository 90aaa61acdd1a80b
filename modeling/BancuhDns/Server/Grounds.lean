import BancuhDns.Server.Program
import BancuhDns.Handler.Replies

/-!
# What a task asks, and why

Whatever a task asks of others has its grounds in the request and in what it was told before:
the engine is asked about the name of the request, upstream for the alias that the engine gave
or for that name when the engine lets it pass, and what is sent is a reply made of what was
told (`BancuhDns.Server.Replied`), or the error code that goes with a failure
(`BancuhDns.Server.Failed`). Nothing is logged but what has been sent.

The grounds are a condition on every question of the program (`Dialog.wp`), and they are found
going through it once, from call to call (`BancuhDns.Server.wp_handleRequest`). So they hold at
every moment of every run, also of a question that is never answered.
-/

namespace BancuhDns

namespace Server

/-! ### Grounds -/

section Grounds

variable (cv : Conversions) (request : Request) (past : List (Dialog.Exchange Call.Answer))

/-- The engine gave an alias for a name. -/
def Rewritten (name target : Text) : Prop := ⟨.getRedirect name, .ok (some target)⟩ ∈ past

/-- The engine gave no alias for a name, and said whether it is blocked. -/
def Judged (name : Text) (blocked : Bool) : Prop :=
  ⟨.getRedirect name, .ok none⟩ ∈ past ∧ ⟨.isBlocked name, .ok blocked⟩ ∈ past

/-- Upstream answered a lookup. -/
def LookedUp (name : Text) (queryType : RecordType) (result : Except ResolveError (List Record)) :
    Prop :=
  ∃ answer, ⟨.lookup name queryType, answer⟩ ∈ past ∧ lookupResult answer = result

/-- **The name to look up** for a query. -/
inductive Wanted (query : Query) : Text → Prop
  | rewritten {target : Text} (h : Rewritten past query.name target) : Wanted query target
  | forwarded (h : Judged past query.name false) : Wanted query query.name

/-- **A reply with grounds**: its records, and how the log calls them. -/
inductive Replied (query : Query) : List Record → Text → Prop
  | rewritten {target cname : Text} {records : List Record}
      (h : Rewritten past query.name target) (hname : cv.nameFromUtf8 target = .ok cname)
      (hlookup : LookedUp past target query.queryType (.ok records)) :
      Replied query (⟨query.name, 60, .cname cname⟩ :: records) ("rewritten: ".toList ++ target)
  | blockedA (h : Judged past query.name true) (htype : query.queryType = .a) :
      Replied query [⟨query.name, 60, .a 0⟩] "blocked".toList
  | blockedAaaa (h : Judged past query.name true) (htype : query.queryType = .aaaa) :
      Replied query [⟨query.name, 60, .aaaa 0⟩] "blocked".toList
  | forwarded {records : List Record} (h : Judged past query.name false)
      (hlookup : LookedUp past query.name query.queryType (.ok records)) :
      Replied query records "forwarded".toList

/-- **A failure with grounds**: the code of its error. -/
inductive Failed : ResponseCode → Prop
  | opCode (h : request.header.opCode ≠ .query) : Failed .refused
  | messageType (h : request.header.messageType ≠ .query) : Failed .refused
  | requestInfo {err : Text} (h : request.requestInfo = .error err) : Failed .servFail
  | getRedirect {query : Query} {err : EngineError} (hquery : Handler.IsQuery request query)
      (h : ⟨.getRedirect query.name, .error err⟩ ∈ past) : Failed .servFail
  | isBlocked {query : Query} {err : EngineError} (hquery : Handler.IsQuery request query)
      (h : ⟨.isBlocked query.name, .error err⟩ ∈ past) : Failed .servFail
  | cname {query : Query} {target err : Text} (hquery : Handler.IsQuery request query)
      (h : Rewritten past query.name target) (hname : cv.nameFromUtf8 target = .error err) :
      Failed .servFail
  | blocked {query : Query} (hquery : Handler.IsQuery request query)
      (h : Judged past query.name true) (ha : query.queryType ≠ .a)
      (haaaa : query.queryType ≠ .aaaa) : Failed .nxDomain
  | lookup {query : Query} {name : Text} {err : ResolveError}
      (hquery : Handler.IsQuery request query) (h : Wanted past query name)
      (hlookup : LookedUp past name query.queryType (.error err)) :
      Failed (HandlerError.ofResolveError err).code
  | send {query : Query} {records : List Record} {answer err : Text}
      (hquery : Handler.IsQuery request query) (h : Replied cv past query records answer)
      (hsend : ⟨.send ⟨request.header.responseFromRequest, records⟩, .error err⟩ ∈ past) :
      Failed .servFail

/-- **A response with grounds.** -/
inductive Responded : MessageResponse → Prop
  | reply {query : Query} {records : List Record} {answer : Text}
      (hquery : Handler.IsQuery request query) (h : Replied cv past query records answer) :
      Responded ⟨request.header.responseFromRequest, records⟩
  | error {code : ResponseCode} (h : Failed cv request past code) :
      Responded (.errorMsg request.header.responseFromRequest code)

/-- What has been sent to a query, and how the log calls it. -/
def Answered (query : Query) (answer : Text) (info : ResponseInfo) : Prop :=
  ∃ records, Replied cv past query records answer ∧
    ⟨.send ⟨request.header.responseFromRequest, records⟩, .ok info⟩ ∈ past

variable (profile : Profile) (self : Handler)

/-- **A question with grounds.** -/
def Grounded : Call → Prop
  | .checkKey key => self.rateLimiter = true ∧
      maskIp profile (normalizeIp request.src) self.rateLimitIpv4Prefix
        self.rateLimitIpv6Prefix = some key
  | .getRedirect name => ∃ query, Handler.IsQuery request query ∧ query.name = name
  | .isBlocked name => ∃ query, Handler.IsQuery request query ∧ query.name = name ∧
      ⟨.getRedirect name, .ok none⟩ ∈ past
  | .lookup name queryType => ∃ query, Handler.IsQuery request query ∧
      query.queryType = queryType ∧ Wanted past query name
  | .send response => Responded cv request past response
  | .now => ∃ query answer info, Handler.IsQuery request query ∧
      Answered cv request past query answer info
  | .insert ip log => ip = normalizeIp request.src ∧ ∃ query info,
      Handler.IsQuery request query ∧ log.question = Handler.question query ∧
        Answered cv request past query log.answer info ∧ ⟨.now, log.queryTime⟩ ∈ past

/-- **A result with grounds**, when the task returns. -/
inductive Returned : Option ResponseInfo → Prop
  | panic (h : maskIp profile (normalizeIp request.src) self.rateLimitIpv4Prefix
      self.rateLimitIpv6Prefix = none) : Returned none
  | dropped {key : IpAddr} (h : ⟨.checkKey key, false⟩ ∈ past) :
      Returned (some ⟨{ Header.new with responseCode := .refused }⟩)
  | sent {response : MessageResponse} {info : ResponseInfo}
      (h : ⟨.send response, .ok info⟩ ∈ past) : Returned (some info)
  | unsent {response : MessageResponse} {err : Text}
      (h : ⟨.send response, .error err⟩ ∈ past) :
      Returned (some ⟨{ Header.new with responseCode := .servFail }⟩)

end Grounds

variable {cv : Conversions} {request : Request} {past past' : List (Dialog.Exchange Call.Answer)}
  {query : Query}

/-! ### Grounds are kept -/

theorem LookedUp.mono {name : Text} {queryType : RecordType}
    {result : Except ResolveError (List Record)} (h : LookedUp past name queryType result)
    (hle : past ⊆ past') : LookedUp past' name queryType result := by
  obtain ⟨answer, hmem, hanswer⟩ := h
  exact ⟨answer, hle hmem, hanswer⟩

theorem Judged.mono {name : Text} {blocked : Bool} (h : Judged past name blocked)
    (hle : past ⊆ past') : Judged past' name blocked := ⟨hle h.1, hle h.2⟩

/-- A reply keeps its grounds. -/
theorem Replied.mono {records : List Record} {answer : Text}
    (h : Replied cv past query records answer) (hle : past ⊆ past') :
    Replied cv past' query records answer := by
  cases h with
  | rewritten h hname hlookup => exact .rewritten (hle h) hname (hlookup.mono hle)
  | blockedA h htype => exact .blockedA (h.mono hle) htype
  | blockedAaaa h htype => exact .blockedAaaa (h.mono hle) htype
  | forwarded h hlookup => exact .forwarded (h.mono hle) (hlookup.mono hle)

theorem Answered.mono {answer : Text} {info : ResponseInfo}
    (h : Answered cv request past query answer info) (hle : past ⊆ past') :
    Answered cv request past' query answer info := by
  obtain ⟨records, hreplied, hsend⟩ := h
  exact ⟨records, hreplied.mono hle, hle hsend⟩

/-- A response answers the header of the request. -/
theorem Responded.header_eq {response : MessageResponse}
    (h : Responded cv request past response) :
    response.header = { request.header.responseFromRequest with
      responseCode := response.header.responseCode } := by
  cases h <;> rfl

/-- A request that is no query is refused, or cannot be read. -/
theorem Responded.of_not_isQuery {response : MessageResponse}
    (h : Responded cv request past response) (hquery : ∀ query, ¬Handler.IsQuery request query) :
    (response.header.responseCode = .refused ∨ response.header.responseCode = .servFail) ∧
      response.answers = [] := by
  cases h with
  | reply hquery' h => exact absurd hquery' (hquery _)
  | error h =>
    refine ⟨?_, rfl⟩
    cases h with
    | opCode h => exact Or.inl rfl
    | messageType h => exact Or.inl rfl
    | requestInfo h => exact Or.inr rfl
    | getRedirect hquery' h => exact absurd hquery' (hquery _)
    | isBlocked hquery' h => exact absurd hquery' (hquery _)
    | cname hquery' h hname => exact absurd hquery' (hquery _)
    | blocked hquery' h => exact absurd hquery' (hquery _)
    | lookup hquery' h => exact absurd hquery' (hquery _)
    | send hquery' h => exact absurd hquery' (hquery _)

/-! ### From call to call -/

section Rules

variable {α β ε : Type} {P : List (Dialog.Exchange Call.Answer) → Call → Prop}
  {post : List (Dialog.Exchange Call.Answer) → Except HandlerError β → Prop}

/-- What is guaranteed of a computation that may fail and what comes after it. -/
theorem wp_bindAct {p : TalkAct α} {f : α → TalkAct β} :
    (p >>= f).run.wp P post past ↔ p.run.wp P (fun past r =>
      match r with
      | .ok a => (f a).run.wp P post past
      | .error err => post past (.error err)) past := by
  rw [ExceptT.run_bind, Dialog.wp_bind]
  refine ⟨fun h => h.mono fun past r hr => ?_, fun h => h.mono fun past r hr => ?_⟩ <;>
    cases r <;> exact hr

/-- The same of a call and what comes after it, with the conversion of the error. -/
theorem wp_orFail {convert : ε → HandlerError} {r : Talk (Except ε α)} {f : α → TalkAct β} :
    (orFail convert r >>= f).run.wp P post past ↔ r.wp P (fun past x =>
      match x with
      | .ok a => (f a).run.wp P post past
      | .error err => post past (.error (convert err))) past := by
  have hrun : (orFail convert r).run = r >>= fun x => pure (x.mapError convert) := rfl
  rw [wp_bindAct, hrun, Dialog.wp_bind]
  refine ⟨fun h => h.mono fun past x hx => ?_, fun h => h.mono fun past x hx => ?_⟩ <;>
    cases x <;> exact hx

end Rules

variable {profile : Profile} {self : Handler}

/-- How the inner function ends: something has been sent, or there is an error. -/
def Ends (cv : Conversions) (request : Request) (past : List (Dialog.Exchange Call.Answer)) :
    Except HandlerError (ResponseInfo × Text × Text) → Prop
  | .ok (info, question, answer) => ∃ query, Handler.IsQuery request query ∧
      question = Handler.question query ∧ Answered cv request past query answer info
  | .error err => Failed cv request past err.code

/-- A reply with grounds may be sent. -/
theorem wp_sendReply {records : List Record} {answer : Text}
    (hquery : Handler.IsQuery request query) (h : Replied cv past query records answer) :
    (do
      let info ← sendResponse request records
      return (info, Handler.question query, answer) : TalkAct _).run.wp
        (Grounded cv request · profile self) (Ends cv request) past := by
  refine wp_orFail.mpr ⟨.reply hquery h, fun a => ?_⟩
  have hreplied := h.mono (List.subset_append_left past
    [⟨.send ⟨request.header.responseFromRequest, records⟩, a⟩])
  have hlast := List.mem_append_right past (List.mem_singleton_self
    (⟨.send ⟨request.header.responseFromRequest, records⟩, a⟩ : Dialog.Exchange Call.Answer))
  cases a with
  | ok info => exact ⟨query, hquery, rfl, records, hreplied, hlast⟩
  | error err => exact Failed.send hquery hreplied hlast

/-- A wanted name may be looked up; then something is done with the records. -/
theorem wp_resolverLookup {β : Type} {name : Text} {f : List Record → TalkAct β}
    {post : List (Dialog.Exchange Call.Answer) → Except HandlerError β → Prop}
    (hquery : Handler.IsQuery request query) (h : Wanted past query name)
    (hok : ∀ answer records, lookupResult answer = .ok records →
      (f records).run.wp (Grounded cv request · profile self) post
        (past ++ [⟨.lookup name query.queryType, answer⟩]))
    (herror : ∀ answer err, lookupResult answer = .error err →
      post (past ++ [⟨.lookup name query.queryType, answer⟩])
        (.error (HandlerError.ofResolveError err))) :
    (orFail HandlerError.ofResolveError (resolverLookup name query.queryType) >>= f).run.wp
      (Grounded cv request · profile self) post past := by
  rw [wp_orFail, resolverLookup, Dialog.wp_bind]
  refine ⟨⟨query, hquery, rfl, h⟩, fun answer => ?_⟩
  simp only [Dialog.pure_eq, Dialog.wp_done]
  rcases hresult : lookupResult answer with err | records
  · exact herror answer err hresult
  · exact hok answer records hresult

/-- **The inner function asks nothing without grounds.** -/
theorem wp_doHandleRequest (past : List (Dialog.Exchange Call.Answer)) :
    (doHandleRequest cv request).run.wp (Grounded cv request · profile self)
      (Ends cv request) past := by
  unfold doHandleRequest
  split_ifs with htype hop hop
  · exact Failed.opCode hop
  · exact Failed.messageType htype
  · exact Failed.opCode hop
  refine wp_orFail.mpr ?_
  rcases hinfo : request.requestInfo with err | query
  · exact Failed.requestInfo hinfo
  have hquery : Handler.IsQuery request query := ⟨not_not.mp hop, not_not.mp htype, hinfo⟩
  refine wp_orFail.mpr ⟨⟨query, hquery, rfl⟩, fun found => ?_⟩
  have hfound := List.mem_append_right past (List.mem_singleton_self
    (⟨.getRedirect query.name, found⟩ : Dialog.Exchange Call.Answer))
  generalize past ++ [⟨.getRedirect query.name, found⟩] = past at hfound
  rcases found with err | _ | target
  · exact Failed.getRedirect hquery hfound
  · -- there is no alias, so that the engine is asked once more
    refine wp_orFail.mpr ⟨⟨query, hquery, rfl, hfound⟩, fun blocked => ?_⟩
    have hblocked := List.mem_append_right past (List.mem_singleton_self
      (⟨.isBlocked query.name, blocked⟩ : Dialog.Exchange Call.Answer))
    have hfound := List.mem_append_left [⟨.isBlocked query.name, blocked⟩] hfound
    generalize past ++ [⟨.isBlocked query.name, blocked⟩] = past at hfound hblocked
    rcases blocked with err | _ | _
    · exact Failed.isBlocked hquery hblocked
    · have hjudged : Judged past query.name false := ⟨hfound, hblocked⟩
      refine wp_resolverLookup hquery (.forwarded hjudged) (fun answer records hresult => ?_)
        fun answer err hresult => ?_
      · exact wp_sendReply hquery (.forwarded (hjudged.mono (List.subset_append_left _ _))
          ⟨answer, List.mem_append_right _ (List.mem_singleton_self _), hresult⟩)
      · exact Failed.lookup hquery (.forwarded (hjudged.mono (List.subset_append_left _ _)))
          ⟨answer, List.mem_append_right _ (List.mem_singleton_self _), hresult⟩
    · have hjudged : Judged past query.name true := ⟨hfound, hblocked⟩
      obtain ⟨name, queryType⟩ := query
      cases queryType with
      | a => exact wp_sendReply hquery (.blockedA hjudged rfl)
      | aaaa => exact wp_sendReply hquery (.blockedAaaa hjudged rfl)
      | other text => exact Failed.blocked hquery hjudged (by simp) (by simp)
  · refine wp_orFail.mpr ?_
    rcases hname : cv.nameFromUtf8 target with err | cname
    · exact Failed.cname hquery hfound hname
    refine wp_resolverLookup hquery (.rewritten hfound) (fun answer records hresult => ?_)
      fun answer err hresult => ?_
    · exact wp_sendReply hquery (.rewritten (List.mem_append_left _ hfound) hname
        ⟨answer, List.mem_append_right _ (List.mem_singleton_self _), hresult⟩)
    · exact Failed.lookup hquery (.rewritten (List.mem_append_left _ hfound))
        ⟨answer, List.mem_append_right _ (List.mem_singleton_self _), hresult⟩

/-- What comes after the inner function asks nothing without grounds either. -/
theorem wp_finish {result : Except HandlerError (ResponseInfo × Text × Text)}
    (h : Ends cv request past result) :
    (finish (normalizeIp request.src) request result).wp (Grounded cv request · profile self)
      (fun past info => Returned request past profile self (some info)) past := by
  cases result with
  | ok result =>
    obtain ⟨info, question, answer⟩ := result
    obtain ⟨query, hquery, hquestion, hanswered⟩ := h
    refine ⟨⟨query, answer, info, hquery, hanswered⟩, fun now => ⟨⟨rfl, query, info, hquery,
      hquestion, hanswered.mono (List.subset_append_left _ _), ?_⟩, fun inserted => ?_⟩⟩
    · exact List.mem_append_right past (List.mem_singleton_self _)
    · obtain ⟨records, -, hsend⟩ := hanswered
      exact .sent (List.mem_append_left _ (List.mem_append_left _ hsend))
  | error err =>
    refine ⟨.error h, fun sent => ?_⟩
    have hlast := List.mem_append_right past (List.mem_singleton_self
      (⟨.send (.errorMsg request.header.responseFromRequest err.code), sent⟩ :
        Dialog.Exchange Call.Answer))
    cases sent with
    | ok info => exact Returned.sent hlast
    | error err => exact Returned.unsent hlast

/-- **A task asks nothing without grounds**, and returns nothing without grounds. -/
theorem wp_handleRequest (cv : Conversions) (profile : Profile) (self : Handler)
    (request : Request) :
    (handleRequest cv profile self request).wp (Grounded cv request · profile self)
      (Returned request · profile self) [] := by
  have hadmitted : ∀ past, (do
      return some (← finish (normalizeIp request.src) request
        (← (doHandleRequest cv request).run)) : Talk (Option ResponseInfo)).wp
          (Grounded cv request · profile self) (Returned request · profile self) past := by
    intro past
    refine Dialog.wp_bind.mpr ((wp_doHandleRequest past).mono fun past result hends => ?_)
    exact Dialog.wp_bind.mpr ((wp_finish hends).mono fun past info hreturned => hreturned)
  rw [handleRequest]
  split
  next hkey => exact .panic hkey
  next key hkey =>
    split_ifs with hlimiter
    · refine ⟨⟨hlimiter, hkey⟩, fun admitted => ?_⟩
      cases admitted with
      | false => exact .dropped (List.mem_singleton_self _)
      | true => exact hadmitted _
    · exact hadmitted _

end Server

end BancuhDns
