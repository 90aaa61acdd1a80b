import BancuhDns.Server.Grounds
import BancuhDns.Server.Lists

/-!
# What leaves the server

Two things leave the server for a request: questions to upstream, and responses to the client.
Both follow the lists. Whatever a task is told by the engine is what lists say that were in
force at a moment of the task, and the questions of a task have no other grounds
(`BancuhDns.Server.wp_handleRequest`). So a name goes upstream when lists rewrite a name to it,
or when they neither rewrite nor block it (`BancuhDns.Server.lookup_follows_lists`); and a
response, an error as well as a reply, is what lists in force make of the request and of what
upstream said (`BancuhDns.Server.response_follows_lists`).

Here a question counts when it is asked, whether or not it is ever answered.
-/

namespace BancuhDns

namespace Server

variable {σ L : Type} {srv : Server σ L} {start : Shared σ L} {es : List (Event σ)}
  {s : State σ L} {i : ℕ} {request : Request}

/-! ### Lists in force -/

variable (srv start es i) in
/-- **Lists that were in force** at some moment of a task. -/
def InForce (v : Verdicts) : Prop :=
  ∃ es₁ s₁, srv.During start es i es₁ s₁ ∧ srv.verdictsAfter start.engine.configUrl es₁ = v

/-- A call of the engine is answered by one that follows lists in force. -/
theorem exists_inForce_of_exchange (hkv : srv.kv.LastWriteWins)
    (hempty : start.engine.db.Empty srv.kv) (hfresh : srv.Fresh es) (hrun : srv.Run start es s)
    {e : Dialog.Exchange Call.Answer} (he : e ∈ Tasks.exchangesOf i es) :
    ∃ v shared, srv.InForce start es i v ∧ shared.engine.Follows srv.kv v ∧
      srv.answer shared e.1 e.2 ≠ none := by
  obtain ⟨es₁, s₁, hduring, hanswer⟩ := exists_during_of_exchange hrun he
  exact ⟨_, s₁.shared, ⟨es₁, s₁, hduring, rfl⟩,
    follows_of_during hkv hempty hfresh hduring, hanswer⟩

section Told

variable (hkv : srv.kv.LastWriteWins) (hempty : start.engine.db.Empty srv.kv)
  (hfresh : srv.Fresh es) (hrun : srv.Run start es s)

include hkv hempty hfresh hrun

/-- What `get_redirect` answers is what lists in force say. -/
theorem exists_inForce_of_getRedirect {n : Name} {answer : Except EngineError (Option Text)}
    (h : ⟨.getRedirect n.text, answer⟩ ∈ Tasks.exchangesOf i es) :
    ∃ v r, srv.InForce start es i v ∧ answer = .ok r ∧ ∀ a, r = some a ↔ v.rewrites n a := by
  obtain ⟨v, shared, hv, hfollows, hanswer⟩ := exists_inForce_of_exchange hkv hempty hfresh hrun h
  obtain ⟨r, hr, hrewrites⟩ := hfollows.getRedirect n
  refine ⟨v, r, hv, ?_, hrewrites⟩
  by_contra hne
  exact hanswer (if_neg fun heq => hne (heq.trans hr))

/-- What `is_blocked` answers is what lists in force say. -/
theorem exists_inForce_of_isBlocked {n : Name} {answer : Except EngineError Bool}
    (h : ⟨.isBlocked n.text, answer⟩ ∈ Tasks.exchangesOf i es) :
    ∃ v b, srv.InForce start es i v ∧ answer = .ok b ∧ (b = true ↔ v.blocks n) := by
  obtain ⟨v, shared, hv, hfollows, hanswer⟩ := exists_inForce_of_exchange hkv hempty hfresh hrun h
  obtain ⟨b, hb, hblocks⟩ := hfollows.isBlocked n
  refine ⟨v, b, hv, ?_, hblocks⟩
  by_contra hne
  exact hanswer (if_neg fun heq => hne (heq.trans hb))

/-- An alias that the engine gave is one that lists in force give. -/
theorem exists_inForce_of_rewritten {n : Name} {target : Text}
    (h : Rewritten (Tasks.exchangesOf i es) n.text target) :
    ∃ v, srv.InForce start es i v ∧ v.rewrites n target := by
  obtain ⟨v, r, hv, hanswer, hrewrites⟩ := exists_inForce_of_getRedirect hkv hempty hfresh hrun h
  exact ⟨v, hv, (hrewrites target).mp (Except.ok.inj hanswer).symm⟩

/-- What the engine said of a name is what lists in force say, of two moments. -/
theorem exists_inForce_of_judged {n : Name} {blocked : Bool}
    (h : Judged (Tasks.exchangesOf i es) n.text blocked) :
    ∃ v v', srv.InForce start es i v ∧ srv.InForce start es i v' ∧ (∀ a, ¬v.rewrites n a) ∧
      (blocked = true ↔ v'.blocks n) := by
  obtain ⟨v, r, hv, hanswer, hrewrites⟩ :=
    exists_inForce_of_getRedirect hkv hempty hfresh hrun h.1
  obtain ⟨v', b, hv', hanswer', hblocks⟩ :=
    exists_inForce_of_isBlocked hkv hempty hfresh hrun h.2
  obtain rfl := Except.ok.inj hanswer
  obtain rfl := Except.ok.inj hanswer'
  refine ⟨v, v', hv, hv', fun a ha => ?_, hblocks⟩
  cases (hrewrites a).mpr ha

end Told

/-! ### What upstream is asked -/

/-- **The name to look up** for a query, as lists of the two calls of the engine say. -/
inductive Wants (v v' : Verdicts) (query : Query) (n : Name) : Text → Prop
  | rewritten {a : Text} (h : v.rewrites n a) : Wants v v' query n a
  | forwarded (h : ∀ a, ¬v.rewrites n a) (hblocks : ¬v'.blocks n) : Wants v v' query n query.name

/-- A name that is wanted by what the engine said is wanted by lists in force. -/
theorem exists_wants_of_wanted (hkv : srv.kv.LastWriteWins)
    (hempty : start.engine.db.Empty srv.kv) (hfresh : srv.Fresh es) (hrun : srv.Run start es s)
    {query : Query} {n : Name} {name : Text} (hname : query.name = n.text)
    (h : Wanted (Tasks.exchangesOf i es) query name) :
    ∃ v v', srv.InForce start es i v ∧ srv.InForce start es i v' ∧ Wants v v' query n name := by
  cases h with
  | rewritten h =>
    rw [hname] at h
    obtain ⟨v, hv, hrewrites⟩ := exists_inForce_of_rewritten hkv hempty hfresh hrun h
    exact ⟨v, v, hv, hv, .rewritten hrewrites⟩
  | forwarded h =>
    rw [hname] at h
    obtain ⟨v, v', hv, hv', hnone, hblocks⟩ := exists_inForce_of_judged hkv hempty hfresh hrun h
    exact ⟨v, v', hv, hv', .forwarded hnone fun hyes => by cases hblocks.mpr hyes⟩

/-- **Upstream is asked what the lists say.** Over stores that keep what they are given, in
every run, a task that asks upstream asks for a name that lists want it to look up that were in
force at two moments of the task: the alias that they give the name of its query, or that name
itself, when they neither rewrite nor block it. So upstream is asked nothing for a name that
lists block, and do not rewrite, all through the task. -/
theorem lookup_follows_lists (hkv : srv.kv.LastWriteWins) (hempty : start.engine.db.Empty srv.kv)
    (hfresh : srv.Fresh es) (hrun : srv.Run start es s) {name : Text} {queryType : RecordType}
    {next : Except ResolveError (List Record) → Talk (Option ResponseInfo)}
    (hi : s.tasks i = some (request, .ask (.lookup name queryType) next)) :
    ∃ query, Handler.IsQuery request query ∧ query.queryType = queryType ∧
      ∀ n : Name, query.name = n.text → ∃ v v', srv.InForce start es i v ∧
        srv.InForce start es i v' ∧ Wants v v' query n name := by
  obtain ⟨⟨query, hquery, htype, hwanted⟩, -⟩ := Tasks.wp_of_run hrun hi
    (wp_handleRequest srv.conversions srv.profile srv.handler request)
  exact ⟨query, hquery, htype, fun n hname =>
    exists_wants_of_wanted hkv hempty hfresh hrun hname hwanted⟩

/-- An update, a query, and what the engine says of its name. -/
def toldRun (request : Request) (name : Text) (blocked : Bool) :
    List (Event (List (Text × Text))) :=
  [.environment (.update listedWorld), .start 0 request,
    .exchange 0 ⟨.getRedirect name, .ok none⟩, .exchange 0 ⟨.isBlocked name, .ok blocked⟩]

theorem fresh_toldRun (request : Request) (name : Text) (blocked : Bool) :
    listServer.Fresh (toldRun request name blocked) := by
  intro w hw db hdb
  obtain rfl : w = listedWorld := by simpa [toldRun] using hw
  obtain rfl := Except.ok.inj hdb
  exact AdblockDB.assoc_empty

/-- `a.com.` -/
def unlistedDomain : Name := ⟨["a".toList, "com".toList], by decide, by decide⟩

theorem lookup_follows_lists_unlisted :
    ∃ s v v', listServer.Run unlisted (toldRun Handler.aQuery "a.com.".toList false) s ∧
      listServer.InForce unlisted (toldRun Handler.aQuery "a.com.".toList false) 0 v ∧
      listServer.InForce unlisted (toldRun Handler.aQuery "a.com.".toList false) 0 v' ∧
      Wants v v' ⟨"a.com.".toList, .a⟩ unlistedDomain "a.com.".toList := by
  obtain ⟨s, hs⟩ : ∃ s, listServer.Run unlisted
    (toldRun Handler.aQuery "a.com.".toList false) s := ⟨_, rfl⟩
  have hasks : ∃ next, s.tasks 0 =
      some (Handler.aQuery, .ask (.lookup "a.com.".toList .a) next) := by
    obtain rfl := Option.some.inj hs
    exact ⟨_, rfl⟩
  obtain ⟨next, hi⟩ := hasks
  obtain ⟨query, hquery, -, hwants⟩ := lookup_follows_lists KeyValue.assoc_lastWriteWins
    AdblockDB.assoc_empty (fresh_toldRun _ _ _) hs hi
  obtain rfl : query = ⟨"a.com.".toList, .a⟩ := (Except.ok.inj hquery.requestInfo).symm
  obtain ⟨v, v', hv, hv', h⟩ := hwants unlistedDomain rfl
  exact ⟨s, v, v', hs, hv, hv', h⟩

/-! ### What the client is sent -/

/-- **A response that lists justify**, those of the two calls of the engine: its code and its
records, for a query of a name, with what upstream and the responder said. -/
inductive Meets (cv : Conversions) (v v' : Verdicts) (request : Request) (query : Query)
    (n : Name) (d : History) : ResponseCode → List Record → Prop
  | rewritten {a cname : Text} {records : List Record} (h : v.rewrites n a)
      (hname : cv.nameFromUtf8 a = .ok cname)
      (hlookup : LookedUp d a query.queryType (.ok records)) :
      Meets cv v v' request query n d .noError (⟨query.name, 60, .cname cname⟩ :: records)
  | blockedA (h : ∀ a, ¬v.rewrites n a) (hblocks : v'.blocks n) (htype : query.queryType = .a) :
      Meets cv v v' request query n d .noError [⟨query.name, 60, .a 0⟩]
  | blockedAaaa (h : ∀ a, ¬v.rewrites n a) (hblocks : v'.blocks n)
      (htype : query.queryType = .aaaa) :
      Meets cv v v' request query n d .noError [⟨query.name, 60, .aaaa 0⟩]
  | forwarded {records : List Record} (h : ∀ a, ¬v.rewrites n a) (hblocks : ¬v'.blocks n)
      (hlookup : LookedUp d query.name query.queryType (.ok records)) :
      Meets cv v v' request query n d .noError records
  | blocked (h : ∀ a, ¬v.rewrites n a) (hblocks : v'.blocks n) (ha : query.queryType ≠ .a)
      (haaaa : query.queryType ≠ .aaaa) : Meets cv v v' request query n d .nxDomain []
  | cname {a err : Text} (h : v.rewrites n a) (hname : cv.nameFromUtf8 a = .error err) :
      Meets cv v v' request query n d .servFail []
  | lookup {name : Text} {err : ResolveError} (h : Wants v v' query n name)
      (hlookup : LookedUp d name query.queryType (.error err)) :
      Meets cv v v' request query n d (HandlerError.ofResolveError err).code []
  | send {records : List Record} {err : Text}
      (h : Meets cv v v' request query n d .noError records)
      (hsend : ⟨.send ⟨request.header.responseFromRequest, records⟩, .error err⟩ ∈ d) :
      Meets cv v v' request query n d .servFail []

section Justified

variable (hkv : srv.kv.LastWriteWins) (hempty : start.engine.db.Empty srv.kv)
  (hfresh : srv.Fresh es) (hrun : srv.Run start es s) {query : Query} {n : Name}

include hkv hempty hfresh hrun

/-- A reply with grounds is justified by lists in force. -/
theorem exists_meets_of_replied (request : Request) {records : List Record} {answer : Text}
    (hname : query.name = n.text)
    (h : Replied srv.conversions (Tasks.exchangesOf i es) query records answer) :
    ∃ v v', srv.InForce start es i v ∧ srv.InForce start es i v' ∧
      Meets srv.conversions v v' request query n (Tasks.exchangesOf i es) .noError records := by
  cases h with
  | rewritten h hcname hlookup =>
    rw [hname] at h
    obtain ⟨v, hv, hrewrites⟩ := exists_inForce_of_rewritten hkv hempty hfresh hrun h
    exact ⟨v, v, hv, hv, .rewritten hrewrites hcname hlookup⟩
  | blockedA h htype =>
    rw [hname] at h
    obtain ⟨v, v', hv, hv', hnone, hblocks⟩ := exists_inForce_of_judged hkv hempty hfresh hrun h
    exact ⟨v, v', hv, hv', .blockedA hnone (hblocks.mp rfl) htype⟩
  | blockedAaaa h htype =>
    rw [hname] at h
    obtain ⟨v, v', hv, hv', hnone, hblocks⟩ := exists_inForce_of_judged hkv hempty hfresh hrun h
    exact ⟨v, v', hv, hv', .blockedAaaa hnone (hblocks.mp rfl) htype⟩
  | forwarded h hlookup =>
    rw [hname] at h
    obtain ⟨v, v', hv, hv', hnone, hblocks⟩ := exists_inForce_of_judged hkv hempty hfresh hrun h
    exact ⟨v, v', hv, hv', .forwarded hnone (fun hyes => by cases hblocks.mpr hyes) hlookup⟩

/-- **A failure of a query** is justified by lists in force; the engine has no part in it. -/
theorem exists_meets_of_failed {code : ResponseCode} (hquery : Handler.IsQuery request query)
    (hname : query.name = n.text)
    (h : Failed srv.conversions request (Tasks.exchangesOf i es) code) :
    ∃ v v', srv.InForce start es i v ∧ srv.InForce start es i v' ∧
      Meets srv.conversions v v' request query n (Tasks.exchangesOf i es) code [] := by
  have hsame : ∀ {query'}, Handler.IsQuery request query' → query' = query := fun hquery' =>
    Except.ok.inj (hquery'.requestInfo.symm.trans hquery.requestInfo)
  cases h with
  | opCode h => exact absurd hquery.opCode h
  | messageType h => exact absurd hquery.messageType h
  | requestInfo h => cases h.symm.trans hquery.requestInfo
  | getRedirect hquery' h =>
    rw [hsame hquery', hname] at h
    obtain ⟨v, r, -, hanswer, -⟩ := exists_inForce_of_getRedirect hkv hempty hfresh hrun h
    cases hanswer
  | isBlocked hquery' h =>
    rw [hsame hquery', hname] at h
    obtain ⟨v, b, -, hanswer, -⟩ := exists_inForce_of_isBlocked hkv hempty hfresh hrun h
    cases hanswer
  | cname hquery' h hcname =>
    rw [hsame hquery', hname] at h
    obtain ⟨v, hv, hrewrites⟩ := exists_inForce_of_rewritten hkv hempty hfresh hrun h
    exact ⟨v, v, hv, hv, .cname hrewrites hcname⟩
  | blocked hquery' h ha haaaa =>
    obtain rfl := hsame hquery'
    rw [hname] at h
    obtain ⟨v, v', hv, hv', hnone, hblocks⟩ := exists_inForce_of_judged hkv hempty hfresh hrun h
    exact ⟨v, v', hv, hv', .blocked hnone (hblocks.mp rfl) ha haaaa⟩
  | lookup hquery' h hlookup =>
    obtain rfl := hsame hquery'
    obtain ⟨v, v', hv, hv', hwants⟩ := exists_wants_of_wanted hkv hempty hfresh hrun hname h
    exact ⟨v, v', hv, hv', .lookup hwants hlookup⟩
  | send hquery' h hsend =>
    obtain rfl := hsame hquery'
    obtain ⟨v, v', hv, hv', hmeets⟩ :=
      exists_meets_of_replied hkv hempty hfresh hrun request hname h
    exact ⟨v, v', hv, hv', .send hmeets hsend⟩

/-- A response with grounds is justified by lists in force. -/
theorem exists_meets_of_responded {response : MessageResponse}
    (hquery : Handler.IsQuery request query) (hname : query.name = n.text)
    (h : Responded srv.conversions request (Tasks.exchangesOf i es) response) :
    ∃ v v', srv.InForce start es i v ∧ srv.InForce start es i v' ∧
      Meets srv.conversions v v' request query n (Tasks.exchangesOf i es)
        response.header.responseCode response.answers := by
  cases h with
  | reply hquery' h =>
    obtain rfl := Except.ok.inj (hquery'.requestInfo.symm.trans hquery.requestInfo)
    exact exists_meets_of_replied hkv hempty hfresh hrun request hname h
  | error h => exact exists_meets_of_failed hkv hempty hfresh hrun hquery hname h

end Justified

/-- **Every response is what the lists make of the request.** Over stores that keep what they
are given, in every run, a response that a task sends answers the header of its request. To a
request that is no query it is an error. To a query of a name it is justified by lists that were
in force at two moments of the task: the alias that they give the name and the records upstream
has for it, a null record or no such name when they block it, the records upstream has for the
name when they do neither; or the error that goes with what upstream said, with an alias that is
no name, or with such a response that could not be sent. -/
theorem response_follows_lists (hkv : srv.kv.LastWriteWins)
    (hempty : start.engine.db.Empty srv.kv) (hfresh : srv.Fresh es) (hrun : srv.Run start es s)
    {response : MessageResponse} {next : Except Text ResponseInfo → Talk (Option ResponseInfo)}
    (hi : s.tasks i = some (request, .ask (.send response) next)) :
    response.header = { request.header.responseFromRequest with
      responseCode := response.header.responseCode } ∧
    ((∀ query, ¬Handler.IsQuery request query) →
      (response.header.responseCode = .refused ∨ response.header.responseCode = .servFail) ∧
        response.answers = []) ∧
    ∀ query, Handler.IsQuery request query → ∀ n : Name, query.name = n.text →
      ∃ v v', srv.InForce start es i v ∧ srv.InForce start es i v' ∧
        Meets srv.conversions v v' request query n (Tasks.exchangesOf i es)
          response.header.responseCode response.answers := by
  obtain ⟨hresponded, -⟩ := Tasks.wp_of_run hrun hi
    (wp_handleRequest srv.conversions srv.profile srv.handler request)
  exact ⟨hresponded.header_eq, hresponded.of_not_isQuery, fun query hquery n hname =>
    exists_meets_of_responded hkv hempty hfresh hrun hquery hname hresponded⟩

theorem response_follows_lists_listed :
    ∃ s v v', listServer.Run unlisted (toldRun listedQuery "aa.com.".toList true) s ∧
      listServer.InForce unlisted (toldRun listedQuery "aa.com.".toList true) 0 v ∧
      listServer.InForce unlisted (toldRun listedQuery "aa.com.".toList true) 0 v' ∧
      ∃ d, Meets listServer.conversions v v' listedQuery ⟨"aa.com.".toList, .a⟩ listedDomain d
        .noError [⟨"aa.com.".toList, 60, .a 0⟩] := by
  obtain ⟨s, hs⟩ : ∃ s, listServer.Run unlisted
    (toldRun listedQuery "aa.com.".toList true) s := ⟨_, rfl⟩
  have hasks : ∃ next, s.tasks 0 = some (listedQuery, .ask (.send
      ⟨⟨1, .response, .query, .noError⟩, [⟨"aa.com.".toList, 60, .a 0⟩]⟩) next) := by
    obtain rfl := Option.some.inj hs
    exact ⟨_, rfl⟩
  obtain ⟨next, hi⟩ := hasks
  obtain ⟨-, -, hmeets⟩ := response_follows_lists KeyValue.assoc_lastWriteWins
    AdblockDB.assoc_empty (fresh_toldRun _ _ _) hs hi
  obtain ⟨v, v', hv, hv', h⟩ := hmeets _ ⟨rfl, rfl, rfl⟩ listedDomain rfl
  exact ⟨s, v, v', hs, hv, hv', _, h⟩

end Server

end BancuhDns
