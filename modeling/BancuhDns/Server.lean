import BancuhDns.Server.Alone
import BancuhDns.Decisions.Redirects
import BancuhDns.Lib.Tasks

/-!
# The server

Everything that runs at once: any number of requests, each a task, the updates that publish
one database after another, and the clocks. The tasks share an engine, a rate limiter and a
query log, and give way to each other whenever they ask for something. Upstream and the
clients answer what they like.

A call of the engine reads the database that was published when it was made, and an update
is seen when it publishes; so here a call and a publication are one step each. The many steps
that they take in truth, and that these make no difference, are the subject of
`BancuhDns.Publication`. The rate limiter is another program and a parameter here.

However the tasks are interleaved, each of them is a request alone that was given its answers
beforehand, the engine's answers being those of at most two engines published while the task
was under way (`BancuhDns.Server.task_alone`).
-/

namespace BancuhDns

/-- `RateLimiter`: what a check of a key is answered at an instant, and the limiter after it. -/
structure KeyedRateLimiter (L : Type) where
  checkKey : L → ℕ → IpAddr → Bool × L

/-- The parts of the server that stay as they are. -/
structure Server (σ L : Type) where
  kv : RocksDB σ
  crates : Crates
  platform : Platform
  conversions : Server.Conversions
  limiter : KeyedRateLimiter L
  profile : Profile
  handler : Handler

namespace Server

variable {σ L : Type}

/-- What the tasks share. -/
structure Shared (σ L : Type) where
  engine : AdblockEngine σ
  limiter : L
  queryLog : QueryLogStore
  /-- `Utc::now`, a clock that can be set. -/
  clock : ℤ
  /-- The clock of the rate limiter, which cannot. -/
  instant : ℕ

/-- What happens around the tasks. -/
inductive Change (σ : Type) where
  /-- An update comes to its end. -/
  | update (w : World σ)
  /-- The clock is set. -/
  | setClock (now : ℤ)
  /-- Time passes. -/
  | pass (time : ℕ)

/-- What is shared after a question has been given an answer. -/
def answer (srv : Server σ L) (s : Shared σ L) : (q : Call) → q.Answer → Option (Shared σ L)
  | .checkKey key, admitted =>
    let verdict := srv.limiter.checkKey s.limiter s.instant key
    if verdict.1 = admitted then some { s with limiter := verdict.2 } else none
  | .getRedirect name, answer =>
    if answer = s.engine.getRedirect srv.kv name then some s else none
  | .isBlocked name, answer =>
    if answer = s.engine.isBlocked srv.kv name then some s else none
  -- upstream and the client answer what they like
  | .lookup _ _, _ => some s
  | .send _, _ => some s
  | .now, now => if now = s.clock then some s else none
  | .insert ip log, now =>
    if now = s.clock then some { s with queryLog := s.queryLog.insert now ip log } else none

/-- What is shared after a change. -/
def change (srv : Server σ L) (s : Shared σ L) : Change σ → Shared σ L
  | .update w => { s with engine := (s.engine.runUpdate srv.kv srv.crates srv.platform w).2 }
  | .setClock now => { s with clock := now }
  | .pass time => { s with instant := s.instant + time }

/-- **The server as a system of tasks.** -/
def tasks (srv : Server σ L) :
    Tasks (Shared σ L) Request (Change σ) Call.Answer (Option ResponseInfo) where
  program := handleRequest srv.conversions srv.profile srv.handler
  answer := srv.answer
  environment s c := some (srv.change s c)

/-- What happens in the server. -/
abbrev Event (σ : Type) := Tasks.Event Request (Change σ) Call.Answer

/-- The server and its tasks. -/
abbrev State (σ L : Type) := Tasks.State (Shared σ L) Request Call.Answer (Option ResponseInfo)

/-- A run from a start at which there are no tasks. -/
def Run (srv : Server σ L) (start : Shared σ L) (es : List (Event σ)) (s : State σ L) : Prop :=
  Runs.run srv.tasks.step (.init start) es = some s

variable {srv : Server σ L} {start : Shared σ L} {es : List (Event σ)} {s : State σ L} {i : ℕ}

/-! ### The engines that a task sees -/

variable (srv start es i) in
/-- **A moment of a task**, from its start to its last call: what has happened by then, and the
state of the server. -/
def During (es₁ : List (Event σ)) (s₁ : State σ L) : Prop :=
  ∃ es₂, es = es₁ ++ es₂ ∧ srv.Run start es₁ s₁ ∧ (s₁.tasks i).isSome ∧
    (Tasks.exchangesOf i es ≠ [] → Tasks.exchangesOf i es₂ ≠ [])

variable (srv start es i) in
/-- An engine that was published at some moment of a task. -/
def SeenBy (engine : AdblockEngine σ) : Prop :=
  ∃ es₁ s₁, srv.During start es i es₁ s₁ ∧ s₁.shared.engine = engine

/-- A call is answered at some moment of the task. -/
theorem exists_during_of_exchange {e : Dialog.Exchange Call.Answer} (hrun : srv.Run start es s)
    (he : e ∈ Tasks.exchangesOf i es) :
    ∃ es₁ s₁, srv.During start es i es₁ s₁ ∧ srv.answer s₁.shared e.1 e.2 ≠ none := by
  obtain ⟨es₁, es₂, rfl⟩ := List.append_of_mem (Tasks.mem_exchangesOf.mp he)
  obtain ⟨s₁, x, next, shared, hs₁, hi, hanswer⟩ := Tasks.exists_of_run_exchange hrun
  refine ⟨es₁, s₁, ⟨_, rfl, hs₁, by rw [hi]; rfl, fun _ hnil => ?_⟩, ?_⟩
  · have hmem : e ∈ Tasks.exchangesOf i (.exchange i e :: es₂) :=
      Tasks.mem_exchangesOf.mpr List.mem_cons_self
    rw [hnil] at hmem
    cases hmem
  · intro hnone
    cases hanswer.symm.trans hnone

/-- A task that has been started has its moments. -/
theorem exists_during (hrun : srv.Run start es s) (hi : (s.tasks i).isSome) :
    ∃ es₁ s₁, srv.During start es i es₁ s₁ := by
  by_cases hnil : Tasks.exchangesOf i es = []
  · exact ⟨es, s, [], (List.append_nil es).symm, hrun, hi, fun hne => absurd hnil hne⟩
  · obtain ⟨e, he⟩ := List.exists_mem_of_ne_nil _ hnil
    obtain ⟨es₁, s₁, hduring, -⟩ := exists_during_of_exchange hrun he
    exact ⟨es₁, s₁, hduring⟩

/-- **What the engine says to a task** is said by at most two of the engines that it sees, one
for each kind of call. -/
theorem exists_engineSaid (hrun : srv.Run start es s) (hi : (s.tasks i).isSome) :
    ∃ engine engine', srv.SeenBy start es i engine ∧ srv.SeenBy start es i engine' ∧
      EngineSaid (engine.getRedirect srv.kv) (engine'.isBlocked srv.kv)
        (Tasks.exchangesOf i es) := by
  obtain ⟨⟨request, p⟩, hi'⟩ := Option.isSome_iff_exists.mp hi
  have hwithin := (Tasks.leads_of_run hrun hi').kinds_subperm
    (Within.handleRequest srv.conversions srv.profile srv.handler request)
  obtain ⟨es₀, s₀, hduring₀⟩ := exists_during hrun hi
  have hredirect : ∃ engine, srv.SeenBy start es i engine ∧ ∀ name answer,
      ⟨.getRedirect name, answer⟩ ∈ Tasks.exchangesOf i es →
        answer = engine.getRedirect srv.kv name := by
    by_cases hasked : ∃ name answer, ⟨.getRedirect name, answer⟩ ∈ Tasks.exchangesOf i es
    · obtain ⟨name, answer, hmem⟩ := hasked
      obtain ⟨es₁, s₁, hduring, hanswer⟩ := exists_during_of_exchange hrun hmem
      refine ⟨s₁.shared.engine, ⟨es₁, s₁, hduring, rfl⟩, fun name' answer' hmem' => ?_⟩
      -- there is one call of the kind, and it was answered by this engine
      cases Dialog.eq_of_kind_eq ((hwithin.count_le _).trans_eq rfl) hmem hmem' rfl
      by_contra hne
      exact hanswer (if_neg hne)
    · exact ⟨_, ⟨es₀, s₀, hduring₀, rfl⟩,
        fun name answer hmem => absurd ⟨name, answer, hmem⟩ hasked⟩
  have hblocked : ∃ engine, srv.SeenBy start es i engine ∧ ∀ name answer,
      ⟨.isBlocked name, answer⟩ ∈ Tasks.exchangesOf i es →
        answer = engine.isBlocked srv.kv name := by
    by_cases hasked : ∃ name answer, ⟨.isBlocked name, answer⟩ ∈ Tasks.exchangesOf i es
    · obtain ⟨name, answer, hmem⟩ := hasked
      obtain ⟨es₁, s₁, hduring, hanswer⟩ := exists_during_of_exchange hrun hmem
      refine ⟨s₁.shared.engine, ⟨es₁, s₁, hduring, rfl⟩, fun name' answer' hmem' => ?_⟩
      cases Dialog.eq_of_kind_eq ((hwithin.count_le _).trans_eq rfl) hmem hmem' rfl
      by_contra hne
      exact hanswer (if_neg hne)
    · exact ⟨_, ⟨es₀, s₀, hduring₀, rfl⟩,
        fun name answer hmem => absurd ⟨name, answer, hmem⟩ hasked⟩
  obtain ⟨engine, hseen, hsaid⟩ := hredirect
  obtain ⟨engine', hseen', hsaid'⟩ := hblocked
  exact ⟨engine, engine', hseen, hseen', hsaid, hsaid'⟩

/-- **Each task is a request alone**, however the tasks are interleaved and whatever happens
around them. There are answers that could have been given to it beforehand, those of the
engine being those of at most two engines that it sees, one for each kind of call; and what
the task has done so far is the beginning of what the request does with them, or all of it
when the task has returned. A task without a key to check panics at once. -/
theorem task_alone {request : Request} {p : Talk (Option ResponseInfo)}
    (hrun : srv.Run start es s) (hi : s.tasks i = some (request, p)) :
    ∃ engine engine', srv.SeenBy start es i engine ∧ srv.SeenBy start es i engine' ∧
      let answers := answersOf srv.conversions (engine.getRedirect srv.kv)
        (engine'.isBlocked srv.kv) (Tasks.exchangesOf i es)
      (Handler.handleRequest answers srv.profile srv.handler request = none →
        p = .done none ∧ Tasks.exchangesOf i es = []) ∧
      ∀ act, Handler.handleRequest answers srv.profile srv.handler request = some act →
        (Tasks.exchangesOf i es).length ≤ 8 ∧
        effects (Tasks.exchangesOf i es) <+: (act.run []).2 ∧
        ∀ r, p = .done r → effects (Tasks.exchangesOf i es) = (act.run []).2 ∧
          r = some (act.run []).1 := by
  obtain ⟨engine, engine', hseen, hseen', hsaid⟩ := exists_engineSaid hrun (by rw [hi]; rfl)
  have hleads : (handleRequest srv.conversions srv.profile srv.handler request).Leads
      (Tasks.exchangesOf i es) p := Tasks.leads_of_run hrun hi
  refine ⟨engine, engine', hseen, hseen', fun hnone => ?_, fun act hact =>
    alone_of_leads hleads hsaid hact⟩
  rw [handleRequest_eq_done srv.conversions hnone] at hleads
  generalize Tasks.exchangesOf i es = d at hleads
  cases hleads
  exact ⟨rfl, rfl⟩

/-- A server that limits nobody, over stores that keep what they are given. -/
def openServer : Server (List (Text × Text)) Unit where
  kv := .assoc _ _ _
  crates := .lenient
  platform := .plain
  conversions := ⟨fun _ => [], .ok⟩
  limiter := ⟨fun _ _ _ => (true, ())⟩
  profile := .debug
  handler := Handler.unlimited

/-- A server that has just been started. -/
def justStarted : Shared (List (Text × Text)) Unit := ⟨⟨.assoc, .file ⟨[]⟩⟩, (), .new, 0, 0⟩

/-- Two clients ask for the same name. The first is answered while upstream is still to answer
the second. -/
def twoClients : List (Event (List (Text × Text))) :=
  [.start 0 Handler.aQuery, .exchange 0 ⟨.getRedirect "a.com.".toList, .ok none⟩,
    .start 1 Handler.aQuery, .exchange 1 ⟨.getRedirect "a.com.".toList, .ok none⟩,
    .exchange 1 ⟨.isBlocked "a.com.".toList, .ok false⟩,
    .exchange 0 ⟨.isBlocked "a.com.".toList, .ok false⟩,
    .exchange 0 ⟨.lookup "a.com.".toList .a, .ok []⟩,
    .exchange 0 ⟨.send ⟨⟨1, .response, .query, .noError⟩, []⟩,
      .ok ⟨⟨1, .response, .query, .noError⟩⟩⟩,
    .environment (.setClock 7), .exchange 0 ⟨.now, 7⟩,
    .exchange 0 ⟨.insert (.v4 0x0A000001) ⟨7, "a.com. A".toList, "forwarded".toList⟩, 7⟩]

theorem task_alone_twoClients :
    ∃ s, openServer.Run justStarted twoClients s ∧
      ∃ r, s.tasks 0 = some (Handler.aQuery, .done r) ∧
        (Tasks.exchangesOf 0 twoClients).length ≤ 8 := by
  obtain ⟨s, hs⟩ : ∃ s, openServer.Run justStarted twoClients s := ⟨_, rfl⟩
  have hdone : ∃ r, s.tasks 0 = some (Handler.aQuery, .done r) := by
    obtain rfl := Option.some.inj hs
    exact ⟨_, rfl⟩
  obtain ⟨r, hr⟩ := hdone
  obtain ⟨engine, engine', -, -, -, halone⟩ := task_alone hs hr
  exact ⟨s, hs, r, hr, (halone _ rfl).1⟩

end Server

end BancuhDns
