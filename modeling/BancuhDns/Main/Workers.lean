import BancuhDns.IpAddr
import BancuhDns.Lib.Workers

/-!
# The tasks that run besides the server

The program spawns up to five tasks on its tracker: the updates of the engine, the resolver
`named` as a process of its own, and, with TLS, the renewal of the certificate and the server
for its challenges; and the admin pages. Each of them watches a token that is shared by all.

Some of them cancel the token when they fail, and take the whole program down with them:
`named`, the certificates and their challenges. The updates and the admin pages do not.

Once the token is cancelled all of them come to their ends, in so far as it is for them to do so
(`BancuhDns.Main.winds`). They wait for what is not: for an update that is under way, for the
process that is killed, for the last connection to a server, and nothing sets a limit to that.
What may delay them besides is an update that wakes up at the last moment and runs once more,
and events of the certificate authority.
-/

namespace BancuhDns

namespace Main

/-! ### The engine-update task -/

/-- The task that updates the engine, over and over. -/
inductive Updater where
  | updating
  | sleeping
  | ended
  deriving DecidableEq

/-- What happens in it. -/
inductive UpdaterEvent where
  /-- `run_update` returns, with an error or without. -/
  | updated (ok : Bool)
  /-- The interval is over. -/
  | wake
  | cancelled
  deriving DecidableEq

/-- One step of the loop. The token is looked at in the sleep only. -/
def Updater.step (cancelled : Bool) : Updater → UpdaterEvent → Option (Updater × Bool)
  | .updating, .updated _ => some (.sleeping, false)
  | .sleeping, .wake => some (.updating, false)
  | .sleeping, .cancelled => if cancelled then some (.ended, false) else none
  | _, _ => none

/-! ### The task for `named` -/

/-- The task that runs `named`, and whether the process is alive. -/
inductive Bind where
  | spawning
  | waiting (alive : Bool)
  /-- `kill`, which waits for the process to be gone. -/
  | killing (alive : Bool)
  | ended
  deriving DecidableEq

/-- What happens in it. -/
inductive BindEvent where
  /-- `spawn_bind` returns. -/
  | spawned
  | spawnFails
  /-- The process ends, by itself or because it is killed. -/
  | exits
  /-- `wait` returns. -/
  | waited
  | cancelled
  /-- `kill` returns. -/
  | killed
  deriving DecidableEq

/-- One step. Without `named` there is nothing to forward to, so that a failure cancels the
token. -/
def Bind.step (cancelled : Bool) : Bind → BindEvent → Option (Bind × Bool)
  | .spawning, .spawned => some (.waiting true, false)
  | .spawning, .spawnFails => some (.ended, true)
  | .waiting true, .exits => some (.waiting false, false)
  | .waiting false, .waited => some (.ended, true)
  | .waiting alive, .cancelled => if cancelled then some (.killing alive, false) else none
  | .killing true, .exits => some (.killing false, false)
  | .killing false, .killed => some (.ended, false)
  | _, _ => none

/-- The process is there. -/
def Bind.alive : Bind → Bool
  | .waiting alive => alive
  | .killing alive => alive
  | _ => false

/-! ### The ACME task -/

/-- The task that polls the state of the certificate. -/
inductive Acme where
  | polling
  | ended
  deriving DecidableEq

/-- What happens in it. -/
inductive AcmeEvent where
  /-- An event, which may be an error. -/
  | event (ok : Bool)
  /-- The stream of events ends. -/
  | streamEnds
  | cancelled
  deriving DecidableEq

/-- One step. -/
def Acme.step (cancelled : Bool) : Acme → AcmeEvent → Option (Acme × Bool)
  | .polling, .event _ => some (.polling, false)
  | .polling, .streamEnds => some (.ended, true)
  | .polling, .cancelled => if cancelled then some (.ended, false) else none
  | _, _ => none

/-! ### HTTP servers -/

/-- `axum::serve`, with a graceful shutdown. -/
inductive Listener where
  | serving
  | draining
  | ended
  deriving DecidableEq

/-- What happens in it. -/
inductive ListenerEvent where
  | fails
  | cancelled
  /-- The last connection is done. -/
  | drained
  deriving DecidableEq

/-- One step. -/
def Listener.step (cancelled : Bool) : Listener → ListenerEvent → Option Listener
  | .serving, .fails => some .ended
  | .serving, .cancelled => if cancelled then some .draining else none
  | .draining, .fails => some .ended
  | .draining, .drained => some .ended
  | _, _ => none

/-- Two servers on one port, for IPv4 and for IPv6, as the challenges and the admin pages have
them. -/
inductive Pair where
  | bindingV4
  | bindingV6
  | serving (v4 v6 : Listener)
  | ended
  deriving DecidableEq

/-- What happens in them. -/
inductive PairEvent where
  | bound
  | bindFails
  | v4 (e : ListenerEvent)
  | v6 (e : ListenerEvent)
  /-- `join!` returns. -/
  | joined
  deriving DecidableEq

/-- One step. Whether the token is cancelled when a port cannot be had is for the task to say. -/
def Pair.step (cancels cancelled : Bool) : Pair → PairEvent → Option (Pair × Bool)
  | .bindingV4, .bound => some (.bindingV6, false)
  | .bindingV4, .bindFails => some (.ended, cancels)
  | .bindingV6, .bound => some (.serving .serving .serving, false)
  | .bindingV6, .bindFails => some (.ended, cancels)
  | .serving v4 v6, .v4 e => (v4.step cancelled e).map fun v4 => (.serving v4 v6, false)
  | .serving v4 v6, .v6 e => (v6.step cancelled e).map fun v6 => (.serving v4 v6, false)
  | .serving .ended .ended, .joined => some (.ended, false)
  | _, _ => none

/-- The HTTPS server of the admin pages. -/
inductive Https where
  | serving
  | ended
  deriving DecidableEq

/-- What happens in it. -/
inductive HttpsEvent where
  /-- The port cannot be had, or the server fails. -/
  | fails
  /-- `shutdown` of its handle. -/
  | cancelled
  deriving DecidableEq

/-- One step. -/
def Https.step (cancelled : Bool) : Https → HttpsEvent → Option Https
  | .serving, .fails => some .ended
  | .serving, .cancelled => if cancelled then some .ended else none
  | _, _ => none

/-- `admin::serve`: HTTP, with TLS also HTTPS, and whether it has returned. -/
structure Admin where
  http : Pair
  https : Option Https
  returned : Bool
  deriving DecidableEq

/-- What happens in it. -/
inductive AdminEvent where
  | http (e : PairEvent)
  | https (e : HttpsEvent)
  /-- Both handles have been waited for. -/
  | joined
  deriving DecidableEq

/-- One step. No failure here cancels the token. -/
def Admin.step (cancelled : Bool) (self : Admin) : AdminEvent → Option (Admin × Bool)
  | .http e =>
    (Pair.step false cancelled self.http e).map fun r => ({ self with http := r.1 }, r.2)
  | .https e =>
    match self.https with
    | some https =>
      (https.step cancelled e).map fun https => ({ self with https := some https }, false)
    | none => none
  | .joined =>
    if self.returned = false ∧ self.http = .ended ∧ self.https ≠ some .serving then
      some ({ self with returned := true }, false)
    else none

/-! ### All of them -/

/-- The tasks on the tracker. -/
inductive WorkerId where
  | updater
  | bind
  | acme
  | challenge
  | admin
  deriving DecidableEq

instance : Fintype WorkerId :=
  .ofList [.updater, .bind, .acme, .challenge, .admin] fun i => by cases i <;> simp

/-- The states of the tasks. -/
abbrev WorkerState : WorkerId → Type
  | .updater => Updater
  | .bind => Bind
  | .acme => Acme
  | .challenge => Pair
  | .admin => Admin

/-- What happens in the tasks. -/
abbrev WorkerEvent : WorkerId → Type
  | .updater => UpdaterEvent
  | .bind => BindEvent
  | .acme => AcmeEvent
  | .challenge => PairEvent
  | .admin => AdminEvent

/-- **The tasks**, with TLS or without. -/
def workers (tlsEnabled : Bool) : Workers WorkerId WorkerState WorkerEvent where
  init
    | .updater => Updater.updating
    | .bind => Bind.spawning
    | .acme => Acme.polling
    | .challenge => Pair.bindingV4
    | .admin => (⟨.bindingV4, if tlsEnabled then some .serving else none, false⟩ : Admin)
  step
    | .updater => Updater.step
    | .bind => Bind.step
    | .acme => Acme.step
    | .challenge => Pair.step true
    | .admin => Admin.step
  ended
    | .updater => fun t => t == Updater.ended
    | .bind => fun t => t == Bind.ended
    | .acme => fun t => t == Acme.ended
    | .challenge => fun t => t == Pair.ended
    | .admin => Admin.returned

/-! ### Coming to an end -/

/-- How far a task is from its end. -/
def Updater.rank : Updater → ℕ
  | .updating => 2
  | .sleeping => 1
  | .ended => 0

def Bind.rank : Bind → ℕ
  | .spawning => 4
  | .waiting alive => 2 + alive.toNat
  | .killing alive => 1 + alive.toNat
  | .ended => 0

def Acme.rank : Acme → ℕ
  | .polling => 1
  | .ended => 0

def Listener.rank : Listener → ℕ
  | .serving => 2
  | .draining => 1
  | .ended => 0

def Pair.rank : Pair → ℕ
  | .bindingV4 => 7
  | .bindingV6 => 6
  | .serving v4 v6 => 1 + v4.rank + v6.rank
  | .ended => 0

def Https.rank : Https → ℕ
  | .serving => 1
  | .ended => 0

def Admin.rank (self : Admin) : ℕ :=
  self.http.rank + self.https.elim 0 Https.rank + (!self.returned).toNat

def rank : (i : WorkerId) → WorkerState i → ℕ
  | .updater => Updater.rank
  | .bind => Bind.rank
  | .acme => Acme.rank
  | .challenge => Pair.rank
  | .admin => Admin.rank

/-- What may set a task back: an update that wakes up once more has all its steps before it,
and an event of the certificate authority gets the task nowhere. -/
def credit : (i : WorkerId) → WorkerEvent i → ℕ
  | .updater => fun e => if e = UpdaterEvent.wake then 2 else 0
  | .acme => fun e => match e with
    | AcmeEvent.event _ => 1
    | _ => 0
  | .bind => fun _ => 0
  | .challenge => fun _ => 0
  | .admin => fun _ => 0

theorem Listener.rank_step {t t' : Listener} {e : ListenerEvent}
    (h : t.step true e = some t') : t'.rank + 1 ≤ t.rank := by
  cases t <;> cases e <;> cases h <;> decide

theorem Pair.rank_step {cancels c : Bool} {t t' : Pair} {e : PairEvent}
    (h : t.step cancels true e = some (t', c)) : t'.rank + 1 ≤ t.rank := by
  cases t with
  | bindingV4 => cases e <;> cases h <;> decide
  | bindingV6 => cases e <;> cases h <;> decide
  | ended => cases e <;> cases h
  | serving v4 v6 =>
    cases e with
    | v4 e =>
      obtain ⟨v4', hv4, heq⟩ := Option.map_eq_some_iff.mp h
      cases heq
      have hrank : v4'.rank + 1 ≤ v4.rank := Listener.rank_step hv4
      simp only [Pair.rank]
      omega
    | v6 e =>
      obtain ⟨v6', hv6, heq⟩ := Option.map_eq_some_iff.mp h
      cases heq
      have hrank : v6'.rank + 1 ≤ v6.rank := Listener.rank_step hv6
      simp only [Pair.rank]
      omega
    | bound => cases h
    | bindFails => cases h
    | joined => cases v4 <;> cases v6 <;> cases h; decide

theorem Https.rank_step {t t' : Https} {e : HttpsEvent} (h : t.step true e = some t') :
    t'.rank + 1 ≤ t.rank := by
  cases t <;> cases e <;> cases h <;> decide

theorem Admin.rank_step {c : Bool} {t t' : Admin} {e : AdminEvent}
    (h : t.step true e = some (t', c)) : t'.rank + 1 ≤ t.rank := by
  obtain ⟨http, https, returned⟩ := t
  cases e with
  | http e =>
    obtain ⟨⟨http', c'⟩, hhttp, heq⟩ := Option.map_eq_some_iff.mp h
    cases heq
    have hrank : http'.rank + 1 ≤ http.rank := Pair.rank_step hhttp
    simp only [Admin.rank]
    omega
  | https e =>
    cases https with
    | none => cases h
    | some https =>
      obtain ⟨https', hhttps, heq⟩ := Option.map_eq_some_iff.mp h
      cases heq
      have hrank : https'.rank + 1 ≤ https.rank := Https.rank_step hhttps
      simp only [Admin.rank, Option.elim_some]
      omega
  | joined =>
    obtain ⟨⟨hreturned, -⟩, heq⟩ := Option.ite_none_right_eq_some.mp h
    cases heq
    obtain rfl : returned = false := hreturned
    simp only [Admin.rank, Bool.not_true, Bool.not_false, Bool.toNat_false, Bool.toNat_true]
    omega

/-- How far a task can be from its end. -/
def rankBound : WorkerId → ℕ
  | .updater => 2
  | .bind => 4
  | .acme => 1
  | .challenge => 7
  | .admin => 9

theorem Listener.rank_le (t : Listener) : t.rank ≤ 2 := by cases t <;> decide

theorem Pair.rank_le (t : Pair) : t.rank ≤ 7 := by
  cases t with
  | serving v4 v6 =>
    have hv4 := v4.rank_le
    have hv6 := v6.rank_le
    simp only [Pair.rank]
    omega
  | _ => decide

theorem rank_le_rankBound : (i : WorkerId) → (t : WorkerState i) → rank i t ≤ rankBound i
  | .updater, t => by cases t <;> decide
  | .bind, t => by
    cases t with
    | waiting alive => cases alive <;> decide
    | killing alive => cases alive <;> decide
    | _ => decide
  | .acme, t => by cases t <;> decide
  | .challenge, t => Pair.rank_le t
  | .admin, ⟨http, https, returned⟩ => by
    have hhttp := http.rank_le
    have hhttps : https.elim 0 Https.rank ≤ 1 := by
      rcases https with _ | _ | _ <;> decide
    have hreturned : (!returned).toNat ≤ 1 := by cases returned <;> decide
    simp only [rank, Admin.rank, rankBound]
    omega

/-- Whose it is to bring a step about. -/
inductive Whose where
  /-- The program takes it by itself. -/
  | own
  /-- The program waits for it. -/
  | awaited
  /-- It may come, or not. -/
  | other
  deriving DecidableEq

def UpdaterEvent.whose : UpdaterEvent → Whose
  | .updated _ => .awaited
  | .wake => .other
  | .cancelled => .own

def BindEvent.whose : BindEvent → Whose
  | .spawned => .own
  | .spawnFails => .other
  | .exits => .awaited
  | .waited => .own
  | .cancelled => .own
  | .killed => .own

def AcmeEvent.whose : AcmeEvent → Whose
  | .event _ => .other
  | .streamEnds => .other
  | .cancelled => .own

def ListenerEvent.whose : ListenerEvent → Whose
  | .fails => .other
  | .cancelled => .own
  -- a client may keep its connection open for as long as it likes
  | .drained => .awaited

def PairEvent.whose : PairEvent → Whose
  | .bound => .own
  | .bindFails => .other
  | .v4 e => e.whose
  | .v6 e => e.whose
  | .joined => .own

def HttpsEvent.whose : HttpsEvent → Whose
  | .fails => .other
  | .cancelled => .own

def AdminEvent.whose : AdminEvent → Whose
  | .http e => e.whose
  | .https e => e.whose
  | .joined => .own

def whose : (i : WorkerId) → WorkerEvent i → Whose
  | .updater => UpdaterEvent.whose
  | .bind => BindEvent.whose
  | .acme => AcmeEvent.whose
  | .challenge => PairEvent.whose
  | .admin => AdminEvent.whose

theorem Listener.progress {t : Listener} (h : t ≠ .ended) :
    ∃ e, e.whose ≠ .other ∧ (t.step true e).isSome := by
  cases t with
  | serving => exact ⟨.cancelled, by decide, rfl⟩
  | draining => exact ⟨.drained, by decide, rfl⟩
  | ended => exact absurd rfl h

theorem Pair.progress (cancels : Bool) {t : Pair} (h : t ≠ .ended) :
    ∃ e, e.whose ≠ .other ∧ (t.step cancels true e).isSome := by
  cases t with
  | bindingV4 => exact ⟨.bound, by decide, rfl⟩
  | bindingV6 => exact ⟨.bound, by decide, rfl⟩
  | ended => exact absurd rfl h
  | serving v4 v6 =>
    by_cases hv4 : v4 = .ended
    · by_cases hv6 : v6 = .ended
      · rw [hv4, hv6]
        exact ⟨.joined, by decide, rfl⟩
      · obtain ⟨e, hwhose, he⟩ := Listener.progress hv6
        exact ⟨.v6 e, hwhose, by rw [Pair.step, Option.isSome_map]; exact he⟩
    · obtain ⟨e, hwhose, he⟩ := Listener.progress hv4
      exact ⟨.v4 e, hwhose, by rw [Pair.step, Option.isSome_map]; exact he⟩

theorem Admin.progress {t : Admin} (h : t.returned = false) :
    ∃ e, e.whose ≠ .other ∧ (t.step true e).isSome := by
  obtain ⟨http, https, returned⟩ := t
  obtain rfl : returned = false := h
  by_cases hhttp : http = .ended
  · by_cases hhttps : https = some .serving
    · exact ⟨.https .cancelled, by decide, by rw [hhttps]; rfl⟩
    · exact ⟨.joined, by decide, by rw [Admin.step, if_pos ⟨rfl, hhttp, hhttps⟩]; rfl⟩
  · obtain ⟨e, hwhose, he⟩ := Pair.progress false hhttp
    exact ⟨.http e, hwhose, by rw [Admin.step, Option.isSome_map]; exact he⟩

/-- **All tasks come to their ends** once the token is cancelled, by steps of their own and by
what they wait for. -/
theorem winds (tlsEnabled : Bool) :
    (workers tlsEnabled).Winds rank credit fun i e => whose i e ≠ .other where
  rank_step
    | .updater, t, e, t', c, h => by
      cases t <;> cases e <;> cases h <;> simp [rank, Updater.rank, credit]
    | .bind, t, e, t', c, h => by
      rcases t with _ | (_ | _) | (_ | _) | _ <;> cases e <;> cases h <;> decide
    | .acme, t, e, t', c, h => by cases t <;> cases e <;> cases h <;> simp [rank, Acme.rank, credit]
    | .challenge, t, e, t', c, h => Pair.rank_step h
    | .admin, t, e, t', c, h => Admin.rank_step h
  progress
    | .updater, t, h => by
      cases t with
      | updating => exact ⟨UpdaterEvent.updated true, by decide, rfl⟩
      | sleeping => exact ⟨UpdaterEvent.cancelled, by decide, rfl⟩
      | ended => cases h
    | .bind, t, h => by
      rcases t with _ | (_ | _) | (_ | _) | _
      · exact ⟨BindEvent.spawned, by decide, rfl⟩
      · exact ⟨BindEvent.waited, by decide, rfl⟩
      · exact ⟨BindEvent.cancelled, by decide, rfl⟩
      · exact ⟨BindEvent.killed, by decide, rfl⟩
      · exact ⟨BindEvent.exits, by decide, rfl⟩
      · cases h
    | .acme, t, h => by
      cases t with
      | polling => exact ⟨AcmeEvent.cancelled, by decide, rfl⟩
      | ended => cases h
    | .challenge, t, h => Pair.progress true fun heq => by rw [heq] at h; cases h
    | .admin, t, h => Admin.progress h
  credit_eq_zero
    | .updater, e, h => by
      cases e with
      | wake => exact absurd rfl h
      | _ => rfl
    | .acme, e, h => by
      cases e with
      | event ok => exact absurd rfl h
      | _ => rfl
    | .bind, _, _ => rfl
    | .challenge, _, _ => rfl
    | .admin, _, _ => rfl

/-- A task that has ended has ended for good. -/
theorem ended_of_step {tlsEnabled cancelled c : Bool} : (i : WorkerId) → (t t' : WorkerState i) →
    (e : WorkerEvent i) → (workers tlsEnabled).ended i t = true →
      (workers tlsEnabled).step i cancelled t e = some (t', c) →
        (workers tlsEnabled).ended i t' = true
  | .updater, t, _, e, h, hstep => by
    obtain rfl : t = Updater.ended := eq_of_beq h
    cases e <;> cases hstep
  | .bind, t, _, e, h, hstep => by
    obtain rfl : t = Bind.ended := eq_of_beq h
    cases e <;> cases hstep
  | .acme, t, _, e, h, hstep => by
    obtain rfl : t = Acme.ended := eq_of_beq h
    cases e <;> cases hstep
  | .challenge, t, _, e, h, hstep => by
    obtain rfl : t = Pair.ended := eq_of_beq h
    cases e <;> cases hstep
  | .admin, t, t', e, h, hstep => by
    have hreturned : t.returned = true := h
    cases e with
    | http e =>
      obtain ⟨r, -, heq⟩ := Option.map_eq_some_iff.mp hstep
      cases heq
      exact h
    | https e =>
      rcases hhttps : t.https with _ | https
      · simp only [workers, Admin.step, hhttps, reduceCtorEq] at hstep
      · simp only [workers, Admin.step, hhttps] at hstep
        obtain ⟨https', -, heq⟩ := Option.map_eq_some_iff.mp hstep
        cases heq
        exact h
    | joined =>
      obtain ⟨⟨hnot, -⟩, -⟩ := Option.ite_none_right_eq_some.mp hstep
      rw [hreturned] at hnot
      cases hnot

end Main

end BancuhDns
