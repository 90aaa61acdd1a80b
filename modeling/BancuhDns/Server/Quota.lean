import BancuhDns.Server
import Mathlib.Data.Finset.Card

/-!
# How often a network is answered

A rate limiter promises that of the checks of a key no more than so many pass in any stretch
of time. The promise is about one sequence of checks, and a key is what a network of clients
is counted by; the server makes the checks from many tasks at once, and each of these goes
its own way afterwards.

A task checks its key first of all and once, and does nothing when the check has not passed
(`BancuhDns.Server.exists_check_of_leads`). So in every run no more requests of a network are
answered than the limiter has promised (`BancuhDns.Server.answered_le_quota`).
-/

namespace BancuhDns

variable {σ L : Type}

/-- What some checks of keys are answered, one after the other. -/
def KeyedRateLimiter.verdicts (rl : KeyedRateLimiter L) : L → List (ℕ × IpAddr) → List Bool
  | _, [] => []
  | l, (now, key) :: cs =>
    let verdict := rl.checkKey l now key
    verdict.1 :: rl.verdicts verdict.2 cs

/-- **The promise of a rate limiter**: whatever is checked, in a stretch of time of some length
so many checks of a key pass at most. -/
def KeyedRateLimiter.Promises (rl : KeyedRateLimiter L) (l : L) (quota : ℕ → ℕ) : Prop :=
  ∀ cs : List (ℕ × IpAddr), cs.Pairwise (fun c c' => c.1 ≤ c'.1) → ∀ key since length,
    ((cs.zip (rl.verdicts l cs)).filter fun c =>
      c.2 ∧ c.1.2 = key ∧ since ≤ c.1.1 ∧ c.1.1 ≤ since + length).length ≤ quota length

namespace Server

/-! ### One task -/

variable {cv : Conversions} {profile : Profile} {self : Handler} {request : Request}

/-- **A task checks its key first**, and does nothing more when the check has not passed. -/
theorem exists_check_of_leads {d : History} {p : Talk (Option ResponseInfo)}
    (hlimiter : self.rateLimiter = true)
    (h : (handleRequest cv profile self request).Leads d p) (hd : d ≠ []) :
    ∃ key admitted d', maskIp profile (normalizeIp request.src) self.rateLimitIpv4Prefix
        self.rateLimitIpv6Prefix = some key ∧
      d = ⟨.checkKey key, admitted⟩ :: d' ∧ (admitted = false → d' = []) := by
  rw [handleRequest] at h
  rcases hkey : maskIp profile (normalizeIp request.src) self.rateLimitIpv4Prefix
    self.rateLimitIpv6Prefix with _ | key
  · rw [hkey] at h
    cases h
    exact absurd rfl hd
  · rw [hkey, hlimiter] at h
    cases h with
    | nil => exact absurd rfl hd
    | @cons _ admitted _ d' _ h =>
      refine ⟨key, admitted, d', rfl, rfl, ?_⟩
      rintro rfl
      cases h
      rfl

/-! ### The checks of a run -/

/-- A check that a task has made. -/
structure Check where
  task : ℕ
  instant : ℕ
  key : IpAddr
  admitted : Bool

/-- The checks that are made from an instant on. -/
def checks : ℕ → List (Event σ) → List Check
  | _, [] => []
  | now, .environment (.pass time) :: es => checks (now + time) es
  | now, .exchange i ⟨.checkKey key, admitted⟩ :: es => ⟨i, now, key, admitted⟩ :: checks now es
  | now, _ :: es => checks now es

/-- An event that neither checks a key nor lets time pass is left out. -/
theorem checks_cons_of_ne {now : ℕ} {e : Event σ} {es : List (Event σ)}
    (hcheck : ∀ i key admitted, e ≠ .exchange i ⟨.checkKey key, admitted⟩)
    (hpass : ∀ time, e ≠ .environment (.pass time)) : checks now (e :: es) = checks now es := by
  rcases e with _ | ⟨i, ⟨q, a⟩⟩ | change
  · rfl
  · cases q with
    | checkKey key => exact absurd rfl (hcheck i key a)
    | _ => rfl
  · cases change with
    | pass time => exact absurd rfl (hpass time)
    | _ => rfl

/-- Where the checks come from, event by event. -/
theorem checks_induction {P : ℕ → List (Event σ) → Prop} (hnil : ∀ now, P now [])
    (hpass : ∀ now time es, P (now + time) es → P now (.environment (.pass time) :: es))
    (hcheck : ∀ now i key admitted es, P now es →
      P now (.exchange i ⟨.checkKey key, admitted⟩ :: es))
    (hother : ∀ now e es, (∀ i key admitted, e ≠ .exchange i ⟨.checkKey key, admitted⟩) →
      (∀ time, e ≠ .environment (.pass time)) → P now es → P now (e :: es)) :
    ∀ now es, P now es := by
  intro now es
  induction es generalizing now with
  | nil => exact hnil now
  | cons e es ih =>
    by_cases hc : ∃ i key admitted, e = .exchange i ⟨.checkKey key, admitted⟩
    · obtain ⟨i, key, admitted, rfl⟩ := hc
      exact hcheck now i key admitted es (ih now)
    · by_cases hp : ∃ time, e = .environment (.pass time)
      · obtain ⟨time, rfl⟩ := hp
        exact hpass now time es (ih (now + time))
      · push Not at hc hp
        exact hother now e es hc hp (ih now)

/-- A check is an exchange of its task. -/
theorem mem_exchangesOf_of_mem_checks {now : ℕ} {es : List (Event σ)} {c : Check}
    (h : c ∈ checks now es) :
    ⟨.checkKey c.key, c.admitted⟩ ∈ Tasks.exchangesOf c.task es := by
  rw [Tasks.mem_exchangesOf]
  revert h
  refine checks_induction (P := fun now es => c ∈ checks now es →
    .exchange c.task ⟨.checkKey c.key, c.admitted⟩ ∈ es) ?_ ?_ ?_ ?_ now es
  · exact fun _ h => absurd h List.not_mem_nil
  · exact fun _ _ _ ih h => List.mem_cons_of_mem _ (ih h)
  · intro now i key admitted es ih h
    rcases List.mem_cons.mp h with rfl | h
    · exact List.mem_cons_self
    · exact List.mem_cons_of_mem _ (ih h)
  · intro now e es hc hp ih h
    rw [checks_cons_of_ne hc hp] at h
    exact List.mem_cons_of_mem _ (ih h)

/-- The checks are made in the order of their instants. -/
theorem pairwise_checks (now : ℕ) (es : List (Event σ)) :
    (checks now es).Pairwise (fun c c' => c.instant ≤ c'.instant) ∧
      ∀ c ∈ checks now es, now ≤ c.instant := by
  refine checks_induction (P := fun now es =>
    (checks now es).Pairwise (fun c c' => c.instant ≤ c'.instant) ∧
      ∀ c ∈ checks now es, now ≤ c.instant) ?_ ?_ ?_ ?_ now es
  · exact fun _ => ⟨.nil, fun c hc => absurd hc List.not_mem_nil⟩
  · exact fun now time es ih => ⟨ih.1, fun c hc => (Nat.le_add_right now time).trans (ih.2 c hc)⟩
  · intro now i key admitted es ih
    refine ⟨List.pairwise_cons.mpr ⟨ih.2, ih.1⟩, fun c hc => ?_⟩
    rcases List.mem_cons.mp hc with rfl | hc
    · exact le_rfl
    · exact ih.2 c hc
  · intro now e es hc hp ih
    rw [checks_cons_of_ne hc hp]
    exact ih

variable {srv : Server σ L} {start : Shared σ L} {es : List (Event σ)} {s s' : State σ L} {i : ℕ}

/-- An answer to anything but a check leaves the limiter and its clock as they are. -/
theorem limiter_of_answer {shared shared' : Shared σ L} {q : Call} {a : q.Answer}
    (hq : ∀ key, q ≠ .checkKey key) (h : srv.answer shared q a = some shared') :
    shared'.limiter = shared.limiter ∧ shared'.instant = shared.instant := by
  cases q with
  | checkKey key => exact absurd rfl (hq key)
  | lookup name queryType => exact Option.some.inj h ▸ ⟨rfl, rfl⟩
  | send response => exact Option.some.inj h ▸ ⟨rfl, rfl⟩
  | _ =>
    obtain ⟨-, h⟩ := Option.ite_none_right_eq_some.mp h
    exact Option.some.inj h ▸ ⟨rfl, rfl⟩

/-- **The checks are answered by the limiter**, one after the other. -/
theorem verdicts_of_run (hrun : Runs.run srv.tasks.step s es = some s') :
    srv.limiter.verdicts s.shared.limiter
        ((checks s.shared.instant es).map fun c => (c.instant, c.key)) =
      (checks s.shared.instant es).map Check.admitted := by
  induction es generalizing s with
  | nil => rfl
  | cons e es ih =>
    obtain ⟨s₁, hstep, hrun⟩ := Option.bind_eq_some_iff.mp hrun
    specialize ih hrun
    cases Tasks.moves_of_step hstep with
    | start hi => exact ih
    | @exchange i x q a next shared hi hanswer =>
      by_cases hq : ∃ key, q = .checkKey key
      · obtain ⟨key, rfl⟩ := hq
        obtain ⟨hverdict, hshared⟩ := Option.ite_none_right_eq_some.mp hanswer
        obtain rfl := Option.some.inj hshared
        exact congrArg₂ List.cons hverdict ih
      · push Not at hq
        obtain ⟨hlimiter, hinstant⟩ := limiter_of_answer hq hanswer
        have hnot : ∀ j key admitted, (.exchange i ⟨q, a⟩ : Event σ) ≠
            .exchange j ⟨.checkKey key, admitted⟩ := by
          rintro j key admitted ⟨⟩
          exact hq key rfl
        rw [checks_cons_of_ne hnot fun time heq => by cases heq]
        rw [hlimiter, hinstant] at ih
        exact ih
    | @environment change shared hchange =>
      obtain rfl := Option.some.inj hchange
      cases change <;> exact ih

/-! ### The quota -/

variable (srv start es s) in
/-- **A request of a network that is answered**: its key is that of the network, it was checked
in a certain stretch of time, and a response to it has been handed to the responder. -/
def AnsweredIn (key : IpAddr) (since length : ℕ) (i : ℕ) : Prop :=
  (∃ request p, s.tasks i = some (request, p) ∧ maskIp srv.profile (normalizeIp request.src)
      srv.handler.rateLimitIpv4Prefix srv.handler.rateLimitIpv6Prefix = some key) ∧
    (∃ c ∈ checks start.instant es, c.task = i ∧ since ≤ c.instant ∧
      c.instant ≤ since + length) ∧
    sends (effects (Tasks.exchangesOf i es)) ≠ []

/-- The check of a request that is answered has passed. -/
theorem exists_admitted_of_answeredIn (hlimiter : srv.handler.rateLimiter = true)
    (hrun : srv.Run start es s) {key : IpAddr} {since length : ℕ}
    (h : srv.AnsweredIn start es s key since length i) :
    ∃ c ∈ checks start.instant es, c.task = i ∧ c.admitted ∧ c.key = key ∧ since ≤ c.instant ∧
      c.instant ≤ since + length := by
  obtain ⟨⟨request, p, hi, hkey⟩, ⟨c, hc, htask, hsince, hlength⟩, hsends⟩ := h
  have hleads : (handleRequest srv.conversions srv.profile srv.handler request).Leads
      (Tasks.exchangesOf i es) p := Tasks.leads_of_run hrun hi
  have hwithin := hleads.kinds_subperm
    (Within.handleRequest srv.conversions srv.profile srv.handler request)
  have hmem := mem_exchangesOf_of_mem_checks hc
  rw [htask] at hmem
  obtain ⟨key', admitted, d', hkey', hd, hnone⟩ :=
    exists_check_of_leads hlimiter hleads (List.ne_nil_of_mem hmem)
  obtain rfl : key = key' := Option.some.inj (hkey.symm.trans hkey')
  -- the check in that stretch of time is the one that the task has made first
  have hfirst : (⟨.checkKey key, admitted⟩ : Dialog.Exchange Call.Answer) ∈
      Tasks.exchangesOf i es := by
    rw [hd]
    exact List.mem_cons_self
  have heq := Dialog.eq_of_kind_eq ((hwithin.count_le _).trans_eq rfl) hfirst hmem rfl
  obtain ⟨hcall, hadmitted⟩ := Sigma.mk.inj heq
  obtain rfl : key = c.key := Call.checkKey.inj hcall
  obtain rfl : admitted = c.admitted := eq_of_heq hadmitted
  refine ⟨c, hc, htask, ?_, rfl, hsince, hlength⟩
  by_contra hrefused
  rw [hd, hnone (Bool.eq_false_of_not_eq_true hrefused)] at hsends
  exact hsends rfl

/-- **No network is answered beyond its quota.** In every run, however the tasks are
interleaved, the requests of a network that were checked in a stretch of time and are answered
are no more than the rate limiter has promised to let pass. -/
theorem answered_le_quota {quota : ℕ → ℕ} (hlimiter : srv.handler.rateLimiter = true)
    (hpromises : srv.limiter.Promises start.limiter quota) (hrun : srv.Run start es s)
    (key : IpAddr) (since length : ℕ) (answered : Finset ℕ)
    (h : ∀ i ∈ answered, srv.AnsweredIn start es s key since length i) :
    answered.card ≤ quota length := by
  set passed := (checks start.instant es).filter fun c =>
    c.admitted ∧ c.key = key ∧ since ≤ c.instant ∧ c.instant ≤ since + length with hpassed
  have hsubset : answered ⊆ (passed.map Check.task).toFinset := by
    intro i hi
    obtain ⟨c, hc, htask, hpass⟩ := exists_admitted_of_answeredIn hlimiter hrun (h i hi)
    rw [List.mem_toFinset, ← htask]
    exact List.mem_map_of_mem (List.mem_filter.mpr ⟨hc, decide_eq_true hpass⟩)
  have hcard : answered.card ≤ passed.length :=
    (Finset.card_le_card hsubset).trans ((List.toFinset_card_le _).trans (List.length_map _).le)
  have hkept := hpromises ((checks start.instant es).map fun c => (c.instant, c.key))
    (List.pairwise_map.mpr (pairwise_checks start.instant es).1) key since length
  have hverdicts : srv.limiter.verdicts start.limiter
      ((checks start.instant es).map fun c => (c.instant, c.key)) =
        (checks start.instant es).map Check.admitted := verdicts_of_run hrun
  rw [hverdicts, List.zip_map', List.filter_map, List.length_map] at hkept
  exact hcard.trans hkept

/-- A limiter that lets every key pass once. -/
def oncePerKey : KeyedRateLimiter (List IpAddr) := ⟨fun seen _ key => (key ∉ seen, key :: seen)⟩

theorem oncePerKey_promises : oncePerKey.Promises [] fun _ => 1 := by
  intro cs _ key since length
  -- a key that has been seen does not pass, and one that passes has been seen then
  have hseen : ∀ (cs : List (ℕ × IpAddr)) (seen : List IpAddr),
      ((cs.zip (oncePerKey.verdicts seen cs)).filter fun c =>
        c.2 ∧ c.1.2 = key ∧ since ≤ c.1.1 ∧ c.1.1 ≤ since + length).length ≤
          if key ∈ seen then 0 else 1 := by
    intro cs
    induction cs with
    | nil => exact fun seen => Nat.zero_le _
    | cons c cs ih =>
      intro seen
      have hrest := ih (c.2 :: seen)
      have hcons : oncePerKey.verdicts seen (c :: cs) =
          decide (c.2 ∉ seen) :: oncePerKey.verdicts (c.2 :: seen) cs := rfl
      rw [hcons, List.zip_cons_cons, List.filter_cons]
      by_cases hin : key ∈ seen
      · rw [if_pos (List.mem_cons_of_mem _ hin)] at hrest
        have hhead : ¬(decide (c.2 ∉ seen) = true ∧ c.2 = key ∧ since ≤ c.1 ∧
            c.1 ≤ since + length) := by
          rintro ⟨hnew, rfl, -⟩
          exact of_decide_eq_true hnew hin
        rw [if_neg (by simpa using hhead), if_pos hin]
        exact hrest
      · rw [if_neg hin]
        split_ifs with hhead
        · obtain ⟨-, rfl, -⟩ := of_decide_eq_true hhead
          rw [if_pos List.mem_cons_self] at hrest
          rw [List.length_cons]
          exact Nat.succ_le_succ hrest
        · exact hrest.trans (by split_ifs <;> omega)
  exact hseen cs []

/-- A server that answers every client once. -/
def onceServer : Server (List (Text × Text)) (List IpAddr) where
  kv := .assoc _ _ _
  crates := .lenient
  platform := .plain
  conversions := ⟨fun _ => [], .ok⟩
  limiter := oncePerKey
  profile := .debug
  handler := ⟨true, 32, 48⟩

/-- Two requests of one client. The second is dropped. -/
def twoRequests : List (Event (List (Text × Text))) :=
  [.start 0 Handler.aQuery, .start 1 Handler.aQuery,
    .exchange 0 ⟨.checkKey (.v4 0x0A000001), true⟩, .environment (.pass 3),
    .exchange 1 ⟨.checkKey (.v4 0x0A000001), false⟩,
    .exchange 0 ⟨.getRedirect "a.com.".toList, .ok none⟩,
    .exchange 0 ⟨.isBlocked "a.com.".toList, .ok false⟩,
    .exchange 0 ⟨.lookup "a.com.".toList .a, .ok []⟩,
    .exchange 0 ⟨.send ⟨⟨1, .response, .query, .noError⟩, []⟩,
      .ok ⟨⟨1, .response, .query, .noError⟩⟩⟩]

theorem answered_le_quota_twoRequests :
    ∃ s, onceServer.Run ⟨⟨.assoc, .file ⟨[]⟩⟩, [], .new, 0, 0⟩ twoRequests s ∧
      ∀ answered : Finset ℕ, (∀ i ∈ answered, onceServer.AnsweredIn
        ⟨⟨.assoc, .file ⟨[]⟩⟩, [], .new, 0, 0⟩ twoRequests s (.v4 0x0A000001) 0 5 i) →
          answered.card ≤ 1 := by
  obtain ⟨s, hs⟩ : ∃ s, onceServer.Run ⟨⟨.assoc, .file ⟨[]⟩⟩, [], .new, 0, 0⟩ twoRequests s :=
    ⟨_, rfl⟩
  exact ⟨s, hs, fun answered =>
    answered_le_quota rfl oncePerKey_promises hs (.v4 0x0A000001) 0 5 answered⟩

end Server

end BancuhDns
