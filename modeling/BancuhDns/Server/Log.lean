import BancuhDns.Server
import BancuhDns.Handler.Logged
import BancuhDns.Admin.Lookup
import BancuhDns.QueryLog.History

/-!
# Whose queries the log shows

An entry comes into the log by a task, at the very end of it: the reply has been sent, and the
entry says whose query it was, what was asked and what kind of reply it got
(`BancuhDns.Handler.trace_of_insert_mem`). So the log of a server accounts for the tasks that
it has run, each at most once, in whatever order they came to their ends
(`BancuhDns.Server.accountsFor_of_insert`).

The pages show a client the entries under its own address. From the address of a connection
to the address of an entry and back, this means: a client is shown its own queries and
nobody else's (`BancuhDns.Server.page_of_run`).
-/

namespace BancuhDns

namespace Handler

variable {profile : Profile} {self : Handler} {answers : Answers} {request : Request}

/-- The entry of a query with a certain reply. -/
def entryOf (answers : Answers) (request : Request) (query : Query) (answer : Text) : Insert :=
  ⟨answers.inserted, normalizeIp request.src, ⟨answers.stamped, question query, answer⟩⟩

/-- **What is logged has been sent just before**, and nothing comes after it. -/
theorem trace_of_insert_mem {act : Traced ResponseInfo} {call : Insert}
    (hact : handleRequest answers profile self request = some act)
    (hcall : .insert call ∈ (act.run []).2) :
    ∃ query records answer calls, IsQuery request query ∧ Replies answers query records answer ∧
      Quiet calls ∧ call = entryOf answers request query answer ∧ (act.run []).2 = calls ++
        [.send ⟨request.header.responseFromRequest, records⟩ true, .insert call] := by
  obtain ⟨key, hkey⟩ := exists_key_of_handled hact
  have hrun := traceOf_of_handled hact
  have hlimited : ¬RateLimited profile self answers request := by
    intro hlimited
    obtain ⟨key', hkey'⟩ := traceOf_of_rateLimited hlimited
    rw [← hrun, hkey'] at hcall
    cases List.mem_singleton.mp hcall
  obtain ⟨checked, hchecked, -, htrace⟩ :=
    traceOf_of_admits (admits_of_not_rateLimited hkey hlimited)
  rw [hrun] at htrace
  have hmem : call ∈ inserts (handledTrace answers request (normalizeIp request.src) checked) := by
    rw [← htrace]
    exact List.mem_filterMap.mpr ⟨_, hcall, rfl⟩
  rw [htrace]
  by_cases hquery : ∃ query, IsQuery request query
  · obtain ⟨query, hquery⟩ := hquery
    by_cases hreplies : ∃ records answer, Replies answers query records answer
    · obtain ⟨records, answer, hreplies⟩ := hreplies
      obtain ⟨calls, hcalls, hexec⟩ := exec_doHandleRequest_of_replies hquery hreplies checked
      have hquiet := hcalls.append_of_checkKey hchecked
      have hreply := exec_sendReply answers request query records answer (checked ++ calls)
      rw [inserts_of_replies hquery _ hreplies hchecked] at hmem
      simp only [← hexec, hquiet.sends, List.length_nil] at hreply
      -- the entry is there because the reply could be sent
      rcases hsend : answers.sendResponse 0 ⟨request.header.responseFromRequest, records⟩ with
        err | info
      · rw [hsend] at hmem
        cases hmem
      · rw [hsend] at hmem
        simp only [hsend] at hreply
        have hcall' : call = entryOf answers request query answer := List.mem_singleton.mp hmem
        refine ⟨query, records, answer, checked ++ calls, hquery, hreplies, hquiet, hcall', ?_⟩
        rw [handledTrace, hreply, run_finish_ok, hcall', List.append_assoc]
        rfl
    · push Not at hreplies
      rw [inserts_of_not_replies hquery _ hreplies hchecked] at hmem
      cases hmem
  · push Not at hquery
    obtain ⟨err, hexec⟩ := exec_doHandleRequest_of_not_isQuery answers hquery checked
    have hnone : inserts checked = [] := filterMap_eq_nil_of_checkKey (fun _ => rfl) hchecked
    rw [handledTrace, hexec, inserts_run_finish_error _ _ hnone] at hmem
    cases hmem

end Handler

namespace Server

variable {σ L : Type} {srv : Server σ L} {start : Shared σ L} {es : List (Event σ)}
  {s : State σ L} {i : ℕ} {call : Insert}

/-- The entries that the tasks have inserted, in order. -/
def insertsOf (es : List (Event σ)) : List Insert :=
  inserts (effects ((Tasks.changes es).filterMap Sum.getLeft?))

theorem mem_inserts {trace : List Effect} : call ∈ inserts trace ↔ .insert call ∈ trace := by
  rw [inserts, List.mem_filterMap]
  constructor
  · rintro ⟨e, he, hcall⟩
    cases e <;> cases hcall
    exact he
  · exact fun hmem => ⟨_, hmem, rfl⟩

/-- An entry has been inserted by a task. -/
theorem exists_of_mem_insertsOf (h : call ∈ insertsOf es) :
    ∃ i, .insert call ∈ effects (Tasks.exchangesOf i es) := by
  obtain ⟨e, he, heffect⟩ := List.mem_filterMap.mp (mem_inserts.mp h)
  obtain ⟨change, hchange, hleft⟩ := List.mem_filterMap.mp he
  obtain ⟨event, hevent, hchange⟩ := List.mem_filterMap.mp hchange
  rcases event with _ | ⟨i, e'⟩ | _
  · cases hchange
  · obtain rfl : .inl e' = change := Option.some.inj hchange
    obtain rfl : e' = e := Option.some.inj hleft
    exact ⟨i, List.mem_filterMap.mpr ⟨e', Tasks.mem_exchangesOf.mpr hevent, heffect⟩⟩
  · obtain rfl := Option.some.inj hchange
    cases hleft

/-- An answer changes the log when it is the one to an insert. -/
theorem queryLog_of_answer {shared shared' : Shared σ L} {q : Call} {a : q.Answer}
    (h : srv.answer shared q a = some shared') :
    shared'.queryLog = (inserts (effects [⟨q, a⟩])).foldl
      (fun store c => store.insert c.now c.ip c.log) shared.queryLog := by
  cases q with
  | lookup name queryType => exact congrArg Shared.queryLog (Option.some.inj h).symm
  | send response => exact congrArg Shared.queryLog (Option.some.inj h).symm
  | _ =>
    obtain ⟨-, h⟩ := Option.ite_none_right_eq_some.mp h
    rw [← Option.some.inj h]
    rfl

/-- **The log is the entries inserted**, in order. -/
theorem queryLog_of_run (hnew : start.queryLog = .new) (hrun : srv.Run start es s) :
    s.shared.queryLog = insertAll (insertsOf es) := by
  refine Runs.invariant (fun cs (shared : Shared σ L) =>
    shared.queryLog = insertAll (inserts (effects (cs.filterMap Sum.getLeft?)))) hnew ?_
    (Tasks.shared_of_run hrun)
  rintro cs shared (⟨q, a⟩ | change) shared' - ih hstep
  · rw [queryLog_of_answer hstep, ih, List.filterMap_append, effects_append, inserts_append,
      insertAll, insertAll, List.foldl_append]
    rfl
  · obtain rfl := Option.some.inj hstep
    rw [List.filterMap_append, effects_append, inserts_append]
    refine Eq.trans ?_ (ih.trans (congrArg insertAll (List.append_nil _).symm))
    cases change <;> rfl

variable (srv start es s) in
/-- **A task accounts for an entry**: it is under the address of its request and says what was
asked and what kind of reply it got, by the engines that it saw; that reply, and nothing else,
has reached the client; and it is the only entry of the task. -/
def AccountsFor (i : ℕ) (call : Insert) : Prop :=
  ∃ request p query records answer engine engine', s.tasks i = some (request, p) ∧
    srv.SeenBy start es i engine ∧ srv.SeenBy start es i engine' ∧
    let d := Tasks.exchangesOf i es
    let answers := answersOf srv.conversions (engine.getRedirect srv.kv)
      (engine'.isBlocked srv.kv) d
    Handler.IsQuery request query ∧ Handler.Replies answers query records answer ∧
      call = Handler.entryOf answers request query answer ∧ inserts (effects d) = [call] ∧
      received (effects d) = [⟨request.header.responseFromRequest, records⟩]

/-- **An entry is accounted for** by the task that has inserted it. -/
theorem accountsFor_of_insert (hrun : srv.Run start es s)
    (hcall : .insert call ∈ effects (Tasks.exchangesOf i es)) :
    srv.AccountsFor start es s i call := by
  -- a task that has not been started has not done anything
  rcases hi : s.tasks i with _ | ⟨request, p⟩
  · have hok := Tasks.taskOk_of_run hrun i
    rw [hi] at hok
    rw [hok.1] at hcall
    cases hcall
  obtain ⟨engine, engine', hseen, hseen', hnone, hsome⟩ := task_alone hrun hi
  set d := Tasks.exchangesOf i es with hd
  set answers := answersOf srv.conversions (engine.getRedirect srv.kv) (engine'.isBlocked srv.kv) d
    with hanswers
  rcases hact : Handler.handleRequest answers srv.profile srv.handler request with _ | act
  · rw [(hnone hact).2] at hcall
    cases hcall
  obtain ⟨-, hbeginning, -⟩ := hsome act hact
  obtain ⟨query, records, answer, calls, hquery, hreplies, hquiet, hentry, htrace⟩ :=
    Handler.trace_of_insert_mem hact (hbeginning.subset hcall)
  -- the insert comes last, so that all of the trace is there
  have heffects : effects d = calls ++
      [.send ⟨request.header.responseFromRequest, records⟩ true, .insert call] := by
    have hconcat : (act.run []).2 =
        (calls ++ [.send ⟨request.header.responseFromRequest, records⟩ true]) ++
          [.insert call] := by
      rw [htrace, List.append_assoc]
      rfl
    rw [hconcat, List.prefix_concat_iff] at hbeginning
    rcases hbeginning with heq | hbefore
    · rw [heq, List.append_assoc]
      rfl
    · have hmem := mem_inserts.mpr (hbefore.subset hcall)
      rw [inserts_append, hquiet.inserts] at hmem
      cases hmem
  refine ⟨request, p, query, records, answer, engine, engine', hi, hseen, hseen', hquery,
    hreplies, hentry, ?_, ?_⟩
  · rw [heffects, inserts_append, hquiet.inserts]
    rfl
  · rw [heffects, received_append, received_eq_nil_of_sends hquiet.sends]
    rfl

theorem mem_insertsOf_iff (hrun : srv.Run start es s) :
    call ∈ insertsOf es ↔ ∃ i, srv.AccountsFor start es s i call := by
  constructor
  · intro hcall
    obtain ⟨i, hi⟩ := exists_of_mem_insertsOf hcall
    exact ⟨i, accountsFor_of_insert hrun hi⟩
  · rintro ⟨i, request, p, query, records, answer, engine, engine', -, -, -, -, -, -, honce, -⟩
    have hmem : .insert call ∈ effects (Tasks.exchangesOf i es) :=
      mem_inserts.mp (by rw [honce]; exact List.mem_singleton_self call)
    obtain ⟨e, he, heffect⟩ := List.mem_filterMap.mp hmem
    have hchange : .inl e ∈ Tasks.changes es :=
      List.mem_filterMap.mpr ⟨_, Tasks.mem_exchangesOf.mp he, rfl⟩
    exact mem_inserts.mpr
      (List.mem_filterMap.mpr ⟨e, List.mem_filterMap.mpr ⟨_, hchange, rfl⟩, heffect⟩)

/-- What is shown has been inserted. -/
theorem exists_of_mem_getLogs {now : ℤ} {ip : IpAddr} {calls : List Insert} {e : QueryLog}
    (he : e ∈ (insertAll calls).getLogs now ip) : ∃ c ∈ calls, c.ip = ip ∧ c.log = e := by
  rw [getLogs_insertAll] at he
  have hpushed := (Window.contents_suffix QueryLog.queryTime maxPerIp _).subset
    (List.mem_of_mem_filter he)
  rw [map_snd_push] at hpushed
  obtain ⟨c, hc, hlog⟩ := List.mem_map.mp hpushed
  obtain ⟨hmem, hip⟩ := mem_callsFor.mp hc
  exact ⟨c, hmem, hip, hlog⟩

/-- **A client is shown its own queries and nobody else's.** In every run, whatever a client
is shown was the query of a task whose request came from the same address, and is accounted
for by that task. The log accounts for all entries that tasks have inserted; and when the
clock has not been set back between the inserts, a client is shown those among the last 1000
under its address that are not older than ten minutes. -/
theorem page_of_run (hnew : start.queryLog = .new) (hrun : srv.Run start es s)
    (addr : SocketAddr) (now : ℤ) :
    (∀ e ∈ (Admin.getLogsApi now s.shared.queryLog addr).queries,
      ∃ i request p call, s.tasks i = some (request, p) ∧
        normalizeIp request.src = normalizeIp addr ∧ call.log = e ∧
          srv.AccountsFor start es s i call) ∧
    (∀ call, call ∈ insertsOf es ↔ ∃ i, srv.AccountsFor start es s i call) ∧
    ((insertsOf es).Pairwise (fun c c' => c.now ≤ c'.now) →
      (∀ c ∈ insertsOf es, c.now ≤ now) →
        (Admin.getLogsApi now s.shared.queryLog addr).queries =
          ((history (normalizeIp addr) (insertsOf es)).rtake maxPerIp).filter
            fun e => now - maxAge ≤ e.queryTime) := by
  have hshown : (Admin.getLogsApi now s.shared.queryLog addr).queries =
      (insertAll (insertsOf es)).getLogs now (normalizeIp addr) := by
    rw [Admin.getLogsApi, lookupIp_eq_normalizeIp, queryLog_of_run hnew hrun]
  refine ⟨fun e he => ?_, fun call => mem_insertsOf_iff hrun, fun hclock hnow => ?_⟩
  · rw [hshown] at he
    obtain ⟨call, hcall, hip, hlog⟩ := exists_of_mem_getLogs he
    obtain ⟨i, request, p, query, records, answer, engine, engine', hi, haccounts⟩ :=
      (mem_insertsOf_iff hrun).mp hcall
    refine ⟨i, request, p, call, hi, ?_, hlog, request, p, query, records, answer, engine, engine',
      hi, haccounts⟩
    obtain ⟨-, -, -, -, hentry, -⟩ := haccounts
    rw [← hip, hentry]
    rfl
  · have hretains := queueOf_retains (hclock.sublist (callsFor_sublist (normalizeIp addr) _))
      fun c hc => hnow c (mem_callsFor.mp hc).1
    rw [hshown, getLogs_insertAll, history]
    exact hretains.filter_eq

theorem page_of_run_twoClients :
    ∃ s, openServer.Run justStarted twoClients s ∧
      ∀ port, ∃ i, ∃ call : Insert, call.log = ⟨7, "a.com. A".toList, "forwarded".toList⟩ ∧
        call.log ∈ (Admin.getLogsApi 8 s.shared.queryLog ⟨.v4 0x0A000001, port⟩).queries ∧
        openServer.AccountsFor justStarted twoClients s i call := by
  obtain ⟨s, hs⟩ : ∃ s, openServer.Run justStarted twoClients s := ⟨_, rfl⟩
  refine ⟨s, hs, fun port => ?_⟩
  obtain ⟨hown, -, hshown⟩ := page_of_run rfl hs ⟨.v4 0x0A000001, port⟩ 8
  have hmem : ⟨7, "a.com. A".toList, "forwarded".toList⟩ ∈
      (Admin.getLogsApi 8 s.shared.queryLog ⟨.v4 0x0A000001, port⟩).queries := by
    have hhistory : history (normalizeIp ⟨.v4 0x0A000001, port⟩) (insertsOf twoClients) =
        [⟨7, "a.com. A".toList, "forwarded".toList⟩] := rfl
    rw [hshown (by decide) (by decide), hhistory]
    decide
  obtain ⟨i, request, p, call, -, -, hlog, haccounts⟩ := hown _ hmem
  exact ⟨i, call, hlog, hlog ▸ hmem, haccounts⟩

end Server

end BancuhDns
