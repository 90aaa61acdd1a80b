import BancuhDns.Engine.Publication
import BancuhDns.Engine.Update
import BancuhDns.Lib.Atomic
import BancuhDns.Server

/-!
# The server, step by step

In `BancuhDns.Server` a call of the engine is one step, and an update is seen all at once. Here
nothing is: the engine is that of `BancuhDns.Publication`, in which an update fills its stores
write by write before it publishes them, and a call loads the published pointer and then reads
one store after the other; and every call of a task is made, served and returned from in steps
of their own, so that anything may happen between them (`BancuhDns.Server.Inside`).

It makes no difference. A call of the engine takes its effect when it loads the pointer, since
nobody writes to the database behind it any more; the others take theirs when they are served;
and an update takes its effect when it publishes, or fails. So every run keeps pace with one of
`BancuhDns.Server` (`BancuhDns.Server.steps_refine`), and what is proved of the server there
holds here.
-/

namespace BancuhDns

namespace Publication

variable {σ : Type} {kv : RocksDB σ} {cr : Crates} {s s' : System σ} {e : Event kv}

theorem Moves.pointer_eq (h : Moves kv cr s e s') (he : ∀ u, e ≠ .publish u) :
    s'.pointer = s.pointer := by
  cases h with
  | publish hu => exact absurd rfl (he _)
  | _ => rfl

/-- What is published is written to by nobody. -/
theorem Moves.sealed_pointer (h : Moves kv cr s e s') (hpointer : Sealed s s.pointer)
    (hlt : ∀ u a, Owns s u a → a < s.fresh) (hinj : ∀ u v a, Owns s u a → Owns s v a → u = v) :
    Sealed s' s'.pointer := by
  by_cases he : ∃ u, e = .publish u
  · obtain ⟨u, rfl⟩ := he
    cases h with
    | @publish u a hu =>
      have ho : Owns s u a := by rw [Owns, hu, UpdateTask.addr]
      refine ⟨hlt u a ho, fun v hv => ?_⟩
      rcases addr_update hv with ⟨rfl, ha⟩ | hv'
      · cases ha
      · obtain rfl := hinj v u a hv' ho
        simp [Owns, UpdateTask.addr] at hv
  · have hsame := h.pointer_eq fun u heq => he ⟨u, heq⟩
    rw [hsame]
    exact (h.of_sealed hpointer).1

/-- An update has no part in the calls. -/
theorem Moves.calls_eq (h : Moves kv cr s e s') {u : ℕ} (he : e.task = some u) :
    s'.calls = s.calls := by
  cases h with
  | ask hc => cases he
  | read hc => cases he
  | _ => rfl

end Publication

namespace Server

variable {σ L : Type}

/-! ### The system -/

/-- A world in which the stores that are created are empty. -/
abbrev FreshWorld (kv : RocksDB σ) :=
  {w : World σ // ∀ db, AdblockDB.create w.opened = .ok db → db.Empty kv}

/-- What a task is in the middle of. -/
inductive Doing where
  | nothing
  /-- A call is made. -/
  | asked (call : Call)
  /-- A call to others than the engine is served. -/
  | told (e : Dialog.Exchange Call.Answer)

/-- **What the tasks share**, with everything that is going on. -/
structure Inside (σ L : Type) where
  /-- The engine, with the updates and the calls of the tasks. -/
  engine : Publication.System σ
  /-- The worlds of the updates. -/
  worlds : ℕ → Option (World σ)
  doing : ℕ → Doing
  limiter : L
  queryLog : QueryLogStore
  clock : ℤ
  instant : ℕ

/-- A server in which nothing has happened. -/
def Inside.init (start : Shared σ L) : Inside σ L where
  engine := .init start.engine.db
  worlds _ := none
  doing _ := .nothing
  limiter := start.limiter
  queryLog := start.queryLog
  clock := start.clock
  instant := start.instant

/-- What is done besides the calls and returns of the tasks. -/
inductive Work (kv : RocksDB σ) where
  /-- The call of a task to others than the engine is served. -/
  | serve (i : ℕ) (e : Dialog.Exchange Call.Answer)
  /-- The call of a task to the engine loads the pointer. -/
  | load (i : ℕ)
  /-- It reads its next store. -/
  | read (i : ℕ)
  /-- An update begins, and creates its stores, or cannot. -/
  | create (u : ℕ) (w : FreshWorld kv)
  /-- It loads its configuration, or cannot. -/
  | loadConfig (u : ℕ)
  /-- It makes its next write. -/
  | write (u : ℕ)
  /-- It publishes its stores. -/
  | publish (u : ℕ)
  /-- The clock is set. -/
  | setClock (now : ℤ)
  /-- Time passes. -/
  | pass (time : ℕ)

/-- What the engine is asked by a call. -/
def Call.question : Call → Option Publication.Question
  | .getRedirect name => some (.getRedirect name)
  | .isBlocked name => some (.isBlocked name)
  | _ => none

/-- What a task is told when the engine has answered. -/
def exchangeOf : Publication.Question → Publication.Answer → Dialog.Exchange Call.Answer
  | .isBlocked name, .blocked r | .getRedirect name, .blocked r => ⟨.isBlocked name, r⟩
  | .getRedirect name, .redirect r | .isBlocked name, .redirect r => ⟨.getRedirect name, r⟩

variable (srv : Server σ L) (configUrl : FileOrUrl)

/-- What is shared, as it is seen from outside. -/
def Inside.outside (t : Inside σ L) : Shared σ L :=
  ⟨⟨t.engine.heap t.engine.pointer, configUrl⟩, t.limiter, t.queryLog, t.clock, t.instant⟩

/-- A step of the engine. -/
def Inside.engineStep (t : Inside σ L) (e : Publication.Event srv.kv) : Option (Inside σ L) :=
  (Publication.step srv.kv srv.crates t.engine e).map fun engine => { t with engine := engine }

/-- What the call of a task returns, when it is done. -/
def Inside.result (t : Inside σ L) (i : ℕ) : Option (Dialog.Exchange Call.Answer) :=
  match t.doing i with
  | .nothing => none
  | .told e => some e
  | .asked _ =>
    match t.engine.calls i with
    | .answered q answer => some (exchangeOf q answer)
    | _ => none

/-- The call of a task is over. -/
def Inside.clear (t : Inside σ L) (i : ℕ) : Inside σ L :=
  { t with
    engine := { t.engine with calls := Function.update t.engine.calls i .idle }
    doing := Function.update t.doing i .nothing }

/-- One step besides the calls and returns. -/
def Inside.work (t : Inside σ L) : Work srv.kv → Option (Inside σ L)
  | .serve i e =>
    match t.doing i with
    | .asked call =>
      if call = e.1 ∧ call.question.isNone then
        (srv.answer (t.outside configUrl) e.1 e.2).map fun shared =>
          { t with
            doing := Function.update t.doing i (.told e)
            limiter := shared.limiter
            queryLog := shared.queryLog }
      else none
    | _ => none
  | .load i =>
    match t.doing i with
    | .asked call => call.question.bind fun q => t.engineStep srv (.ask i q)
    | _ => none
  | .read i => t.engineStep srv (.read i)
  | .create u w =>
    match h : AdblockDB.create w.1.opened with
    | .ok db => { t with worlds := Function.update t.worlds u (some w.1) }.engineStep srv
        (.create u ⟨db, w.2 db h⟩)
    | .error _ => t.engineStep srv (.createFails u)
  | .loadConfig u => (t.worlds u).bind fun w =>
    match Config.load srv.platform w.config configUrl with
    | .ok config => t.engineStep srv (.loadConfig u config w.sources)
    | .error _ => t.engineStep srv (.loadFails u)
  | .write u => t.engineStep srv (.write u)
  | .publish u => t.engineStep srv (.publish u)
  | .setClock now => some { t with clock := now }
  | .pass time => some { t with instant := t.instant + time }

/-- **The server, step by step.** -/
def inside : Atomic.Implementation (Inside σ L) (Work srv.kv) Call.Answer where
  enter t i call :=
    match t.doing i with
    | .nothing => some { t with doing := Function.update t.doing i (.asked call) }
    | _ => none
  work t := t.work srv configUrl
  leave t i call :=
    match t.result i with
    | some e => if h : e.1 = call then some (h ▸ e.2, t.clear i) else none
    | none => none

/-! ### How far a call has got -/

/-- The answer of a database to a question. -/
def answerBy (db : AdblockDB σ) (q : Publication.Question) : Dialog.Exchange Call.Answer :=
  exchangeOf q (Publication.answerOf srv.kv configUrl db q)

/-- How far the engine has got with a call. Once it has loaded a database it is settled what it
will answer. -/
def readStatus (heap : ℕ → AdblockDB σ) (call : Call) :
    Publication.Call → Atomic.CallStatus Call.Answer
  | .idle => .begun call
  | .loaded q a => .effected (answerBy srv configUrl (heap a) q)
  | .notWhitelisted name a => .effected (answerBy srv configUrl (heap a) (.isBlocked name))
  | .answered q answer => .effected (exchangeOf q answer)

/-- How far the call of a task has got. -/
def Inside.status (t : Inside σ L) (i : ℕ) : Atomic.CallStatus Call.Answer :=
  match t.doing i with
  | .nothing => .idle
  | .told e => .effected e
  | .asked call => readStatus srv configUrl t.engine.heap call (t.engine.calls i)

/-! ### The invariant -/

/-- Where an update has got to, with the world that it is in. -/
def UpdateOk (heap : ℕ → AdblockDB σ) (world : Option (World σ)) : Publication.UpdateTask → Prop
  | .created a => ∃ w, world = some w ∧ AdblockDB.create w.opened = .ok (heap a)
  | .writing a todo => ∃ w db config, world = some w ∧ AdblockDB.create w.opened = .ok db ∧
      Config.load srv.platform w.config configUrl = .ok config ∧
      todo.foldl (AdblockCompiler.Write.apply srv.kv) (heap a) =
        (AdblockCompiler.fromConfig config).compile srv.kv srv.crates w.sources db
  | _ => True

/-- Nobody writes to what a call has loaded. -/
def CallOk (engine : Publication.System σ) : Publication.Call → Prop
  | .loaded _ a => Publication.Sealed engine a
  | .notWhitelisted name a => Publication.Sealed engine a ∧
      (engine.heap a).whitelist.contains srv.kv name = .ok false
  | _ => True

/-- **The invariant.** -/
structure Sound (t : Inside σ L) : Prop where
  pointer : Publication.Sealed t.engine t.engine.pointer
  owns_lt : ∀ u a, Publication.Owns t.engine u a → a < t.engine.fresh
  owns_inj : ∀ u v a, Publication.Owns t.engine u a → Publication.Owns t.engine v a → u = v
  update : ∀ u, UpdateOk srv configUrl t.engine.heap (t.worlds u) (t.engine.updates u)
  call : ∀ i, CallOk srv t.engine (t.engine.calls i)
  /-- The engine is asked by tasks that have called it. -/
  busy : ∀ i, t.engine.calls i ≠ .idle →
    ∃ call, t.doing i = .asked call ∧ call.question.isNone = false

variable {srv configUrl} {t : Inside σ L} {engine : Publication.System σ}
  {e : Publication.Event srv.kv}

/-- What a call has loaded is left as it is. -/
theorem CallOk.of_moves (hm : Publication.Moves srv.kv srv.crates t.engine e engine)
    {c : Publication.Call} (h : CallOk srv t.engine c) : CallOk srv engine c := by
  cases c with
  | idle => trivial
  | answered q answer => trivial
  | loaded q a => exact (hm.of_sealed h).1
  | notWhitelisted name a =>
    obtain ⟨hsealed, hheap⟩ := hm.of_sealed h.1
    exact ⟨hsealed, by rw [hheap]; exact h.2⟩

theorem readStatus_of_moves (hm : Publication.Moves srv.kv srv.crates t.engine e engine)
    {c : Publication.Call} (h : CallOk srv t.engine c) (call : Call) :
    readStatus srv configUrl engine.heap call c =
      readStatus srv configUrl t.engine.heap call c := by
  cases c with
  | idle => rfl
  | answered q answer => rfl
  | loaded q a => rw [readStatus, readStatus, (hm.of_sealed h).2]
  | notWhitelisted name a => rw [readStatus, readStatus, (hm.of_sealed h.1).2]

/-- A step of one update leaves another where it is. -/
theorem UpdateOk.of_moves (h : Sound srv configUrl t)
    (hm : Publication.Moves srv.kv srv.crates t.engine e engine) {v : ℕ}
    (hv : e.task ≠ some v) :
    UpdateOk srv configUrl engine.heap (t.worlds v) (engine.updates v) := by
  obtain ⟨hsame, hheap⟩ := hm.of_task_ne h.owns_lt h.owns_inj hv
  have hok := h.update v
  rw [hsame]
  rcases hupdate : t.engine.updates v with _ | a | ⟨a, todo⟩ | _ | _
  · trivial
  · have ho : Publication.Owns t.engine v a := by rw [Publication.Owns, hupdate]; rfl
    rw [hupdate] at hok
    rw [UpdateOk, hheap a ho]
    exact hok
  · have ho : Publication.Owns t.engine v a := by rw [Publication.Owns, hupdate]; rfl
    rw [hupdate] at hok
    rw [UpdateOk, hheap a ho]
    exact hok
  · trivial
  · trivial

/-- **A step of an update** keeps the invariant, and no call notices it. -/
theorem Sound.of_update (h : Sound srv configUrl t)
    (hm : Publication.Moves srv.kv srv.crates t.engine e engine) {u : ℕ} (he : e.task = some u)
    {worlds : ℕ → Option (World σ)} (hworlds : ∀ v, v ≠ u → worlds v = t.worlds v)
    (hu : UpdateOk srv configUrl engine.heap (worlds u) (engine.updates u)) :
    Sound srv configUrl { t with engine := engine, worlds := worlds } ∧
      Inside.status srv configUrl { t with engine := engine, worlds := worlds } =
        t.status srv configUrl := by
  have hcalls := hm.calls_eq he
  refine ⟨⟨hm.sealed_pointer h.pointer h.owns_lt h.owns_inj, fun v a ho => hm.owns_lt h.owns_lt ho,
    fun v v' a => hm.owns_inj h.owns_lt h.owns_inj, fun v => ?_, fun i => ?_, fun i hi => ?_⟩, ?_⟩
  · rcases eq_or_ne v u with rfl | hne
    · exact hu
    · simp only [hworlds v hne]
      exact UpdateOk.of_moves h hm fun heq => hne (Option.some.inj (heq.symm.trans he))
  · simp only [hcalls]
    exact (h.call i).of_moves hm
  · simp only [hcalls] at hi
    exact h.busy i hi
  · funext i
    rw [Inside.status, Inside.status]
    simp only [hcalls]
    cases t.doing i with
    | nothing => rfl
    | told e => rfl
    | asked call => exact readStatus_of_moves hm (h.call i) call

/-- What is published is left as it is, unless something else is published. -/
theorem Sound.outside_eq (h : Sound srv configUrl t)
    (hm : Publication.Moves srv.kv srv.crates t.engine e engine) (he : ∀ u, e ≠ .publish u)
    (worlds : ℕ → Option (World σ)) :
    Inside.outside configUrl { t with engine := engine, worlds := worlds } =
      t.outside configUrl := by
  simp only [Inside.outside, hm.pointer_eq he, (hm.of_sealed h.pointer).2]

/-- **A read of a call** comes no further than to the answer of what it has loaded. -/
theorem CallOk.read {c c' : Publication.Call} (h : CallOk srv engine c)
    (hread : c.read srv.kv engine.heap = some c') :
    c ≠ .idle ∧ CallOk srv engine c' ∧ ∀ configUrl call,
      readStatus srv configUrl engine.heap call c' =
        readStatus srv configUrl engine.heap call c := by
  cases c with
  | idle => cases hread
  | answered q answer => cases hread
  | loaded q a =>
    cases q with
    | isBlocked name =>
      rw [Publication.Call.read] at hread
      rcases hw : (engine.heap a).whitelist.contains srv.kv name with err | _ | _
      · rw [hw] at hread
        obtain rfl := Option.some.inj hread
        refine ⟨by simp, trivial, fun configUrl call => ?_⟩
        simp only [readStatus, answerBy, Publication.answerOf, AdblockEngine.isBlocked, hw]
      · rw [hw] at hread
        obtain rfl := Option.some.inj hread
        exact ⟨by simp, ⟨h, hw⟩, fun configUrl call => rfl⟩
      · rw [hw] at hread
        obtain rfl := Option.some.inj hread
        refine ⟨by simp, trivial, fun configUrl call => ?_⟩
        simp only [readStatus, answerBy, Publication.answerOf, AdblockEngine.isBlocked, hw]
    | getRedirect name =>
      rw [Publication.Call.read] at hread
      rcases hg : (engine.heap a).rewrites.get srv.kv name with err | found <;>
      · rw [hg] at hread
        obtain rfl := Option.some.inj hread
        refine ⟨by simp, trivial, fun configUrl call => ?_⟩
        simp only [readStatus, answerBy, Publication.answerOf, AdblockEngine.getRedirect, hg]
  | notWhitelisted name a =>
    rw [Publication.Call.read] at hread
    rcases hb : (engine.heap a).blacklist.contains srv.kv name with err | _ | _ <;>
    · rw [hb] at hread
      obtain rfl := Option.some.inj hread
      refine ⟨by simp, trivial, fun configUrl call => ?_⟩
      simp only [readStatus, answerBy, Publication.answerOf, AdblockEngine.isBlocked, h.2, hb]

/-! ### Every step shows something -/

variable (srv configUrl) in
/-- **A step that keeps the invariant, and shows something** in the system of tasks. -/
abbrev Keeps (t t' : Inside σ L) : Prop :=
  Sound srv configUrl t' ∧
    ∃ l, Atomic.Shows srv.tasks (Inside.outside configUrl) (Inside.status srv configUrl) t t' l

variable {t' : Inside σ L}

/-- A step of an update that shows nothing. -/
theorem Sound.shows_nothing (h : Sound srv configUrl t)
    (hm : Publication.Moves srv.kv srv.crates t.engine e engine) {u : ℕ} (he : e.task = some u)
    (hpublish : ∀ u, e ≠ .publish u) {worlds : ℕ → Option (World σ)}
    (hworlds : ∀ v, v ≠ u → worlds v = t.worlds v)
    (hu : UpdateOk srv configUrl engine.heap (worlds u) (engine.updates u)) :
    Keeps srv configUrl t { t with engine := engine, worlds := worlds } := by
  obtain ⟨hsound, hstatus⟩ := h.of_update hm he hworlds hu
  exact ⟨hsound, none, .nothing (h.outside_eq hm hpublish worlds) hstatus⟩

/-- A step with which an update comes to its end. -/
theorem Sound.shows_update (h : Sound srv configUrl t)
    (hm : Publication.Moves srv.kv srv.crates t.engine e engine) {u : ℕ} (he : e.task = some u)
    (hu : UpdateOk srv configUrl engine.heap (t.worlds u) (engine.updates u)) {w : World σ}
    (hafter : engine.heap engine.pointer =
      ((t.outside configUrl).engine.runUpdate srv.kv srv.crates srv.platform w).2.db) :
    Keeps srv configUrl t { t with engine := engine } := by
  obtain ⟨hsound, hstatus⟩ := h.of_update hm he (fun v _ => rfl) hu
  refine ⟨hsound, some (.environment (.update w)), .environment ?_ hstatus⟩
  have hengine : ((t.outside configUrl).engine.runUpdate srv.kv srv.crates srv.platform w).2 =
      ⟨engine.heap engine.pointer, configUrl⟩ := by
    rw [hafter]
    exact congrArg (AdblockEngine.mk _) AdblockEngine.configUrl_runUpdate
  have hchange : srv.change (t.outside configUrl) (.update w) =
      Inside.outside configUrl { t with engine := engine } := by
    rw [Server.change, hengine]
    rfl
  exact congrArg some hchange

/-- An update that creates its stores shows nothing; one that cannot is at its end. -/
theorem Sound.work_create (h : Sound srv configUrl t) {u : ℕ} {w : FreshWorld srv.kv}
    (hwork : t.work srv configUrl (.create u w) = some t') :
    Keeps srv configUrl t t' := by
  simp only [Inside.work] at hwork
  split at hwork
  next db hcreate =>
    obtain ⟨engine, hstep, rfl⟩ := Option.map_eq_some_iff.mp hwork
    have hm := Publication.moves_of_step _ hstep
    refine h.shows_nothing hm rfl (by simp) (fun v hv => Function.update_of_ne hv _ _) ?_
    cases hm with
    | create hu =>
      simp only [Function.update_self]
      refine ⟨w.1, rfl, ?_⟩
      simp only [Function.update_self]
      exact hcreate
  next err hcreate =>
    obtain ⟨engine, hstep, rfl⟩ := Option.map_eq_some_iff.mp hwork
    have hm := Publication.moves_of_step _ hstep
    refine h.shows_update hm rfl ?_ (w := w.1) ?_
    · cases hm with
      | createFails hu =>
        simp only [Function.update_self]
        trivial
    · rw [AdblockEngine.runUpdate, hcreate, hm.pointer_eq (by simp), (hm.of_sealed h.pointer).2]
      rfl

/-- The same of the configuration. -/
theorem Sound.work_loadConfig (h : Sound srv configUrl t) {u : ℕ}
    (hwork : t.work srv configUrl (.loadConfig u) = some t') :
    Keeps srv configUrl t t' := by
  obtain ⟨w, hw, hwork⟩ := Option.bind_eq_some_iff.mp hwork
  have hok := h.update u
  split at hwork
  next config hload =>
    obtain ⟨engine, hstep, rfl⟩ := Option.map_eq_some_iff.mp hwork
    have hm := Publication.moves_of_step _ hstep
    refine h.shows_nothing hm rfl (by simp) (fun v _ => rfl) ?_
    cases hm with
    | @loadConfig _ a _ _ hu =>
      rw [hu] at hok
      obtain ⟨w', hw', hcreate⟩ := hok
      obtain rfl := Option.some.inj (hw.symm.trans hw')
      simp only [Function.update_self]
      exact ⟨w, _, config, hw, hcreate, hload, (AdblockCompiler.compile_eq_foldl _ _ _ _ _).symm⟩
  next err hload =>
    obtain ⟨engine, hstep, rfl⟩ := Option.map_eq_some_iff.mp hwork
    have hm := Publication.moves_of_step _ hstep
    refine h.shows_update hm rfl ?_ (w := w) ?_
    · cases hm with
      | loadFails hu =>
        simp only [Function.update_self]
        trivial
    · have hcreate : ∃ db, AdblockDB.create w.opened = .ok db := by
        cases hm with
        | @loadFails _ a hu =>
          rw [hu] at hok
          obtain ⟨w', hw', hcreate⟩ := hok
          obtain rfl := Option.some.inj (hw.symm.trans hw')
          exact ⟨_, hcreate⟩
      obtain ⟨db, hcreate⟩ := hcreate
      rw [AdblockEngine.runUpdate, hcreate, hm.pointer_eq (by simp), (hm.of_sealed h.pointer).2]
      have hfails : loadDefinition srv.kv srv.crates srv.platform w db configUrl =
          .error err := by rw [loadDefinition, hload]; rfl
      simp only [Inside.outside, hfails]

/-- A write of an update shows nothing. -/
theorem Sound.work_write (h : Sound srv configUrl t) {u : ℕ}
    (hwork : t.work srv configUrl (.write u) = some t') :
    Keeps srv configUrl t t' := by
  obtain ⟨engine, hstep, rfl⟩ := Option.map_eq_some_iff.mp hwork
  have hm := Publication.moves_of_step _ hstep
  refine h.shows_nothing hm rfl (by simp) (fun v _ => rfl) ?_
  have hok := h.update u
  cases hm with
  | @write _ a wr todo hu =>
    rw [hu] at hok
    obtain ⟨w, db, config, hw, hcreate, hload, hrest⟩ := hok
    simp only [Function.update_self]
    exact ⟨w, db, config, hw, hcreate, hload, by
      simp only [Function.update_self]
      exact hrest⟩

/-- **An update takes its effect when it publishes.** -/
theorem Sound.work_publish (h : Sound srv configUrl t) {u : ℕ}
    (hwork : t.work srv configUrl (.publish u) = some t') :
    Keeps srv configUrl t t' := by
  obtain ⟨engine, hstep, rfl⟩ := Option.map_eq_some_iff.mp hwork
  have hm := Publication.moves_of_step _ hstep
  have hok := h.update u
  cases hm with
  | @publish _ a hu =>
    rw [hu] at hok
    obtain ⟨w, db, config, hw, hcreate, hload, hall⟩ := hok
    refine h.shows_update (.publish hu) rfl ?_ (w := w) ?_
    · simp only [Function.update_self]
      trivial
    · rw [AdblockEngine.runUpdate, hcreate]
      simp only [Inside.outside, loadDefinition, hload]
      exact hall

/-- The engine is not asked by a task that is in the middle of something else. -/
theorem Sound.calls_idle (h : Sound srv configUrl t) {i : ℕ}
    (hi : ∀ call, t.doing i = .asked call → call.question.isNone = true) :
    t.engine.calls i = .idle := by
  by_contra hne
  obtain ⟨call, hcall, hsome⟩ := h.busy i hne
  rw [hi call hcall] at hsome
  cases hsome

/-- An answer is seen in the limiter and the log, and nowhere else. -/
theorem frame_of_answer {shared shared' : Shared σ L} {q : Call} {a : q.Answer}
    (h : srv.answer shared q a = some shared') :
    shared' = { shared with limiter := shared'.limiter, queryLog := shared'.queryLog } := by
  cases q with
  | lookup name queryType => rw [← Option.some.inj h]
  | send response => rw [← Option.some.inj h]
  | _ =>
    obtain ⟨-, h⟩ := Option.ite_none_right_eq_some.mp h
    rw [← Option.some.inj h]

/-- **A call to others than the engine** takes its effect when it is served. -/
theorem Sound.work_serve (h : Sound srv configUrl t) {i : ℕ} {e : Dialog.Exchange Call.Answer}
    (hwork : t.work srv configUrl (.serve i e) = some t') :
    Keeps srv configUrl t t' := by
  simp only [Inside.work] at hwork
  split at hwork
  next call hi =>
    obtain ⟨⟨hcall, hnone⟩, hserve⟩ := Option.ite_none_right_eq_some.mp hwork
    obtain ⟨shared, hanswer, rfl⟩ := Option.map_eq_some_iff.mp hserve
    subst hcall
    have hidle : t.engine.calls i = .idle := h.calls_idle fun call hcall => by
      obtain rfl := Doing.asked.inj (hi.symm.trans hcall)
      exact hnone
    refine ⟨{ h with busy := fun j hj => ?_ }, some (.exchange i ⟨e.1, e.2⟩), .exchange ?_ ?_ ?_⟩
    · have hne : j ≠ i := by
        rintro rfl
        exact hj hidle
      simp only [Function.update_of_ne hne]
      exact h.busy j hj
    · rw [Inside.status, hi]
      simp only [hidle, readStatus]
    · exact hanswer.trans (congrArg some (frame_of_answer hanswer))
    · funext j
      rcases eq_or_ne j i with rfl | hne
      · simp only [Inside.status, Function.update_self]
      · simp only [Inside.status, Function.update_of_ne hne]
  next => cases hwork

/-- **A call to the engine** takes its effect when it loads the pointer. -/
theorem Sound.work_load (h : Sound srv configUrl t) {i : ℕ}
    (hwork : t.work srv configUrl (.load i) = some t') :
    Keeps srv configUrl t t' := by
  simp only [Inside.work] at hwork
  split at hwork
  next call hi =>
    obtain ⟨q, hq, hwork⟩ := Option.bind_eq_some_iff.mp hwork
    obtain ⟨engine, hstep, rfl⟩ := Option.map_eq_some_iff.mp hwork
    cases Publication.moves_of_step _ hstep with
    | ask hidle =>
      refine ⟨⟨h.pointer, h.owns_lt, h.owns_inj, h.update, fun j => ?_, fun j hj => ?_⟩,
        some (.exchange i (answerBy srv configUrl (t.engine.heap t.engine.pointer) q)), ?_⟩
      · rcases eq_or_ne j i with rfl | hne
        · simp only [Function.update_self]
          exact h.pointer
        · simp only [Function.update_of_ne hne]
          exact h.call j
      · rcases eq_or_ne j i with rfl | hne
        · exact ⟨call, hi, by rw [hq]; rfl⟩
        · simp only [Function.update_of_ne hne] at hj
          exact h.busy j hj
      · have hbegun : t.status srv configUrl i = .begun call := by
          rw [Inside.status, hi]
          simp only [hidle, readStatus]
        have hstatus : Inside.status srv configUrl { t with engine := { t.engine with
            calls := Function.update t.engine.calls i (.loaded q t.engine.pointer) } } =
            Function.update (t.status srv configUrl) i
              (.effected (answerBy srv configUrl (t.engine.heap t.engine.pointer) q)) := by
          funext j
          rcases eq_or_ne j i with rfl | hne
          · simp only [Inside.status, hi, Function.update_self, readStatus]
          · simp only [Inside.status, Function.update_of_ne hne]
        -- the engine has been asked one of its two questions
        cases call with
        | getRedirect name =>
          obtain rfl := Option.some.inj hq
          exact .exchange hbegun (if_pos rfl) hstatus
        | isBlocked name =>
          obtain rfl := Option.some.inj hq
          exact .exchange hbegun (if_pos rfl) hstatus
        | _ => cases hq
  next => cases hwork

/-- A call that reads a store shows nothing. -/
theorem Sound.work_read (h : Sound srv configUrl t) {i : ℕ}
    (hwork : t.work srv configUrl (.read i) = some t') :
    Keeps srv configUrl t t' := by
  obtain ⟨engine, hstep, rfl⟩ := Option.map_eq_some_iff.mp hwork
  cases Publication.moves_of_step _ hstep with
  | @read _ c hread =>
    refine ⟨⟨h.pointer, h.owns_lt, h.owns_inj, h.update, fun j => ?_, fun j hj => ?_⟩, none,
      .nothing rfl ?_⟩
    · rcases eq_or_ne j i with rfl | hne
      · simp only [Function.update_self]
        exact ((h.call j).read hread).2.1
      · simp only [Function.update_of_ne hne]
        exact h.call j
    · rcases eq_or_ne j i with rfl | hne
      · exact h.busy j ((h.call j).read hread).1
      · simp only [Function.update_of_ne hne] at hj
        exact h.busy j hj
    · funext j
      rcases eq_or_ne j i with rfl | hne
      · simp only [Inside.status, Function.update_self]
        cases t.doing j with
        | nothing => rfl
        | told e => rfl
        | asked call => exact ((h.call j).read hread).2.2 configUrl call
      · simp only [Inside.status, Function.update_of_ne hne]

/-- What a call returns is what it has been settled to. -/
theorem status_of_result {i : ℕ} {e : Dialog.Exchange Call.Answer} (h : t.result i = some e) :
    t.status srv configUrl i = .effected e := by
  rw [Inside.result] at h
  rw [Inside.status]
  split at h
  next => cases h
  next e' hi =>
    obtain rfl := Option.some.inj h
    rfl
  next call hi =>
    split at h
    next q answer hcall =>
      obtain rfl := Option.some.inj h
      simp only [hcall, readStatus]
    next => cases h

/-- **The server, step by step, refines the server.** -/
theorem inside_refines (srv : Server σ L) (configUrl : FileOrUrl) :
    Atomic.Refines (srv.inside configUrl) srv.tasks (Inside.outside configUrl)
      (Inside.status srv configUrl) (Sound srv configUrl) where
  enter {t t' i call} h henter := by
    simp only [inside] at henter
    split at henter
    next hi =>
      obtain rfl := Option.some.inj henter
      have hidle : t.engine.calls i = .idle := h.calls_idle fun call hcall => by
        cases hi.symm.trans hcall
      refine ⟨{ h with busy := fun j hj => ?_ }, rfl, by rw [Inside.status, hi], ?_⟩
      · have hne : j ≠ i := by
          rintro rfl
          exact hj hidle
        simp only [Function.update_of_ne hne]
        exact h.busy j hj
      · funext j
        rcases eq_or_ne j i with rfl | hne
        · simp only [Inside.status, Function.update_self, hidle, readStatus]
        · simp only [Inside.status, Function.update_of_ne hne]
    next => cases henter
  work {t t' ι} h hwork := by
    replace hwork : t.work srv configUrl ι = some t' := hwork
    cases ι with
    | serve i e => exact h.work_serve hwork
    | load i => exact h.work_load hwork
    | read i => exact h.work_read hwork
    | create u w => exact h.work_create hwork
    | loadConfig u => exact h.work_loadConfig hwork
    | write u => exact h.work_write hwork
    | publish u => exact h.work_publish hwork
    | setClock now =>
      obtain rfl := Option.some.inj hwork
      exact ⟨⟨h.pointer, h.owns_lt, h.owns_inj, h.update, h.call, h.busy⟩,
        some (.environment (.setClock now)), .environment rfl rfl⟩
    | pass time =>
      obtain rfl := Option.some.inj hwork
      exact ⟨⟨h.pointer, h.owns_lt, h.owns_inj, h.update, h.call, h.busy⟩,
        some (.environment (.pass time)), .environment rfl rfl⟩
  leave {t t' i call a} h hleave := by
    simp only [inside] at hleave
    split at hleave
    next e he =>
      split at hleave
      next heq =>
        obtain ⟨q, a'⟩ := e
        obtain rfl : q = call := heq
        obtain ⟨rfl, rfl⟩ := Prod.mk.inj (Option.some.inj hleave)
        refine ⟨⟨h.pointer, h.owns_lt, h.owns_inj, h.update, fun j => ?_, fun j hj => ?_⟩, rfl,
          ?_, ?_⟩
        · rcases eq_or_ne j i with rfl | hne
          · simp only [Inside.clear, Function.update_self]
            trivial
          · simp only [Inside.clear, Function.update_of_ne hne]
            exact h.call j
        · have hne : j ≠ i := by
            rintro rfl
            exact hj (Function.update_self ..)
          simp only [Inside.clear, Function.update_of_ne hne] at hj ⊢
          exact h.busy j hj
        · exact status_of_result he
        · funext j
          rcases eq_or_ne j i with rfl | hne
          · simp only [Inside.status, Inside.clear, Function.update_self]
          · simp only [Inside.status, Inside.clear, Function.update_of_ne hne]
      next => cases hleave
    next => cases hleave

theorem sound_init (srv : Server σ L) (start : Shared σ L) :
    Sound srv start.engine.configUrl (Inside.init start) where
  pointer := ⟨Nat.zero_lt_one, fun u ho => by cases ho⟩
  owns_lt u a ho := by cases ho
  owns_inj u v a ho := by cases ho
  update u := trivial
  call i := trivial
  busy i hi := absurd rfl hi

/-- The server, step by step, and its tasks. -/
abbrev InsideState (σ L : Type) :=
  Tasks.State (Inside σ L) Request Call.Answer (Option ResponseInfo)

/-- A run, step by step. -/
def RunInside (srv : Server σ L) (start : Shared σ L)
    (es : List (Atomic.Event Request (Work srv.kv))) (s : InsideState σ L) : Prop :=
  Runs.run (Atomic.step (srv.inside start.engine.configUrl) srv.tasks)
    (.init (Inside.init start)) es = some s

/-- **Every run, step by step, keeps pace with a run of the server.** Its steps can be labelled,
each with what it shows: a task that is started, a call that takes its effect, an update that
publishes or fails, a change of the clocks, or nothing. At every moment the labels so far are a
run of the server that has come to the same engine, limiter, log and clocks, and to the same
tasks: but for one in the middle of a call, which there has been answered already, with what
the call is going to return, once it has taken its effect. -/
theorem steps_refine {srv : Server σ L} {start : Shared σ L}
    {es : List (Atomic.Event Request (Work srv.kv))} {s : InsideState σ L}
    (hrun : srv.RunInside start es s) :
    ∃ labels : List (Option (Event σ)), labels.length = es.length ∧
      ∀ n, ∃ s₁ s₁', srv.RunInside start (es.take n) s₁ ∧
        srv.Run start (labels.take n).reduceOption s₁' ∧
        s₁'.shared = s₁.shared.outside start.engine.configUrl ∧
        ∀ i, Atomic.Agree (s₁.shared.status srv start.engine.configUrl i) (s₁.tasks i)
          (s₁'.tasks i) := by
  obtain ⟨labels, hlength, hlabels⟩ := Atomic.exists_labels
    (inside_refines srv start.engine.configUrl) (sound_init srv start) (fun i => rfl) hrun
  refine ⟨labels, hlength, fun n => ?_⟩
  obtain ⟨s₁, s₁', hs₁, hs₁', hsim⟩ := hlabels n
  exact ⟨s₁, s₁', hs₁, hs₁', hsim.shared, hsim.tasks⟩

/-- A world in which one name is on a blacklist. -/
def oneNameWorld : World (List (Text × Text)) :=
  AdblockEngine.worldWith (AdblockEngine.serverEnv 200 "aa.com".toList)

/-- A server that finds it there. -/
def oneNameServer : Server (List (Text × Text)) Unit :=
  { openServer with platform := AdblockEngine.oneBlacklistPlatform }

theorem oneNameWorld_fresh : ∀ db, AdblockDB.create oneNameWorld.opened = .ok db →
    db.Empty oneNameServer.kv := by
  intro db hdb
  obtain rfl := Except.ok.inj hdb
  exact AdblockDB.assoc_empty

/-- A query for that name, whose two calls load what is published before an update and after. -/
def overtakenQuery : List (Atomic.Event Request (Work oneNameServer.kv)) :=
  [.work (.create 0 ⟨oneNameWorld, oneNameWorld_fresh⟩), .work (.loadConfig 0),
    .start 0 { Handler.aQuery with requestInfo := .ok ⟨"aa.com.".toList, .a⟩ }, .enter 0,
    .work (.load 0), .work (.write 0), .work (.publish 0), .work (.read 0), .leave 0, .enter 0,
    .work (.load 0), .work (.read 0), .work (.read 0), .leave 0]

theorem steps_refine_overtaken :
    ∃ s es' s', oneNameServer.RunInside justStarted overtakenQuery s ∧
      oneNameServer.Run justStarted es' s' ∧
      s'.shared = s.shared.outside justStarted.engine.configUrl := by
  obtain ⟨s, hs⟩ : ∃ s, oneNameServer.RunInside justStarted overtakenQuery s := ⟨_, rfl⟩
  obtain ⟨labels, -, hlabels⟩ := steps_refine hs
  obtain ⟨s₁, s₁', hs₁, hs₁', hshared, -⟩ := hlabels overtakenQuery.length
  rw [List.take_length] at hs₁
  obtain rfl := Option.some.inj (hs₁.symm.trans hs)
  exact ⟨s₁, _, s₁', hs, hs₁', hshared⟩

end Server

end BancuhDns
