import BancuhDns.Main

/-!
# How the program goes down

Three results about every run of the program: what is left when `main` has returned, why it goes
down, and that it does. They share an invariant (`BancuhDns.Main.Ok`), which says of each phase
of `main` how the tasks are then. The load-bearing part is that the task for the updates, once
it has been started, ends only because the token is cancelled: so `main` cannot find all tasks
ended as long as nothing has gone wrong.
-/

namespace BancuhDns

namespace Main

variable {args : Args} {s s' : State} {e : Event} {es : List Event}

/-! ### The invariant -/

/-- The states that a task gets into by cancelling the token, or by seeing it cancelled. -/
def goesDown : (i : WorkerId) → WorkerState i → Bool
  | .updater => fun t => t == Updater.ended
  | .bind => fun t => match t with
    | Bind.killing _ => true
    | Bind.ended => true
    | _ => false
  | .acme => fun t => t == Acme.ended
  | .challenge => fun _ => false
  | .admin => fun _ => false

/-- **The reasons to go down.** -/
def Cause : Event → Prop
  | .signal _ => True
  | .work .bind e => e = BindEvent.spawnFails ∨ e = BindEvent.waited
  | .work .acme e => e = AcmeEvent.streamEnds
  | .work .challenge e => e = PairEvent.bindFails
  | _ => False

theorem Bind.cancelled_of_goesDown {cancelled c : Bool} {t t' : Bind} {e : BindEvent}
    (h : t.step cancelled e = some (t', c)) (hdown : goesDown .bind t' = true) :
    goesDown .bind t = true ∨ (cancelled || c) = true := by
  cases t with
  | spawning =>
    cases e with
    | spawned => cases h; cases hdown
    | spawnFails => cases h; exact Or.inr (Bool.or_true _)
    | _ => cases h
  | waiting alive =>
    cases e with
    -- it gives up waiting when it sees the token cancelled
    | cancelled =>
      cases cancelled with
      | true => exact Or.inr rfl
      | false => cases alive <;> cases h
    | waited => cases alive <;> cases h; exact Or.inr (Bool.or_true _)
    | exits => cases alive <;> cases h; cases hdown
    | _ => cases alive <;> cases h
  | killing alive => exact Or.inl rfl
  | ended => exact Or.inl rfl

/-- A task goes down when the token is cancelled, or cancels it. -/
theorem cancelled_of_goesDown {tlsEnabled cancelled c : Bool} : (i : WorkerId) →
    (t t' : WorkerState i) → (e : WorkerEvent i) →
      (workers tlsEnabled).step i cancelled t e = some (t', c) → goesDown i t' = true →
        goesDown i t = true ∨ (cancelled || c) = true
  | .updater, t, t', e, h, hdown => by
    obtain rfl : t' = Updater.ended := eq_of_beq hdown
    cases cancelled
    · cases t <;> cases e <;> cases h
    · exact Or.inr rfl
  | .bind, t, t', e, h, hdown => Bind.cancelled_of_goesDown h hdown
  | .acme, t, t', e, h, hdown => by
    obtain rfl : t' = Acme.ended := eq_of_beq hdown
    cases cancelled
    · cases t <;> cases e <;> cases h
      exact Or.inr rfl
    · exact Or.inr rfl
  | .challenge, _, _, _, _, hdown => by cases hdown
  | .admin, _, _, _, _, hdown => by cases hdown

theorem Pair.cancels_iff_of_step {cancels cancelled c : Bool} {t t' : Pair} {e : PairEvent}
    (h : t.step cancels cancelled e = some (t', c)) :
    c = true ↔ cancels = true ∧ e = .bindFails := by
  cases t with
  | serving v4 v6 =>
    cases e with
    | v4 e =>
      obtain ⟨_, -, heq⟩ := Option.map_eq_some_iff.mp h
      cases heq
      simp
    | v6 e =>
      obtain ⟨_, -, heq⟩ := Option.map_eq_some_iff.mp h
      cases heq
      simp
    | joined => cases v4 <;> cases v6 <;> cases h; simp
    | bound => cases h
    | bindFails => cases h
  | _ => cases e <;> cases h <;> simp

theorem Updater.cancels_iff_of_step {cancelled c : Bool} {t t' : Updater} {e : UpdaterEvent}
    (h : t.step cancelled e = some (t', c)) : c = true ↔ False := by
  cases t with
  | updating =>
    cases e with
    | updated ok => cases h; simp
    | _ => cases h
  | sleeping =>
    cases e with
    | wake => cases h; simp
    | cancelled => cases cancelled <;> cases h; simp
    | updated ok => cases h
  | ended => cases e <;> cases h

theorem Bind.cancels_iff_of_step {cancelled c : Bool} {t t' : Bind} {e : BindEvent}
    (h : t.step cancelled e = some (t', c)) :
    c = true ↔ e = .spawnFails ∨ e = .waited := by
  cases t with
  | spawning =>
    cases e with
    | spawned => cases h; simp
    | spawnFails => cases h; simp
    | _ => cases h
  | waiting alive =>
    cases e with
    | exits => cases alive <;> cases h; simp
    | waited => cases alive <;> cases h; simp
    | cancelled => cases cancelled <;> cases alive <;> cases h <;> simp
    | _ => cases alive <;> cases h
  | killing alive =>
    cases e with
    | exits => cases alive <;> cases h; simp
    | killed => cases alive <;> cases h; simp
    | _ => cases alive <;> cases h
  | ended => cases e <;> cases h

theorem Acme.cancels_iff_of_step {cancelled c : Bool} {t t' : Acme} {e : AcmeEvent}
    (h : t.step cancelled e = some (t', c)) : c = true ↔ e = .streamEnds := by
  cases t with
  | polling =>
    cases e with
    | event ok => cases h; simp
    | streamEnds => cases h; simp
    | cancelled => cases cancelled <;> cases h; simp
  | ended => cases e <;> cases h

/-- No failure of the admin pages cancels the token. -/
theorem Admin.cancels_iff_of_step {cancelled c : Bool} {t t' : Admin} {e : AdminEvent}
    (h : t.step cancelled e = some (t', c)) : c = true ↔ False := by
  refine iff_of_false (fun hc => ?_) id
  cases e with
  | http e =>
    obtain ⟨⟨http', c'⟩, hhttp, heq⟩ := Option.map_eq_some_iff.mp h
    cases heq
    cases ((Pair.cancels_iff_of_step hhttp).mp hc).1
  | https e =>
    rcases t with ⟨http, _ | https, returned⟩
    · cases h
    · obtain ⟨_, -, heq⟩ := Option.map_eq_some_iff.mp h
      cases heq
      cases hc
  | joined =>
    obtain ⟨-, heq⟩ := Option.ite_none_right_eq_some.mp h
    cases heq
    cases hc

/-- **A task cancels the token** for one of the reasons, and for no other. -/
theorem cause_iff_of_step {tlsEnabled cancelled c : Bool} : (i : WorkerId) →
    (t t' : WorkerState i) → (e : WorkerEvent i) →
      (workers tlsEnabled).step i cancelled t e = some (t', c) →
        (c = true ↔ Cause (.work i e))
  | .updater, _, _, _, h => Updater.cancels_iff_of_step h
  | .bind, _, _, _, h => Bind.cancels_iff_of_step h
  | .acme, _, _, _, h => Acme.cancels_iff_of_step h
  | .challenge, _, _, _, h => (Pair.cancels_iff_of_step h).trans (and_iff_right rfl)
  | .admin, _, _, _, h => Admin.cancels_iff_of_step h

variable (args) in
/-- **The invariant of the program.** -/
structure Ok (s : State) : Prop where
  /-- The start goes through its list. -/
  todo : ∀ todo, s.phase = .starting todo → todo <:+ startup args
  /-- The task for the updates is started, or still to be. -/
  updater : (s.workers.started .updater).isSome ∨
    (∃ todo, s.phase = .starting todo ∧ .spawn .updater ∈ todo) ∨ ∃ ok, s.phase = .exited ok
  /-- No task has gone down by itself. -/
  down : ∀ i t, s.workers.started i = some t → goesDown i t = true → s.workers.cancelled = true
  /-- After the wait the token is cancelled. -/
  late : s.phase = .joining ∨ s.phase = .stopping ∨ s.phase = .exited true →
    s.workers.cancelled = true
  /-- The server is stopped when all tasks have ended. -/
  ended : s.phase = .stopping ∨ s.phase = .exited true →
    (workers args.tlsEnabled).AllEnded s.workers

theorem ok_init (args : Args) : Ok args (.init args) where
  todo := by
    rintro todo h
    rw [← Phase.starting.inj h]
  updater := Or.inr (Or.inl ⟨_, rfl, List.mem_cons_of_mem _ List.mem_cons_self⟩)
  down := by
    rintro i t h
    cases h
  late := by
    rintro (h | h | h) <;> cases h
  ended := by
    rintro (h | h) <;> cases h

/-- With an update task that is started and has ended, the token is cancelled. -/
theorem Ok.cancelled_of_allEnded (hok : Ok args s) (hphase : s.phase = .waiting)
    (hended : (workers args.tlsEnabled).AllEnded s.workers) : s.workers.cancelled = true := by
  rcases hok.updater with hstarted | ⟨todo, h, -⟩ | ⟨ok, h⟩
  · obtain ⟨t, ht⟩ := Option.isSome_iff_exists.mp hstarted
    have hone := hended .updater
    rw [ht] at hone
    exact hok.down .updater t ht hone
  · cases hphase.symm.trans h
  · cases hphase.symm.trans h

/-- Dropping a worker leaves no other under way. -/
theorem allEnded_of_drop {tlsEnabled : Bool} {ws ws' : Workers.State WorkerState} {i : WorkerId}
    (h : (workers tlsEnabled).drop ws i = some ws')
    (hended : (workers tlsEnabled).AllEnded ws) : (workers tlsEnabled).AllEnded ws' := by
  obtain ⟨t, -, -, rfl⟩ := Workers.drop_eq_some_iff.mp h
  intro j
  rcases eq_or_ne j i with rfl | hne
  · simp only [Function.update_self, Option.all_none]
  · simp only [Function.update_of_ne hne]
    exact hended j

/-- Workers that have ended do not begin again. -/
theorem allEnded_of_work {tlsEnabled : Bool} {ws ws' : Workers.State WorkerState} {i : WorkerId}
    {e : WorkerEvent i} (h : (workers tlsEnabled).work ws i e = some ws')
    (hended : (workers tlsEnabled).AllEnded ws) : (workers tlsEnabled).AllEnded ws' := by
  obtain ⟨t, t', c, ht, hstep, rfl⟩ := Workers.work_eq_some_iff.mp h
  intro j
  rcases eq_or_ne j i with rfl | hne
  · have hone := hended j
    rw [ht] at hone
    simp only [Function.update_self]
    exact ended_of_step j t t' e hone hstep
  · simp only [Function.update_of_ne hne]
    exact hended j

/-- The step lemma. -/
theorem Ok.step (hok : Ok args s) (hm : Moves args s e s') : Ok args s' := by
  cases hm with
  | @attempted what todo h =>
    refine ⟨?_, ?_, hok.down, ?_, ?_⟩
    · rintro _ ⟨⟩
      exact (List.suffix_cons _ _).trans (hok.todo _ h)
    · rcases hok.updater with hstarted | ⟨todo', h', hmem⟩ | ⟨ok, h'⟩
      · exact Or.inl hstarted
      · obtain rfl := Phase.starting.inj (h.symm.trans h')
        rcases List.mem_cons.mp hmem with heq | hmem
        · cases heq
        · exact Or.inr (Or.inl ⟨_, rfl, hmem⟩)
      · cases h.symm.trans h'
    · rintro (h' | h' | h') <;> cases h'
    · rintro (h' | h') <;> cases h'
  | @spawned i todo h =>
    refine ⟨?_, ?_, ?_, ?_, ?_⟩
    · rintro _ ⟨⟩
      exact (List.suffix_cons _ _).trans (hok.todo _ h)
    · by_cases hi : WorkerId.updater = i
      · subst hi
        exact Or.inl (by simp [Workers.spawn])
      · rcases hok.updater with hstarted | ⟨todo', h', hmem⟩ | ⟨ok, h'⟩
        · exact Or.inl (by simpa [Workers.spawn, hi] using hstarted)
        · obtain rfl := Phase.starting.inj (h.symm.trans h')
          rcases List.mem_cons.mp hmem with heq | hmem
          · exact absurd (Action.spawn.inj heq) hi
          · exact Or.inr (Or.inl ⟨_, rfl, hmem⟩)
        · cases h.symm.trans h'
    · intro j t ht hdown
      rcases eq_or_ne j i with rfl | hne
      · -- a task does not start where it would go down
        have hinit : (workers args.tlsEnabled).init j = t := by
          simpa [Workers.spawn] using ht
        subst hinit
        cases j <;> cases hdown
      · refine hok.down j t ?_ hdown
        simpa [Workers.spawn, hne] using ht
    · rintro (h' | h' | h') <;> cases h'
    · rintro (h' | h') <;> cases h'
  | closed h =>
    refine ⟨(fun todo h' => by cases h'), ?_, hok.down, ?_, ?_⟩
    · rcases hok.updater with hstarted | ⟨todo', h', hmem⟩ | ⟨ok, h'⟩
      · exact Or.inl hstarted
      · obtain rfl := Phase.starting.inj (h.symm.trans h')
        cases hmem
      · cases h.symm.trans h'
    · rintro (h' | h' | h') <;> cases h'
    · rintro (h' | h') <;> cases h'
  | startFails h =>
    refine ⟨(fun todo h' => by cases h'), Or.inr (Or.inr ⟨false, rfl⟩), hok.down, ?_, ?_⟩
    · rintro (h' | h' | h') <;> cases h'
    · rintro (h' | h') <;> cases h'
  | signal h =>
    refine ⟨(fun todo h' => by cases h'), ?_, fun _ _ _ _ => rfl, fun _ => rfl, ?_⟩
    · refine hok.updater.imp_right ?_
      rintro (⟨todo, h', -⟩ | ⟨ok, h'⟩) <;> cases h.symm.trans h'
    · rintro (h' | h') <;> cases h'
  | tasksEnded h hended =>
    refine ⟨(fun todo h' => by cases h'), ?_, fun _ _ _ _ => rfl, fun _ => rfl, ?_⟩
    · refine hok.updater.imp_right ?_
      rintro (⟨todo, h', -⟩ | ⟨ok, h'⟩) <;> cases h.symm.trans h'
    · rintro (h' | h') <;> cases h'
  | joined h hended =>
    refine ⟨(fun todo h' => by cases h'), ?_, hok.down, fun _ => hok.late (Or.inl h),
      fun _ => hended⟩
    refine hok.updater.imp_right ?_
    rintro (⟨todo, h', -⟩ | ⟨ok, h'⟩) <;> cases h.symm.trans h'
  | stopped h =>
    exact ⟨(fun todo h' => by cases h'), Or.inr (Or.inr ⟨_, rfl⟩), hok.down,
      fun _ => hok.late (Or.inr (Or.inl h)), fun _ => hok.ended (Or.inl h)⟩
  | @work i e workers' hwork =>
    have hended := allEnded_of_work hwork
    obtain ⟨t, t', c, ht, hstep, rfl⟩ := Workers.work_eq_some_iff.mp hwork
    refine ⟨hok.todo, ?_, ?_, fun h => by rw [hok.late h]; rfl, fun h => hended (hok.ended h)⟩
    · refine hok.updater.imp_left fun hstarted => ?_
      rcases eq_or_ne WorkerId.updater i with rfl | hne
      · simp only [Function.update_self, Option.isSome_some]
      · simp only [Function.update_of_ne hne]
        exact hstarted
    · intro j t₁ ht₁ hdown
      rcases eq_or_ne j i with rfl | hne
      · simp only [Function.update_self, Option.some.injEq] at ht₁
        subst ht₁
        rcases cancelled_of_goesDown j t t' e hstep hdown with hbefore | hnow
        · rw [hok.down j t ht hbefore]
          rfl
        · exact hnow
      · simp only [Function.update_of_ne hne] at ht₁
        rw [hok.down j t₁ ht₁ hdown]
        rfl
  | @dropped i ok workers' h hdrop =>
    have hended := allEnded_of_drop hdrop
    obtain ⟨t, -, -, rfl⟩ := Workers.drop_eq_some_iff.mp hdrop
    refine ⟨hok.todo, Or.inr (Or.inr ⟨ok, h⟩), ?_, hok.late, fun h => hended (hok.ended h)⟩
    intro j t₁ ht₁ hdown
    rcases eq_or_ne j i with rfl | hne
    · simp only [Function.update_self, reduceCtorEq] at ht₁
    · simp only [Function.update_of_ne hne] at ht₁
      exact hok.down j t₁ ht₁ hdown

/-- The run lemma. -/
theorem ok_of_run (hrun : Run args es s) : Ok args s :=
  Runs.invariant (fun _ s => Ok args s) (ok_init args)
    (fun _ _ _ _ _ hok hstep => hok.step (moves_of_step hstep)) hrun

/-! ### What is left

`named` is a process, and would outlive the program if nobody saw to it. The task that has
started it holds on to it (`BancuhDns.Main.NamedOk`), up to the end that is in order, and lets
go of it in one other way only: by being dropped. -/

/-- What a task for `named` has made of it. -/
def Bind.named : Bind → Named
  | .spawning => .absent
  | .waiting alive => if alive then .running else .absent
  | .killing alive => if alive then .killed else .absent
  | .ended => .absent

theorem Bind.named_of_step {cancelled c : Bool} {t t' : Bind} {e : BindEvent}
    (h : t.step cancelled e = some (t', c)) : t'.named = t.named.next (.work .bind e) := by
  cases t with
  | spawning => cases e <;> cases h <;> rfl
  | waiting alive =>
    cases e with
    | cancelled => cases cancelled <;> cases alive <;> cases h <;> rfl
    | _ => cases alive <;> cases h <;> rfl
  | killing alive => cases alive <;> cases e <;> cases h <;> rfl
  | ended => cases e <;> cases h

/-- The other tasks have nothing to do with `named`. -/
theorem Named.next_work_of_ne (n : Named) {i : WorkerId} (h : WorkerId.bind ≠ i)
    (e : WorkerEvent i) : n.next (.work i e) = n := by
  cases i with
  | bind => exact absurd rfl h
  | _ => rfl

theorem Named.next_dropped_of_ne (n : Named) {i : WorkerId} (h : WorkerId.bind ≠ i) :
    n.next (.dropped i) = n := by
  cases i with
  | bind => exact absurd rfl h
  | _ => rfl

/-- Each task is started once. -/
theorem count_spawn_startup_le (args : Args) (i : WorkerId) :
    (startup args).count (.spawn i) ≤ 1 := by
  rw [startup]
  cases args.forwarders.isEmpty <;> cases args.tlsEnabled <;> cases i <;> simp

/-- **Who sees to `named`**, when these events have led to this state. -/
structure NamedOk (es : List Event) (s : State) : Prop where
  unspawned : ∀ todo, s.phase = .starting todo → .spawn .bind ∈ todo →
    s.workers.started .bind = none
  /-- Its task knows how it is. -/
  held : ∀ t, s.workers.started .bind = some t → named es = t.named
  /-- Without a task it has not been started, or the task has been dropped. -/
  loose : s.workers.started .bind = none →
    named es = .absent ∨ named es = .killed ∧ ∃ ok, s.phase = .exited ok

theorem namedOk_init (args : Args) : NamedOk [] (.init args) where
  unspawned _ _ _ := rfl
  held := by
    rintro t h
    cases h
  loose _ := Or.inl rfl

/-- A step that has nothing to do with `named` and its task. -/
theorem NamedOk.frame (hok : NamedOk es s) (hnext : ∀ n : Named, n.next e = n)
    (hstarted : s'.workers.started .bind = s.workers.started .bind)
    (htodo : ∀ todo, s'.phase = .starting todo → ∃ todo', s.phase = .starting todo' ∧ todo ⊆ todo')
    (hexited : ∀ ok, s.phase = .exited ok → s'.phase = .exited ok) : NamedOk (es ++ [e]) s' := by
  refine ⟨fun todo h hmem => ?_, fun t ht => ?_, fun h => ?_⟩
  · obtain ⟨todo', hphase, hsub⟩ := htodo todo h
    rw [hstarted]
    exact hok.unspawned todo' hphase (hsub hmem)
  · rw [named_concat, hnext]
    exact hok.held t (hstarted ▸ ht)
  · rw [named_concat, hnext]
    exact (hok.loose (hstarted ▸ h)).imp_right fun ⟨hkilled, ok, hphase⟩ =>
      ⟨hkilled, ok, hexited ok hphase⟩

/-- The start goes on, and not with the task for `named`. -/
theorem NamedOk.of_started (hok : NamedOk es s) {a : Action} {todo : List Action}
    (h : s.phase = .starting (a :: todo)) (hphase : s'.phase = .starting todo)
    (hstarted : s'.workers.started .bind = s.workers.started .bind) :
    NamedOk (es ++ [.started]) s' := by
  refine hok.frame (fun _ => rfl) hstarted (fun todo' h' => ⟨_, h, ?_⟩) fun ok h' => ?_
  · rw [← Phase.starting.inj (hphase.symm.trans h')]
    exact List.subset_cons_self _ _
  · cases h.symm.trans h'

/-- The step lemma. -/
theorem NamedOk.step (hok : NamedOk es s) (htodo : ∀ todo, s.phase = .starting todo →
    todo <:+ startup args) (hm : Moves args s e s') : NamedOk (es ++ [e]) s' := by
  cases hm with
  | attempted h => exact hok.of_started h rfl rfl
  | @spawned i todo h =>
    by_cases hi : WorkerId.bind = i
    · subst hi
      have hnone := hok.unspawned _ h List.mem_cons_self
      have habsent : named (es ++ [.started]) = .absent := by
        rw [named_concat]
        rcases hok.loose hnone with habsent | ⟨-, ok, h'⟩
        · exact habsent
        · cases h.symm.trans h'
      refine ⟨fun todo' heq hmem => ?_, fun t ht => ?_, fun _ => Or.inl habsent⟩
      · -- it would be started twice
        obtain rfl := Phase.starting.inj heq
        have hle := (htodo _ h).sublist.count_le (.spawn .bind)
        have hone := count_spawn_startup_le args .bind
        have hpos := List.count_pos_iff.mpr hmem
        rw [List.count_cons_self] at hle
        omega
      · obtain rfl : (workers args.tlsEnabled).init .bind = t := by
          simpa [Workers.spawn] using ht
        exact habsent
    · exact hok.of_started h rfl (Function.update_of_ne hi ..)
  | closed h =>
    exact hok.frame (fun _ => rfl) rfl (fun _ h' => by cases h') fun _ h' => by
      cases h.symm.trans h'
  | startFails h =>
    exact hok.frame (fun _ => rfl) rfl (fun _ h' => by cases h') fun _ h' => by
      cases h.symm.trans h'
  | signal h =>
    exact hok.frame (fun _ => rfl) rfl (fun _ h' => by cases h') fun _ h' => by
      cases h.symm.trans h'
  | tasksEnded h hended =>
    exact hok.frame (fun _ => rfl) rfl (fun _ h' => by cases h') fun _ h' => by
      cases h.symm.trans h'
  | joined h hended =>
    exact hok.frame (fun _ => rfl) rfl (fun _ h' => by cases h') fun _ h' => by
      cases h.symm.trans h'
  | stopped h =>
    exact hok.frame (fun _ => rfl) rfl (fun _ h' => by cases h') fun _ h' => by
      cases h.symm.trans h'
  | @work i e workers' hwork =>
    obtain ⟨t, t', c, ht, hstep, rfl⟩ := Workers.work_eq_some_iff.mp hwork
    by_cases hi : WorkerId.bind = i
    · subst hi
      refine ⟨fun todo h hmem => ?_, fun t₁ ht₁ => ?_, fun h => ?_⟩
      · cases ht.symm.trans (hok.unspawned todo h hmem)
      · obtain rfl : t' = t₁ := by simpa using ht₁
        rw [named_concat, hok.held t ht]
        exact (Bind.named_of_step hstep).symm
      · simp at h
    · exact hok.frame (fun n => n.next_work_of_ne hi e) (Function.update_of_ne hi ..)
        (fun todo h => ⟨todo, h, List.Subset.refl _⟩) fun _ h => h
  | @dropped i ok workers' h hdrop =>
    obtain ⟨t, ht, -, rfl⟩ := Workers.drop_eq_some_iff.mp hdrop
    by_cases hi : WorkerId.bind = i
    · subst hi
      refine ⟨fun todo h' hmem => ?_, fun t₁ ht₁ => ?_, fun _ => ?_⟩
      · cases h.symm.trans h'
      · simp at ht₁
      · rw [named_concat]
        exact ((named es).kill_eq).imp_right fun hkilled => ⟨hkilled, ok, h⟩
    · exact hok.frame (fun n => n.next_dropped_of_ne hi) (Function.update_of_ne hi ..)
        (fun todo h' => ⟨todo, h', List.Subset.refl _⟩) fun _ h' => h'

/-- The run lemma. -/
theorem namedOk_of_run (hrun : Run args es s) : NamedOk es s :=
  Runs.invariant NamedOk (namedOk_init args)
    (fun _ _ _ _ hs hok hstep => hok.step (ok_of_run hs).todo (moves_of_step hstep)) hrun

/-- With its task `named` has come to its end. -/
theorem NamedOk.absent_of_allEnded (hok : NamedOk es s)
    (hended : (workers args.tlsEnabled).AllEnded s.workers)
    (hphase : ∀ ok, s.phase ≠ .exited ok) : named es = .absent := by
  rcases ht : s.workers.started .bind with _ | t
  · rcases hok.loose ht with habsent | ⟨-, ok, h⟩
    · exact habsent
    · exact absurd h (hphase ok)
  · have hone := hended .bind
    rw [ht] at hone
    obtain rfl : t = Bind.ended := eq_of_beq hone
    exact hok.held _ ht

/-- `main` returns with the tasks under way if the start fails, and not otherwise. -/
theorem ended_of_run (hrun : Run args es s) :
    s.phase = .stopping ∨ (∃ ok, s.phase = .exited ok) →
      (.startFails ∈ es ∧ s.phase = .exited false) ∨
        (s.workers.cancelled = true ∧ (workers args.tlsEnabled).AllEnded s.workers ∧
          named es = .absent) := by
  refine Runs.invariant (fun es s => s.phase = .stopping ∨ (∃ ok, s.phase = .exited ok) →
      (.startFails ∈ es ∧ s.phase = .exited false) ∨
        (s.workers.cancelled = true ∧ (workers args.tlsEnabled).AllEnded s.workers ∧
          named es = .absent)) ?_ ?_ hrun
  · rintro (h | ⟨ok, h⟩) <;> cases h
  intro es s e s' hs ih hstep hlate
  cases moves_of_step hstep with
  | startFails h => exact Or.inl ⟨List.mem_append_right _ List.mem_cons_self, rfl⟩
  | joined h hended =>
    refine Or.inr ⟨(ok_of_run hs).late (Or.inl h), hended, ?_⟩
    rw [named_concat]
    exact (namedOk_of_run hs).absent_of_allEnded hended fun ok h' => by cases h.symm.trans h'
  | stopped h =>
    rcases ih (Or.inl h) with ⟨-, h'⟩ | ⟨hcancelled, hended, habsent⟩
    · cases h.symm.trans h'
    · exact Or.inr ⟨hcancelled, hended, by rw [named_concat, habsent]; rfl⟩
  | @work i e workers' hwork =>
    refine (ih hlate).imp (fun h => ⟨List.mem_append_left _ h.1, h.2⟩) fun ⟨hc, hended, habsent⟩ =>
      ⟨Workers.cancelled_of_work hwork hc, allEnded_of_work hwork hended, ?_⟩
    obtain ⟨t, t', c, ht, htask, rfl⟩ := Workers.work_eq_some_iff.mp hwork
    rw [named_concat, habsent]
    by_cases hi : WorkerId.bind = i
    · subst hi
      have hone := hended .bind
      rw [ht] at hone
      obtain rfl : t = Bind.ended := eq_of_beq hone
      cases e <;> cases htask
    · exact Named.next_work_of_ne _ hi e
  | @dropped i ok workers' h hdrop =>
    refine (ih hlate).imp (fun h => ⟨List.mem_append_left _ h.1, h.2⟩) fun ⟨_, hended, _⟩ => ?_
    obtain ⟨t, ht, hnot, -⟩ := Workers.drop_eq_some_iff.mp hdrop
    have hone := hended i
    rw [ht] at hone
    cases hone.symm.trans hnot
  | attempted h => rcases hlate with h' | ⟨ok, h'⟩ <;> cases h'
  | spawned h => rcases hlate with h' | ⟨ok, h'⟩ <;> cases h'
  | closed h => rcases hlate with h' | ⟨ok, h'⟩ <;> cases h'
  | signal h => rcases hlate with h' | ⟨ok, h'⟩ <;> cases h'
  | tasksEnded h hended => rcases hlate with h' | ⟨ok, h'⟩ <;> cases h'

/-- **Nothing is left behind.** In every run the server is stopped, and `main` returns unless the
start has failed, only after the token has been cancelled and all tasks have ended; and `named`
is gone then. At any time, also when the tasks are dropped after a failed start, `named` runs on
only as long as the task that waits for it is under way: when no task is left it is gone, or has
been sent a SIGKILL. -/
theorem exited_clean (hrun : Run args es s) :
    (s.phase = .stopping ∨ s.phase = .exited true ∨
        (s.phase = .exited false ∧ .startFails ∉ es) →
      s.workers.cancelled = true ∧ (workers args.tlsEnabled).AllEnded s.workers ∧
        named es = .absent) ∧
    (named es = .running → s.workers.started .bind = some (Bind.waiting true)) ∧
    ((workers args.tlsEnabled).AllEnded s.workers → named es ≠ .running) := by
  have hheld : named es = .running → s.workers.started .bind = some (Bind.waiting true) := by
    intro hrunning
    have hok := namedOk_of_run hrun
    rcases ht : s.workers.started .bind with _ | t
    · rcases hok.loose ht with h | ⟨h, -⟩ <;> cases hrunning.symm.trans h
    · have hnamed := hrunning.symm.trans (hok.held t ht)
      rcases t with _ | (_ | _) | (_ | _) | _ <;> cases hnamed
      rfl
  refine ⟨fun h => ?_, hheld, fun hended hrunning => ?_⟩
  · rcases h with h | h | ⟨h, hnot⟩
    · exact (ended_of_run hrun (Or.inl h)).resolve_left fun h' => by cases h.symm.trans h'.2
    · exact (ended_of_run hrun (Or.inr ⟨_, h⟩)).resolve_left fun h' => by cases h.symm.trans h'.2
    · exact (ended_of_run hrun (Or.inr ⟨_, h⟩)).resolve_left fun h' => hnot h'.1
  · have hone := hended .bind
    rw [hheld hrunning] at hone
    cases hone

/-- Everything that the program can run: no forwarders, so that there is `named`, and TLS. -/
def fullArgs : Args := ⟨53, [], true⟩

/-- The server is started, and there is a signal. -/
def signalled : List Event :=
  List.replicate 17 .started ++
    [.work .bind BindEvent.spawned, .work .challenge PairEvent.bound,
      .work .challenge PairEvent.bound, .work .admin (AdminEvent.http .bound),
      .work .admin (AdminEvent.http .bound), .signal true]

/-- It goes down, with an update under way. -/
def goneDown : List Event :=
  signalled ++
    [.work .updater (UpdaterEvent.updated true), .work .updater UpdaterEvent.cancelled,
      .work .bind BindEvent.cancelled, .work .bind BindEvent.exits, .work .bind BindEvent.killed,
      .work .acme AcmeEvent.cancelled, .work .challenge (PairEvent.v4 .cancelled),
      .work .challenge (PairEvent.v6 .cancelled), .work .challenge (PairEvent.v4 .drained),
      .work .challenge (PairEvent.v6 .drained), .work .challenge PairEvent.joined,
      .work .admin (AdminEvent.https .cancelled), .work .admin (AdminEvent.http (.v4 .fails)),
      .work .admin (AdminEvent.http (.v6 .fails)), .work .admin (AdminEvent.http .joined),
      .work .admin AdminEvent.joined, .joined, .stopped true]

/-- A port cannot be had, with `named` running. -/
def notStarted : List Event :=
  List.replicate 3 .started ++
    [.work .bind BindEvent.spawned, .startFails, .dropped .bind, .dropped .updater]

theorem exited_clean_goneDown :
    (∃ s, Run fullArgs goneDown s ∧ s.phase = .exited true ∧ s.workers.cancelled = true ∧
      (workers true).AllEnded s.workers ∧ named goneDown = .absent) ∧
    ∃ s, Run fullArgs notStarted s ∧ s.phase = .exited false ∧ named notStarted ≠ .running := by
  obtain ⟨s, hs⟩ : ∃ s, Run fullArgs goneDown s := ⟨_, rfl⟩
  have hphase : s.phase = .exited true := by
    obtain rfl := Option.some.inj hs
    rfl
  obtain ⟨s', hs'⟩ : ∃ s, Run fullArgs notStarted s := ⟨_, rfl⟩
  have hphase' : s'.phase = .exited false ∧ (workers true).AllEnded s'.workers := by
    obtain rfl := Option.some.inj hs'
    exact ⟨rfl, by decide⟩
  exact ⟨⟨s, hs, hphase, (exited_clean hs).1 (Or.inr (Or.inl hphase))⟩,
    s', hs', hphase'.1, (exited_clean hs').2.2 hphase'.2⟩

/-! ### Why it goes down -/

/-- One event more is a reason more, or none. -/
theorem exists_cause_concat_iff :
    (∃ e' ∈ es ++ [e], Cause e') ↔ (∃ e' ∈ es, Cause e') ∨ Cause e := by
  simp only [List.mem_append, List.mem_singleton]
  constructor
  · rintro ⟨e', hmem | rfl, hcause⟩
    · exact Or.inl ⟨e', hmem, hcause⟩
    · exact Or.inr hcause
  · rintro (⟨e', hmem, hcause⟩ | hcause)
    · exact ⟨e', Or.inl hmem, hcause⟩
    · exact ⟨e, Or.inr rfl, hcause⟩

/-- **Why the program goes down.** In every run the token is cancelled exactly when a signal has
come that is listened for, or could not be listened for, `named` could not be started or has
ended, the certificates have come to an end, or a port for the challenges could not be had: no
other failure has any part in it, be it of an update or of the admin server. As long as there has
been none of these the program is being started or waits – unless the start itself has failed –
and the updates, `named` and the certificates, so far as they have been started, go on. -/
theorem cancelled_iff_cause (hrun : Run args es s) :
    (s.workers.cancelled = true ↔ ∃ e ∈ es, Cause e) ∧
      ((∀ e ∈ es, ¬Cause e) →
        ((∃ todo, s.phase = .starting todo) ∨ s.phase = .waiting ∨ s.phase = .exited false) ∧
          ∀ i t, s.workers.started i = some t → goesDown i t = false) := by
  have hiff : s.workers.cancelled = true ↔ ∃ e ∈ es, Cause e := by
    refine Runs.invariant (fun es (s : State) => s.workers.cancelled = true ↔ ∃ e ∈ es, Cause e)
      ⟨(fun h => by cases h), fun ⟨_, h, _⟩ => by cases h⟩ ?_ hrun
    intro es s e s' hs ih hstep
    rw [exists_cause_concat_iff, ← ih]
    cases moves_of_step hstep with
    | attempted h => exact (or_iff_left id).symm
    | spawned h => exact (or_iff_left id).symm
    | closed h => exact (or_iff_left id).symm
    | startFails h => exact (or_iff_left id).symm
    | signal h => exact iff_of_true rfl (Or.inr trivial)
    | tasksEnded h hended =>
      exact iff_of_true rfl (Or.inl ((ok_of_run hs).cancelled_of_allEnded h hended))
    | joined h hended => exact (or_iff_left id).symm
    | stopped h => exact (or_iff_left id).symm
    | @work i e workers' hwork =>
      obtain ⟨t, t', c, ht, htask, rfl⟩ := Workers.work_eq_some_iff.mp hwork
      rw [← cause_iff_of_step i t t' e htask, Bool.or_eq_true]
    | dropped h hdrop =>
      obtain ⟨t, -, -, rfl⟩ := Workers.drop_eq_some_iff.mp hdrop
      exact (or_iff_left id).symm
  refine ⟨hiff, fun hnone => ?_⟩
  have hok := ok_of_run hrun
  have hcancelled : ¬s.workers.cancelled = true := fun h => by
    obtain ⟨e, he, hcause⟩ := hiff.mp h
    exact hnone e he hcause
  refine ⟨?_, fun i t ht => ?_⟩
  · rcases hphase : s.phase with todo | _ | _ | _ | ok
    · exact Or.inl ⟨todo, rfl⟩
    · exact Or.inr (Or.inl rfl)
    · exact absurd (hok.late (Or.inl hphase)) hcancelled
    · exact absurd (hok.late (Or.inr (Or.inl hphase))) hcancelled
    · cases ok with
      | true => exact absurd (hok.late (Or.inr (Or.inr hphase))) hcancelled
      | false => exact Or.inr (Or.inr rfl)
  · by_contra hdown
    exact hcancelled (hok.down i t ht (Bool.eq_true_of_not_eq_false hdown))

/-- Two forwarders, so that `named` is not needed, and no TLS. -/
def plainArgs : Args := ⟨53, [.v4 0x01010101, .v4 0x08080808], false⟩

/-- The server runs, an update has failed, and the admin pages are not to be had. -/
def troubled : List Event :=
  List.replicate 8 .started ++ [.work .updater (UpdaterEvent.updated false),
    .work .admin (AdminEvent.http .bindFails), .work .admin AdminEvent.joined]

theorem cancelled_iff_cause_troubled :
    ∃ s, Run plainArgs troubled s ∧ s.workers.cancelled = false ∧
      ∀ i t, s.workers.started i = some t → goesDown i t = false := by
  obtain ⟨s, hs⟩ : ∃ s, Run plainArgs troubled s := ⟨_, rfl⟩
  have hnone : ∀ e ∈ troubled, ¬Cause e := by
    simp [troubled, Cause]
  obtain ⟨hiff, hgoesOn⟩ := cancelled_iff_cause hs
  refine ⟨s, hs, ?_, (hgoesOn hnone).2⟩
  by_contra hcancelled
  obtain ⟨e, he, hcause⟩ := hiff.mp (Bool.eq_true_of_not_eq_false hcancelled)
  exact hnone e he hcause

/-! ### That it goes down -/

/-- How far an action of the start is from its end. -/
def Action.cost : Action → ℕ
  | .attempt _ => 1
  | .spawn i => 1 + rankBound i

/-- How far `main` is from its end. -/
def Phase.rank : Phase → ℕ
  | .starting todo => (todo.map Action.cost).sum + 4
  | .waiting => 3
  | .joining => 2
  | .stopping => 1
  | .exited _ => 0

/-- How far the program is from its end. -/
def State.rank (s : State) : ℕ := s.phase.rank + Workers.rankSum Main.rank s.workers

/-- What an event may set the program back. -/
def Event.credit : Event → ℕ
  | .work i e => Main.credit i e
  | _ => 0

/-- **Each step brings the program nearer to its end** once the token is cancelled. -/
theorem rank_step (hm : Moves args s e s') (hcancelled : s.workers.cancelled = true) :
    s'.workers.cancelled = true ∧ s'.rank + 1 ≤ s.rank + e.credit := by
  cases hm with
  | attempted h =>
    refine ⟨hcancelled, ?_⟩
    simp only [State.rank, h, Phase.rank, List.map_cons, List.sum_cons, Action.cost, Event.credit]
    omega
  | @spawned i todo h =>
    refine ⟨hcancelled, ?_⟩
    have hspawn := Workers.rankSum_spawn_le Main.rank (workers args.tlsEnabled) s.workers i
    have hbound := rank_le_rankBound i ((workers args.tlsEnabled).init i)
    simp only [State.rank, h, Phase.rank, List.map_cons, List.sum_cons, Action.cost, Event.credit]
    omega
  | closed h =>
    refine ⟨hcancelled, ?_⟩
    simp only [State.rank, h, Phase.rank, List.map_nil, List.sum_nil, Event.credit]
    omega
  | startFails h =>
    refine ⟨hcancelled, ?_⟩
    simp only [State.rank, h, Phase.rank]
    omega
  | signal h =>
    refine ⟨rfl, ?_⟩
    have hsame : Workers.rankSum Main.rank { s.workers with cancelled := true } =
        Workers.rankSum Main.rank s.workers := rfl
    simp only [State.rank, h, Phase.rank, Event.credit, hsame]
    omega
  | tasksEnded h hended =>
    refine ⟨rfl, ?_⟩
    have hsame : Workers.rankSum Main.rank { s.workers with cancelled := true } =
        Workers.rankSum Main.rank s.workers := rfl
    simp only [State.rank, h, Phase.rank, Event.credit, hsame]
    omega
  | joined h hended =>
    refine ⟨hcancelled, ?_⟩
    simp only [State.rank, h, Phase.rank, Event.credit]
    omega
  | stopped h =>
    refine ⟨hcancelled, ?_⟩
    simp only [State.rank, h, Phase.rank, Event.credit]
    omega
  | work hwork =>
    refine ⟨Workers.cancelled_of_work hwork hcancelled, ?_⟩
    have hrank := Workers.rankSum_work (winds args.tlsEnabled) hcancelled hwork
    simp only [State.rank, Event.credit]
    omega
  | dropped h hdrop =>
    have hrank := Workers.rankSum_drop (winds args.tlsEnabled) hdrop
    obtain ⟨t, -, -, rfl⟩ := Workers.drop_eq_some_iff.mp hdrop
    refine ⟨hcancelled, ?_⟩
    simp only [State.rank]
    omega

/-- The run lemma. -/
theorem length_le_of_run (hrun : Runs.run (step args) s es = some s')
    (hcancelled : s.workers.cancelled = true) :
    es.length + s'.rank ≤ s.rank + (es.map Event.credit).sum := by
  induction es generalizing s with
  | nil =>
    obtain rfl := Option.some.inj hrun
    simp
  | cons e es ih =>
    obtain ⟨s₁, hstep, hrun⟩ := Option.bind_eq_some_iff.mp hrun
    obtain ⟨hcancelled₁, hrank⟩ := rank_step (moves_of_step hstep) hcancelled
    have hrest := ih hrun hcancelled₁
    simp only [List.length_cons, List.map_cons, List.sum_cons]
    omega

/-- The start is never long. -/
theorem cost_startup_le (args : Args) : ((startup args).map Action.cost).sum ≤ 39 := by
  rw [startup]
  cases args.forwarders.isEmpty <;> cases args.tlsEnabled <;> simp [Action.cost, rankBound]

/-- The program is never far from its end. -/
theorem rank_le_of_run (hrun : Run args es s) : s.rank ≤ 66 := by
  have hworkers : Workers.rankSum Main.rank s.workers ≤ 23 :=
    Workers.rankSum_le rank_le_rankBound s.workers
  have hphase : s.phase.rank ≤ 43 := by
    have hok := ok_of_run hrun
    rcases h : s.phase with todo | _ | _ | _ | ok
    · have hsuffix := ((hok.todo todo h).sublist.map Action.cost).sum_le_sum
        fun _ _ => Nat.zero_le _
      have hstartup := cost_startup_le args
      simp only [Phase.rank]
      omega
    all_goals simp [Phase.rank]
  simp only [State.rank]
  omega

/-- Whose it is to bring an event about. -/
def Event.whose : Event → Whose
  | .started => .own
  | .startFails => .other
  | .signal _ => .other
  | .tasksEnded => .own
  | .joined => .own
  -- connections that are open are waited for
  | .stopped _ => .awaited
  | .work i e => Main.whose i e
  | .dropped _ => .own

/-- Nothing is left of the program. -/
def State.Over (tlsEnabled : Bool) (s : State) : Prop :=
  (∃ ok, s.phase = .exited ok) ∧ (Main.workers tlsEnabled).AllEnded s.workers

/-- The program can always go on once the token is cancelled, or waits. -/
theorem exists_step (hcancelled : s.workers.cancelled = true) (hover : ¬s.Over args.tlsEnabled) :
    ∃ e s', e.whose ≠ .other ∧ step args s e = some s' := by
  by_cases hended : (workers args.tlsEnabled).AllEnded s.workers
  · rcases h : s.phase with (_ | ⟨_ | _, todo⟩) | _ | _ | _ | ok
    · exact ⟨.started, _, by decide, by rw [step, h]⟩
    · exact ⟨.started, _, by decide, by rw [step, h]⟩
    · exact ⟨.started, _, by decide, by rw [step, h]⟩
    · exact ⟨.tasksEnded, _, by decide, by simp only [step, h, if_pos hended]; rfl⟩
    · exact ⟨.joined, _, by decide, by simp only [step, h, if_pos hended]; rfl⟩
    · exact ⟨.stopped true, _, by decide, by rw [step, h]⟩
    · exact absurd ⟨⟨ok, h⟩, hended⟩ hover
  · obtain ⟨i, e, workers', hwhose, hwork⟩ :=
      Workers.exists_work (winds args.tlsEnabled) hcancelled hended
    exact ⟨.work i e, { s with workers := workers' }, hwhose, by simp only [step, hwork]; rfl⟩

/-- **Once it is to go down, the program does.** From any state that a run reaches with the token
cancelled, at most 66 steps are left, besides those that an update that wakes up once more
costs, two more for each, and the events of the certificate authority. And it never gets stuck:
as long as `main` has not returned or some task is left, there is a step that the program can
take by itself, or one that it waits for and that can come. The latter are four, and none of
them has a deadline: an update under way returns, `named`, which has been sent a SIGKILL, is gone,
the last connection to an HTTP server is closed, the server is done with its connections. -/
theorem shutdown_bounded (hrun : Run args es s) (hcancelled : s.workers.cancelled = true) :
    (∀ es' s', Runs.run (step args) s es' = some s' →
      es'.length ≤ 66 + (es'.map Event.credit).sum) ∧
    ∀ es' s', Runs.run (step args) s es' = some s' → ¬s'.Over args.tlsEnabled →
      ∃ e s'', (e.whose = .own ∨ e.whose = .awaited) ∧ step args s' e = some s'' := by
  refine ⟨fun es' s' hrun' => ?_, fun es' s' hrun' hover => ?_⟩
  · have hlength := length_le_of_run hrun' hcancelled
    have hrank := rank_le_of_run hrun
    omega
  · have hcancelled' : s'.workers.cancelled = true :=
      Runs.invariant (fun _ (s : State) => s.workers.cancelled = true) hcancelled
        (fun _ _ _ _ _ h hstep => (rank_step (moves_of_step hstep) h).1) hrun'
    obtain ⟨e, s'', hwhose, hstep⟩ := exists_step hcancelled' hover
    refine ⟨e, s'', ?_, hstep⟩
    cases h : e.whose with
    | own => exact Or.inl rfl
    | awaited => exact Or.inr rfl
    | other => exact absurd h hwhose

theorem shutdown_bounded_signalled :
    ∃ s, Run fullArgs signalled s ∧
      (∀ es' s', Runs.run (step fullArgs) s es' = some s' →
        es'.length ≤ 66 + (es'.map Event.credit).sum) ∧
      ∃ e s', (e.whose = .own ∨ e.whose = .awaited) ∧ step fullArgs s e = some s' := by
  obtain ⟨s, hs⟩ : ∃ s, Run fullArgs signalled s := ⟨_, rfl⟩
  have hstate : s.workers.cancelled = true ∧ s.phase = .joining := by
    obtain rfl := Option.some.inj hs
    exact ⟨rfl, rfl⟩
  have hbounded := shutdown_bounded hs hstate.1
  refine ⟨s, hs, hbounded.1, hbounded.2 [] s rfl ?_⟩
  rintro ⟨⟨ok, h⟩, -⟩
  cases hstate.2.symm.trans h

end Main

end BancuhDns
