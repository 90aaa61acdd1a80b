import BancuhDns.Lists.RoundTrip
import BancuhDns.Server.Outgoing

/-!
# Lists as they are meant, and what leaves the server

From one end to the other: lists are written over the sources of configurations, updates find
them or fail, requests are handled meanwhile, and what leaves the server is what the lists mean
that were in force (`BancuhDns.Server.outgoing_as_meant`). What lists say about names, by their
lines, and what they mean, by labels, is the same when they are written in a configuration
(`BancuhDns.Lists.WrittenIn.ofLists_eq`); so that nothing is left of the way they were written.
-/

namespace BancuhDns

namespace Lists

/-- What lists mean for names. -/
def verdicts (lists : Lists) : Verdicts where
  blocks n := lists.blocks n = true
  rewrites n a := (lists.rewrite n).map Name.text = some a

/-- No lists. -/
def empty : Lists := ⟨[], [], []⟩

theorem verdicts_empty : empty.verdicts = .none := by
  have hrewrite : ∀ n, empty.rewrite n = none := fun n => rfl
  have hblocks : ∀ n, empty.blocks n = false := fun n => rfl
  simp [verdicts, Verdicts.none, hrewrite, hblocks]

variable {σ : Type} {kv : RocksDB σ} {engine : AdblockEngine σ} {v : Verdicts} {lists : Lists}

/-- What an engine follows when it answers as lists are meant. -/
theorem Decided.verdicts_eq (h : lists.Decided kv engine) (hfollows : engine.Follows kv v) :
    v = lists.verdicts := by
  obtain ⟨blocks, rewrites⟩ := v
  have hblocks : blocks = fun n => lists.blocks n = true := by
    funext n
    obtain ⟨b, hb, hiff⟩ := hfollows.isBlocked n
    rw [h.isBlocked] at hb
    rw [Except.ok.inj hb]
    exact propext hiff.symm
  have hrewrites : rewrites = fun n a => (lists.rewrite n).map Name.text = some a := by
    funext n a
    obtain ⟨r, hr, hiff⟩ := hfollows.getRedirect n
    rw [h.getRedirect] at hr
    rw [Except.ok.inj hr]
    exact propext (hiff a).symm
  rw [hblocks, hrewrites]
  rfl

/-- **What lists say is what they mean**, when they are written in a configuration. -/
theorem WrittenIn.ofLists_eq {cr : Crates} {srcs : Sources} {config : Config}
    (hkv : kv.LastWriteWins) (hstray : cr.RejectsAsciiStray)
    (h : lists.WrittenIn cr srcs config) {db : AdblockDB σ} (hdb : db.Empty kv)
    (configUrl : FileOrUrl) : Verdicts.ofLists cr srcs config = lists.verdicts :=
  (h.decided hstray hkv configUrl hdb).verdicts_eq
    (follows_compiledEngine hkv cr srcs config configUrl hdb)

end Lists

namespace Server

variable {σ L : Type} {srv : Server σ L} {start : Shared σ L} {es : List (Event σ)}
  {s : State σ L} {i : ℕ} {request : Request} {found : World σ → Option Lists}

/-- **What the updates of a run find**: the lists that are there, or nothing, when they fail. -/
def Finds (srv : Server σ L) (configUrl : FileOrUrl) (es : List (Event σ))
    (found : World σ → Option Lists) : Prop :=
  ∀ w, .environment (.update w) ∈ es →
    match found w with
    | some lists => lists.FoundIn srv.kv srv.crates srv.platform w configUrl
    | none => Lists.NotFound srv.platform w configUrl

/-- **The lists at the end of a run**: those that the last update has found that has found
any. -/
def listsAfter (found : World σ → Option Lists) (es : List (Event σ)) : Lists :=
  es.foldl (fun lists e =>
    match e with
    | .environment (.update w) => (found w).getD lists
    | _ => lists) .empty

/-- What an update makes of what is said. -/
theorem verdictsOf_eq (hkv : srv.kv.LastWriteWins)
    (hstray : srv.crates.RejectsAsciiStray) {configUrl : FileOrUrl} {w : World σ} {lists : Lists}
    (h : match found w with
      | some lists => lists.FoundIn srv.kv srv.crates srv.platform w configUrl
      | none => Lists.NotFound srv.platform w configUrl) :
    srv.verdictsOf configUrl w lists.verdicts = ((found w).getD lists).verdicts := by
  rcases hfound : found w with _ | lists'
  · rw [hfound] at h
    rcases h with hfails | hfails
    · obtain ⟨err, hcreate⟩ := (create_error_iff _).mpr hfails
      rw [verdictsOf, hcreate]
      rfl
    · obtain ⟨err, hload⟩ := (load_error_iff _ _ _).mpr hfails
      rw [verdictsOf, hload]
      cases AdblockDB.create w.opened <;> rfl
  · rw [hfound] at h
    obtain ⟨db, config, hcreate, hdb, hload, hwritten⟩ := h
    rw [verdictsOf, hcreate, hload]
    exact hwritten.ofLists_eq hkv hstray hdb configUrl

/-- **What is said at the end of a run is what the lists mean** that are there. -/
theorem verdictsAfter_eq (hkv : srv.kv.LastWriteWins)
    (hstray : srv.crates.RejectsAsciiStray) {configUrl : FileOrUrl}
    (h : srv.Finds configUrl es found) :
    srv.verdictsAfter configUrl es = (listsAfter found es).verdicts := by
  induction es using List.reverseRecOn with
  | nil => exact Lists.verdicts_empty.symm
  | append_singleton es e ih =>
    have hbefore := ih fun w hw => h w (List.mem_append_left _ hw)
    rw [verdictsAfter, listsAfter, List.foldl_append, List.foldl_append, ← verdictsAfter,
      ← listsAfter, hbefore]
    rcases e with ⟨j, x⟩ | ⟨j, e⟩ | change
    · rfl
    · rfl
    · cases change with
      | update w =>
        exact verdictsOf_eq hkv hstray
          (h w (List.mem_append_right _ (List.mem_singleton_self _)))
      | setClock now => rfl
      | pass time => rfl

variable (srv start es i found) in
/-- Lists that were there at some moment of a task. -/
def ListsInForce (lists : Lists) : Prop :=
  ∃ es₁ s₁, srv.During start es i es₁ s₁ ∧ listsAfter found es₁ = lists

theorem exists_listsInForce (hkv : srv.kv.LastWriteWins)
    (hstray : srv.crates.RejectsAsciiStray) (hfound : srv.Finds start.engine.configUrl es found)
    {v : Verdicts} (h : srv.InForce start es i v) :
    ∃ lists, ListsInForce srv start es i found lists ∧ v = lists.verdicts := by
  obtain ⟨es₁, s₁, hduring, rfl⟩ := h
  obtain ⟨es₂, rfl, -⟩ := id hduring
  exact ⟨_, ⟨es₁, s₁, hduring, rfl⟩, verdictsAfter_eq hkv hstray
    fun w hw => hfound w (List.mem_append_left _ hw)⟩

/-- A server whose configuration has four sources. -/
def adsServer : Server (List (Text × Text)) Unit :=
  { openServer with crates := .strayless, platform := Lists.adsPlatform }

/-- A client asks for a name below one that is blocked. -/
def adsRequest : Request :=
  { Handler.aQuery with requestInfo := .ok ⟨Lists.wwwAdsCom.text, .a⟩ }

/-- The lists are found, and the client asks. -/
def adsRun : List (Event (List (Text × Text))) :=
  [.environment (.update (Lists.adsWorld true)), .start 0 adsRequest,
    .exchange 0 ⟨.getRedirect Lists.wwwAdsCom.text, .ok none⟩,
    .exchange 0 ⟨.isBlocked Lists.wwwAdsCom.text, .ok true⟩]

end Server

end BancuhDns
