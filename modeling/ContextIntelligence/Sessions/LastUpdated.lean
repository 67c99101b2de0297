import ContextIntelligence.Handlers.ToolResults
import ContextIntelligence.Sessions.Attachment

/-!
# The time of the last event

`touch_session` compares the time of an event with what `get_node` shows, the buffered part of the
session node as soon as there is one. So a time older than the stored one is written where the
buffered part has none.
-/

namespace ContextIntelligence.Sessions.LastUpdated

open Lib Lib.Effects Lib.Recording Lib.Runs ContextIntelligence.Graph Handlers

variable {env : Env} {sid : NodeId} {v : Option Value} {t : WithBot ℤ} {w w' : World}

/-! ## Runs -/

inductive SessionAction where
  | event (e : Event)
  | flush
  | respawn

/-- The worker of a session, with the latest time among the events that are flushed, and among those
that the next flush brings. -/
structure Session where
  world : World
  flushed : WithBot ℤ
  pending : WithBot ℤ

def Session.new (db : Database) : Session := ⟨newWorker db, ⊥, ⊥⟩

def timestampOf (e : Event) : String := (e.data.str "timestamp").getD ""

def microsOf (t : Option Instant) : WithBot ℤ := t.elim ⊥ fun t => (t.micros : WithBot ℤ)

/-- An event on which a handler raises does not count as processed. A respawned worker loses what
was not flushed; its events come again. -/
def sessionStep (env : Env) (sid : NodeId) (s : Session) : SessionAction → Session
  | .event e =>
    { s with
      world := workerStep env s.world (.dispatch sid e [])
      pending := match (processEvent env sid e { s.world with fates := [] }).1 with
        | .ok _ => s.pending ⊔ microsOf (env.fromisoformat (timestampOf e))
        | .error _ => s.pending }
  | .flush => ⟨workerStep env s.world .flush, s.flushed ⊔ s.pending, ⊥⟩
  | .respawn => ⟨workerStep env s.world .recreate, s.flushed, ⊥⟩

def persisted (env : Env) (sid : NodeId) (w : World) : WithBot ℤ :=
  match currentInstant env (stored w.db sid "last_updated") with
  | .ok t => microsOf t
  | .error _ => ⊥

/-- Nothing of the session node is buffered, and the event gives nobody reason to write to it: the
worker knows the session, and no handler claims the event. -/
def Undisturbed (sid : NodeId) (e : Event) (w : World) : Prop :=
  sid ∈ w.cursors.seenSessions ∧ (w.buffer.nodes.get sid).isNone
    ∧ ∀ names ∈ handledEvents, e.name ∉ names

/-- The timestamp is a time with a zone, and not older than the stored one unless the buffered part
of the node has a time or there is none and will be none. -/
def InOrder (env : Env) (sid : NodeId) (s : Session) : SessionAction → Prop
  | .event e =>
    ∃ t, env.fromisoformat (timestampOf e) = some t ∧ t.aware = true
      ∧ (persisted env sid s.world ≤ t.micros
        ∨ ((s.world.buffer.fragment sid).props "last_updated").isSome
        ∨ Undisturbed sid e s.world)
  | _ => True

/-! ## Values -/

inductive Shows (env : Env) : Option Value → WithBot ℤ → Prop where
  | absent : Shows env none ⊥
  | time {v : Option Value} {t : Instant} (hv : currentInstant env v = .ok (some t))
      (haware : t.aware = true) : Shows env v t.micros

theorem Shows.row {p : Props} (h : Shows env (p "last_updated") t) :
    Shows env (rowValue env p "last_updated") t := by
  unfold rowValue
  generalize p "last_updated" = v at h
  cases h with
  | absent => exact .absent
  | time hv haware =>
    refine .time ?_ haware
    unfold currentInstant at hv
    split at hv
    · cases hv
    · cases hv
    · exact hv
    next s =>
      cases htime : env.fromisoformat s with
      | none =>
        rw [htime] at hv
        cases hv
      | some t' =>
        rw [htime] at hv
        by_cases hs : s = ""
        · subst hs
          have hend : "last_updated".endsWith "_at" = false := by decide +kernel
          simpa [hend, convertTemporal, sanitize, Value.str, currentInstant, htime] using hv
        · simpa [convertTemporal, temporalProps, hs, htime, sanitize, currentInstant] using hv
    · cases hv

theorem Shows.persisted_eq (h : Shows env (stored w.db sid "last_updated") t) :
    persisted env sid w = t := by
  unfold persisted
  generalize stored w.db sid "last_updated" = v at h
  cases h with
  | absent => rfl
  | time hv _ =>
    rw [hv]
    rfl

theorem Shows.eq_none (h : Shows env v ⊥) : v = none := by
  generalize hbot : (⊥ : WithBot ℤ) = t at h
  cases h with
  | absent => rfl
  | time => cases hbot

theorem Shows.eq_bot (h : Shows env none t) : t = ⊥ := by
  cases h with
  | absent => rfl
  | time hv => cases hv

theorem advances_iff (h : Shows env v t) {timestamp : String} {i : Instant}
    (hi : env.fromisoformat timestamp = some i) (haware : i.aware = true) :
    advances env timestamp v = true ↔ t < i.micros := by
  cases h with
  | absent => simp [advances, hi, currentInstant, WithBot.bot_lt_coe]
  | time hv hzone => simp [advances, hi, hv, haware, hzone, WithBot.coe_lt_coe]

/-! ## What an event leaves -/

/-- Nobody has written the time of the session or dropped its buffered part. -/
structure KeepsTime (sid : NodeId) (b b' : Buffer) : Prop where
  value : (b'.fragment sid).props "last_updated" = (b.fragment sid).props "last_updated"
  kept : (b.nodes.get sid).isSome → (b'.nodes.get sid).isSome

instance : Std.Refl (KeepsTime sid) where
  refl _ := ⟨rfl, id⟩

instance : IsTrans Buffer (KeepsTime sid) where
  trans _ _ _ h h' := ⟨h'.value.trans h.value, h'.kept ∘ h.kept⟩

/-- Between two states of the worker the database and the time of the session stay. -/
structure Leaves (sid : NodeId) (w w' : World) : Prop extends KeepsTime sid w.buffer w'.buffer where
  calm : Calm w w'

theorem Leaves.trans {w'' : World} (h : Leaves sid w w') (h' : Leaves sid w' w'') :
    Leaves sid w w'' :=
  ⟨IsTrans.trans _ _ _ h.toKeepsTime h'.toKeepsTime, IsTrans.trans _ _ _ h.calm h'.calm⟩

/-- Neither `ensure_session_node` nor a handler writes the time. -/
def Timeless : Call → Prop
  | .upsertNode _ _ fields => "last_updated" ∉ fields.map Prod.fst
  | _ => True

theorem timeless_of_asked {results : NodeId → Prop} {call : Call} (h : Asked results call) :
    Timeless call := by
  cases call with
  | upsertNode id labels fields =>
    intro hmem
    obtain ⟨field, hfield, htime⟩ := List.mem_map.1 hmem
    exact (h field hfield).untouched htime
  | _ => trivial

theorem keepsTime_call (call : Call) (h : Timeless call) (b : Buffer) :
    KeepsTime sid b (b.call call) := by
  refine ⟨?_, isSome_call call⟩
  cases call with
  | upsertNode id labels fields =>
    rw [Buffer.call, fragment_upsertNode]
    split
    next hid => exact (assign_of_notMem h _).trans (by rw [hid])
    next => rfl
  | upsertEdge src dst fields => rfl
  | removeEdge src dst => rfl
  | setLabels id remove add => rw [Buffer.call, props_setLabels]

variable (sid) in
theorem leaves_of_only {α : Type} {m : Trace α} {hook : Hook α} (hrun : m.run = hook)
    (hcalm : Respects Calm hook) (hacts : Traced.OnStore m) (honly : Only Timeless m) (w : World) :
    Leaves sid w (hook w).2 := by
  subst hrun
  exact ⟨hacts.related honly keepsTime_call w, hcalm w⟩

variable (sid) in
theorem leaves_ensureSessionNode (data : Payload) (workingDir : Option String) (w : World) :
    Leaves sid w (ensureSessionNode sid data workingDir w).2 :=
  leaves_of_only sid (Traced.run_ensureSessionNode sid data workingDir)
    (calm_frame.ensureSessionNode sid data workingDir)
    (Traced.onStore_ensureSessionNode sid data workingDir)
    ((Traced.only_stub sid data workingDir).mono fun _ h =>
      timeless_of_asked (h fun _ => True).asked) w

variable (env sid) in
theorem leaves_defaultHandler (o : Occurrence) (w : World) :
    Leaves sid w (performAll (defaultHandler env o) w).2 :=
  leaves_of_only sid (Traced.run_performAll _) (calm_frame.onBuffer _)
    (Traced.onStore_performAll _) (Traced.only_performAll fun write hwrite =>
      timeless_of_asked (asked_defaultHandler env o write hwrite :
        Asked (fun _ => True) write.call)) w

variable (env sid) in
theorem leaves_enrichers (o : Occurrence) (w : World) :
    Leaves sid w (runAll ((enrichers env).map fun enricher => enricher o) w).2 :=
  leaves_of_only sid (by rw [Traced.run_runAll, Traced.run_enrichers])
    (calm_frame.enrichers (fun _ _ => ⟨rfl, id⟩) env o)
    (Traced.onStore_runAll (Traced.onStore_enrichers env o))
    ((Traced.only_runAll (Traced.only_enrichers env o)).mono fun _ => timeless_of_asked) w

theorem isSome_visibleNode (db : Database) (b : Buffer) :
    (visibleNode sid db b).isSome ↔ (b.nodes.get sid).isSome ∨ (db.nodes sid).isSome := by
  unfold visibleNode
  cases b.nodes.get sid <;> simp

theorem Leaves.visible (h : Leaves sid w w') (hw : (visibleNode sid w.db w.buffer).isSome) :
    (visibleNode sid w'.db w'.buffer).isSome := by
  rw [isSome_visibleNode] at hw ⊢
  rw [h.calm.db]
  exact hw.imp_left h.kept

/-- Up to the point at which the time is written an event leaves the time of its session alone, and
there the node is found. -/
theorem processEvent_leaves {e : Event} (hreads : w.fates = [])
    (hknown : sid ∈ w.cursors.seenSessions → (visibleNode sid w.db w.buffer).isSome) :
    ∃ w', Leaves sid w w' ∧ (visibleNode sid w'.db w'.buffer).isSome
      ∧ (Undisturbed sid e w → (w'.buffer.nodes.get sid).isNone)
      ∧ ((∃ fault, processEvent env sid e w = (.error fault, w'))
        ∨ processEvent env sid e w = touchSession env sid (timestampOf e) w') := by
  obtain ⟨w₁, hens, hold, hnew⟩ := ensureSessionNode_ok hreads sid e.data e.workingDir
  have hfirst : Leaves sid w w₁ := by
    have hleaves := leaves_ensureSessionNode sid e.data e.workingDir w
    rwa [hens] at hleaves
  have hvis : (visibleNode sid w₁.db w₁.buffer).isSome := by
    by_cases hseen : sid ∈ w.cursors.seenSessions
    · rw [hold hseen]
      exact hknown hseen
    · exact (isSome_visibleNode _ _).2 (.inl (hnew hseen))
  have hquiet : Undisturbed sid e w → (w₁.buffer.nodes.get sid).isNone := by
    rintro ⟨hseen, hnone, -⟩
    rwa [hold hseen]
  cases hprep : prepare env sid e with
  | error fault =>
    exact ⟨w₁, hfirst, hvis, hquiet, .inl ⟨fault, processEvent_of_unprepared hens hprep⟩⟩
  | ok o =>
    obtain ⟨hsid, hname, htime⟩ := prepare_fields hprep
    have hsecond := leaves_defaultHandler env sid o w₁
    have hget := get_defaultHandler env o w₁
    have hall := processEvent_of_prepared hens hprep
    generalize (performAll (defaultHandler env o) w₁).2 = w₂ at hsecond hget hall
    have hthird := leaves_enrichers env sid o w₂
    have hrest : Undisturbed sid e w →
        runAll ((enrichers env).map fun enricher => enricher o) w₂ = (.ok (), w₂) :=
      fun hunder => runAll_of_unclaimed env (hname ▸ hunder.2.2) w₂
    rcases hrun : runAll ((enrichers env).map fun enricher => enricher o) w₂ with ⟨result, w₃⟩
    rw [hrun] at hthird hrest
    refine ⟨w₃, hfirst.trans (hsecond.trans hthird), (hsecond.trans hthird).visible hvis,
      fun hunder => ?_, ?_⟩
    · rw [(Prod.mk.inj (hrest hunder)).2, ← hsid, hget, hsid]
      exact hquiet hunder
    · rcases result with fault | _
      · exact .inl ⟨fault, hall.trans (Eff.bind_of_error hrun)⟩
      · rw [hall, Eff.bind_of_ok hrun, htime]
        exact .inr rfl

/-! ## Steps -/

/-- The stored time is that of the flushed events, and the buffered one, if there is one, that of
all. -/
structure Tracked (env : Env) (sid : NodeId) (s : Session) : Prop where
  reads : s.world.fates = []
  known : sid ∈ s.world.cursors.seenSessions → (visibleNode sid s.world.db s.world.buffer).isSome
  stored : Shows env (stored s.world.db sid "last_updated") s.flushed
  buffered : ∃ t, Shows env ((s.world.buffer.fragment sid).props "last_updated") t
    ∧ (t = ⊥ ∧ s.pending ≤ s.flushed ∨ t = s.flushed ⊔ s.pending)

theorem touchSession_eq (hreads : w.fates = []) {node : Node}
    (hnode : visibleNode sid w.db w.buffer = some node) (timestamp : String) :
    (touchSession env sid timestamp w).2
      = if advances env timestamp (node.props "last_updated") then
          w.onBuffer (Buffer.upsertNode sid {"Session"} [("last_updated", .str timestamp)])
        else w := by
  simp only [touchSession, Eff.quietly, Eff.bind_apply, getNode_eq hreads, hnode]
  split <;> rfl

variable {s : Session} {e : Event}

/-- The worker where an event has left the time alone. -/
theorem Tracked.leave (h : Tracked env sid s) (hleaves : Leaves sid s.world w)
    (hvis : (visibleNode sid w.db w.buffer).isSome) :
    Tracked env sid ⟨{ w with fates := [] }, s.flushed, s.pending⟩ := by
  refine ⟨rfl, fun _ => hvis, ?_, ?_⟩
  · rw [hleaves.calm.db]
    exact h.stored
  · rw [hleaves.value]
    exact h.buffered

/-- The time that the guard compares with; all times so far are below it or below a new one. -/
theorem Tracked.guard (h : Tracked env sid s) {node : Node}
    (hnode : visibleNode sid s.world.db s.world.buffer = some node) {i : ℤ}
    (hlate : ∀ node, s.world.buffer.nodes.get sid = some node → node.props "last_updated" = none →
      s.flushed ≤ i) :
    ∃ cur t, Shows env (node.props "last_updated") cur
      ∧ Shows env ((s.world.buffer.fragment sid).props "last_updated") t
      ∧ (cur < i → s.flushed ⊔ s.pending ≤ i)
      ∧ (¬ cur < i → t = ⊥ ∧ s.pending ⊔ i ≤ s.flushed ∨ t = s.flushed ⊔ (s.pending ⊔ i)) := by
  have hbot : (⊥ : WithBot ℤ) < i := WithBot.bot_lt_coe _
  obtain ⟨t, hshows, hall⟩ := h.buffered
  have hstored := h.stored
  unfold visibleNode at hnode
  unfold Buffer.fragment at hshows ⊢
  cases hfrag : s.world.buffer.nodes.get sid with
  | some fragment =>
    rw [hfrag] at hnode hshows
    cases hnode
    refine ⟨t, t, hshows, hshows, fun hlt => ?_, fun hge => ?_⟩
    · rcases hall with ⟨rfl, hpend⟩ | rfl
      · have hfirst := hlate node hfrag hshows.eq_none
        exact sup_le hfirst (hpend.trans hfirst)
      · exact hlt.le
    · rcases hall with ⟨rfl, -⟩ | rfl
      · exact absurd hbot hge
      · exact .inr (by rw [← sup_assoc, sup_eq_left.2 (not_lt.1 hge)])
  | none =>
    rw [hfrag] at hnode hshows
    dsimp only at hnode
    obtain rfl := hshows.eq_bot
    have hpend : s.pending ≤ s.flushed :=
      hall.elim And.right fun hsup => le_sup_right.trans (hsup ▸ bot_le)
    rw [Handlers.stored, hnode, Option.bind_some] at hstored
    refine ⟨s.flushed, ⊥, hstored, hshows, fun hlt => sup_le hlt.le (hpend.trans hlt.le),
      fun hge => ?_⟩
    exact .inl ⟨rfl, sup_le hpend (not_lt.1 hge)⟩

theorem Tracked.touch (h : Tracked env sid s)
    (hvis : (visibleNode sid s.world.db s.world.buffer).isSome) {timestamp : String} {i : Instant}
    (hi : env.fromisoformat timestamp = some i) (haware : i.aware = true)
    (hlate : ∀ node, s.world.buffer.nodes.get sid = some node → node.props "last_updated" = none →
      s.flushed ≤ i.micros) :
    Tracked env sid ⟨{ (touchSession env sid timestamp s.world).2 with fates := [] }, s.flushed,
      s.pending ⊔ microsOf (env.fromisoformat timestamp)⟩ := by
  obtain ⟨node, hnode⟩ := Option.isSome_iff_exists.1 hvis
  obtain ⟨cur, t, hcur, hshows, hnew, hold⟩ := h.guard hnode hlate
  have hguard := advances_iff hcur hi haware
  simp only [touchSession_eq h.reads hnode, hi, microsOf, Option.elim_some]
  split
  next hadvance =>
    refine ⟨rfl, fun _ => ?_, h.stored, i.micros, .time ?_ haware, .inr ?_⟩
    · simp [visibleNode, World.onBuffer, Buffer.upsertNode]
    · simp [World.onBuffer, Props.assign, currentInstant, Value.str, hi]
    · rw [← sup_assoc, sup_eq_right.2 (hnew (hguard.1 hadvance))]
  next hadvance => exact ⟨rfl, fun _ => hvis, h.stored, t, hshows, hold (hguard.not.1 hadvance)⟩

theorem Tracked.event (h : Tracked env sid s) (hord : InOrder env sid s (.event e)) :
    Tracked env sid (sessionStep env sid s (.event e)) := by
  obtain ⟨i, hi, haware, hlate⟩ := hord
  obtain ⟨w, hleaves, hvis, hquiet, hrun⟩ := processEvent_leaves h.reads h.known
  have hreads : w.fates = [] := hleaves.calm.fates h.reads
  have hworld : ({ s.world with fates := [] } : World) = s.world := by rw [← h.reads]
  have hleft : Tracked env sid ⟨w, s.flushed, s.pending⟩ := by
    simpa only [← hreads] using h.leave hleaves hvis
  simp only [sessionStep, workerStep, hworld]
  rcases hrun with ⟨fault, hrun⟩ | hrun
  · rw [hrun]
    exact h.leave hleaves hvis
  · have hok : (touchSession env sid (timestampOf e) w).1 = .ok () := rfl
    rw [hrun, hok]
    refine hleft.touch hvis hi haware fun node hnode hnone => ?_
    -- the buffered part that the guard finds has no time
    have hfrag : (s.world.buffer.fragment sid).props "last_updated" = none := by
      rw [← hleaves.value, Buffer.fragment, hnode]
      exact hnone
    rcases hlate with hlate | hsome | hunder
    · rwa [h.stored.persisted_eq] at hlate
    · rw [hfrag] at hsome
      cases hsome
    · rw [hnode] at hquiet
      cases hquiet hunder

theorem Tracked.flush (h : Tracked env sid s) : Tracked env sid (sessionStep env sid s .flush) := by
  obtain ⟨t, hshows, hall⟩ := h.buffered
  refine ⟨h.reads, fun hseen => ?_, ?_, ⊥, .absent, .inl ⟨rfl, bot_le⟩⟩
  · have hvis := h.known hseen
    rw [isSome_visibleNode] at hvis ⊢
    refine .inr ?_
    dsimp only [sessionStep, workerStep, World.flush]
    rw [nodes_flush]
    cases hfrag : s.world.buffer.nodes.get sid <;> rw [hfrag] at hvis
    · simpa [writeRow] using .inl (hvis.resolve_left Bool.false_ne_true)
    · simp [writeRow]
  · have hrow := hshows.row
    dsimp only [sessionStep, workerStep, World.flush]
    rw [stored_flush env s.world.buffer s.world.db sid (by decide)]
    rcases hall with ⟨rfl, hpend⟩ | rfl
    · rw [hrow.eq_none, Option.none_or, sup_eq_left.2 hpend]
      exact h.stored
    · cases hval : rowValue env (s.world.buffer.fragment sid).props "last_updated" with
      | none =>
        rw [hval] at hrow
        have hbot := sup_eq_bot_iff.1 hrow.eq_bot
        rw [Option.none_or, hbot.2, sup_bot_eq]
        exact h.stored
      | some v =>
        rw [hval] at hrow
        exact hrow

/-- The stored time does not go back, and afterwards it is that of the latest flushed event. -/
def Latest (env : Env) (sid : NodeId) (s : Session) (a : SessionAction) : Prop :=
  persisted env sid s.world ≤ persisted env sid (sessionStep env sid s a).world
    ∧ persisted env sid (sessionStep env sid s a).world = (sessionStep env sid s a).flushed

/-- While no older time is written where the buffered part has none, the stored time never goes
back, and it is that of the latest event that is flushed. -/
theorem persisted_eq_latest (env : Env) (sid : NodeId) (actions : List SessionAction)
    (h : Along (sessionStep env sid) (InOrder env sid) (Session.new Database.empty) actions) :
    Along (sessionStep env sid) (Latest env sid) (Session.new Database.empty) actions := by
  have hstep : ∀ s a, Tracked env sid s → InOrder env sid s a →
      Tracked env sid (sessionStep env sid s a) := by
    intro s a h ha
    cases a with
    | event e => exact h.event ha
    | flush => exact h.flush
    | respawn => exact ⟨h.reads, nofun, h.stored, ⊥, .absent, .inl ⟨rfl, bot_le⟩⟩
  refine h.map_of_invariant hstep (fun s a h ha => ?_)
    ⟨rfl, nofun, .absent, ⊥, .absent, .inl ⟨rfl, le_rfl⟩⟩
  rw [Latest, h.stored.persisted_eq, (hstep s a h ha).stored.persisted_eq]
  refine ⟨?_, rfl⟩
  cases a with
  | flush => exact le_sup_left
  | _ => exact le_rfl

/-- Two events and a flush; then an older event that no handler claims, and after a respawn the
later one again. -/
theorem persisted_eq_latest_of_older :
    let actions : List SessionAction :=
      [.event (sampleEvent "session:start" "2026-01-01T00:00:01+00:00"),
        .event (sampleEvent "tool:pre" "2026-01-01T00:00:00+00:00"), .flush,
        .event (sampleEvent "user:notice" "2026-01-01T00:00:00+00:00"), .respawn,
        .event (sampleEvent "session:end" "2026-01-01T00:00:01+00:00"), .flush]
    Along (sessionStep sampleEnv "s") (InOrder sampleEnv "s") (Session.new Database.empty) actions
      ∧ Along (sessionStep sampleEnv "s") (Latest sampleEnv "s") (Session.new Database.empty)
        actions := by
  intro actions
  have hord : Along (sessionStep sampleEnv "s") (InOrder sampleEnv "s") (Session.new Database.empty)
      actions := by
    refine ⟨⟨⟨true, 1000000⟩, rfl, rfl, .inl bot_le⟩,
      ⟨⟨true, 0⟩, rfl, rfl, .inr (.inl ?_)⟩, trivial,
      ⟨⟨true, 0⟩, rfl, rfl, .inr (.inr ⟨?_, ?_, ?_⟩)⟩, trivial,
        ⟨⟨true, 1000000⟩, rfl, rfl, .inl ?_⟩,
      trivial, trivial⟩
    all_goals decide +kernel
  exact ⟨hord, persisted_eq_latest sampleEnv "s" actions hord⟩

/-- An event, a flush, and an older event that a new worker processes: the next flush puts the time
back. -/
theorem lastUpdated_goes_back :
    let after := fun second db => ((processEvent sampleEnv "s"
      (sampleEvent "tool:pre" s!"2026-01-01T00:00:0{second}+00:00")
      ⟨Cursors.fresh, Buffer.empty, db, []⟩).2.flush sampleEnv).db
    let first := after "1" Database.empty
    let second := after "0" first
    currentInstant sampleEnv (stored first "s" "last_updated") = .ok (some ⟨true, 1000000⟩)
      ∧ currentInstant sampleEnv (stored second "s" "last_updated") = .ok (some ⟨true, 0⟩) := by
  constructor <;> rfl

end ContextIntelligence.Sessions.LastUpdated
