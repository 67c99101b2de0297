import ContextIntelligence.Recovery.Disturbances

/-!
# What the tasks of the outbox do

Each step of a task inside the lock keeps `Consistent` and leads to a phase whose facts hold. An
append may start behind bytes that no line ends, or in a log below a committed offset left from an
earlier one, and a scan may take such bytes for a record; `Framed` says that a step does neither.
-/

namespace ContextIntelligence.Recovery.Outbox

open Lib Lib.Lines Lib.Mutex ContextIntelligence.Graph Queue

/-- An append starts at the end of a line and not below the committed offset, and a scan meets no
unterminated bytes that pass for the record of its row. -/
def Framed {env : Surroundings} (c : Codec) (s : State) : Phase env → Answer → Prop
  | .append _ key written _ _, _ => written = [] → torn newline [] (s.spool key).content = []
      ∧ (s.spool key).committedOffset ≤ (s.spool key).content.length
  | .scan row _, _ => ∀ entry ∈ s.queue.entries,
      c.decode (torn newline [] entry.2.content) ≠ .recovered row.origin
  | _, _ => True

instance Framed.decidable {env : Surroundings} (c : Codec) (s : State) (phase : Phase env)
    (answer : Answer) : Decidable (Framed c s phase answer) := by
  cases phase with
  | append => exact inferInstanceAs (Decidable (_ → _))
  | scan => exact inferInstanceAs (Decidable (∀ entry ∈ _, _))
  | _ => exact isTrue trivial

variable {env : Surroundings} {c : Codec} {s s' : State} {row : Row} {pass : Pass}

/-! ## Writing a record piece by piece -/

section Pieces

variable {o : Origin} {actor : String} {payload : Json} {log written bytes rest : Bytes}

/-- A part of a line decodes only if it is the line. -/
theorem decode_part (hval : o.valid = true) (hpart : written <+: c.line o actor payload)
    {o' : Origin} (hdec : c.decode written = .recovered o') :
    written = c.line o actor payload ∧ o' = o := by
  by_cases hwhole : written = c.line o actor payload
  · refine ⟨hwhole, ?_⟩
    rw [hwhole, c.decode_line o actor payload hval] at hdec
    cases hdec
    rfl
  · rw [c.decode_cut o actor payload written hval hpart hwhole] at hdec
    cases hdec

theorem part_of_append_eq {line : Bytes} (h : written ++ rest = line ++ [newline])
    (hne : rest ≠ []) : written <+: line := by
  rcases List.eq_nil_or_concat' rest with hnil | ⟨front, last, rfl⟩
  · exact absurd hnil hne
  · rw [← List.append_assoc] at h
    exact ⟨front, (List.append_inj' h rfl).1⟩

theorem extends_open (hval : o.valid = true) (htorn : torn newline [] log = written)
    (hpart : written ++ bytes <+: c.line o actor payload) : Extends c log bytes o := by
  have hnot : newline ∉ bytes := fun hmem =>
    c.newline_not_mem o actor payload hval (hpart.subset (List.mem_append_right _ hmem))
  constructor
  · rw [closing, scan_of_not_mem hnot]
    exact nofun
  · intro o' hdec
    rw [htorn] at hdec
    obtain ⟨hwhole, -⟩ := decode_part hval ((List.prefix_append _ _).trans hpart) hdec
    have hlen := hpart.length_le
    rw [← hwhole, List.length_append] at hlen
    exact .inl (List.eq_nil_of_length_eq_zero (by omega))

theorem closing_last (hval : o.valid = true) (htorn : torn newline [] log = written)
    (hline : written ++ bytes = c.line o actor payload ++ [newline]) (hne : bytes ≠ []) :
    ∃ start stop, closing log bytes = [⟨c.line o actor payload, start, stop⟩] := by
  rcases List.eq_nil_or_concat' bytes with hnil | ⟨front, last, rfl⟩
  · exact absurd hnil hne
  · rw [← List.append_assoc] at hline
    obtain ⟨hfront, hlast⟩ := List.append_inj' hline rfl
    have hnot : newline ∉ front := fun hmem =>
      c.newline_not_mem o actor payload hval (hfront ▸ List.mem_append_right _ hmem)
    rw [closing, hlast, scan_concat hnot, htorn, hfront]
    exact ⟨_, _, rfl⟩

theorem extends_last (hval : o.valid = true) (htorn : torn newline [] log = written)
    (hline : written ++ bytes = c.line o actor payload ++ [newline]) (hne : bytes ≠ []) :
    Extends c log bytes o := by
  obtain ⟨start, stop, hclose⟩ := closing_last hval htorn hline hne
  constructor
  · rw [hclose]
    intro record hrec o' hdec
    rw [List.mem_singleton.1 hrec, c.decode_line o actor payload hval] at hdec
    cases hdec
    rfl
  · intro o' hdec
    rw [htorn] at hdec
    obtain ⟨-, rfl⟩ := decode_part hval (part_of_append_eq hline hne) hdec
    rw [hclose]
    exact .inr ⟨_, List.mem_singleton_self _, c.decode_line o' actor payload hval⟩

theorem extends_newline (hval : o.valid = true) (htorn : torn newline [] log = written)
    (hpart : written <+: c.line o actor payload) : Extends c log [newline] o := by
  have hclose : closing log ([] ++ [newline]) = _ :=
    scan_concat List.not_mem_nil (completeEnd newline 0 [] log) (torn newline [] log)
  rw [htorn, List.append_nil, List.nil_append] at hclose
  constructor
  · rw [hclose]
    intro record hrec o' hdec
    rw [List.mem_singleton.1 hrec] at hdec
    exact (decode_part hval hpart hdec).2
  · intro o' hdec
    rw [htorn] at hdec
    rw [hclose]
    exact .inr ⟨_, List.mem_singleton_self _, hdec⟩

end Pieces

/-! ## Rows -/

section Rows

theorem KnownRow.known (h : KnownRow s row) : Known s row.origin := by
  obtain ⟨r, hget, horig, -⟩ := h
  exact ⟨r, hget, horig⟩

theorem KnownRow.congr (h : KnownRow s row) (hledger : s'.ledger = s.ledger) : KnownRow s' row := by
  simpa only [KnownRow, State.receipt, hledger] using h

theorem KnownRow.valid (h : KnownRow s row) (hs : Consistent c s) : row.origin.valid = true := by
  obtain ⟨r, hget, horig, -⟩ := h
  have hval := hs.valid _ r hget
  rwa [horig] at hval

theorem KnownRow.ledger (h : KnownRow s row) {l : Ledger}
    {move : ReceiptKey → ReceiptState → ReceiptState → Prop}
    (hstep : LedgerStep move s.ledger.tables l.tables)
    (hmove : ∀ key old new, move key old new → new ≠ .retryPending) :
    KnownRow { s with ledger := l } row := by
  obtain ⟨r, hget, horig, hcomm, hret⟩ := h
  obtain ⟨r', hget', hline, hstate⟩ := hstep.kept _ r hget
  refine ⟨r', hget', by rw [originOf, hline]; exact horig, hcomm, fun hrow hr' => ?_⟩
  rcases hstate with hsame | ⟨-, hquar⟩ | hmoved
  · exact hret hrow (hsame ▸ hr')
  · rw [hr'] at hquar
    cases hquar
  · exact hmove _ _ _ hmoved hr'

theorem rowOf_eq {key : ReceiptKey} {r : Receipt} (h : rowOf key r = some row) :
    row.origin = originOf key r ∧ row.state = r.state := by
  unfold rowOf at h
  split at h
  · cases h
    exact ⟨rfl, rfl⟩
  · cases h

theorem knownRow_of_pendingOutbox (h : Consistent c s)
    (hrow : row ∈ pendingOutbox s.ledger.tables) : KnownRow s row := by
  obtain ⟨⟨key, r⟩, hentry, heq⟩ := List.mem_filterMap.1 hrow
  have hget : s.receipt key = some r := Dict.mem_entries_iff.1 hentry
  split at heq
  · obtain ⟨horig, hstate⟩ := rowOf_eq heq
    have hsane := h.sane key r hget
    refine ⟨r, by rw [horig]; exact hget, by rw [horig]; rfl, fun hcomm => ?_,
      fun hne => hstate ▸ hne⟩
    rw [← hstate, hcomm] at hsane
    exact hsane
  · cases heq

theorem flushed_of_committed (h : Consistent c s) (hrow : KnownRow s row)
    (hret : row.state ≠ .retryPending) (hscan : commitState c s row.origin = some .committed) :
    (Fact.flushed row.origin).Holds c s := by
  obtain ⟨hnot, key, hfound⟩ := commitState_eq_committed hscan
  have hline := hasLine_of_committed h.bounded hnot hfound
  intro r hget hpend
  have hsane := h.sane _ r hget
  rw [hrow.known.originOf_eq hget] at hsane
  obtain ⟨r', hget', -, -, hstate'⟩ := hrow
  rw [hget] at hget'
  cases hget'
  -- an outstanding receipt has a record above the offset, or was flushed, or has no line
  cases hstate : r.state with
  | pendingEnqueue =>
    rw [hstate] at hsane
    rcases hsane with hdone | hdel | hnone
    · exact hdone
    · exact absurd (hdel.queued h.bounded) hnot
    · exact absurd hline hnone
  | retryPending => exact absurd hstate (hstate' hret)
  | enqueued =>
    rw [hstate] at hsane
    exact absurd (Deliverable.queued h.bounded hsane) hnot
  | committedPending =>
    rw [hstate] at hsane
    exact hsane.elim
  | written =>
    rw [hstate] at hpend
    cases hpend
  | quarantined =>
    rw [hstate] at hpend
    cases hpend

theorem noLine_of_scan {o : Origin} (hscan : commitState c s o = none) : ¬ HasLine c s o := by
  intro hline
  obtain ⟨key, hfound⟩ := hline.found_ne_nil
  exact hfound (commitState_eq_none.1 hscan key)

end Rows

/-! ## Steps inside the lock -/

/-- A step keeps the agreement, and what the next phase relies on holds. -/
structure Good (c : Codec) (r : Step env) : Prop where
  consistent : Consistent c r.2
  knows : ∀ next, r.1 = some next → Knows c next r.2

section Rules

variable (h : Consistent c s)
include h

theorem good_leave : Good c ((none, s) : Step env) :=
  ⟨h, fun _ hnext => nomatch hnext⟩

theorem good_stay {phase : Phase env} (hrows : ∀ row ∈ phase.rows, KnownRow s row)
    (hfacts : ∀ fact ∈ phase.facts c, fact.Holds c s) : Good c (some phase, s) := by
  refine ⟨h, ?_⟩
  rintro _ ⟨⟩
  exact ⟨hrows, hfacts⟩

theorem good_release : Good c (release s : Step env) := good_leave h.freeGuard

theorem good_proceed (hrows : ∀ row ∈ pass.rows, KnownRow s row) :
    Good c (pass.proceed s : Step env) := by
  unfold Pass.proceed
  split
  · exact good_leave (h.rest rfl rfl rfl (SameLogs.of_queue rfl) rfl rfl)
  · next row rest heq =>
    refine good_stay h ?_ nofun
    rw [heq] at hrows
    exact hrows

theorem good_proceedWith {pass : Option Pass}
    (hrows : ∀ row ∈ rowsOf pass, KnownRow s row) : Good c (proceedWith pass s : Step env) := by
  cases pass with
  | none => exact good_leave h
  | some pass => exact good_proceed h hrows

end Rules

section Admission

theorem frame_of_not_mem {raw : Bytes} (h : newline ∉ raw) :
    Spool.frame raw = raw ++ [newline] := by
  rw [Spool.frame, if_neg fun hlast => h (List.mem_of_getLast? hlast)]

theorem append_start (h : Bounded s) {key : String} {written : Bytes}
    (hwrite : (Fact.writing key written).Holds c s)
    (hframed : written = [] → torn newline [] (s.spool key).content = []
      ∧ (s.spool key).committedOffset ≤ (s.spool key).content.length) :
    torn newline [] (s.spool key).content = written
      ∧ Boundary newline (s.spool key).content (s.spool key).committedOffset := by
  by_cases hwritten : written = []
  · obtain ⟨htorn, hle⟩ := hframed hwritten
    refine ⟨htorn.trans hwritten.symm, ?_⟩
    rcases h key with hnone | hbound
    · rw [Spool.content_of_log_none hnone, List.length_nil, Nat.le_zero] at hle
      rw [hle]
      exact boundary_zero _ _
    · exact hbound
  · obtain ⟨-, hlog, htorn⟩ := hwrite hwritten
    exact ⟨htorn, (h key).resolve_left hlog⟩

variable (h : Consistent c s) (answer : Answer)
include h

theorem Consistent.admitted {o : Origin} (hval : o.valid = true) {l : Ledger}
    {t : Tables} (hstep : LedgerStep stays s.ledger.tables t) (hfresh : t.receipts.get o.key = none)
    {r : Receipt} (hrecs : l.tables.receipts = t.receipts.set o.key r)
    (horig : originOf o.key r = o) (hstate : r.state = .pendingEnqueue) :
    Consistent c { s with ledger := l } := by
  -- the file is opened, then the receipt is put in
  have hopen : Consistent c { s with ledger := ⟨l.initialized, t⟩ } :=
    (harmless_stays h hstep).consistent
  have hne : ∀ o', Known { s with ledger := ⟨l.initialized, t⟩ } o' → o.key ≠ o'.key := by
    rintro o' ⟨r', hget', -⟩ heq
    rw [State.receipt, ← heq, hfresh] at hget'
    cases hget'
  have hget : ∀ key, o.key ≠ key →
      l.tables.receipts.get key = t.receipts.get key := fun key hkey => by
    rw [hrecs, Dict.get_set_of_ne _ hkey]
  have hnew : l.tables.receipts.get o.key = some r := by rw [hrecs, Dict.get_set_self]
  have hknown : ∀ o', Known { s with ledger := ⟨l.initialized, t⟩ } o' →
      Known { s with ledger := l } o' := by
    intro o' ho'
    have hkey := hne o' ho'
    obtain ⟨r', hget', horig'⟩ := ho'
    exact ⟨r', (hget _ hkey).trans hget', horig'⟩
  have hlogs : SameLogs { s with ledger := ⟨l.initialized, t⟩ } { s with ledger := l } :=
    SameLogs.of_queue rfl
  constructor
  · exact fun o' ho' => hknown o' (hopen.known o' ho')
  · exact fun o' ho' => hknown o' (hopen.flushed o' ho')
  · exact hopen.inflight
  · exact hopen.bounded
  · intro key r' hget'
    by_cases hkey : o.key = key
    · subst hkey
      rw [State.receipt, hnew] at hget'
      cases hget'
      rw [horig]
      exact hval
    · exact hopen.valid key r' ((hget key hkey).symm.trans hget')
  · intro key r' hget'
    by_cases hkey : o.key = key
    · subst hkey
      rw [State.receipt, hnew] at hget'
      cases hget'
      rw [horig, hstate]
      -- a line of the origin would have a receipt
      exact .inr (.inr fun hline => hne o (hopen.known o hline) rfl)
    · exact hopen.sane key r' ((hget key hkey).symm.trans hget')
  · exact hopen.workers
  · intro sec hguard
    have hok := hopen.section_ok sec hguard
    refine hok.mono rfl (fun _ ho => ho) (fun _ ho => ho) fun record hrec hsettle o' hdec r' => ?_
    -- the origin of a checked record has a receipt already
    have hkey := hne o' (hopen.known_of_dispatched hguard (hok.checked_subset hrec) hdec)
    intro hget'
    exact hsettle o' hdec r' ((hget _ hkey).symm.trans hget')

theorem good_admission (sub : Submission env) : Good c (admissionStep sub answer s) := by
  unfold admissionStep
  rcases call_admission sub s.permitRequired answer.failure s with
    ⟨t, hstep, hfresh, r, hrecs, horig, hstate⟩ | ⟨hnot, hstep⟩
  · have hadm := h.admitted sub.valid hstep hfresh hrecs horig hstate
    dsimp only
    split
    · refine good_stay hadm ?_ nofun
      rintro row hrow
      rw [List.mem_singleton.1 hrow]
      refine ⟨r, ?_, horig, nofun, fun _ hret => ?_⟩
      · show (s.call _ _).2.ledger.tables.receipts.get sub.origin.key = some r
        rw [hrecs, Dict.get_set_self]
      · rw [hstate] at hret
        cases hret
    · split
      · exact good_stay hadm nofun nofun
      · exact good_leave hadm
  · have hstay := (harmless_stays h hstep).consistent
    dsimp only
    rw [if_neg hnot]
    split
    · exact good_stay hstay nofun nofun
    · exact good_leave hstay

theorem good_admissionClaim (sub : Submission env) (fresh : Bool)
    (hk : Knows c (.admissionClaim sub fresh) s) :
    Good c (admissionClaimStep sub fresh answer s) := by
  unfold admissionClaimStep
  split
  · exact good_leave h
  · cases fresh with
    | true => exact good_stay h hk.rows nofun
    | false => exact good_stay h nofun nofun

theorem good_enqueue {pass : Option Pass} (hk : Knows c (.enqueue row pass : Phase env) s) :
    Good c (enqueueStep c row pass answer s : Step env) := by
  obtain ⟨hrow, hrows⟩ := List.forall_mem_cons.1 hk.rows
  unfold enqueueStep
  split
  · exact good_leave h
  · split
    · exact good_proceedWith h hrows
    · split
      · exact good_leave h
      · refine good_stay h hk.rows ?_
        have hnot := c.newline_not_mem row.origin row.actor (sanitizeRecoveryPayload row.payload)
          (hrow.valid h)
        simp only [Phase.facts, List.forall_mem_cons, Fact.Holds, frame_of_not_mem hnot]
        exact ⟨fun hne => absurd rfl hne, by simp, List.nil_append _, nofun⟩

theorem Consistent.setWriting (writing : Option String) :
    Consistent c { s with writing := writing } :=
  h.rest rfl rfl rfl (SameLogs.of_queue rfl) rfl rfl

/-- Whatever part of the record the write brings, the step is good. -/
theorem good_append {key : String} {written rest : Bytes} {pass : Option Pass}
    (hk : Knows c (.append row key written rest pass : Phase env) s)
    (hframed : written = [] → torn newline [] (s.spool key).content = []
      ∧ (s.spool key).committedOffset ≤ (s.spool key).content.length) :
    Good c (appendStep row key written rest pass answer s : Step env) := by
  obtain ⟨hrow, -⟩ := List.forall_mem_cons.1 hk.rows
  have hval := hrow.valid h
  have hfacts := hk.facts
  simp only [Phase.facts, List.forall_mem_cons, Fact.Holds] at hfacts
  obtain ⟨hwritten, hne, hline, -⟩ := hfacts
  obtain ⟨htorn, hbound⟩ := append_start (c := c) h.bounded hwritten hframed
  have hwrite : ∀ bytes, Extends c (s.spool key).content bytes row.origin →
      Consistent c (s.modifySpool key (Spool.writeLog bytes)) :=
    fun bytes hext => h.write hext hrow.known hbound
  unfold appendStep
  split
  · -- the write fails, and its line is ended or not
    dsimp only
    split
    · exact good_leave ((hwrite [newline]
        (extends_newline hval htorn (part_of_append_eq hline hne))).setWriting none)
    · exact good_leave (h.setWriting none)
  · next hsome =>
    have hsplit := List.take_append_drop answer.written rest
    have hpiece : rest.take answer.written ≠ [] := by
      simp only [not_or] at hsome
      intro hnil
      rcases List.take_eq_nil_iff.1 hnil with hzero | hrest
      · exact hsome.2 hzero
      · exact hne hrest
    dsimp only
    split
    · next hleft =>
      -- the last piece closes the record
      rw [hleft, List.append_nil] at hsplit
      rw [hsplit]
      have hnext := hwrite rest (extends_last hval htorn hline hne)
      refine good_stay (hnext.setWriting none) (fun row hrow => (hk.rows row hrow).congr rfl) ?_
      simp only [Phase.facts, markFacts, List.forall_mem_cons, Fact.Holds]
      refine ⟨fun r _ _ => ?_, nofun⟩
      obtain ⟨start, stop, hclose⟩ := closing_last hval htorn hline hne
      exact deliverable_of_closing hbound (by rw [hclose]; exact List.mem_singleton_self _)
        (c.decode_line _ _ _ hval)
    · next hleft =>
      have hmore : written ++ rest.take answer.written ++ rest.drop answer.written
          = c.line row.origin row.actor (sanitizeRecoveryPayload row.payload) ++ [newline] := by
        rw [List.append_assoc, hsplit]
        exact hline
      have hpart := part_of_append_eq hmore hleft
      have hnext := hwrite _ (extends_open hval htorn hpart)
      refine good_stay (hnext.setWriting (some key))
        (fun row hrow => (hk.rows row hrow).congr rfl) ?_
      simp only [Phase.facts, List.forall_mem_cons, Fact.Holds]
      refine ⟨fun _ => ⟨trivial, ?_, ?_⟩, hleft, hmore, nofun⟩
      · show ((s.modifySpool key (Spool.writeLog (rest.take answer.written))).spool key).log ≠ none
        rw [State.spool_modifySpool_self]
        exact nofun
      · show torn newline []
          ((s.modifySpool key (Spool.writeLog (rest.take answer.written))).spool key).content = _
        rw [State.spool_modifySpool_self, Spool.content_writeLog, torn_append, htorn]
        refine torn_of_not_mem (fun hmem => ?_) written
        exact c.newline_not_mem _ _ _ hval (hpart.subset (List.mem_append_right _ hmem))

end Admission

theorem markFacts_sane {o : Origin} {state : ReceiptState}
    (h : ∀ fact ∈ markFacts o state, fact.Holds c s) {r : Receipt} (hget : s.receipt o.key = some r)
    (hpend : r.state.pending = true) : Sane c s o state := by
  cases state with
  | pendingEnqueue => exact .inr (.inr (h _ (List.mem_singleton_self _)))
  | retryPending => trivial
  | enqueued => exact h (.deliverable o) (List.mem_singleton_self _) r hget hpend
  | committedPending => exact h (.pure False) (List.mem_singleton_self _)
  | written => exact h (.flushed o) (List.mem_singleton_self _) r hget hpend
  | quarantined => trivial

section Reconcile

variable (h : Consistent c s) (answer : Answer)
include h

theorem good_snapshot : Good c (snapshotStep answer s : Step env) := by
  have hopen := (harmless_opened env h answer.failure).consistent
  unfold snapshotStep
  dsimp only
  split
  · exact good_leave hopen
  · exact good_stay hopen nofun nofun

theorem good_evidence (todo : List Row) (captured audited : List Origin) :
    Good c (evidenceStep c todo captured audited answer s : Step env) := by
  unfold evidenceStep
  split
  · split
    · exact good_stay h nofun nofun
    · exact good_stay h nofun nofun
  · split
    · exact good_leave h
    · split
      · exact good_leave h
      · exact good_stay h nofun nofun

theorem good_available (captured audited : List Origin) :
    Good c (availableStep captured audited answer s : Step env) := by
  unfold availableStep
  split
  · exact good_leave (h.rest rfl rfl rfl (SameLogs.of_queue rfl) rfl rfl)
  · exact good_stay h nofun nofun

theorem good_outbox (pass : Pass) : Good c (outboxStep pass answer s : Step env) := by
  have hopen := (harmless_opened env h answer.failure).consistent
  unfold outboxStep
  dsimp only
  split
  · exact good_leave hopen
  · exact good_proceed hopen fun row hrow => knownRow_of_pendingOutbox hopen hrow

theorem good_claim (hk : Knows c (.claim row pass : Phase env) s) :
    Good c (claimStep row pass answer s : Step env) := by
  obtain ⟨-, hrows⟩ := List.forall_mem_cons.1 hk.rows
  unfold claimStep
  split
  · exact good_leave h
  · split
    · exact good_proceed h hrows
    · exact good_stay h hk.rows nofun

theorem good_dead (hk : Knows c (.dead row pass : Phase env) s) :
    Good c (deadStep c row pass answer s : Step env) := by
  obtain ⟨⟨-, -, -, hcomm, -⟩, hrows⟩ := List.forall_mem_cons.1 hk.rows
  unfold deadStep
  split
  · exact good_leave h
  · split
    · exact good_leave h
    · exact good_stay h hk.rows nofun
    · split
      · exact good_proceed h hrows
      · split
        · next henqueue => exact good_stay h hk.rows (List.forall_mem_singleton.2 henqueue)
        · exact good_stay h hk.rows nofun

theorem good_scanEnqueued (hk : Knows c (.scanEnqueued row pass : Phase env) s) :
    Good c (scanEnqueuedStep c row pass answer s : Step env) := by
  obtain ⟨hrow, hrows⟩ := List.forall_mem_cons.1 hk.rows
  have hstate : row.state = .enqueued := hk.facts _ (List.mem_singleton_self _)
  unfold scanEnqueuedStep
  split
  · exact good_leave h
  · split
    · next hscan =>
      refine good_stay h hk.rows (List.forall_mem_singleton.2 ?_)
      exact flushed_of_committed h hrow (by rw [hstate]; nofun) hscan
    · exact good_proceed h hrows
    · next hscan => exact good_stay h hk.rows (List.forall_mem_singleton.2 (noLine_of_scan hscan))

theorem good_scan (hk : Knows c (.scan row pass : Phase env) s)
    (hframed : ∀ entry ∈ s.queue.entries,
      c.decode (torn newline [] entry.2.content) ≠ .recovered row.origin) :
    Good c (scanStep c row pass answer s : Step env) := by
  obtain ⟨hrow, -⟩ := List.forall_mem_cons.1 hk.rows
  unfold scanStep
  split
  · exact good_leave h
  · split
    · next hscan =>
      split
      · split
        · exact good_stay h hk.rows nofun
        · exact good_leave h
      · next hret =>
        exact good_stay h hk.rows
          (List.forall_mem_singleton.2 (flushed_of_committed h hrow hret hscan))
    · next hscan =>
      refine good_stay h hk.rows (List.forall_mem_singleton.2 fun _ _ _ => ?_)
      -- the line that was found is a whole one
      refine deliverable_of_queued h.bounded (commitState_eq_queued.1 hscan) fun key hne => ?_
      cases hget : s.queue.get key with
      | some sp =>
        rw [State.spool, hget, Option.getD_some]
        exact hframed (key, sp) (Dict.mem_entries_iff.2 hget)
      | none =>
        rw [State.spool, hget, Option.getD_none] at hne
        exact absurd rfl hne
    · exact good_stay h hk.rows nofun

theorem good_mark {state : ReceiptState} {pass : Option Pass}
    (hk : Knows c (.mark row state pass : Phase env) s) :
    Good c (markStep row state pass answer s : Step env) := by
  obtain ⟨hrow, -⟩ := List.forall_mem_cons.1 hk.rows
  have hmark : Consistent c (s.call (.mark row.origin.sourceHandle row.origin.ordinal state :
      Operation env) answer.failure).2 :=
    h.mark hrow.known (fun r hget hpend => markFacts_sane hk.facts hget hpend) answer.failure
  have hrows : ∀ row' ∈ row :: rowsOf pass, KnownRow
      (s.call (.mark row.origin.sourceHandle row.origin.ordinal state : Operation env)
        answer.failure).2 row' := by
    intro row' hrow'
    refine (hk.rows row' hrow').ledger (ledgerStep_mark row.origin state answer.failure s) ?_
    rintro key old new ⟨-, rfl, -⟩ rfl
    exact hk.facts (.pure False) (List.mem_singleton_self _)
  unfold markStep
  dsimp only
  split
  · exact good_leave hmark
  · split
    · exact good_stay hmark hrows nofun
    · exact good_proceedWith hmark (List.forall_mem_cons.1 hrows).2

end Reconcile

theorem good_harmless {phase next : Phase env} (h : Harmless c s s') (hk : Knows c phase s)
    (hrows : next.rows = phase.rows) (hfacts : next.facts c = phase.facts c) :
    Good c (some next, s') := by
  have hk' := hk.calm h.calm
  exact good_stay h.consistent (hrows ▸ hk'.rows) (hfacts ▸ hk'.facts)

section Retry

variable (h : Consistent c s) (answer : Answer)
include h

theorem good_selectQuarantined : Good c (selectQuarantinedStep answer s : Step env) := by
  have hopen := (harmless_opened env h answer.failure).consistent
  unfold selectQuarantinedStep
  dsimp only
  split
  · exact good_leave hopen
  · split
    · exact good_leave hopen
    · next row hnext =>
      refine good_stay hopen nofun (List.forall_mem_singleton.2 ?_)
      obtain ⟨⟨key, r⟩, hentry, heq⟩ := List.mem_filterMap.1 (List.mem_of_mem_head? hnext)
      have hget : (s.opened env answer.failure).2.receipt key = some r :=
        Dict.mem_entries_iff.1 hentry
      unfold retryRow at heq
      split at heq
      · next hstate =>
        obtain ⟨stored, -, heq⟩ := Option.bind_eq_some_iff.1 heq
        dsimp only at heq
        split at heq
        · cases heq
        · cases heq
          exact ⟨r, hget, rfl, hstate⟩
      · cases heq

theorem good_fence (hk : Knows c (.fence row : Phase env) s) :
    Good c (fenceStep c row answer s : Step env) := by
  obtain ⟨r, hget, horig, hstate⟩ := hk.facts _ (List.mem_singleton_self _)
  unfold fenceStep
  split
  · exact good_leave h
  · next hnot =>
    refine good_stay h nofun (List.forall_mem_singleton.2 ⟨⟨r, hget, hstate⟩, ?_⟩)
    -- a flush that had checked the receipt would keep its record queued
    rintro ⟨sec, record, o, hguard, hrec, hdec, hkey⟩
    have hok := h.section_ok sec hguard
    obtain ⟨o', hdec', hq⟩ := hok.queued record hrec
    rw [hdec] at hdec'
    cases hdec'
    have hknown := h.known_of_dispatched hguard (hok.checked_subset hrec) hdec
    rw [hknown.unique ⟨r, hget, horig⟩ hkey] at hq
    exact hnot (.inr (commitState_eq_queued.2 hq))

theorem good_validate (hk : Knows c (.validate row : Phase env) s) :
    Good c (validateStep c row answer s : Step env) := by
  unfold validateStep
  dsimp only
  split
  · exact good_leave h
  · exact good_stay h nofun hk.facts

theorem harmless_setAudits (audits : Dict String DeadFile) :
    Harmless c s { s with audits := audits } :=
  ⟨h.rest rfl rfl rfl (SameLogs.of_queue rfl) rfl rfl,
    .rest rfl (SameLogs.of_queue rfl) rfl rfl rfl rfl⟩

theorem good_archive {todo : List String} (hk : Knows c (.archive row todo : Phase env) s) :
    Good c (archiveStep c row todo answer s : Step env) := by
  cases todo with
  | nil => exact good_stay h (List.forall_mem_nil _) hk.facts
  | cons key todo =>
    simp only [archiveStep]
    split
    · exact good_leave h
    · exact good_stay h (List.forall_mem_nil _) hk.facts
    · next selected remaining _ _ =>
      split
      · split
        · exact good_leave h
        · exact good_leave (harmless_setAudits h _).consistent
      · have hdead : Harmless c s (s.modifySpool key fun sp =>
            { sp with dead := some ⟨remaining, (sp.dead.map DeadFile.torn).getD false⟩ }) :=
          harmless_dead h fun _ => ⟨rfl, rfl⟩
        split
        · exact good_harmless hdead hk rfl rfl
        · exact good_harmless (hdead.trans (harmless_setAudits hdead.consistent _)) hk rfl rfl

theorem good_requeue (hk : Knows c (.requeue row : Phase env) s) :
    Good c (requeueStep row answer s : Step env) := by
  obtain ⟨-, hunchanged⟩ := hk.facts _ (List.mem_singleton_self _)
  have hstep : LedgerStep (requeueMove row.origin.key) s.ledger.tables
      (s.call (.requeueQuarantined row.origin.sourceHandle row.origin.ordinal : Operation env)
        answer.failure).2.ledger.tables :=
    ledgerStep_call (moves_requeueQuarantined _ _) (fun _ _ _ hmove _ => Or.inr hmove) _ s
  have hreq := h.ledger hstep
    (by rintro key r new - ⟨-, rfl⟩; trivial)
    (by rintro key old new ⟨rfl, -⟩ -; exact .inr hunchanged)
  unfold requeueStep
  split
  · exact good_leave h
  · dsimp only
    split
    · exact good_stay hreq nofun nofun
    · exact good_leave hreq

end Retry

theorem WorkerOk.commit {sp : Spool} {w : Worker} (h : WorkerOk sp w) {stop : ℕ}
    (hle : sp.committedOffset ≤ stop) : WorkerOk (sp.commit stop) w := by
  have hbatch : ∀ start rs, Batch sp start rs → Batch (sp.commit stop) start rs :=
    fun start rs hb => ⟨hb.boundary, hb.start_le.trans hle, hb.read⟩
  cases w with
  | idle => trivial
  | holding start records => exact hbatch _ _ h
  | condemned start record rest => exact hbatch _ _ h

section Quarantine

variable (h : Consistent c s) (answer : Answer)
include h

theorem good_select {key : ReceiptKey} (hk : Knows c (.select key : Phase env) s) :
    Good c (selectStep key answer s : Step env) := by
  have hopen := harmless_opened env h answer.failure
  unfold selectStep
  dsimp only
  split
  · exact good_release hopen.consistent
  · split
    · exact good_release hopen.consistent
    · exact good_harmless hopen hk rfl rfl

theorem good_inspect (hk : Knows c (.inspect row : Phase env) s) :
    Good c (inspectStep c row answer s : Step env) := by
  unfold inspectStep
  split
  · exact good_release h
  · split
    · exact good_stay h nofun hk.facts
    · exact good_stay h nofun hk.facts

theorem good_audit (hk : Knows c (.audit row : Phase env) s) :
    Good c (auditStep c row answer s : Step env) := by
  unfold auditStep
  split
  · exact good_release h
  · exact good_stay h nofun hk.facts

theorem good_readHead (hk : Knows c (.readHead row : Phase env) s) :
    Good c (readHeadStep c row answer s : Step env) := by
  have hguard : s.guard = .operator true := hk.facts _ (List.mem_singleton_self _)
  unfold readHeadStep
  split
  · exact good_release h
  · split
    · exact good_release h
    · next session _ =>
      split
      · exact good_stay h nofun hk.facts
      · next head more hread =>
        split
        · next hdec =>
          refine good_stay h nofun ?_
          simp only [Phase.facts, headFacts, List.forall_mem_cons, Fact.Holds]
          refine ⟨hguard, ⟨hguard, ?_⟩, hdec, nofun⟩
          rw [Spool.readBatch_records] at hread
          cases hrest : (s.spool session).uncommitted with
          | nil =>
            rw [hrest] at hread
            cases hread
          | cons first others =>
            rw [hrest] at hread
            cases hread
            exact ⟨others, rfl⟩
        · exact good_release h

variable {key : String}

theorem good_deadLetter {raw : Bytes} {head : Option Record}
    (hk : Knows c (.deadLetter row key raw head : Phase env) s) :
    Good c (deadLetterStep row key raw head answer s : Step env) := by
  unfold deadLetterStep
  split
  · exact good_release (harmless_dead h (same_deadLetterPartial answer.residue)).consistent
  · exact good_harmless (harmless_dead h (same_deadLetter raw)) hk rfl rfl

theorem good_quarantine {head : Option Record}
    (hk : Knows c (.quarantine row key head : Phase env) s) :
    Good c (quarantineStep row key head answer s : Step env) := by
  have hmoves : Moves (.quarantinePending row.origin.sourceHandle row.origin.ordinal :
    Operation env)
      stays := moves_quarantinePending _ _
  have hstay := harmless_stays h
    (ledgerStep_call hmoves (fun _ _ _ hmove => hmove.elim) answer.failure s)
  unfold quarantineStep
  dsimp only
  split
  · exact good_release hstay.consistent
  · next hrets =>
    split
    · exact good_release hstay.consistent
    · next head =>
      have hfacts := (hk.calm hstay.calm).facts
      simp only [Phase.facts, headFacts, List.forall_mem_cons] at hfacts
      obtain ⟨-, hhead, hdec, -⟩ := hfacts
      refine good_stay hstay.consistent (List.forall_mem_nil _) ?_
      simp only [Phase.facts, List.forall_mem_cons]
      refine ⟨hhead, fun o hdec' => ?_, List.forall_mem_nil _⟩
      -- the head of the log is the record of the row
      rw [show c.decode head.raw = .recovered row.origin from hdec] at hdec'
      cases hdec'
      exact closed_call (closes_quarantinePending _ _) hrets

theorem good_commitHead {head : Record} (hk : Knows c (.commitHead key head : Phase env) s) :
    Good c (commitHeadStep key head answer s : Step env) := by
  have hfacts := hk.facts
  simp only [Phase.facts, List.forall_mem_cons] at hfacts
  obtain ⟨⟨hguard, rest, hhead⟩, hsettle, -⟩ := hfacts
  unfold commitHeadStep
  split
  · exact good_release h
  · have hread : recordsFrom newline (s.spool key).content (s.spool key).committedOffset
        = [head] ++ rest := hhead
    have hlt := (lt_stop_of_mem_recordsFrom (hread ▸ List.mem_append_left _
      (List.mem_singleton_self head) : head ∈ recordsFrom newline _ _)).2
    refine good_leave (h.commit (boundary_of_uncommitted h.bounded ?_) le_rfl hread
      (List.forall_mem_singleton.2 hsettle) rfl rfl rfl (State.spool_modifySpool_self ..)
      (fun key' hkey => State.spool_modifySpool_of_ne _ (Ne.symm hkey) _) ?_ (fun _ _ => rfl) nofun)
    · rw [hhead]
      exact List.cons_ne_nil _ _
    · rw [show ({ s.modifySpool key (Spool.commit head.stop) with guard := Guard.free } :
        State).spool
        key = _ from State.spool_modifySpool_self ..]
      exact (h.workers key).commit hlt.le

end Quarantine

section Acknowledge

variable {key : String} {record : Record} (h : Consistent c s) (answer : Answer)
include h

theorem Consistent.condemned (hfact : (Fact.condemned key record).Holds c s) :
    s.guard = .poison key true ∧ ∃ start rest, s.workers key = .condemned start record rest
      ∧ Batch (s.spool key) start ([record] ++ rest) := by
  obtain ⟨hguard, start, rest, hwork⟩ := hfact
  have hok := h.workers key
  rw [hwork] at hok
  exact ⟨hguard, start, rest, hwork, hok⟩

theorem good_publish (hk : Knows c (.publish key record : Phase env) s) :
    Good c (publishStep c key record answer s : Step env) := by
  obtain ⟨hguard, start, rest, -, hbatch⟩ := h.condemned (hk.facts _ (List.mem_singleton_self _))
  have hout : ∀ sec, s.guard = .flush sec → sec.key ≠ key := by
    intro sec hsec
    rw [hguard] at hsec
    cases hsec
  unfold publishStep
  split
  · next o hdec =>
    have hknown : Known s o := by
      refine h.known o ⟨key, record, hbatch.mem_records ?_, hdec⟩
      exact List.mem_append_left _ (List.mem_singleton_self _)
    have hmark := harmless_markQuarantined env h hknown answer.failure
    dsimp only
    split
    · exact good_release (hmark.consistent.setWorker trivial hout)
    · next hrets =>
      have hfacts := (hk.calm hmark.calm).facts
      refine good_stay hmark.consistent nofun ?_
      simp only [Phase.facts, List.forall_mem_cons] at hfacts ⊢
      exact ⟨hfacts.1, settled_mark hdec rfl hrets, nofun⟩
  · exact good_release (h.setWorker trivial hout)

theorem good_acknowledge (hk : Knows c (.acknowledge key record : Phase env) s) :
    Good c (acknowledgeStep key record answer s : Step env) := by
  have hfacts := hk.facts
  simp only [Phase.facts, List.forall_mem_cons] at hfacts
  obtain ⟨hcondemned, hsettle, -⟩ := hfacts
  obtain ⟨hguard, start, rest, hwork, hbatch⟩ := h.condemned hcondemned
  obtain ⟨more, hread⟩ := hbatch.read
  rw [List.append_assoc] at hread
  -- the commit, whatever the worker does next
  have hcom : ∀ w, WorkerOk ((s.spool key).commit record.stop) w →
      Consistent c { (s.setWorker key w).modifySpool key (Spool.commit record.stop) with
        guard := .free } := by
    intro w hw
    refine h.commit hbatch.boundary hbatch.start_le hread.symm
      (List.forall_mem_singleton.2 hsettle) rfl rfl rfl (State.spool_modifySpool_self ..)
      (fun key' hkey => State.spool_modifySpool_of_ne _ (Ne.symm hkey) _) ?_
      (fun key' hkey => State.workers_setWorker_of_ne s hkey _) nofun
    rw [show ({ (s.setWorker key w).modifySpool key (Spool.commit record.stop) with
      guard := Guard.free } : State).spool key = _ from State.spool_modifySpool_self ..,
      show ({ (s.setWorker key w).modifySpool key (Spool.commit record.stop) with
        guard := Guard.free } : State).workers key = _ from State.workers_setWorker_self ..]
    exact hw
  unfold acknowledgeStep
  split
  · dsimp only
    split
    · exact good_leave (hcom .idle trivial)
    · refine good_release (h.setWorker trivial fun sec hsec => ?_)
      rw [hguard] at hsec
      cases hsec
  · dsimp only
    rw [hwork]
    exact good_leave (hcom _ hbatch.commit)

end Acknowledge

/-! ## Every phase -/

/-- Every phase is good, given that the step is framed. -/
theorem good_advance (h : Consistent c s) {phase : Phase env} (hk : Knows c phase s)
    (answer : Answer) (hframed : Framed c s phase answer) : Good c (advance c phase answer s) := by
  cases phase with
  | refused => exact good_leave h
  | admission sub => exact good_admission h answer sub
  | admissionClaim sub fresh => exact good_admissionClaim h answer sub fresh hk
  | enqueue row pass => exact good_enqueue h answer hk
  | append row key written rest pass => exact good_append h answer hk hframed
  | snapshot => exact good_snapshot h answer
  | evidence todo captured audited => exact good_evidence h answer todo captured audited
  | available captured audited => exact good_available h answer captured audited
  | outbox pass => exact good_outbox h answer pass
  | claim row pass => exact good_claim h answer hk
  | dead row pass => exact good_dead h answer hk
  | scanEnqueued row pass => exact good_scanEnqueued h answer hk
  | scan row pass => exact good_scan h answer hk hframed
  | mark row state pass => exact good_mark h answer hk
  | selectQuarantined => exact good_selectQuarantined h answer
  | fence row => exact good_fence h answer hk
  | validate row => exact good_validate h answer hk
  | archive row todo => exact good_archive h answer hk
  | requeue row => exact good_requeue h answer hk
  | select key => exact good_select h answer hk
  | inspect row => exact good_inspect h answer hk
  | audit row => exact good_audit h answer hk
  | readHead row => exact good_readHead h answer hk
  | deadLetter row key raw head => exact good_deadLetter h answer hk
  | quarantine row key head => exact good_quarantine h answer hk
  | commitHead key head => exact good_commitHead h answer hk
  | publish key record => exact good_publish h answer hk
  | acknowledge key record => exact good_acknowledge h answer hk

theorem good_enter (h : Consistent c s) (request : Request env) :
    Consistent c (enter request s).2 ∧ Knows c (enter request s).1 (enter request s).2 := by
  cases request with
  | admission sub => exact ⟨h, nofun, nofun⟩
  | reconcile => exact ⟨h, nofun, nofun⟩
  | retry => exact ⟨h, nofun, nofun⟩
  | quarantine key =>
    simp only [enter]
    split
    · exact ⟨h.setGuard nofun, nofun, List.forall_mem_singleton.2 rfl⟩
    · exact ⟨h, nofun, nofun⟩
  | acknowledge key =>
    simp only [enter]
    split
    · next start record rest hwork =>
      split
      · exact ⟨h.setGuard nofun, nofun,
          List.forall_mem_singleton.2 ⟨rfl, start, rest, hwork⟩⟩
      · exact ⟨h, nofun, nofun⟩
    · exact ⟨h, nofun, nofun⟩

theorem server_keeps (c : Codec) (env : Surroundings) :
    Keeps (server c env) (fun _ _ => True) (Framed c) (Consistent c) (Knows c) where
  enter := fun request _ h => good_enter h request
  advance := fun _ answer _ hframed h hk =>
    ⟨(good_advance h hk answer hframed).consistent, (good_advance h hk answer hframed).knows⟩
  outside := fun event _ _ h => ⟨(harmless_outside h event).consistent,
    fun _ hk => hk.calm (harmless_outside h event).calm⟩
  restart := fun _ h => h.restart

end ContextIntelligence.Recovery.Outbox
