import ContextIntelligence.Recovery.Deliveries
import ContextIntelligence.Recovery.Receipts

/-!
# What the tasks of the outbox know

A task inside the lock has read the ledger and the files some awaits ago; what it may still rely on
is a list of facts for each phase. `Calm` lists what the surroundings can do meanwhile, and every
fact survives that.
-/

namespace ContextIntelligence.Recovery.Outbox

open Lib Lib.Lines ContextIntelligence.Graph Queue

variable {env : Surroundings} {c : Codec}

/-! ## Calls on the ledger -/

section Calls

theorem rebuildReceipt_kept (env : Surroundings) (sources : Dict String Source) (key : ReceiptKey)
    (r : Receipt) : (rebuildReceipt env sources key r).sourceLineSha256 = r.sourceLineSha256
      ∧ ((rebuildReceipt env sources key r).state = r.state
        ∨ r.state.pending = true ∧ (rebuildReceipt env sources key r).state = .quarantined) := by
  unfold rebuildReceipt
  cases r.payload with
  | none =>
    refine ⟨rfl, ?_⟩
    dsimp only
    split
    · next h => exact .inr ⟨(Bool.and_eq_true_iff.1 h).1, rfl⟩
    · exact .inl rfl
  | some payload =>
    refine ⟨rfl, ?_⟩
    dsimp only
    split
    · next h => exact .inr ⟨(Bool.and_eq_true_iff.1 h).1, rfl⟩
    · exact .inl rfl

theorem ledgerStep_rebuild {t t' : Tables} (h : rebuild env t = some t') :
    LedgerStep stays t t' := by
  unfold rebuild at h
  split at h
  · cases h
    constructor
    · intro key r hget
      refine ⟨rebuildReceipt env t.sources key r, ?_, ?_⟩
      · rw [Dict.get_mapValues, hget, Option.map_some]
      · obtain ⟨hline, hstate⟩ := rebuildReceipt_kept env t.sources key r
        exact ⟨hline, hstate.imp_right Or.inl⟩
    · intro key r' hget'
      rw [Dict.get_mapValues] at hget'
      obtain ⟨r, hget, -⟩ := Option.map_eq_some_iff.1 hget'
      exact ⟨r, hget⟩
  · cases h

theorem ledgerStep_open (env : Surroundings) (failure : Option Failure) (l : Ledger) :
    LedgerStep stays l.tables (initializeLocked env failure l).1.tables := by
  unfold initializeLocked
  split
  · exact .refl _ _
  · split
    · exact .refl _ _
    · split
      · cases hrebuild : rebuild env l.tables with
        | none => exact .refl _ _
        | some t =>
          dsimp only
          split
          · exact ledgerStep_rebuild hrebuild
          · exact ledgerStep_rebuild hrebuild
      · split
        · exact .refl _ _
        · exact .refl _ _

variable {move : ReceiptKey → ReceiptState → ReceiptState → Prop}

theorem LedgerStep.trans {t t₁ t₂ : Tables}
    (h₁ : LedgerStep stays t t₁) (h₂ : LedgerStep move t₁ t₂)
    (hmove : ∀ key old new, move key .quarantined new → old.pending = true →
      new = .quarantined ∨ move key old new) : LedgerStep move t t₂ := by
  constructor
  · intro key r hget
    obtain ⟨r₁, hget₁, hline₁, hstate₁⟩ := h₁.kept key r hget
    obtain ⟨r₂, hget₂, hline₂, hstate₂⟩ := h₂.kept key r₁ hget₁
    refine ⟨r₂, hget₂, hline₂.trans hline₁, ?_⟩
    rcases hstate₁ with hsame | ⟨hpend, hquar⟩ | hfalse
    · rwa [hsame] at hstate₂
    · rw [hquar] at hstate₂
      rcases hstate₂ with hsame | ⟨hfalse, -⟩ | hmoved
      · exact .inr (.inl ⟨hpend, hsame⟩)
      · cases hfalse
      · exact .inr ((hmove key r.state r₂.state hmoved hpend).imp_left fun h => ⟨hpend, h⟩)
    · exact hfalse.elim
  · intro key r₂ hget₂
    obtain ⟨r₁, hget₁⟩ := h₂.old key r₂ hget₂
    exact h₁.old key r₁ hget₁

/-- `mark` moves an outstanding receipt, or one that has the state already. -/
def markMove (key : ReceiptKey) (state : ReceiptState) (key' : ReceiptKey)
    (old new : ReceiptState) : Prop :=
  key' = key ∧ new = state ∧ (old.pending = true ∨ old = state)

def requeueMove (key key' : ReceiptKey) (_ new : ReceiptState) : Prop :=
  key' = key ∧ new = .retryPending

theorem ledgerStep_move {t : Tables}
    {key : ReceiptKey} {r : Receipt} {state : ReceiptState} (hget : t.receipts.get key = some r)
    (hmove : r.state.pending = true ∧ state = .quarantined ∨ move key r.state state) :
    LedgerStep move t (t.move key r state) := by
  constructor
  · intro key' r' hget'
    by_cases hkey : key = key'
    · subst hkey
      rw [hget] at hget'
      cases hget'
      exact ⟨_, Dict.get_set_self _ _ _, rfl, Or.inr hmove⟩
    · exact ⟨r', (Dict.get_set_of_ne _ hkey _).trans hget', rfl, Or.inl rfl⟩
  · intro key' r' hget'
    by_cases hkey : key = key'
    · subst hkey
      exact ⟨r, hget⟩
    · exact ⟨r', (Dict.get_set_of_ne _ hkey _).symm.trans hget'⟩

/-- The call moves receipts along `move` at most. -/
def Moves (op : Operation env) (move : ReceiptKey → ReceiptState → ReceiptState → Prop) : Prop :=
  ∀ t, LedgerStep move t (perform op t).2

def Closes (op : Operation env) (key : ReceiptKey) : Prop :=
  ∀ t, (perform op t).1 ≠ .raised → ∀ r, (perform op t).2.receipts.get key = some r →
    r.state.pending = false

theorem moves_mark (handle : String) (ordinal : ℤ) (state : ReceiptState) :
    Moves (.mark handle ordinal state : Operation env) (markMove (handle, ordinal) state) := by
  intro t
  simp only [perform, Tables.mark]
  split
  · cases hget : t.receipts.get (handle, ordinal) with
    | none => exact .refl _ _
    | some r =>
      dsimp only
      by_cases hall : r.state ∈ allowedPrevious state
      · rw [if_pos hall]
        exact ledgerStep_move hget (.inr ⟨rfl, rfl, pending_or_eq_of_allowed hall⟩)
      · rw [if_neg hall]
        exact .refl _ _
  · exact .refl _ _

theorem mem_allowedPrevious_of_pending {old new : ReceiptState} (hnew : new.pending = false)
    (hold : old.pending = true) : old ∈ allowedPrevious new := by
  cases new <;> cases old <;> simp_all [ReceiptState.pending, allowedPrevious]

theorem closes_mark (handle : String) (ordinal : ℤ) {state : ReceiptState}
    (hstate : state.pending = false) :
    Closes (.mark handle ordinal state : Operation env) (handle, ordinal) := by
  intro t hrets r' hget'
  simp only [perform, Tables.mark] at hrets hget'
  split at hrets
  · next hfits =>
    rw [if_pos hfits] at hget'
    cases hget : t.receipts.get (handle, ordinal) with
    | none =>
      simp only [hget] at hrets
      exact absurd rfl hrets
    | some r =>
      simp only [hget] at hget'
      by_cases hall : r.state ∈ allowedPrevious state
      · rw [if_pos hall, Tables.move, Dict.get_set_self] at hget'
        cases hget'
        exact hstate
      · rw [if_neg hall] at hget'
        dsimp only at hget'
        rw [hget] at hget'
        cases hget'
        by_contra hpend
        rw [Bool.not_eq_false] at hpend
        exact hall (mem_allowedPrevious_of_pending hstate hpend)
  · exact absurd rfl hrets

theorem moves_requeueQuarantined (handle : String) (ordinal : ℤ) :
    Moves (.requeueQuarantined handle ordinal : Operation env) (requeueMove (handle, ordinal)) := by
  intro t
  simp only [perform, Tables.requeueQuarantined]
  split
  · split
    · exact .refl _ _
    · cases hget : t.receipts.get (handle, ordinal) with
      | none => exact .refl _ _
      | some r =>
        dsimp only
        split
        · exact ledgerStep_move hget (.inr ⟨rfl, rfl⟩)
        · exact .refl _ _
  · exact .refl _ _

theorem moves_quarantinePending (handle : String) (ordinal : ℤ) :
    Moves (.quarantinePending handle ordinal : Operation env) stays := by
  intro t
  simp only [perform, Tables.quarantinePending]
  split
  · cases hget : t.receipts.get (handle, ordinal) with
    | none => exact .refl _ _
    | some r =>
      dsimp only
      split
      · next hpend => exact ledgerStep_move hget (.inl ⟨hpend, rfl⟩)
      · exact .refl _ _
  · exact .refl _ _

theorem closes_quarantinePending (handle : String) (ordinal : ℤ) :
    Closes (.quarantinePending handle ordinal : Operation env) (handle, ordinal) := by
  intro t hrets r' hget'
  simp only [perform, Tables.quarantinePending] at hrets hget'
  split at hrets
  · next hfits =>
    rw [if_pos hfits] at hget'
    cases hget : t.receipts.get (handle, ordinal) with
    | none =>
      simp only [hget] at hget'
      cases hget'
    | some r =>
      simp only [hget] at hget'
      by_cases hpend : r.state.pending = true
      · rw [if_pos hpend, Tables.move, Dict.get_set_self] at hget'
        cases hget'
        rfl
      · rw [if_neg hpend, hget] at hget'
        cases hget'
        exact Bool.eq_false_iff.2 hpend
  · exact absurd rfl hrets

variable {s : State} {op : Operation env}

theorem ledgerStep_call (h : Moves op move)
    (hmove : ∀ key old new, move key .quarantined new → old.pending = true →
      new = .quarantined ∨ move key old new) (failure : Option Failure) (s : State) :
    LedgerStep move s.ledger.tables (s.call op failure).2.ledger.tables := by
  have hopen := ledgerStep_open env (failure.filter fun f => f ≠ .cancelled) s.ledger
  rw [State.call]
  rcases attempt_call s.ledger op (failure.filter fun f => f ≠ .cancelled) with heq | ⟨-, heq⟩
  · rw [heq]
    exact hopen.trans (.refl move _) hmove
  · rw [heq]
    exact hopen.trans (h _) hmove

/-- A closing call that returns has closed the receipt. -/
theorem closed_call {key : ReceiptKey} (h : Closes op key) {failure : Option Failure}
    (hrets : (s.call op failure).1 ≠ .raised) : Closed (s.call op failure).2 key := by
  intro r hget
  rw [State.receipt, State.call] at hget
  rw [State.call] at hrets
  rcases attempt_call s.ledger op (failure.filter fun f => f ≠ .cancelled) with heq | ⟨-, heq⟩
  · rw [heq] at hrets
    exact absurd rfl hrets
  · rw [heq] at hrets hget
    refine h _ (fun hraise => hrets ?_) r hget
    dsimp only
    split
    · rfl
    · exact hraise

theorem perform_admission (sub : Submission env) (permitRequired : Bool) (t : Tables) :
    (t.receipts.get sub.origin.key = none
        ∧ ∃ r, (perform (sub.operation permitRequired) t).2.receipts
            = t.receipts.set sub.origin.key r
          ∧ originOf sub.origin.key r = sub.origin ∧ r.state = .pendingEnqueue)
      ∨ (perform (sub.operation permitRequired) t).1 ≠ .admitted .accepted
        ∧ (perform (sub.operation permitRequired) t).2 = t := by
  simp only [Submission.operation, perform, Tables.admitSource]
  split
  · split
    · exact .inr ⟨by simp, rfl⟩
    · cases hget : t.receipts.get (sub.origin.sourceHandle, sub.origin.ordinal) with
      | some r =>
        dsimp only
        split
        · refine .inr ⟨?_, rfl⟩
          split <;> simp
        · exact .inr ⟨by simp, rfl⟩
      | none =>
        dsimp only
        split
        · exact .inr ⟨by simp, rfl⟩
        · split
          · cases sub.lease with
            | none => exact .inr ⟨by simp, rfl⟩
            | some id =>
              dsimp only
              split
              · exact .inr ⟨by simp, rfl⟩
              · exact .inl ⟨hget, _, rfl, rfl, rfl⟩
          · exact .inl ⟨hget, _, rfl, rfl, rfl⟩
  · exact .inr ⟨by simp, rfl⟩

theorem call_admission (sub : Submission env) (permitRequired : Bool) (failure : Option Failure)
    (s : State) :
    (∃ t, LedgerStep stays s.ledger.tables t ∧ t.receipts.get sub.origin.key = none
        ∧ ∃ r, (s.call (sub.operation permitRequired) failure).2.ledger.tables.receipts
            = t.receipts.set sub.origin.key r
          ∧ originOf sub.origin.key r = sub.origin ∧ r.state = .pendingEnqueue)
      ∨ (s.call (sub.operation permitRequired) failure).1 ≠ .admitted .accepted
        ∧ LedgerStep stays s.ledger.tables
          (s.call (sub.operation permitRequired) failure).2.ledger.tables := by
  have hopen := ledgerStep_open env (failure.filter fun f => f ≠ .cancelled) s.ledger
  rw [State.call]
  rcases attempt_call s.ledger (sub.operation permitRequired)
    (failure.filter fun f => f ≠ .cancelled) with heq | ⟨-, heq⟩
  · rw [heq]
    exact .inr ⟨nofun, hopen⟩
  · rw [heq]
    rcases perform_admission sub permitRequired
      (initializeLocked env (failure.filter fun f => f ≠ .cancelled) s.ledger).1.tables with
      ⟨hfresh, r, hrecs, horig, hstate⟩ | ⟨hnot, hsame⟩
    · exact .inl ⟨_, hopen, hfresh, r, hrecs, horig, hstate⟩
    · refine .inr ⟨?_, ?_⟩
      · dsimp only
        split
        · exact nofun
        · exact hnot
      · dsimp only
        rw [hsame]
        exact hopen

end Calls

/-! ## Facts -/

/-- A row that was read from the ledger under the lock: its receipt is there, and only the retry of
an operator could have made it one that waits for a retry. -/
def KnownRow (s : State) (row : Row) : Prop :=
  ∃ r, s.receipt row.origin.key = some r ∧ originOf row.origin.key r = row.origin
    ∧ row.state ≠ .committedPending ∧ (row.state ≠ .retryPending → r.state ≠ .retryPending)

inductive Fact where
  | flushed (o : Origin)
  | deliverable (o : Origin)
  | noLine (o : Origin)
  | writing (key : String) (written : Bytes)
  | quarantined (o : Origin)
  | fenced (o : Origin)
  | operator
  | head (key : String) (record : Record)
  | condemned (key : String) (record : Record)
  | settled (record : Record)
  | pure (p : Prop)

def Fact.Holds (c : Codec) (s : State) : Fact → Prop
  | .flushed o => ∀ r, s.receipt o.key = some r → r.state.pending = true → o ∈ s.flushed
  | .deliverable o => ∀ r, s.receipt o.key = some r → r.state.pending = true → Deliverable c s o
  | .noLine o => ¬ HasLine c s o
  | .writing key written => written ≠ [] → s.writing = some key ∧ (s.spool key).log ≠ none
      ∧ torn newline [] (s.spool key).content = written
  | .quarantined o => ∃ r, s.receipt o.key = some r ∧ originOf o.key r = o
      ∧ r.state = .quarantined
  | .fenced o => (∃ r, s.receipt o.key = some r ∧ r.state = .quarantined) ∧ ¬ Checked c s o.key
  | .operator => s.guard = .operator true
  | .head key record => s.guard = .operator true
      ∧ ∃ rest, (s.spool key).uncommitted = record :: rest
  | .condemned key record => s.guard = .poison key true
      ∧ ∃ start rest, s.workers key = .condemned start record rest
  | .settled record => Settled c s record
  | .pure p => p

def rowsOf : Option Pass → List Row
  | none => []
  | some pass => pass.rows

def Phase.rows : Phase env → List Row
  | .admissionClaim sub true => [sub.row]
  | .enqueue row pass => row :: rowsOf pass
  | .append row _ _ _ pass => row :: rowsOf pass
  | .claim row pass => row :: pass.rows
  | .dead row pass => row :: pass.rows
  | .scanEnqueued row pass => row :: pass.rows
  | .scan row pass => row :: pass.rows
  | .mark row _ pass => row :: rowsOf pass
  | _ => []

def markFacts (o : Origin) : ReceiptState → List Fact
  | .pendingEnqueue => [.noLine o]
  | .retryPending => [.pure False]
  | .enqueued => [.deliverable o]
  | .committedPending => [.pure False]
  | .written => [.flushed o]
  | .quarantined => []

def headFacts (c : Codec) (row : Row) (key : String) : Option Record → List Fact
  | none => []
  | some head => [.head key head, .pure (c.decode head.raw = .recovered row.origin)]

def Phase.facts (c : Codec) : Phase env → List Fact
  | .append row key written rest _ =>
    [.writing key written, .pure (rest ≠ []),
      .pure (written ++ rest
        = c.line row.origin row.actor (sanitizeRecoveryPayload row.payload) ++ [newline])]
  | .scanEnqueued row _ => [.pure (row.state = .enqueued)]
  | .mark row state _ => markFacts row.origin state
  | .fence row => [.quarantined row.origin]
  | .validate row => [.fenced row.origin]
  | .archive row _ => [.fenced row.origin]
  | .requeue row => [.fenced row.origin]
  | .select _ => [.operator]
  | .inspect _ => [.operator]
  | .audit _ => [.operator]
  | .readHead _ => [.operator]
  | .deadLetter row key _ head => .operator :: headFacts c row key head
  | .quarantine row key head => .operator :: headFacts c row key head
  | .commitHead key head => [.head key head, .settled head]
  | .publish key record => [.condemned key record]
  | .acknowledge key record => [.condemned key record, .settled record]
  | _ => []

structure Knows (c : Codec) (phase : Phase env) (s : State) : Prop where
  rows : ∀ row ∈ phase.rows, KnownRow s row
  facts : ∀ fact ∈ phase.facts c, fact.Holds c s

/-! ## What the surroundings can do -/

/-- The surroundings close receipts and open none, add no line to a log, commit what is closed,
leave a log alone that is being written, check no quarantined receipt, and wait for whoever holds
the pause condition inside the lock. -/
structure Calm (c : Codec) (s s' : State) : Prop where
  receipts : ∀ key r, s.receipt key = some r → ∃ r', s'.receipt key = some r'
    ∧ r'.sourceLineSha256 = r.sourceLineSha256
    ∧ (r'.state = r.state ∨ r.state.pending = true ∧ r'.state.pending = false)
  old : ∀ key r', s'.receipt key = some r' → ∃ r, s.receipt key = some r
  flushed : s.flushed ⊆ s'.flushed
  lines : ∀ o, HasLine c s' o → HasLine c s o
  deliverable : ∀ o, Deliverable c s o → Deliverable c s' o ∨ Closed s' o.key
  writing : ∀ key, s.writing = some key → s'.writing = some key
    ∧ (s'.spool key).log = (s.spool key).log
  checked : ∀ key r, s.receipt key = some r → r.state = .quarantined → Checked c s' key →
    Checked c s key
  operator : s.guard = .operator true → s'.guard = .operator true
    ∧ ∀ key record rest, (s.spool key).uncommitted = record :: rest →
      (s'.spool key).uncommitted = record :: rest
  poison : ∀ key start record rest, s.guard = .poison key true →
    s.workers key = .condemned start record rest → s'.guard = .poison key true
      ∧ s'.workers key = .condemned start record rest

section CalmRules

variable {s s' s'' : State}

theorem Calm.before (h : Calm c s s') {key : ReceiptKey} {r' : Receipt}
    (hget' : s'.receipt key = some r') :
    ∃ r, s.receipt key = some r ∧ originOf key r' = originOf key r
      ∧ (r'.state = r.state ∨ r.state.pending = true ∧ r'.state.pending = false) := by
  obtain ⟨r, hget⟩ := h.old key r' hget'
  obtain ⟨r'', hget'', hline, hstate⟩ := h.receipts key r hget
  rw [hget'] at hget''
  cases hget''
  exact ⟨r, hget, by rw [originOf, originOf, hline], hstate⟩

theorem Calm.pending (h : Calm c s s') {key : ReceiptKey} {r' : Receipt}
    (hget' : s'.receipt key = some r') (hpend : r'.state.pending = true) :
    ∃ r, s.receipt key = some r ∧ r.state = r'.state := by
  obtain ⟨r, hget, -, hstate⟩ := h.before hget'
  rcases hstate with hsame | ⟨-, hclosed⟩
  · exact ⟨r, hget, hsame.symm⟩
  · rw [hclosed] at hpend
    cases hpend

theorem Calm.closed (h : Calm c s s') {key : ReceiptKey} (hclosed : Closed s key) :
    Closed s' key := by
  intro r' hget'
  by_contra hpend
  rw [Bool.not_eq_false] at hpend
  obtain ⟨r, hget, hsame⟩ := h.pending hget' hpend
  rw [← hsame, hclosed r hget] at hpend
  cases hpend

theorem Calm.kept (h : Calm c s s') {key : ReceiptKey} {r : Receipt} (hget : s.receipt key = some r)
    (hclosed : r.state.pending = false) :
    ∃ r', s'.receipt key = some r' ∧ originOf key r' = originOf key r ∧ r'.state = r.state := by
  obtain ⟨r', hget', hline, hstate⟩ := h.receipts key r hget
  refine ⟨r', hget', by rw [originOf, originOf, hline], ?_⟩
  rcases hstate with hsame | ⟨hpend, -⟩
  · exact hsame
  · rw [hclosed] at hpend
    cases hpend

theorem KnownRow.calm {row : Row} (hrow : KnownRow s row) (h : Calm c s s') : KnownRow s' row := by
  obtain ⟨r, hget, horig, hcomm, hret⟩ := hrow
  obtain ⟨r', hget', hline, hstate⟩ := h.receipts _ r hget
  refine ⟨r', hget', ?_, hcomm, fun hrow hr' => ?_⟩
  · rw [originOf, hline]
    exact horig
  · rcases hstate with hsame | ⟨-, hclosed⟩
    · exact hret hrow (hsame ▸ hr')
    · rw [hr'] at hclosed
      cases hclosed

theorem Fact.Holds.calm {fact : Fact} (hfact : fact.Holds c s) (h : Calm c s s') :
    fact.Holds c s' := by
  cases fact with
  | flushed o =>
    intro r' hget' hpend
    obtain ⟨r, hget, hsame⟩ := h.pending hget' hpend
    exact h.flushed (hfact r hget (hsame ▸ hpend))
  | deliverable o =>
    intro r' hget' hpend
    obtain ⟨r, hget, hsame⟩ := h.pending hget' hpend
    rcases h.deliverable o (hfact r hget (hsame ▸ hpend)) with hsettle | hclosed
    · exact hsettle
    · rw [hclosed r' hget'] at hpend
      cases hpend
  | noLine o => exact fun hline => hfact (h.lines o hline)
  | writing key written =>
    intro hne
    obtain ⟨hwrite, hlog, htorn⟩ := hfact hne
    obtain ⟨hwrite', hlog'⟩ := h.writing key hwrite
    refine ⟨hwrite', hlog' ▸ hlog, ?_⟩
    rw [Spool.content, hlog']
    exact htorn
  | quarantined o =>
    obtain ⟨r, hget, horig, hstate⟩ := hfact
    obtain ⟨r', hget', horig', hstate'⟩ := h.kept hget (by rw [hstate]; rfl)
    exact ⟨r', hget', horig'.trans horig, hstate'.trans hstate⟩
  | fenced o =>
    obtain ⟨⟨r, hget, hstate⟩, hunchanged⟩ := hfact
    obtain ⟨r', hget', -, hstate'⟩ := h.kept hget (by rw [hstate]; rfl)
    exact ⟨⟨r', hget', hstate'.trans hstate⟩,
      fun hcheck => hunchanged (h.checked o.key r hget hstate hcheck)⟩
  | operator => exact (h.operator hfact).1
  | head key record =>
    obtain ⟨hguard, rest, hhead⟩ := hfact
    exact ⟨(h.operator hguard).1, rest, (h.operator hguard).2 key record rest hhead⟩
  | condemned key record =>
    obtain ⟨hguard, start, rest, hwork⟩ := hfact
    obtain ⟨hguard', hwork'⟩ := h.poison key start record rest hguard hwork
    exact ⟨hguard', start, rest, hwork'⟩
  | settled record => exact fun o hdec => h.closed (hfact o hdec)
  | pure p => exact hfact

/-- A calm step leaves a task what it knows. -/
theorem Knows.calm {phase : Phase env} (hknows : Knows c phase s) (h : Calm c s s') :
    Knows c phase s' :=
  ⟨fun row hrow => (hknows.rows row hrow).calm h,
    fun fact hfact => (hknows.facts fact hfact).calm h⟩

theorem Calm.trans (h : Calm c s s') (h' : Calm c s' s'') : Calm c s s'' := by
  constructor
  · intro key r hget
    obtain ⟨r', hget', hline, hstate⟩ := h.receipts key r hget
    obtain ⟨r'', hget'', hline', hstate'⟩ := h'.receipts key r' hget'
    refine ⟨r'', hget'', hline'.trans hline, ?_⟩
    rcases hstate' with hsame' | ⟨hpend', hclosed'⟩
    · rw [hsame']
      exact hstate
    · rcases hstate with hsame | ⟨hpend, -⟩
      · exact .inr ⟨hsame ▸ hpend', hclosed'⟩
      · exact .inr ⟨hpend, hclosed'⟩
  · intro key r'' hget''
    obtain ⟨r', hget'⟩ := h'.old key r'' hget''
    exact h.old key r' hget'
  · exact fun o ho => h'.flushed (h.flushed ho)
  · exact fun o ho => h.lines o (h'.lines o ho)
  · intro o ho
    rcases h.deliverable o ho with hsettle | hclosed
    · exact h'.deliverable o hsettle
    · exact .inr (h'.closed hclosed)
  · intro key hwrite
    obtain ⟨hwrite', hlog⟩ := h.writing key hwrite
    obtain ⟨hwrite'', hlog'⟩ := h'.writing key hwrite'
    exact ⟨hwrite'', hlog'.trans hlog⟩
  · intro key r hget hstate hcheck
    obtain ⟨r', hget', -, hstate'⟩ := h.kept hget (by rw [hstate]; rfl)
    exact h.checked key r hget hstate (h'.checked key r' hget' (hstate'.trans hstate) hcheck)
  · intro hguard
    obtain ⟨hguard', hhead⟩ := h.operator hguard
    obtain ⟨hguard'', hhead'⟩ := h'.operator hguard'
    exact ⟨hguard'', fun key record rest heq => hhead' key record rest (hhead key record rest heq)⟩
  · intro key start record rest hguard hwork
    obtain ⟨hguard', hwork'⟩ := h.poison key start record rest hguard hwork
    exact h'.poison key start record rest hguard' hwork'

theorem Calm.parties (hledger : s'.ledger = s.ledger) (hlogs : SameLogs s s')
    (hflush : s.flushed ⊆ s'.flushed) (hwrite : s'.writing = s.writing)
    (hcheck : ∀ key r, s.receipt key = some r → r.state = .quarantined → Checked c s' key →
      Checked c s key)
    (hoperator : s.guard = .operator true → s'.guard = .operator true)
    (hpoison : ∀ key start record rest, s.guard = .poison key true →
      s.workers key = .condemned start record rest → s'.guard = .poison key true
        ∧ s'.workers key = .condemned start record rest) : Calm c s s' := by
  have hrec : ∀ key, s'.receipt key = s.receipt key := fun key => by
    rw [State.receipt, State.receipt, hledger]
  constructor
  · exact fun key r hget => ⟨r, (hrec key).trans hget, rfl, Or.inl rfl⟩
  · exact fun key r hget => ⟨r, (hrec key).symm.trans hget⟩
  · exact hflush
  · exact fun o ho => hlogs.hasLine.1 ho
  · exact fun o ho => Or.inl (hlogs.deliverable.2 ho)
  · exact fun key hkey => ⟨hwrite.trans hkey, (hlogs key).1⟩
  · exact hcheck
  · refine fun hguard => ⟨hoperator hguard, fun key record rest hhead => ?_⟩
    rw [Spool.uncommitted, hlogs.content, hlogs.committedOffset]
    exact hhead
  · exact hpoison

theorem Calm.rest (hledger : s'.ledger = s.ledger) (hlogs : SameLogs s s')
    (hflush : s'.flushed = s.flushed) (hwrite : s'.writing = s.writing)
    (hguard : s'.guard = s.guard) (hworkers : s'.workers = s.workers) : Calm c s s' := by
  refine .parties hledger hlogs (by rw [hflush]; exact fun _ ho => ho) hwrite
    (fun key r _ _ hcheck => ?_) (fun h => hguard.trans h)
    fun key start record rest h hwork => ⟨hguard.trans h, by rwa [hworkers]⟩
  simpa only [Checked, hguard] using hcheck

theorem Calm.refl (s : State) : Calm c s s := .rest rfl (SameLogs.refl s) rfl rfl rfl rfl

theorem Calm.ledger {l : Ledger} {move : ReceiptKey → ReceiptState → ReceiptState → Prop}
    (hstep : LedgerStep move s.ledger.tables l.tables)
    (hmove : ∀ key old new, move key old new →
      new = old ∨ old.pending = true ∧ new.pending = false) :
    Calm c s { s with ledger := l } := by
  have hlogs : SameLogs s { s with ledger := l } := SameLogs.of_queue rfl
  constructor
  · intro key r hget
    obtain ⟨r', hget', hline, hstate⟩ := hstep.kept key r hget
    refine ⟨r', hget', hline, ?_⟩
    rcases hstate with hsame | ⟨hpend, hquar⟩ | hmoved
    · exact .inl hsame
    · exact .inr ⟨hpend, by rw [hquar]; rfl⟩
    · exact hmove key _ _ hmoved
  · exact hstep.old
  · exact fun _ ho => ho
  · exact fun o ho => hlogs.hasLine.1 ho
  · exact fun o ho => Or.inl (hlogs.deliverable.2 ho)
  · exact fun key hkey => ⟨hkey, rfl⟩
  · exact fun key r _ _ hcheck => hcheck
  · exact fun hguard => ⟨hguard, fun key record rest hhead => hhead⟩
  · exact fun key start record rest hguard hwork => ⟨hguard, hwork⟩

end CalmRules

end ContextIntelligence.Recovery.Outbox
