import ContextIntelligence.Drain.CommitAfterFlush

/-!
# What a drain that met `session:end` leaves behind

Everything is healthy but the handlers, and an assignment fixes which records' handlers fail. A
worker that met `session:end` went through `_finalize_session`, whose tail drain has no isolation of
its own. `drainWorker_returns`: if a record from the first terminal one on fails, the worker returns
as an orphan, with the failing record above the committed offset.
-/

namespace ContextIntelligence.Drain

open Lib.Lines Lib.Coroutine Queue

variable (cfg : Config)

/-! ## Healthy turns -/

/-- How the handlers of a record fail: with an exception the allow-list calls transient, or with
another one. -/
inductive Failure where
  | infra
  | poison
  deriving DecidableEq, Repr

def Failure.fault : Failure → Fault
  | .infra => .infra
  | .poison => .poison

/-- The fate of a dispatch under a fixed assignment of failures to records. -/
def handlerFate : Option Failure → Fate Fault
  | none => .ok
  | some failure => .raise failure.fault 0

/-- A turn in which nothing arrives, the handlers behave as assigned and everything else
succeeds. -/
structure Healthy (assign : Record → Option Failure) (t : DrainTurn) : Prop where
  quiet : t.env = []
  handlers : ∀ r, t.fate (.dispatch r) = handlerFate (assign r)
  others : ∀ o, (∀ r, o ≠ .dispatch r) → t.fate o = .ok

theorem holdCancelled_handlerFate (failure : Option Failure) :
    holdCancelled (handlerFate failure) = handlerFate failure := by
  cases failure with
  | none => rfl
  | some f => cases f <;> rfl

theorem admissible_healthy (assign : Record → Option Failure) : Admissible (Healthy assign) where
  clean := by
    intro t h done hfate
    rw [h.others .deleteDrained nofun] at hfate
    rcases hfate with hdie | ⟨f, hraise⟩
    · cases hdie
    · cases hraise
  held := by
    intro t h
    refine ⟨h.quiet, fun r => ?_, fun o ho => ?_⟩
    · show holdCancelled (t.fate (.dispatch r)) = handlerFate (assign r)
      rw [h.handlers r, holdCancelled_handlerFate]
    · show holdCancelled (t.fate o) = .ok
      rw [h.others o ho]
      rfl

/-- A record that can not be processed: its line does not parse or its handlers fail. -/
def Fails (cfg : Config) (assign : Record → Option Failure) (r : Record) : Prop :=
  cfg.parseLine r.raw = none ∨ assign r ≠ none

/-! ## What stays fixed while a batch is worked on -/

section Healthy

variable {assign : Record → Option Failure} {log : Bytes} {n : Nat}

/-- The log is the one the drain started with, and the worker is registered with an open
store. -/
structure Fixed (log : Bytes) (n : Nat) (w : World) : Prop where
  log_eq : w.spool.log = some log
  number : w.logNumber = n
  registered : w.registered = true
  storeOpen : w.storeClosed = false

theorem Fixed.content {w : World} (h : Fixed log n w) : w.spool.content = log := by
  simp [Spool.content, h.log_eq]

/-- A coroutine that does not raise under healthy turns and leaves the fixed part alone. -/
def Calm {α : Type} (assign : Record → Option Failure) (log : Bytes) (n : Nat) (m : DrainM α) :
    Prop :=
  Triple (Healthy assign) (fun _ => True) (Fixed log n) m (fun _ => Fixed log n) fun _ _ => False

theorem op_healthy {α : Type} {o : Op} {act : Action World Reading α} {P D : World → Prop}
    {Q : α → World → Prop} (ho : ∀ r, o ≠ .dispatch r) (hcut : ∀ w, P w → D w)
    (h : ∀ reading w, P w → Q (act.finish reading w).1 (act.finish reading w).2) :
    Triple (Healthy assign) D P (op o act) Q fun _ _ => False := by
  refine Triple.await_of_env ?_ hcut (fun t w _ _ hw => h t.reading w hw) ?_ ?_
  · intro t w ht hw
    rw [ht.quiet]
    exact hw
  · intro t f k w ht hfate
    rw [ht.others o ho] at hfate
    cases hfate
  · intro t k w ht hfate
    rw [ht.others o ho] at hfate
    cases hfate

theorem calm_outside {o : Op} (ho : ∀ r, o ≠ .dispatch r) : Calm assign log n (outside o) :=
  op_healthy ho (fun _ _ => trivial) fun _ _ h => h

theorem calm_hook (installed : Bool) {o : Op} (ho : ∀ r, o ≠ .dispatch r) :
    Calm assign log n (hook installed o) :=
  Triple.ite (fun _ => calm_outside ho) (fun _ => Triple.pure fun _ h => h)

theorem calm_commit (target : Nat) : Calm assign log n (commit target) :=
  op_healthy nofun (fun _ _ => trivial) fun _ _ h => ⟨h.log_eq, h.number, h.registered, h.storeOpen⟩

theorem calm_deadLetter (rec : Record) : Calm assign log n (deadLetter rec) :=
  op_healthy nofun (fun _ _ => trivial) fun _ _ h => ⟨h.log_eq, h.number, h.registered, h.storeOpen⟩

theorem calm_discardBuffer : Calm assign log n discardBuffer :=
  Triple.modify fun _ h => ⟨h.log_eq, h.number, h.registered, h.storeOpen⟩

theorem calm_flushBarrier : Calm assign log n flushBarrier :=
  Triple.bind (calm_outside nofun) fun _ =>
    op_healthy nofun (fun _ _ => trivial) fun _ _ h =>
      ⟨h.log_eq, h.number, h.registered, h.storeOpen⟩

theorem calm_flushAndCommit (records : List Record) (target : Nat) :
    Calm assign log n (flushAndCommit cfg records target) := by
  refine Triple.bind (calm_hook _ nofun) fun _ => ?_
  refine Triple.bind (calm_hook _ nofun) fun _ => ?_
  refine Triple.bind (calm_hook _ nofun) fun _ => ?_
  refine Triple.bind calm_flushBarrier fun _ => ?_
  refine Triple.bind (calm_hook _ nofun) fun _ => ?_
  exact Triple.tryCatch (calm_commit target) fun _ => fun _ _ _ h => h.elim

theorem calm_quarantineAndCommit (rec : Record) :
    Calm assign log n (quarantineAndCommit cfg rec) := by
  have hack : Calm assign log n (publishQuarantineThenAck cfg rec) :=
    Triple.bind (calm_hook _ nofun) fun _ => calm_commit rec.stop
  refine Triple.bind (calm_hook _ nofun) fun _ => ?_
  refine Triple.ite (fun _ => ?_) (fun _ => hack)
  refine Triple.bind (calm_outside nofun) fun _ => ?_
  exact Triple.bind (Triple.masked (admissible_healthy assign).held hack) fun _ =>
    calm_outside nofun

theorem calm_postCommit (records : List Record) : Calm assign log n (postCommit cfg records) :=
  Triple.tryCatch (calm_hook _ nofun) fun _ => fun _ _ _ h => h.elim

theorem processOne_healthy (rec : Record) :
    Triple (Healthy assign) (fun _ => True) (Fixed log n) (processOne rec)
      (fun _ w => assign rec = none ∧ Fixed log n w)
      (fun e w => assign rec ≠ none ∧ Retryable e ∧ Fixed log n w) := by
  refine Triple.await_of_env ?_ (fun _ _ => trivial) ?_ ?_ (fun _ _ _ _ _ _ => trivial)
  · intro t w ht hw
    rw [ht.quiet]
    exact hw
  · intro t w ht hfate h
    rw [ht.handlers rec] at hfate
    refine ⟨?_, h.log_eq, h.number, h.registered, h.storeOpen⟩
    cases hassign : assign rec with
    | none => rfl
    | some failure => simp [hassign, handlerFate] at hfate
  · intro t f k w ht hfate h
    rw [ht.handlers rec] at hfate
    cases hassign : assign rec with
    | none => simp [hassign, handlerFate] at hfate
    | some failure =>
      simp only [hassign, handlerFate, Fate.raise.injEq] at hfate
      obtain ⟨rfl, rfl⟩ := hfate
      refine ⟨Option.some_ne_none _, ?_, h⟩
      cases failure <;> trivial

theorem processRecords_healthy (rs : List Record) (safeCount : Nat) (terminalAt : Option Nat) :
    Triple (Healthy assign) (fun _ => True) (Fixed log n)
      (processRecords cfg rs safeCount terminalAt)
      (fun _ w => (∀ r ∈ rs, ¬ Fails cfg assign r) ∧ Fixed log n w)
      (fun e w => (∃ r ∈ rs, Fails cfg assign r) ∧ Retryable e ∧ Fixed log n w) := by
  induction rs generalizing safeCount terminalAt with
  | nil => exact Triple.pure fun _ h => ⟨(fun _ h => nomatch h), h⟩
  | cons rec rest ih =>
    cases hparse : cfg.parseLine rec.raw with
    | none =>
      simp only [processRecords, hparse]
      exact Triple.raise fun _ h => ⟨⟨rec, List.mem_cons_self .., Or.inl hparse⟩, trivial, h⟩
    | some event =>
      simp only [processRecords, hparse]
      refine Triple.bind ((processOne_healthy rec).raises ?_) fun _ => ?_
      · intro e w h
        exact ⟨⟨rec, List.mem_cons_self .., Or.inr h.1⟩, h.2⟩
      have hrest : ∀ k at_, assign rec = none →
          Triple (Healthy assign) (fun _ => True) (Fixed log n) (processRecords cfg rest k at_)
            (fun _ w => (∀ r ∈ rec :: rest, ¬ Fails cfg assign r) ∧ Fixed log n w)
            (fun e w => (∃ r ∈ rec :: rest, Fails cfg assign r) ∧ Retryable e
              ∧ Fixed log n w) := by
        intro k at_ hassign
        have hrec : ¬ Fails cfg assign rec := by
          rintro (hnone | hfail)
          · rw [hparse] at hnone
            cases hnone
          · exact hfail hassign
        refine (ih k at_).conseq (fun _ h => h) ?_ ?_
        · intro counted w h
          refine ⟨fun r hr => ?_, h.2⟩
          rcases List.mem_cons.1 hr with rfl | hr
          · exact hrec
          · exact h.1 r hr
        · rintro e w ⟨⟨r, hr, hfail⟩, h⟩
          exact ⟨⟨r, List.mem_cons_of_mem _ hr, hfail⟩, h⟩
      refine Triple.of_pre fun _ h => ?_
      refine Triple.pre ?_ fun _ h => h.2
      cases terminalAt with
      | some at_ => exact hrest safeCount (some at_) h.1
      | none =>
        exact Triple.ite (fun _ => hrest safeCount (some rec.start) h.1)
          (fun _ => hrest (safeCount + 1) none h.1)

theorem isolateOne_healthy (rec : Record) :
    Triple (Healthy assign) (fun _ => True) (Fixed log n) (isolateOne cfg rec)
      (fun _ => Fixed log n) (fun e w => e = .transientInfraFailure ∧ Fixed log n w) := by
  have hfail : ∀ e, Triple (Healthy assign) (fun _ => True) (Fixed log n)
      (if isTransientInfraError e then do
          discardBuffer
          Co.raise .transientInfraFailure
        else do
          deadLetter rec
          discardBuffer
          pure false)
      (fun _ => Fixed log n) (fun e w => e = .transientInfraFailure ∧ Fixed log n w) := by
    intro e
    refine Triple.ite (fun _ => ?_) (fun _ => ?_)
    · exact Triple.bind calm_discardBuffer.raisesNever fun _ => Triple.raise fun _ h => ⟨rfl, h⟩
    · refine Triple.bind ((calm_deadLetter rec).raisesNever) fun _ => ?_
      exact Triple.bind calm_discardBuffer.raisesNever fun _ => Triple.pure fun _ h => h
  refine Triple.tryCatch (R := fun e w => Retryable e ∧ Fixed log n w) ?_ fun e => ?_
  · refine Triple.bind ((processOne_healthy rec).conseq (fun _ h => h) (fun _ _ h => h.2)
      (fun _ _ h => h.2)) fun _ => ?_
    exact Triple.bind ((calm_flushAndCommit cfg [rec] rec.stop).raisesNever)
      fun _ => Triple.pure fun _ h => h
  · cases e with
    | queueCommitFailure cause => exact Triple.of_pre fun _ h => h.1.elim
    | cancelled => exact Triple.of_pre fun _ h => h.1.elim
    | infra => exact (hfail _).pre fun _ h => h.2
    | poison => exact (hfail _).pre fun _ h => h.2
    | transientInfraFailure => exact (hfail _).pre fun _ h => h.2

theorem isolateRecords_healthy (rs : List Record) :
    Triple (Healthy assign) (fun _ => True) (Fixed log n) (isolateRecords cfg rs)
      (fun _ => Fixed log n) (fun e w => e = .transientInfraFailure ∧ Fixed log n w) := by
  have hcalm : ∀ {m : DrainM Unit}, Calm assign log n m →
      Triple (Healthy assign) (fun _ => True) (Fixed log n) m (fun _ => Fixed log n)
        (fun e w => e = .transientInfraFailure ∧ Fixed log n w) := by
    intro m hm
    exact hm.raisesNever
  induction rs with
  | nil => exact Triple.pure fun _ h => h
  | cons rec rest ih =>
    cases hparse : cfg.parseLine rec.raw with
    | none =>
      simp only [isolateRecords, hparse]
      refine Triple.bind (hcalm (calm_deadLetter rec)) fun _ => ?_
      refine Triple.bind (hcalm calm_discardBuffer) fun _ => ?_
      exact Triple.bind (hcalm (calm_quarantineAndCommit cfg rec)) fun _ => ih
    | some event =>
      simp only [isolateRecords, hparse]
      refine Triple.ite (fun _ => Triple.pure fun _ h => h) (fun _ => ?_)
      refine Triple.bind (isolateOne_healthy cfg rec) fun wrote => ?_
      refine Triple.bind (R := fun _ => Fixed log n) ?_ fun _ => ih
      exact Triple.ite (fun _ => hcalm (calm_postCommit cfg [rec]))
        (fun _ => hcalm (calm_quarantineAndCommit cfg rec))

theorem calm_isolateBatch (batch : Spool.Batch) : Calm assign log n (isolateBatch cfg batch) := by
  refine Triple.tryCatch (R := fun e w => e = .transientInfraFailure ∧ Fixed log n w) ?_
    fun e => ?_
  · refine Triple.bind (R := fun _ => Fixed log n) ?_ fun _ => Triple.pure fun _ h => h
    exact Triple.bind calm_discardBuffer.raisesNever
      fun _ => isolateRecords_healthy cfg batch.records
  · cases e with
    | transientInfraFailure => exact Triple.pure fun _ h => h.2
    | _ => exact Triple.of_pre fun _ h => nomatch h.1

theorem writeBatch_healthy (batch : Spool.Batch) :
    Triple (Healthy assign) (fun _ => True) (Fixed log n) (writeBatch cfg batch)
      (fun result w => (∀ e, result = .error e → Retryable e) ∧ Fixed log n w)
      (fun _ _ => False) := by
  refine Triple.tryCatch (R := fun e w => Retryable e ∧ Fixed log n w) ?_ fun e => ?_
  · refine Triple.bind ((processRecords_healthy cfg batch.records 0 none).conseq (fun _ h => h)
      (fun _ _ h => h.2) (fun _ _ h => h.2)) fun counted => ?_
    exact Triple.bind ((calm_flushAndCommit cfg _ _).raisesNever)
      fun _ => Triple.pure fun _ h => ⟨nofun, h⟩
  · refine Triple.pure fun _ h => ⟨?_, h.2⟩
    rintro e' he
    cases he
    exact h.1

theorem drainTail_healthy (tail : Spool.Batch) :
    Triple (Healthy assign) (fun _ => True) (Fixed log n) (drainTail cfg tail)
      (fun drained w => (if drained then ∀ r ∈ tail.records, ¬ Fails cfg assign r
        else ∃ r ∈ tail.records, Fails cfg assign r) ∧ Fixed log n w)
      (fun _ _ => False) := by
  refine Triple.tryCatch
    (R := fun e w => (∃ r ∈ tail.records, Fails cfg assign r) ∧ Retryable e ∧ Fixed log n w) ?_
    fun e => ?_
  · refine Triple.bind (processRecords_healthy cfg tail.records 0 none) fun _ => ?_
    refine Triple.of_pre fun _ h => ?_
    refine Triple.bind ((calm_flushAndCommit cfg _ _).conseq (fun _ h => h.2) (fun _ _ h => h)
      (fun _ _ h => h.elim)) fun _ => Triple.pure fun _ hfixed => ⟨h.1, hfixed⟩
  · cases e with
    | queueCommitFailure cause => exact Triple.of_pre fun _ h => h.2.1.elim
    | cancelled => exact Triple.of_pre fun _ h => h.2.1.elim
    | _ => exact Triple.pure fun _ h => ⟨h.1, h.2.2⟩

/-! ## Draining the tail -/

/-- The drain stands at offset `c` of the log it started with. -/
def Located (log : Bytes) (n c : Nat) (w : World) : Prop := Ready c [] w ∧ Fixed log n w

theorem Located.boundary {c : Nat} {w : World} (h : Located log n c w) :
    Boundary newline log c := by
  have hb := h.1.safe.boundary
  rwa [h.1.offset, h.2.content] at hb

theorem Located.ready {c : Nat} {rs : List Record} {w : World} (h : Located log n c w)
    (hrs : rs <+: recordsFrom newline log c) : Ready c rs w :=
  ⟨h.1.safe, h.1.offset, by rwa [h.2.content]⟩

theorem readBatch_located (c : Nat) :
    Triple (Healthy assign) Safe (Located log n c) (readBatch cfg)
      (fun batch w => Located log n c w ∧ batch.startOffset = c
        ∧ batch.records = (recordsFrom newline log c).take cfg.drainBatchSize
        ∧ batch.endOffset = endOf c batch.records)
      (fun _ _ => False) := by
  refine op_healthy nofun (fun _ h => h.1.safe) fun reading w h => ?_
  simp only [Action.still]
  refine ⟨h, h.1.offset, ?_, ?_⟩
  · rw [Spool.readBatch_records, Spool.uncommitted, h.1.offset, h.2.content]
  · rw [Spool.readBatch_endOffset, h.1.offset]

theorem postCommit_located (records : List Record) (c : Nat) :
    Triple (Healthy assign) Safe (Located log n c) (postCommit cfg records)
      (fun _ => Located log n c) (fun _ _ => False) :=
  ((postCommit_spec cfg records (Ready.stable c []) fun _ h => h.safe).and
    (calm_postCommit cfg records)).raises (fun _ _ h => h.2)

/-- The drain stands at some offset, and what it drained above `c` did not fail. -/
def TailSoFar (cfg : Config) (assign : Record → Option Failure) (log : Bytes) (n c : Nat)
    (w : World) : Prop :=
  ∃ c', Located log n c' w ∧ ∃ pre,
    recordsFrom newline log c = pre ++ recordsFrom newline log c'
      ∧ ∀ r ∈ pre, ¬ Fails cfg assign r

/-- The tail above `c` was drained to its end, and no record of it fails. -/
def TailDrained (cfg : Config) (assign : Record → Option Failure) (log : Bytes) (n c : Nat)
    (w : World) : Prop :=
  (∀ r ∈ recordsFrom newline log c, ¬ Fails cfg assign r)
    ∧ ∃ c', Located log n c' w ∧ recordsFrom newline log c' = []

/-- The drain of the tail above `c` stopped in front of a record that fails. -/
def TailStuck (cfg : Config) (assign : Record → Option Failure) (log : Bytes) (n c : Nat)
    (w : World) : Prop :=
  ∃ c', Located log n c' w
    ∧ ∃ r ∈ recordsFrom newline log c, Fails cfg assign r ∧ c' ≤ r.start

theorem drainToEofRound_healthy (hsize : 0 < cfg.drainBatchSize) (c c' : Nat)
    {pre : List Record} (hsplit : recordsFrom newline log c = pre ++ recordsFrom newline log c')
    (hpre : ∀ r ∈ pre, ¬ Fails cfg assign r) :
    Triple (Healthy assign) Safe (Located log n c') (drainToEofRound cfg)
      (fun r => Sum.elim (fun _ => TailSoFar cfg assign log n c)
        (fun drained => if drained then TailDrained cfg assign log n c
          else TailStuck cfg assign log n c) r)
      (fun _ _ => False) := by
  refine Triple.bind (readBatch_located cfg c') fun tail => ?_
  refine Triple.of_pre fun _ ⟨_, hstart, hrecs, hend⟩ => ?_
  refine Triple.ite (fun hempty => Triple.pure fun w h => ?_) (fun hempty => ?_)
  · have hnil : recordsFrom newline log c' = [] := by
      have htake : (recordsFrom newline log c').take cfg.drainBatchSize = [] := by
        rw [← hrecs]
        simpa using hempty
      rcases List.take_eq_nil_iff.1 htake with hzero | hnil
      · omega
      · exact hnil
    refine ⟨?_, c', h.1, hnil⟩
    rw [hsplit, hnil, List.append_nil]
    exact hpre
  · have hne : tail.records ≠ [] := by simpa using hempty
    obtain ⟨rest, hrest⟩ : tail.records <+: recordsFrom newline log c' := by
      rw [hrecs]
      exact List.take_prefix _ _
    have hfixed : Triple (Healthy assign) (fun _ => True) (Fixed log n) (drainTail cfg tail) _ _ :=
      drainTail_healthy cfg tail
    have htail := (drainTail_spec cfg hne (by rw [hstart, hend])).and hfixed
    refine Triple.bind (htail.conseq ?_ (fun _ _ h => h) (fun _ _ h => h.2)) fun drained => ?_
    · intro w h
      rw [hstart]
      exact ⟨h.1.ready ⟨rest, hrest⟩, h.1.2⟩
    · cases drained with
      | true =>
        have hnext : recordsFrom newline log tail.endOffset = rest := by
          rw [hend]
          exact recordsFrom_endOf hrest.symm
        refine Triple.of_pre fun _ h => ?_
        refine Triple.bind ((postCommit_located cfg tail.records tail.endOffset).pre
          fun _ h => ⟨h.1, h.2.2⟩) fun _ => Triple.pure fun w hloc => ?_
        refine ⟨tail.endOffset, hloc, pre ++ tail.records, ?_, ?_⟩
        · rw [hsplit, ← hrest, hnext, List.append_assoc]
        · intro r hr
          rcases List.mem_append.1 hr with hr | hr
          · exact hpre r hr
          · exact h.2.1 r hr
      | false =>
        refine Triple.pure fun w h => ?_
        obtain ⟨hready, ⟨r, hr, hfail⟩, hfixed⟩ := h
        have hmem : r ∈ recordsFrom newline log c' := by
          rw [← hrest]
          exact List.mem_append_left _ hr
        refine ⟨c', ⟨hstart ▸ hready.nil, hfixed⟩, r, ?_, hfail, ?_⟩
        · rw [hsplit]
          exact List.mem_append_right _ hmem
        · exact (lt_stop_of_mem_recordsFrom hmem).1

theorem drainToEof_healthy (hsize : 0 < cfg.drainBatchSize) (c : Nat) :
    Triple (Healthy assign) Safe (Located log n c) (drainToEof cfg)
      (fun drained => if drained then TailDrained cfg assign log n c
        else TailStuck cfg assign log n c)
      (fun _ _ => False) := by
  have hloop : Triple (Healthy assign) Safe (TailSoFar cfg assign log n c) (drainToEof cfg)
      (fun drained => if drained then TailDrained cfg assign log n c
        else TailStuck cfg assign log n c) (fun _ _ => False) := by
    refine Triple.loop (I := fun _ => TailSoFar cfg assign log n c)
      (fun _ _ ⟨_, h, _⟩ => h.1.safe) (fun _ => ?_) ()
    refine Triple.exists_pre fun c' => ?_
    refine Triple.of_pre fun _ ⟨_, pre, hsplit, hpre⟩ => ?_
    exact (drainToEofRound_healthy cfg hsize c c' hsplit hpre).pre fun _ h => h.1
  exact hloop.pre fun w h => ⟨c, h, [], rfl, fun _ h => nomatch h⟩

/-! ## Finalizing -/

/-- Every record of the log is written or dead-lettered, and the log is deleted or committed to
the end of its complete part. -/
structure Drained (log : Bytes) (n : Nat) (w : World) : Prop where
  accounted : ∀ r ∈ records newline log, (n, r) ∈ w.written
    ∨ ((n, r) ∈ w.quarantined ∧ r.raw ∈ w.spool.deadPayloads)
  files : (w.spool.log = none ∧ w.spool.offset = none)
    ∨ (w.spool.log = some log ∧ w.spool.committedOffset = completeEnd newline 0 [] log)

theorem Located.drained {c : Nat} {w : World} (h : Located log n c w)
    (hnil : recordsFrom newline log c = []) : Drained log n w := by
  have hb := h.boundary
  refine ⟨fun r hr => ?_, Or.inr ⟨h.2.log_eq, ?_⟩⟩
  · have hbelow : r ∈ records newline (log.take c) := by
      have hall := records_eq_append_recordsFrom hb
      rw [hnil, List.append_nil] at hall
      rwa [← hall]
    have hle : r.stop ≤ w.spool.committedOffset := by
      rw [h.1.offset]
      exact (mem_records_take_iff hb hr).1 hbelow
    have hmem : r ∈ w.spool.records := by
      rw [Spool.records, h.2.content]
      exact hr
    rw [← h.2.number]
    exact h.1.safe.commitSafe r hmem hle
  · rw [h.1.offset]
    exact eq_completeEnd_of_recordsFrom_eq_nil hb hnil

variable {c : Nat}

theorem deleteDrained_located (hnil : recordsFrom newline log c = []) :
    Triple (Healthy assign) Safe (Located log n c) deleteDrained
      (fun deleted w => if deleted then Safe w ∧ Drained log n w else Located log n c w)
      (fun _ _ => False) := by
  refine op_healthy nofun (fun _ h => h.1.safe) fun reading w h => ?_
  rcases w.spool.deleteDrained_cases with ⟨_, heq⟩ | ⟨_, heq⟩
  · simp only [heq, withSpool_self]
    exact h
  · simp only [heq]
    exact ⟨h.1.safe.deleted, (h.drained hnil).accounted, Or.inl ⟨rfl, rfl⟩⟩

theorem finalizeDelete_healthy (hsize : 0 < cfg.drainBatchSize) (left c : Nat)
    (hnil : recordsFrom newline log c = []) :
    Triple (Healthy assign) Safe (Located log n c) (finalizeDelete cfg left)
      (fun finished w => finished = true ∧ Safe w ∧ Drained log n w) (fun _ _ => False) := by
  induction left generalizing c with
  | zero => exact Triple.pure fun _ h => ⟨rfl, h.1.safe, h.drained hnil⟩
  | succ left ih =>
    refine Triple.bind (deleteDrained_located hnil) fun deleted => ?_
    cases deleted with
    | true => exact Triple.pure fun _ h => ⟨rfl, h⟩
    | false =>
      simp only [Bool.false_eq_true, if_false]
      refine Triple.ite (fun _ => Triple.pure fun _ h => ⟨rfl, h.1.safe, h.drained hnil⟩)
        (fun _ => ?_)
      refine Triple.bind (drainToEof_healthy cfg hsize c) fun drained => ?_
      cases drained with
      | true =>
        refine Triple.pre (Triple.exists_pre fun c' => ?_) fun _ h => h.2
        refine Triple.of_pre fun _ h => ?_
        exact (ih c' h.2).pre fun _ h => h.1
      | false =>
        refine Triple.of_pre fun _ ⟨_, _, r, hr, _⟩ => ?_
        rw [hnil] at hr
        cases hr

theorem safeClose_drained :
    Triple (Healthy assign) Safe (fun w => Safe w ∧ Drained log n w)
      (do
        safeClose cfg
        deregister
        pure Exit.finalized)
      (fun exit w => exit = .finalized ∧ Safe w ∧ Drained log n w) (fun _ _ => False) := by
  have hclosed : Triple (Healthy assign) (fun _ => True) (Drained log n) (safeClose cfg)
      (fun _ => Drained log n) (fun _ _ => False) := by
    refine Triple.bind (R := fun _ => Drained log n)
      (Triple.modify fun _ h => ⟨h.accounted, h.files⟩) fun _ => ?_
    refine Triple.bind (R := fun _ => Drained log n) ?_ fun _ => ?_
    · exact Triple.ite (fun _ => Triple.modify fun _ h => ⟨h.accounted, h.files⟩)
        (fun _ => Triple.pure fun _ h => h)
    · refine Triple.tryCatch (R := fun _ _ => False) ?_ fun _ => fun _ _ _ h => h.elim
      refine op_healthy nofun (fun _ _ => trivial) fun _ w h => ⟨fun r hr => ?_, h.files⟩
      exact (h.accounted r hr).imp (fun hw => List.mem_append_left _ hw) id
  refine Triple.bind (((safeClose_spec cfg).and hclosed).raises (fun _ _ h => h.2)) fun _ => ?_
  refine Triple.bind (R := fun _ w => Safe w ∧ Drained log n w) ?_ fun _ =>
    Triple.pure fun _ h => ⟨rfl, h⟩
  exact Triple.modify fun _ h => ⟨h.1.congr rfl rfl rfl rfl, h.2.accounted, h.2.files⟩

/-- What `_finalize_session` leaves when it starts at offset `c`. -/
def Finished (cfg : Config) (assign : Record → Option Failure) (log : Bytes) (n c : Nat)
    (exit : Exit) (w : World) : Prop :=
  (exit = .finalized ∧ (∀ r ∈ recordsFrom newline log c, ¬ Fails cfg assign r)
      ∧ Safe w ∧ Drained log n w)
    ∨ (exit = .orphaned ∧ TailStuck cfg assign log n c w)

theorem Finished.safe {cfg : Config} {c : Nat} {exit : Exit} {w : World}
    (h : Finished cfg assign log n c exit w) : Safe w := by
  rcases h with ⟨_, _, hsafe, _⟩ | ⟨_, _, hloc, _⟩
  · exact hsafe
  · exact hloc.1.safe

theorem finalizeSession_healthy (hsize : 0 < cfg.drainBatchSize) (c : Nat) :
    Triple (Healthy assign) Safe (Located log n c) (finalizeSession cfg)
      (Finished cfg assign log n c) (fun _ _ => False) := by
  refine Triple.bind (drainToEof_healthy cfg hsize c) fun drained => ?_
  cases drained with
  | false => exact Triple.pure fun _ h => Or.inr ⟨rfl, h⟩
  | true =>
    refine Triple.of_pre fun _ h => ?_
    have hok := h.1
    refine Triple.pre (Triple.exists_pre fun c' => ?_) fun _ h => h.2
    refine Triple.of_pre fun _ h => ?_
    refine Triple.bind ((finalizeDelete_healthy cfg hsize _ c' h.2).pre fun _ h => h.1)
      fun finished => ?_
    refine Triple.of_pre fun _ h => ?_
    obtain rfl := h.1
    refine ((safeClose_drained cfg).pre fun _ h => h.2).conseq (fun _ h => h) ?_
      (fun _ _ h => h)
    intro exit w h
    exact .inl ⟨h.1, hok, h.2⟩

/-! ## The drain loop -/

/-- What lies below offset `c` of the log holds no terminal record. -/
def Behind (cfg : Config) (log : Bytes) (c : Nat) : Prop :=
  ∃ pre, records newline log = pre ++ recordsFrom newline log c
    ∧ ∀ r ∈ pre, cfg.isTerminal r = false

/-- The first terminal record of the log is the first record above offset `c`. -/
def AtTerminal (cfg : Config) (log : Bytes) (c : Nat) : Prop :=
  ∃ pre t post, records newline log = pre ++ t :: post
    ∧ (∀ r ∈ pre, cfg.isTerminal r = false) ∧ cfg.isTerminal t = true
    ∧ recordsFrom newline log c = t :: post

theorem Behind.advance {cfg : Config} {rs rest : List Record} (h : Behind cfg log c)
    (hsplit : recordsFrom newline log c = rs ++ rest)
    (hrs : ∀ r ∈ rs, cfg.isTerminal r = false) : Behind cfg log (endOf c rs) := by
  obtain ⟨pre, hpre, hnone⟩ := h
  refine ⟨pre ++ rs, ?_, ?_⟩
  · rw [hpre, recordsFrom_endOf hsplit, hsplit, List.append_assoc]
  · intro r hr
    rcases List.mem_append.1 hr with hr | hr
    · exact hnone r hr
    · exact hrs r hr

theorem Behind.atTerminal {cfg : Config} {pre post : List Record} {t : Record}
    (h : Behind cfg log c) (hsplit : recordsFrom newline log c = pre ++ t :: post)
    (hpre : ∀ r ∈ pre, cfg.isTerminal r = false) (ht : cfg.isTerminal t = true) :
    AtTerminal cfg log (endOf c pre) := by
  obtain ⟨pre', heq, hnone⟩ := h.advance hsplit hpre
  rw [recordsFrom_endOf hsplit] at heq
  exact ⟨pre', t, post, heq, hnone, ht, recordsFrom_endOf hsplit⟩

/-- The loop goes on: the log was trimmed, or the drain stands in front of every terminal
record. -/
def Going (cfg : Config) (log : Bytes) (n : Nat) (w : World) : Prop :=
  (Safe w ∧ w.spool.log = none) ∨ ∃ c, Located log n c w ∧ Behind cfg log c

theorem Going.safe {cfg : Config} {w : World} (h : Going cfg log n w) : Safe w := by
  rcases h with h | ⟨c, h, _⟩
  · exact h.1
  · exact h.1.safe

/-- What a drain that met `session:end` leaves behind. -/
def Returned (cfg : Config) (assign : Record → Option Failure) (log : Bytes) (n : Nat)
    (exit : Exit) (w : World) : Prop :=
  ∃ pre t post, records newline log = pre ++ t :: post
    ∧ (∀ r ∈ pre, cfg.isTerminal r = false) ∧ cfg.isTerminal t = true
    ∧ ((exit = .finalized ∧ (∀ r ∈ t :: post, ¬ Fails cfg assign r) ∧ Drained log n w)
      ∨ (exit = .orphaned ∧ Fixed log n w ∧ CommitSafe w
        ∧ ∃ r ∈ t :: post, Fails cfg assign r ∧ w.spool.committedOffset ≤ r.start))

theorem Finished.returned {cfg : Config} {c : Nat} {exit : Exit} {w : World}
    (h : Finished cfg assign log n c exit w) (hc : AtTerminal cfg log c) :
    Returned cfg assign log n exit w := by
  obtain ⟨pre, t, post, hrecs, hpre, ht, hfrom⟩ := hc
  refine ⟨pre, t, post, hrecs, hpre, ht, ?_⟩
  rw [Finished, TailStuck, hfrom] at h
  rcases h with ⟨rfl, hok, _, hdrained⟩ | ⟨rfl, c', hloc, r, hr, hfail, hle⟩
  · exact .inl ⟨rfl, hok, hdrained⟩
  · refine .inr ⟨rfl, hloc.2, hloc.1.safe.commitSafe, r, hr, hfail, ?_⟩
    rwa [hloc.1.offset]

def RoundEnd (cfg : Config) (assign : Record → Option Failure) (log : Bytes) (n : Nat)
    (r : Budget ⊕ Exit) (w : World) : Prop :=
  Sum.elim (fun _ w => Going cfg log n w)
    (fun exit w => Safe w ∧ (exit = .finalized ∨ exit = .orphaned →
      Returned cfg assign log n exit w)) r w

theorem finalize_roundEnd (hsize : 0 < cfg.drainBatchSize) :
    Triple (Healthy assign) Safe (fun w => ∃ c, Located log n c w ∧ AtTerminal cfg log c)
      (do
        let exit ← finalizeSession cfg
        pure (.inr exit : Budget ⊕ Exit))
      (RoundEnd cfg assign log n) (fun _ => Safe) := by
  refine Triple.exists_pre fun c => Triple.of_pre fun _ ⟨_, hc⟩ => ?_
  refine Triple.bind ((finalizeSession_healthy cfg hsize c).conseq (fun _ h => h.1)
    (fun _ _ h => h) (fun _ _ h => h.elim)) fun exit => Triple.pure fun w h => ?_
  exact ⟨h.safe, fun _ => h.returned hc⟩

theorem op_going {α : Type} {o : Op} {act : Action World Reading α} (ho : ∀ r, o ≠ .dispatch r)
    (h : ∀ reading w, Going cfg log n w → Going cfg log n (act.finish reading w).2) :
    Triple (Healthy assign) Safe (Going cfg log n) (op o act) (fun _ => Going cfg log n)
      (fun _ => Safe) :=
  (op_healthy ho (fun _ h => h.safe) h).raisesNever

theorem transientRetry_roundEnd (budget : Budget) :
    Triple (Healthy assign) Safe (Going cfg log n) (transientRetry budget)
      (RoundEnd cfg assign log n) (fun _ => Safe) := by
  unfold transientRetry
  split
  · exact Triple.raise fun _ h => h.safe
  · exact Triple.bind (op_going cfg nofun fun _ _ h => h) fun _ => Triple.pure fun _ h => h

theorem closeAndLeave_roundEnd {exit : Exit} (hexit : exit ≠ .finalized)
    (hexit' : exit ≠ .orphaned) :
    Triple (Healthy assign) Safe Safe (closeAndLeave cfg exit) (RoundEnd cfg assign log n)
      (fun _ => Safe) := by
  refine (closeAndLeave_spec cfg exit).conseq (fun _ h => h) ?_ (fun _ _ h => h)
  rintro r w ⟨rfl, hsafe⟩
  exact ⟨hsafe, fun h => (h.elim hexit hexit').elim⟩

theorem idle_healthy (budget : Budget) :
    Triple (Healthy assign) Safe (Going cfg log n) (idle cfg budget)
      (RoundEnd cfg assign log n) (fun _ => Safe) := by
  refine Triple.bind (op_going cfg nofun fun _ _ h => h) fun reading => ?_
  refine Triple.ite (fun _ => ?_) (fun _ => Triple.pure fun _ h => h)
  refine Triple.bind (R := fun _ => Going cfg log n) (Triple.get fun _ h => h) fun w => ?_
  refine Triple.ite (fun _ => ?_) (fun _ => ?_)
  · exact Triple.pre (closeAndLeave_roundEnd cfg (by decide) (by decide)) fun _ h => h.safe
  · refine Triple.bind (op_going cfg nofun fun _ w h => ?_) fun _ => Triple.pure fun _ h => h
    rcases w.spool.deleteDrained_cases with ⟨_, heq⟩ | ⟨_, heq⟩
    · simp only [heq, withSpool_self]
      exact h
    · simp only [heq]
      exact .inl ⟨h.safe.deleted, rfl⟩

variable {batch : Spool.Batch} {rest : List Record}

theorem batchFailed_healthy (hsize : 0 < cfg.drainBatchSize) (budget : Budget)
    (e : Exn) (hbehind : Behind cfg log c)
    (hrest : recordsFrom newline log c = batch.records ++ rest) :
    Triple (Healthy assign) Safe (Located log n c) (batchFailed cfg budget batch e)
      (RoundEnd cfg assign log n) (fun _ => Safe) := by
  refine Triple.ite (fun _ => ?_) (fun _ => Triple.ite (fun _ => ?_) (fun _ => ?_))
  · exact (transientRetry_roundEnd cfg _).pre fun _ h => Or.inr ⟨c, h, hbehind⟩
  · have hcalm : Calm assign log n (isolateBatch cfg batch) := calm_isolateBatch cfg batch
    have hisolate := (isolateBatch_spec (admissible_healthy assign) cfg c batch).and hcalm
    refine Triple.bind (hisolate.conseq (fun w h => ⟨h.ready ⟨rest, hrest.symm⟩, h.2⟩)
      (fun _ _ h => h) (fun _ _ h => h.1)) fun seen => ?_
    match seen with
    | none =>
      refine (transientRetry_roundEnd cfg _).pre ?_
      rintro w ⟨⟨pre, post, hsplit, hpre, hready⟩, hfixed⟩
      have hfrom : recordsFrom newline log c = pre ++ (post ++ rest) := by
        rw [hrest, hsplit, List.append_assoc]
      exact .inr ⟨endOf c pre, ⟨hready, hfixed⟩, hbehind.advance hfrom hpre⟩
    | some true =>
      refine (finalize_roundEnd cfg hsize).pre ?_
      rintro w ⟨⟨pre, t, post, hsplit, hpre, ht, hready⟩, hfixed⟩
      have hfrom : recordsFrom newline log c = pre ++ t :: (post ++ rest) := by
        rw [hrest, hsplit, List.append_assoc, List.cons_append]
      exact ⟨endOf c pre, ⟨hready, hfixed⟩, hbehind.atTerminal hfrom hpre ht⟩
    | some false =>
      refine Triple.pure fun w h => Or.inr ⟨endOf c batch.records, ⟨h.1.2, h.2⟩, ?_⟩
      exact hbehind.advance hrest h.1.1
  · exact Triple.pre (Triple.bind (op_going cfg nofun fun _ _ h => h) fun _ =>
      Triple.pure fun _ h => h) fun _ h => Or.inr ⟨c, h, hbehind⟩

theorem batchCommitted_healthy (hsize : 0 < cfg.drainBatchSize) (budget : Budget)
    {counted : Nat × Option Nat} (hbehind : Behind cfg log batch.startOffset)
    (hrest : recordsFrom newline log batch.startOffset = batch.records ++ rest)
    (hstop : batch.endOffset = endOf batch.startOffset batch.records)
    (hcount : counted = tally cfg batch.records 0 none) (records : List Record) :
    Triple (Healthy assign) Safe (Located log n (commitTo batch counted.2))
      (batchCommitted cfg budget records counted.2)
      (RoundEnd cfg assign log n) (fun _ => Safe) := by
  refine Triple.bind ((postCommit_located cfg records _).raisesNever) fun _ => ?_
  rcases tally_none cfg batch.records 0 with ⟨hnone, heq⟩ | ⟨pre, t, post, hsplit, hpre, ht, heq⟩
  · rw [hcount, heq]
    refine Triple.pure fun w h => Or.inr ⟨batch.endOffset, h, ?_⟩
    rw [hstop]
    exact hbehind.advance hrest hnone
  · rw [hcount, heq]
    have hfrom : recordsFrom newline log batch.startOffset = pre ++ t :: (post ++ rest) := by
      rw [hrest, hsplit, List.append_assoc, List.cons_append]
    have hstart : t.start = endOf batch.startOffset pre :=
      (recordsFrom_eq_cons (recordsFrom_endOf hfrom)).1
    refine (finalize_roundEnd cfg hsize).pre fun w h => ⟨_, h, ?_⟩
    rw [commitTo, hstart]
    exact hbehind.atTerminal hfrom hpre ht

theorem drainBatch_healthy (hsize : 0 < cfg.drainBatchSize) (budget : Budget)
    (hne : batch.records ≠ []) (hbehind : Behind cfg log batch.startOffset)
    (hrest : recordsFrom newline log batch.startOffset = batch.records ++ rest)
    (hstop : batch.endOffset = endOf batch.startOffset batch.records) :
    Triple (Healthy assign) Safe (Located log n batch.startOffset) (drainBatch cfg budget batch)
      (RoundEnd cfg assign log n) (fun _ => Safe) := by
  have hcalm : Triple (Healthy assign) (fun _ => True) (Fixed log n) (writeBatch cfg batch) _ _ :=
    writeBatch_healthy cfg batch
  have hwrite := (writeBatch_spec cfg hne hstop).and hcalm
  refine Triple.bind (hwrite.conseq (fun w h => ⟨h.ready ⟨rest, hrest.symm⟩, h.2⟩)
    (fun _ _ h => h) (fun _ _ h => h.1)) fun result => ?_
  refine Triple.of_pre fun _ h => ?_
  match result, h.2.1 with
  | .ok counted, _ =>
    exact (batchCommitted_healthy cfg hsize budget hbehind hrest hstop h.1.1 _).pre
      fun _ h => ⟨h.1.2, h.2.2⟩
  | .error (.queueCommitFailure cause), hret => exact (hret _ rfl).elim
  | .error .cancelled, hret => exact (hret _ rfl).elim
  | .error .infra, _ =>
    exact (batchFailed_healthy cfg hsize budget _ hbehind hrest).pre
      fun _ h => ⟨(h.1.2.2 trivial).nil, h.2.2⟩
  | .error .poison, _ =>
    exact (batchFailed_healthy cfg hsize budget _ hbehind hrest).pre
      fun _ h => ⟨(h.1.2.2 trivial).nil, h.2.2⟩
  | .error .transientInfraFailure, _ => exact Triple.of_pre fun _ h => h.1.1.elim

theorem drainRound_healthy (budget : Budget) :
    Triple (Healthy assign) Safe (Going cfg log n) (drainRound cfg budget)
      (RoundEnd cfg assign log n) (fun _ => Safe) := by
  refine Triple.tryCatch (R := fun _ => Safe) ?_ fun e => ?_
  · refine Triple.or_pre ?_ (Triple.exists_pre fun c => ?_)
    · -- a trimmed log is empty, so the batch is
      refine Triple.bind (R := fun batch w => batch.records = [] ∧ Going cfg log n w) ?_
        fun batch => ?_
      · refine Triple.conseq (op_healthy (fun _ => by simp) (fun _ h => h.1) fun _ w h => ?_)
          (fun _ h => h)
          (fun _ _ h => h) (fun _ _ h => h.elim)
        refine ⟨?_, Or.inl h⟩
        simp only [Action.still, Spool.readBatch_records, Spool.uncommitted,
          Spool.content_of_log_none h.2, recordsFrom, List.drop_nil, scan, List.take_nil]
      · refine Triple.of_pre fun _ h => ?_
        simp only [h.1, List.isEmpty_nil, if_true]
        exact (idle_healthy cfg budget).pre fun _ h => h.2
    · refine Triple.of_pre fun _ hat => ?_
      obtain ⟨_, hbehind⟩ := hat
      refine Triple.bind ((readBatch_located cfg c).conseq (fun _ h => h.1) (fun _ _ h => h)
        (fun _ _ h => h.elim)) fun batch => ?_
      refine Triple.of_pre fun _ hread => ?_
      obtain ⟨_, hstart, hrecs, hstop⟩ := hread
      subst hstart
      refine Triple.ite (fun _ => ?_) (fun hempty => ?_)
      · exact (idle_healthy cfg budget).pre fun _ h => Or.inr ⟨_, h.1, hbehind⟩
      · have hne : batch.records ≠ [] := by simpa using hempty
        have hsize : 0 < cfg.drainBatchSize := by
          rcases Nat.eq_zero_or_pos cfg.drainBatchSize with hzero | hpos
          · rw [hrecs, hzero, List.take_zero] at hne
            exact absurd rfl hne
          · exact hpos
        obtain ⟨rest, hrest⟩ : batch.records <+: recordsFrom newline log batch.startOffset := by
          rw [hrecs]
          exact List.take_prefix _ _
        exact (drainBatch_healthy cfg hsize budget hne hbehind hrest.symm hstop).pre
          fun _ h => h.1
  · cases e with
    | cancelled => exact closeAndLeave_roundEnd cfg (by decide) (by decide)
    | _ => exact Triple.raise fun _ h => h

theorem drainWorker_healthy :
    Triple (Healthy assign) Safe (Going cfg log n) (drainWorker cfg)
      (fun exit w => Safe w ∧ (exit = .finalized ∨ exit = .orphaned →
        Returned cfg assign log n exit w)) (fun _ => Safe) :=
  Triple.loop (I := fun _ => Going cfg log n) (fun _ _ h => h.safe)
    (fun budget => drainRound_healthy cfg budget) _

end Healthy

/-! ## The result -/

/-- A worker that was just created for a key whose log holds `log`. -/
def World.created (log : Bytes) : World := (World.initial (some log)).spawn

theorem going_created (log : Bytes) : Going cfg log 0 (World.created log) := by
  refine .inr ⟨0, ⟨⟨?_, rfl, List.nil_prefix⟩, rfl, rfl, rfl, rfl⟩, [], rfl, ?_⟩
  · exact (safe_initial (some log)).congr rfl rfl rfl rfl
  · exact fun _ h => nomatch h

theorem drainWorker_returns (assign : Record → Option Failure) (log : Bytes)
    (turns : List DrainTurn) (hturns : ∀ t ∈ turns, Healthy assign t) (exit : Exit) (w : World)
    (rest : List DrainTurn) (hrun : drainWorker cfg (World.created log) turns = (.ok exit, w, rest))
    (hend : exit = .finalized ∨ exit = .orphaned) : Returned cfg assign log 0 exit w := by
  have hpost := (drainWorker_healthy cfg (World.created log) turns hturns
    (going_created cfg log)).1
  rw [hrun] at hpost
  exact hpost.2 hend

def Config.fromTerminal (cfg : Config) (rs : List Record) : List Record :=
  rs.dropWhile fun r => !cfg.isTerminal r

theorem fromTerminal_eq {cfg : Config} {rs pre post : List Record} {t : Record}
    (hrs : rs = pre ++ t :: post) (hpre : ∀ r ∈ pre, cfg.isTerminal r = false)
    (ht : cfg.isTerminal t = true) : cfg.fromTerminal rs = t :: post := by
  subst hrs
  rw [Config.fromTerminal, List.dropWhile_append_of_pos (by simpa using hpre)]
  simp [ht]

theorem not_drained_of_uncommitted {log : Bytes} {n : Nat} {w : World} {r : Record}
    (hlog : w.spool.log = some log) (hr : r ∈ records newline log)
    (hle : w.spool.committedOffset ≤ r.start) : ¬ Drained log n w := by
  intro h
  rcases h.files with ⟨hnone, _⟩ | ⟨_, hend⟩
  · rw [hlog] at hnone
    cases hnone
  · obtain ⟨_, hlt, hstop⟩ := mem_scan_bounds newline hr
    omega

/-- **Drain completeness.**  With everything but the handlers healthy, a drain that returns
because it met `session:end` leaves the log deleted or committed to its end with every record
written or dead-lettered exactly when no record from the first terminal one on fails. -/
theorem drained_iff_fromTerminal_processable (cfg : Config)
    (assign : Record → Option Failure) (log : Bytes) (turns : List DrainTurn)
    (hturns : ∀ t ∈ turns, Healthy assign t) (exit : Exit) (w : World) (rest : List DrainTurn)
    (hrun : drainWorker cfg (World.created log) turns = (.ok exit, w, rest))
    (hend : exit = .finalized ∨ exit = .orphaned) :
    Drained log 0 w ↔ ∀ r ∈ cfg.fromTerminal (records newline log), ¬ Fails cfg assign r := by
  obtain ⟨pre, t, post, hrecs, hpre, ht, hcases⟩ :=
    drainWorker_returns cfg assign log turns hturns exit w rest hrun hend
  rw [fromTerminal_eq hrecs hpre ht]
  rcases hcases with ⟨_, hok, hdrained⟩ | ⟨_, hfixed, _, r, hr, hfail, hle⟩
  · exact ⟨fun _ => hok, fun _ => hdrained⟩
  · have hmem : r ∈ records newline log := by
      rw [hrecs]
      exact List.mem_append_right _ hr
    exact ⟨fun h => absurd h (not_drained_of_uncommitted hfixed.log_eq hmem hle),
      fun h => absurd hfail (h r hr)⟩

def healthyTurn (assign : Record → Option Failure) : DrainTurn :=
  ⟨[], ⟨false, false⟩, fun o => match o with
    | .dispatch r => handlerFate (assign r)
    | _ => .ok⟩

theorem healthy_healthyTurn (assign : Record → Option Failure) :
    Healthy assign (healthyTurn assign) where
  quiet := rfl
  handlers := fun _ => rfl
  others := by
    intro o ho
    cases o with
    | dispatch r => exact absurd rfl (ho r)
    | _ => rfl

/-- Two delivery attempts; the line `e` is a `session:end`, every other line a prompt. -/
def endAtE : Config :=
  Config.live (fun raw => if raw = [101] then some "session:end" else some "prompt:submit") 100 2

/-- The handlers of the line `x` always fail. -/
def xFails (r : Record) : Option Failure := if r.raw = [120] then some .poison else none

/-- A drain of the log `e`, `x` in which the record behind `session:end` always fails. -/
def failingTail : Outcome Exn Exit × World × List DrainTurn :=
  drainWorker endAtE (World.created [101, newline, 120, newline])
    (List.replicate 10 (healthyTurn xFails))

/-- The record behind `session:end` is neither written nor dead-lettered when the drain
returns. -/
theorem failingTail_leaves_record :
    failingTail.1 = .ok .orphaned
      ∧ (0, ⟨[120], 2, 4⟩) ∉ failingTail.2.1.written
      ∧ (0, ⟨[120], 2, 4⟩) ∉ failingTail.2.1.quarantined
      ∧ failingTail.2.1.spool = ⟨some [101, newline, 120, newline], none, none⟩ := by
  decide

/-- A drain of the log `x`, `e` in which the record in front of `session:end` always fails. -/
def failingFront : Outcome Exn Exit × World × List DrainTurn :=
  drainWorker endAtE (World.created [120, newline, 101, newline])
    (List.replicate 20 (healthyTurn xFails))

theorem failingFront_drained :
    failingFront.1 = .ok .finalized ∧ Drained [120, newline, 101, newline] 0 failingFront.2.1 := by
  have hexit : failingFront.1 = .ok .finalized := by decide
  refine ⟨hexit, ?_⟩
  refine (drained_iff_fromTerminal_processable endAtE xFails [120, newline, 101, newline]
    (List.replicate 20 (healthyTurn xFails)) ?_ .finalized failingFront.2.1 failingFront.2.2 ?_
    (.inl rfl)).2 ?_
  · intro t ht
    rw [List.eq_of_mem_replicate ht]
    exact healthy_healthyTurn xFails
  · exact Prod.ext hexit rfl
  · intro r hr
    have hmem : r ∈ [(⟨[101], 2, 4⟩ : Record)] := hr
    rw [List.mem_singleton.1 hmem, Fails]
    decide

end ContextIntelligence.Drain
