import ContextIntelligence.Queue.Spool
import ContextIntelligence.Lib.Runs

/-!
# A live drainer beside the background passes

`read_batch`, `commit` and the offset write of `recovery_reconcile_dead` take no key guard. A `Sys`
is one key with one drainer, one reconcile pass and the operation that holds the guard; a step is
one file operation of one of them. The proof rests on `Covered`: a position of a log below which
every record was read or dead-lettered, which each step keeps (`Keeps.covered`).
-/

namespace ContextIntelligence.Queue

open Lib.Lines Lib.Runs

/-! ## The key and its threads -/

/-- Where the drainer stands: outside, behind the offset read of `read_batch`, or with a batch
whose records it may still commit. Each carries the number of the log at that moment. -/
inductive Drainer where
  | idle
  | gotOffset (number start : Nat)
  | gotBatch (number start : Nat) (records : List Record)
  deriving DecidableEq, Repr

/-- Where `recovery_reconcile_dead` stands for this key: it has seen the log, read the dead
payloads, the offset and the end of the complete data, or computed the offset it will write. -/
inductive Reconcile where
  | idle
  | seen (number : Nat)
  | gotDead (number : Nat) (dead : List Bytes)
  | gotOffset (number : Nat) (dead : List Bytes) (committed : Nat)
  | gotEnd (number : Nat) (dead : List Bytes) (committed completeEnd : Nat)
  | replacing (number pos : Nat)
  deriving DecidableEq, Repr

/-- The operation under the key guard, and the file operation it does next. -/
inductive Holder where
  | free
  | opening (raw : Bytes)
  | writing (rest : Bytes)
  | deadLettering (payload : Bytes)
  | drainedStat
  | drainedOffset (size : Nat)
  | drainedUnlinkLog
  | drainedUnlinkOffset
  | sessionOffset
  | sessionEnd (committed : Nat)
  | sessionCount (committed completeEnd : Nat)
  | sessionUnlinkLog
  | sessionUnlinkOffset
  | sessionUnlinkDead
  deriving DecidableEq, Repr

inductive Guarded where
  | append (raw : Bytes)
  | deadLetter (payload : Bytes)
  | deleteDrained
  | deleteSession
  deriving DecidableEq, Repr

def Guarded.first : Guarded → Holder
  | .append raw => .opening raw
  | .deadLetter payload => .deadLettering payload
  | .deleteDrained => .drainedStat
  | .deleteSession => .sessionOffset

/-- One key with its threads. `accepted` are the records appended, `batches` what the log reads
of `read_batch` returned, both with the number of the log. -/
structure Sys where
  spool : Spool
  logNumber : Nat
  accepted : List (Nat × Record)
  batches : List (Nat × List Record)
  drainer : Drainer
  reconcile : Reconcile
  holder : Holder
  deriving DecidableEq, Repr

/-- One file operation of one of the threads. `advance` is the next one of the operation under
the guard; a write writes `n + 1` of the bytes that are left. -/
inductive Action where
  | readOffset
  | readLog (maxItems : Nat)
  | commit (count : Nat)
  | reconcile
  | acquire (op : Guarded)
  | advance (n : Nat)
  deriving DecidableEq, Repr

namespace Sys

/-- The log read of `read_batch`, from the offset read before. -/
def readLog (maxItems : Nat) (s : Sys) : Sys :=
  match s.drainer with
  | .gotOffset _ start =>
    let rs := match s.spool.log with
      | none => []
      | some bytes => readRecords newline maxItems start (bytes.drop start)
    { s with
      batches := s.batches ++ [(s.logNumber, rs)]
      drainer := if rs = [] then .idle else .gotBatch s.logNumber start rs }
  | _ => s

/-- `commit` behind the first `count` records of the batch; behind the last one the drainer is
done with it. -/
def commit (count : Nat) (s : Sys) : Sys :=
  match s.drainer with
  | .gotBatch number start rs =>
    { s with
      spool := s.spool.commit (endOf start (rs.take count))
      drainer := if rs.length ≤ count then .idle else .gotBatch number start rs }
  | _ => s

/-- The next file operation of `recovery_reconcile_dead`. -/
def reconcileStep (s : Sys) : Sys :=
  match s.reconcile with
  | .idle => if s.spool.log.isSome then { s with reconcile := .seen s.logNumber } else s
  | .seen number =>
    { s with reconcile :=
        if s.spool.deadPayloadSet = [] then .idle else .gotDead number s.spool.deadPayloadSet }
  | .gotDead number dead =>
    { s with reconcile := .gotOffset number dead s.spool.committedOffset }
  | .gotOffset number dead committed =>
    { s with reconcile := .gotEnd number dead committed s.spool.completeDataEnd }
  | .gotEnd number dead committed completeEnd =>
    match s.spool.log with
    -- opening the missing log raises, and the pass leaves the key
    | none => { s with reconcile := .idle }
    | some bytes =>
      let pos := Spool.stepOverDead completeEnd dead committed
        (recordsFrom newline bytes committed)
      { s with reconcile := if committed < pos then .replacing number pos else .idle }
  | .replacing _ pos => { s with spool := s.spool.commit pos, reconcile := .idle }

/-- The append opens the log, which creates it when there is none. -/
def openLog (raw : Bytes) (s : Sys) : Sys :=
  let number := if s.spool.log.isNone then s.logNumber + 1 else s.logNumber
  { s with
    spool := s.spool.writeLog []
    logNumber := number
    accepted := s.accepted
      ++ (scan newline s.spool.content.length [] (Spool.frame raw)).map fun r => (number, r)
    holder := .writing (Spool.frame raw) }

def advance (n : Nat) (s : Sys) : Sys :=
  match s.holder with
  | .free => s
  | .opening raw => s.openLog raw
  | .writing rest =>
    { s with
      spool := s.spool.writeLog (rest.take (n + 1))
      holder := if rest.length ≤ n + 1 then .free else .writing (rest.drop (n + 1)) }
  | .deadLettering payload => { s with spool := s.spool.deadLetter payload, holder := .free }
  | .drainedStat =>
    { s with holder := match s.spool.log with
        | none => .drainedUnlinkOffset
        | some bytes => .drainedOffset bytes.length }
  | .drainedOffset size =>
    { s with holder := if s.spool.committedOffset < size then .free else .drainedUnlinkLog }
  | .drainedUnlinkLog =>
    { s with spool := { s.spool with log := none }, holder := .drainedUnlinkOffset }
  | .drainedUnlinkOffset => { s with spool := { s.spool with offset := none }, holder := .free }
  | .sessionOffset => { s with holder := .sessionEnd s.spool.committedOffset }
  | .sessionEnd committed =>
    { s with holder := .sessionCount committed s.spool.completeDataEnd }
  | .sessionCount committed completeEnd =>
    { s with holder :=
        if s.spool.countNewlines committed completeEnd ≠ 0 then .free else .sessionUnlinkLog }
  | .sessionUnlinkLog =>
    { s with spool := { s.spool with log := none }, holder := .sessionUnlinkOffset }
  | .sessionUnlinkOffset =>
    { s with spool := { s.spool with offset := none }, holder := .sessionUnlinkDead }
  | .sessionUnlinkDead => { s with spool := { s.spool with dead := none }, holder := .free }

end Sys

def sysStep (s : Sys) : Action → Sys
  | .readOffset => { s with drainer := .gotOffset s.logNumber s.spool.committedOffset }
  | .readLog maxItems => s.readLog maxItems
  | .commit count => s.commit count
  | .reconcile => s.reconcileStep
  | .acquire op => if s.holder = .free then { s with holder := op.first } else s
  | .advance n => s.advance n

/-! ## The property and its condition -/

/-- The files of a key that nobody is working on: no append is under way. -/
structure Resting extends Settled where
  whole : torn newline [] spool.content = []

/-- The threads start at a resting key; what lies below its offset was read before. -/
def Sys.start (r : Resting) : Sys where
  spool := r.spool
  logNumber := 0
  accepted := r.spool.records.map fun record => (0, record)
  batches := [(0, Lib.Lines.records newline (r.spool.content.take r.spool.committedOffset))]
  drainer := .idle
  reconcile := .idle
  holder := .free

/-- A record of the log with this number was in a batch the drainer read from it. -/
def Sys.Read (s : Sys) (number : Nat) (r : Record) : Prop :=
  ∃ rs, (number, rs) ∈ s.batches ∧ r ∈ rs

/-- Every batch consists of records that were appended to one log, and a record of the current
log that starts below the committed offset was read or has its bytes in the dead-letter file. -/
structure DrainerSafe (s : Sys) : Prop where
  batches_whole : ∀ number rs, (number, rs) ∈ s.batches → ∀ r ∈ rs, (number, r) ∈ s.accepted
  nothing_skipped : s.spool.log ≠ none → ∀ r, (s.logNumber, r) ∈ s.accepted →
    r.start < s.spool.committedOffset → s.Read s.logNumber r ∨ r.raw ∈ s.spool.deadPayloads

/-- The condition on one step. The log read of `read_batch` meets the log whose offset was read,
unless that offset was 0; a `commit` and the offset write of the reconcile pass meet the log they
were computed from; and an append that creates the log finds no offset. -/
def Undisturbed (s : Sys) : Action → Prop
  | .readLog _ => match s.drainer with
      | .gotOffset number start => start = 0 ∨ number = s.logNumber
      | _ => True
  | .commit _ => match s.drainer with
      | .gotBatch number _ _ => number = s.logNumber
      | _ => True
  | .reconcile => match s.reconcile with
      | .replacing number _ => number = s.logNumber
      | _ => True
  | .advance _ => match s.holder with
      | .opening _ => s.spool.log = none → s.spool.offset = none
      | _ => True
  | _ => True

/-! ## Covered positions -/

/-- A position of the log with this number below which every record was read or dead-lettered.
It says nothing once that log is gone. -/
def Covered (s : Sys) (number p : Nat) : Prop :=
  number ≤ s.logNumber ∧ (number = s.logNumber → s.spool.log ≠ none →
    Boundary newline s.spool.content p
      ∧ ∀ r, (number, r) ∈ s.accepted → r.start < p →
          s.Read number r ∨ r.raw ∈ s.spool.deadPayloads)

theorem covered_zero (s : Sys) : Covered s s.logNumber 0 :=
  ⟨Nat.le_refl _, fun _ _ => ⟨boundary_zero _ _, fun _ _ h => absurd h (Nat.not_lt_zero _)⟩⟩

/-- What a step may do to the files: the current log is left alone, grows or is removed, and only
a log that is removed takes dead letters with it. -/
structure Keeps (s s' : Sys) : Prop where
  number : s.logNumber ≤ s'.logNumber
  batches : s.batches ⊆ s'.batches
  log : s'.logNumber = s.logNumber → s'.spool.log ≠ none →
    s.spool.log ≠ none ∧ s.spool.content <+: s'.spool.content
      ∧ s.spool.deadPayloads ⊆ s'.spool.deadPayloads
  accepted : ∀ r, (s.logNumber, r) ∈ s'.accepted →
    (s.logNumber, r) ∈ s.accepted ∨ s.spool.content.length ≤ r.start

variable {s s' : Sys}

theorem Keeps.of_eq (hlog : s'.spool.log = s.spool.log)
    (hdead : s'.spool.dead = s.spool.dead) (hnumber : s'.logNumber = s.logNumber)
    (hacc : s'.accepted = s.accepted) (hbatches : s.batches ⊆ s'.batches) : Keeps s s' where
  number := Nat.le_of_eq hnumber.symm
  batches := hbatches
  log := by
    intro _ hsome
    have hcont : s.spool.content = s'.spool.content := by
      simp only [Spool.content, hlog]
    have hpays : s.spool.deadPayloads = s'.spool.deadPayloads := by
      simp only [Spool.deadPayloads, Spool.deadLines, hdead]
    exact ⟨hlog ▸ hsome, ⟨[], (List.append_nil _).trans hcont⟩, fun _ hp => hpays ▸ hp⟩
  accepted := fun r hr => Or.inl (hacc ▸ hr)

theorem Keeps.read {s s' : Sys} (h : Keeps s s') {number : Nat} {r : Record}
    (hread : s.Read number r) : s'.Read number r := by
  obtain ⟨rs, hrs, hr⟩ := hread
  exact ⟨rs, h.batches hrs, hr⟩

theorem Keeps.covered {s s' : Sys} (h : Keeps s s') {number p : Nat}
    (hp : Covered s number p) : Covered s' number p := by
  obtain ⟨hle, hcov⟩ := hp
  refine ⟨Nat.le_trans hle h.number, ?_⟩
  intro hnumber hsome
  -- the numbers only grow, so the log is still the one it was
  have hsame : s'.logNumber = s.logNumber := by
    have hmono := h.number
    omega
  obtain ⟨hlog, ⟨more, hmore⟩, hdead⟩ := h.log hsame hsome
  obtain ⟨hbound, hbelow⟩ := hcov (hnumber.trans hsame) hlog
  constructor
  · rw [← hmore]
    exact hbound.append more
  · intro r hr hlt
    rw [hnumber.trans hsame] at hr
    rcases h.accepted r hr with hold | hnew
    · rw [← hnumber.trans hsame] at hold
      rcases hbelow r hold hlt with hread | hmem
      · exact .inl (h.read hread)
      · exact .inr (hdead hmem)
    · -- a record appended in this step starts above every boundary of the old log
      have hlen := hbound.le_length
      omega

/-! ## The invariant -/

def Holder.rest : Holder → Bytes
  | .writing rest => rest
  | _ => []

/-- The log, completed by what is still to be written, consists of the records appended to it. -/
structure LogOk (log : Option Bytes) (logNumber : Nat) (accepted : List (Nat × Record))
    (rest : Bytes) : Prop where
  numbers : ∀ a ∈ accepted, a.1 ≤ logNumber
  whole : log ≠ none → torn newline [] (log.getD [] ++ rest) = []
  records : log ≠ none → ∀ r, (logNumber, r) ∈ accepted
    ↔ r ∈ Lib.Lines.records newline (log.getD [] ++ rest)

def DrainerOk (s : Sys) : Drainer → Prop
  | .idle => True
  | .gotOffset number start => start = 0 ∨ Covered s number start
  | .gotBatch number start rs => ∀ count, Covered s number (endOf start (rs.take count))

/-- Dead payloads the reconcile pass read while the log with this number was there. -/
def DeadKnown (s : Sys) (number : Nat) (dead : List Bytes) : Prop :=
  number ≤ s.logNumber
    ∧ (number = s.logNumber → s.spool.log ≠ none → dead ⊆ s.spool.deadPayloads)

def ReconcileOk (s : Sys) : Reconcile → Prop
  | .idle => True
  | .seen number => number ≤ s.logNumber
  | .gotDead number dead => DeadKnown s number dead
  | .gotOffset number dead committed => DeadKnown s number dead ∧ Covered s number committed
  | .gotEnd number dead committed _ => DeadKnown s number dead ∧ Covered s number committed
  | .replacing number pos => Covered s number pos

def HolderOk (s : Sys) : Holder → Prop
  | .writing _ => s.spool.log ≠ none
  | .sessionUnlinkOffset => s.spool.log = none
  | .sessionUnlinkDead => s.spool.log = none
  | _ => True

structure Inv (s : Sys) : Prop where
  log : LogOk s.spool.log s.logNumber s.accepted s.holder.rest
  batches_whole : ∀ number rs, (number, rs) ∈ s.batches → ∀ r ∈ rs, (number, r) ∈ s.accepted
  committed : Covered s s.logNumber s.spool.committedOffset
  drainer : DrainerOk s s.drainer
  reconcile : ReconcileOk s s.reconcile
  holder : HolderOk s s.holder

theorem Inv.safe {s : Sys} (h : Inv s) : DrainerSafe s where
  batches_whole := h.batches_whole
  nothing_skipped := fun hlog => (h.committed.2 rfl hlog).2

theorem Keeps.deadKnown (h : Keeps s s') {number : Nat} {dead : List Bytes}
    (hdead : DeadKnown s number dead) : DeadKnown s' number dead := by
  refine ⟨Nat.le_trans hdead.1 h.number, ?_⟩
  intro hnumber hsome
  have hsame : s'.logNumber = s.logNumber := by
    have hmono := h.number
    have hle := hdead.1
    omega
  obtain ⟨hlog, _, hsubset⟩ := h.log hsame hsome
  exact List.Subset.trans (hdead.2 (hnumber.trans hsame) hlog) hsubset

theorem Keeps.drainerOk (h : Keeps s s') {d : Drainer} (hd : DrainerOk s d) : DrainerOk s' d := by
  cases d with
  | idle => trivial
  | gotOffset number start => exact hd.imp_right h.covered
  | gotBatch number start rs => exact fun count => h.covered (hd count)

theorem Keeps.reconcileOk (h : Keeps s s') {r : Reconcile} (hr : ReconcileOk s r) :
    ReconcileOk s' r := by
  cases r with
  | idle => trivial
  | seen number => exact Nat.le_trans hr h.number
  | gotDead number dead => exact h.deadKnown hr
  | gotOffset number dead committed => exact ⟨h.deadKnown hr.1, h.covered hr.2⟩
  | gotEnd number dead committed completeEnd => exact ⟨h.deadKnown hr.1, h.covered hr.2⟩
  | replacing number pos => exact h.covered hr

theorem Covered.of_le {number p : Nat} (hle : number ≤ s.logNumber)
    (h : Covered s s.logNumber p) : Covered s number p := by
  refine ⟨hle, ?_⟩
  intro hnumber hlog
  rw [hnumber]
  exact h.2 rfl hlog

theorem Covered.extend {rest : Bytes} {number p : Nat} {pre : List Record}
    (h : Covered s number p) (hs : LogOk s.spool.log s.logNumber s.accepted rest)
    (hpre : number = s.logNumber → s.spool.log ≠ none →
      pre <+: recordsFrom newline s.spool.content p
        ∧ ∀ r ∈ pre, s.Read number r ∨ r.raw ∈ s.spool.deadPayloads) :
    Covered s number (endOf p pre) := by
  refine ⟨h.1, ?_⟩
  intro hnumber hlog
  obtain ⟨hbound, hbelow⟩ := h.2 hnumber hlog
  obtain ⟨⟨post, hpost⟩, hfine⟩ := hpre hnumber hlog
  have hend := boundary_endOf hbound hpost.symm
  refine ⟨hend, ?_⟩
  intro r hr hlt
  have hrec : r ∈ records newline (s.spool.content ++ rest) := by
    rw [hnumber] at hr
    exact (hs.records hlog r).1 hr
  -- the records above `p` are also the first ones above it once the append is complete
  obtain ⟨post', hpost'⟩ : pre <+: recordsFrom newline (s.spool.content ++ rest) p :=
    List.IsPrefix.trans ⟨post, hpost⟩ (recordsFrom_append rest)
  have hstop := stop_le_of_start_lt (hend.append rest) hrec hlt
  rcases mem_records_below_endOf (hbound.append rest) hpost'.symm hrec hstop with hle | hmem
  · apply hbelow r hr
    have hlt' := (mem_scan_bounds newline hrec).2.1
    omega
  · exact hfine r hmem

/-! ## The steps of the drainer -/

theorem Inv.readOffset (h : Inv s) : Inv (sysStep s .readOffset) :=
  ⟨h.log, h.batches_whole, h.committed, Or.inr h.committed, h.reconcile, h.holder⟩

theorem accepted_of_mem_recordsFrom {rest : Bytes} {p : Nat} {r : Record}
    (hs : LogOk s.spool.log s.logNumber s.accepted rest) (hp : Covered s s.logNumber p)
    (hlog : s.spool.log ≠ none)
    (hr : r ∈ recordsFrom newline s.spool.content p) : (s.logNumber, r) ∈ s.accepted := by
  apply (hs.records hlog r).2
  have hbound := (hp.2 rfl hlog).1
  have hrec : r ∈ records newline s.spool.content := by
    rw [records_eq_append_recordsFrom hbound]
    exact List.mem_append_right _ hr
  unfold records
  rw [scan_append]
  exact List.mem_append_left _ hrec

theorem Inv.readLog (h : Inv s) (maxItems : Nat)
    (hclean : Undisturbed s (.readLog maxItems)) : Inv (s.readLog maxItems) := by
  cases hdrainer : s.drainer with
  | idle => simpa only [Sys.readLog, hdrainer] using h
  | gotBatch number start rs => simpa only [Sys.readLog, hdrainer] using h
  | gotOffset number start =>
    have hstart : Covered s s.logNumber start := by
      have hheld := h.drainer
      simp only [Undisturbed, hdrainer] at hclean
      rw [hdrainer] at hheld
      rcases hclean with rfl | hnumber
      · exact covered_zero s
      · rcases hheld with rfl | hcov
        · exact covered_zero s
        · exact hnumber ▸ hcov
    obtain ⟨rs, hrs, hstep⟩ : ∃ rs,
        (s.spool.log = none ∧ rs = []
          ∨ s.spool.log ≠ none ∧ rs = (recordsFrom newline s.spool.content start).take maxItems)
        ∧ s.readLog maxItems = { s with
            batches := s.batches ++ [(s.logNumber, rs)]
            drainer := if rs = [] then .idle else .gotBatch s.logNumber start rs } := by
      cases hlog : s.spool.log with
      | none => exact ⟨[], Or.inl ⟨rfl, rfl⟩, by simp only [Sys.readLog, hdrainer, hlog]⟩
      | some bytes =>
        refine ⟨readRecords newline maxItems start (bytes.drop start), Or.inr ⟨nofun, ?_⟩,
          by simp only [Sys.readLog, hdrainer, hlog]⟩
        rw [readRecords_eq_take, recordsFrom, Spool.content, hlog]
        rfl
    rw [hstep]
    have hkeep : Keeps s { s with
        batches := s.batches ++ [(s.logNumber, rs)]
        drainer := if rs = [] then .idle else .gotBatch s.logNumber start rs } :=
      Keeps.of_eq rfl rfl rfl rfl (List.subset_append_left _ _)
    have hfirst : s.spool.log ≠ none → rs <+: recordsFrom newline s.spool.content start := by
      intro hlog
      rcases hrs with ⟨hnone, _⟩ | ⟨_, rfl⟩
      · exact absurd hnone hlog
      · exact List.take_prefix _ _
    refine ⟨h.log, ?_, hkeep.covered h.committed, ?_, hkeep.reconcileOk h.reconcile, h.holder⟩
    · intro number' rs' hmem r hr
      rcases List.mem_append.1 hmem with hold | hnew
      · exact h.batches_whole number' rs' hold r hr
      · obtain ⟨rfl, rfl⟩ := Prod.mk.inj (List.mem_singleton.1 hnew)
        rcases hrs with ⟨_, rfl⟩ | ⟨hlog, _⟩
        · cases hr
        · exact accepted_of_mem_recordsFrom (s := s) h.log hstart hlog ((hfirst hlog).subset hr)
    · show DrainerOk _ (if rs = [] then .idle else .gotBatch s.logNumber start rs)
      split
      · trivial
      · intro count
        -- every prefix of the batch extends the covered part, since the batch was just read
        apply (hkeep.covered hstart).extend h.log
        intro _ hlog
        refine ⟨(List.take_prefix _ _).trans (hfirst hlog), ?_⟩
        intro r hr
        left
        exact ⟨rs, List.mem_append_right _ (List.mem_singleton.2 rfl), List.mem_of_mem_take hr⟩

theorem Inv.commit {s : Sys} (h : Inv s) (count : Nat) (hclean : Undisturbed s (.commit count)) :
    Inv (s.commit count) := by
  cases hdrainer : s.drainer with
  | idle => simpa only [Sys.commit, hdrainer] using h
  | gotOffset number start => simpa only [Sys.commit, hdrainer] using h
  | gotBatch number start rs =>
    have hheld := h.drainer
    simp only [Undisturbed, hdrainer] at hclean
    rw [hdrainer] at hheld
    simp only [Sys.commit, hdrainer]
    have hkeep : Keeps s { s with
        spool := s.spool.commit (endOf start (rs.take count))
        drainer := if rs.length ≤ count then .idle else .gotBatch number start rs } :=
      Keeps.of_eq rfl rfl rfl rfl (List.Subset.refl _)
    refine ⟨h.log, h.batches_whole, ?_, ?_, hkeep.reconcileOk h.reconcile, h.holder⟩
    · have hcov := hkeep.covered (hheld count)
      rw [hclean] at hcov
      exact hcov
    · show DrainerOk _ (if rs.length ≤ count then .idle else .gotBatch number start rs)
      split
      · trivial
      · exact hkeep.drainerOk hheld

/-! ## The steps of the reconcile pass -/

theorem Inv.reconcileStep (h : Inv s) (hclean : Undisturbed s .reconcile) :
    Inv s.reconcileStep := by
  -- all steps but the last change only what the pass remembers
  have hmemory : ∀ {r : Reconcile}, ReconcileOk s r → Inv { s with reconcile := r } :=
    fun hr => ⟨h.log, h.batches_whole, h.committed, h.drainer, hr, h.holder⟩
  have hheld := h.reconcile
  cases hpass : s.reconcile with
  | idle =>
    simp only [Sys.reconcileStep, hpass]
    split
    · exact hmemory (Nat.le_refl _)
    · exact h
  | seen number =>
    rw [hpass] at hheld
    simp only [Sys.reconcileStep, hpass]
    apply hmemory
    split
    · trivial
    · exact ⟨hheld, fun _ _ => s.spool.deadPayloadSet_subset⟩
  | gotDead number dead =>
    rw [hpass] at hheld
    simp only [Sys.reconcileStep, hpass]
    exact hmemory ⟨hheld, h.committed.of_le hheld.1⟩
  | gotOffset number dead committed =>
    rw [hpass] at hheld
    simp only [Sys.reconcileStep, hpass]
    exact hmemory hheld
  | gotEnd number dead committed completeEnd =>
    rw [hpass] at hheld
    simp only [Sys.reconcileStep, hpass]
    cases hlog : s.spool.log with
    | none => exact hmemory trivial
    | some bytes =>
      apply hmemory
      split
      · obtain ⟨pre, hpre, hpos, hdead⟩ := Spool.stepOverDead_eq_endOf completeEnd dead committed
          (recordsFrom newline bytes committed)
        rw [hpos]
        apply hheld.2.extend h.log
        intro hnumber hsome
        have hcont : s.spool.content = bytes := by
          rw [Spool.content, hlog]
          rfl
        rw [hcont]
        exact ⟨hpre, fun r hr => Or.inr (hheld.1.2 hnumber hsome (hdead r hr))⟩
      · trivial
  | replacing number pos =>
    rw [hpass] at hheld
    simp only [Undisturbed, hpass] at hclean
    simp only [Sys.reconcileStep, hpass]
    have hkeep : Keeps s { s with spool := s.spool.commit pos, reconcile := .idle } :=
      Keeps.of_eq rfl rfl rfl rfl (List.Subset.refl _)
    refine ⟨h.log, h.batches_whole, ?_, hkeep.drainerOk h.drainer, trivial, h.holder⟩
    have hcov := hkeep.covered hheld
    rw [hclean] at hcov
    exact hcov

/-! ## The steps under the key guard -/

theorem mem_records_append_iff {content more : Bytes} (hwhole : torn newline [] content = [])
    (r : Record) : r ∈ records newline (content ++ more)
      ↔ r ∈ records newline content ∨ r ∈ scan newline content.length [] more := by
  have hsplit := recordsFrom_append_of_whole (boundary_zero newline content) hwhole more
  rw [recordsFrom, recordsFrom, List.drop_zero, List.drop_zero] at hsplit
  unfold records
  rw [hsplit, List.mem_append]

theorem LogOk.openLog (h : LogOk s.spool.log s.logNumber s.accepted []) (raw : Bytes) :
    LogOk (s.openLog raw).spool.log (s.openLog raw).logNumber (s.openLog raw).accepted
      (Spool.frame raw) := by
  have hwhole : torn newline [] s.spool.content = [] := by
    cases hlog : s.spool.log with
    | none =>
      rw [Spool.content_of_log_none hlog]
      rfl
    | some bytes =>
      have hlogW := h.whole (by rw [hlog]; nofun)
      rwa [List.append_nil] at hlogW
  have hold : ∀ r, ((s.openLog raw).logNumber, r) ∈ s.accepted
      ↔ r ∈ Lib.Lines.records newline s.spool.content := by
    intro r
    cases hlog : s.spool.log with
    | none =>
      -- nothing was appended under the number of the new log
      rw [Spool.content_of_log_none hlog]
      constructor
      · intro hr
        have hle := h.numbers _ hr
        simp only [Sys.openLog, hlog, Option.isNone_none, if_true] at hle
        omega
      · intro hr
        cases hr
    | some bytes =>
      have hrecs := h.records (by rw [hlog]; nofun) r
      rw [List.append_nil] at hrecs
      simpa [Sys.openLog, hlog, Spool.content] using hrecs
  have hcont : (s.openLog raw).spool.log.getD [] = s.spool.content := by
    simp [Sys.openLog, Spool.writeLog]
  constructor
  · intro a ha
    have hmono : s.logNumber ≤ (s.openLog raw).logNumber := by
      simp only [Sys.openLog]
      split <;> omega
    rcases List.mem_append.1 ha with ha | ha
    · exact Nat.le_trans (h.numbers a ha) hmono
    · obtain ⟨r, _, rfl⟩ := List.mem_map.1 ha
      exact Nat.le_refl _
  · intro _
    obtain ⟨line, hline⟩ := Spool.frame_eq_concat raw
    rw [hline, ← List.append_assoc]
    exact torn_concat_terminator _ _ _
  · intro _ r
    rw [hcont, mem_records_append_iff hwhole, ← hold r]
    constructor
    · intro hr
      rcases List.mem_append.1 hr with hr | hr
      · exact .inl hr
      · obtain ⟨x, hx, hxr⟩ := List.mem_map.1 hr
        obtain ⟨_, rfl⟩ := Prod.mk.inj hxr
        exact .inr hx
    · rintro (hr | hr)
      · exact List.mem_append_left _ hr
      · exact List.mem_append_right _ (List.mem_map.2 ⟨r, hr, rfl⟩)

theorem openLog_keeps (s : Sys) (raw : Bytes) : Keeps s (s.openLog raw) where
  number := by
    simp only [Sys.openLog]
    split <;> omega
  batches := List.Subset.refl _
  log := by
    intro hsame _
    refine ⟨?_, ⟨[], rfl⟩, List.Subset.refl _⟩
    intro hlog
    simp [Sys.openLog, hlog] at hsame
  accepted := by
    intro r hr
    rcases List.mem_append.1 hr with hr | hr
    · exact .inl hr
    · obtain ⟨x, hx, hxr⟩ := List.mem_map.1 hr
      obtain ⟨_, rfl⟩ := Prod.mk.inj hxr
      exact .inr (mem_scan_bounds newline hx).1

theorem Inv.openLog (h : Inv s) {raw : Bytes} (hhold : s.holder = .opening raw)
    (hclean : s.spool.log = none → s.spool.offset = none) : Inv (s.openLog raw) := by
  have hlog : LogOk s.spool.log s.logNumber s.accepted [] := by
    have hs := h.log
    rwa [hhold] at hs
  have hkeep := openLog_keeps s raw
  refine ⟨hlog.openLog raw, ?_, ?_, hkeep.drainerOk h.drainer, hkeep.reconcileOk h.reconcile,
    nofun⟩
  · intro number rs hmem r hr
    exact List.mem_append_left _ (h.batches_whole number rs hmem r hr)
  · cases hsome : s.spool.log with
    | none =>
      -- a new log starts at offset 0
      have hzero : (s.openLog raw).spool.committedOffset = 0 := by
        simp [Sys.openLog, Spool.committedOffset, Spool.writeLog, hclean hsome]
      rw [hzero]
      exact covered_zero _
    | some bytes =>
      have hsame : (s.openLog raw).logNumber = s.logNumber := by
        simp [Sys.openLog, hsome]
      rw [hsame]
      exact hkeep.covered h.committed

theorem Inv.write {s : Sys} (h : Inv s) {rest : Bytes} (hhold : s.holder = .writing rest)
    (n : Nat) : Inv { s with
      spool := s.spool.writeLog (rest.take (n + 1))
      holder := if rest.length ≤ n + 1 then .free else .writing (rest.drop (n + 1)) } := by
  have hlog : LogOk s.spool.log s.logNumber s.accepted rest := by
    have hs := h.log
    rwa [hhold] at hs
  have hsome : s.spool.log ≠ none := by
    have hs := h.holder
    rwa [hhold] at hs
  have hkeep : Keeps s { s with
      spool := s.spool.writeLog (rest.take (n + 1))
      holder := if rest.length ≤ n + 1 then .free else .writing (rest.drop (n + 1)) } := by
    refine ⟨Nat.le_refl _, List.Subset.refl _, ?_, fun r hr => Or.inl hr⟩
    exact fun _ _ => ⟨hsome, ⟨rest.take (n + 1), rfl⟩, List.Subset.refl _⟩
  have hrest : (if rest.length ≤ n + 1 then Holder.free else .writing (rest.drop (n + 1))).rest
      = rest.drop (n + 1) := by
    split
    · rename_i hle
      exact (List.drop_eq_nil_of_le hle).symm
    · rfl
  -- what is in the log and what is left to write together stay the same
  have htotal : s.spool.content ++ rest.take (n + 1) ++ rest.drop (n + 1)
      = s.spool.content ++ rest := by
    rw [List.append_assoc, List.take_append_drop]
  refine ⟨⟨hlog.numbers, ?_, ?_⟩, h.batches_whole, hkeep.covered h.committed,
    hkeep.drainerOk h.drainer, hkeep.reconcileOk h.reconcile, ?_⟩
  · intro _
    show torn newline [] (s.spool.content ++ rest.take (n + 1) ++ Holder.rest _) = []
    rw [hrest, htotal]
    exact hlog.whole hsome
  · intro _ r
    show (s.logNumber, r) ∈ s.accepted
      ↔ r ∈ records newline (s.spool.content ++ rest.take (n + 1) ++ Holder.rest _)
    rw [hrest, htotal]
    exact hlog.records hsome r
  · show HolderOk _ (if rest.length ≤ n + 1 then Holder.free else .writing (rest.drop (n + 1)))
    split
    · trivial
    · exact nofun

theorem Inv.unlinkLog (h : Inv s) {next : Holder}
    (hnext : HolderOk { s with spool := { s.spool with log := none }, holder := next } next) :
    Inv { s with spool := { s.spool with log := none }, holder := next } := by
  have hkeep : Keeps s { s with spool := { s.spool with log := none }, holder := next } :=
    ⟨Nat.le_refl _, List.Subset.refl _, fun _ hsome => absurd rfl hsome, fun r hr => Or.inl hr⟩
  exact ⟨⟨h.log.numbers, fun hsome => absurd rfl hsome, fun hsome => absurd rfl hsome⟩,
    h.batches_whole, hkeep.covered h.committed, hkeep.drainerOk h.drainer,
    hkeep.reconcileOk h.reconcile, hnext⟩

theorem Inv.holderStep (h : Inv s) {next : Holder} (hold : s.holder.rest = [])
    (hrest : next.rest = []) (hnext : HolderOk s next) : Inv { s with holder := next } := by
  refine ⟨?_, h.batches_whole, h.committed, h.drainer, h.reconcile, hnext⟩
  have hs := h.log
  rw [hold] at hs
  show LogOk s.spool.log s.logNumber s.accepted next.rest
  rwa [hrest]

theorem Inv.unlinkOffset (h : Inv s) : Inv { s with spool := { s.spool with offset := none } } := by
  have hkeep : Keeps s { s with spool := { s.spool with offset := none } } :=
    Keeps.of_eq rfl rfl rfl rfl (List.Subset.refl _)
  exact ⟨h.log, h.batches_whole, covered_zero _, hkeep.drainerOk h.drainer,
    hkeep.reconcileOk h.reconcile, h.holder⟩

theorem Inv.deadChange (h : Inv s) {dead : Option DeadFile}
    (hgrow : s.spool.log ≠ none →
      s.spool.deadPayloads ⊆ { s.spool with dead := dead }.deadPayloads) :
    Inv { s with spool := { s.spool with dead := dead } } := by
  have hkeep : Keeps s { s with spool := { s.spool with dead := dead } } :=
    ⟨Nat.le_refl _, List.Subset.refl _, fun _ hlog => ⟨hlog, ⟨[], List.append_nil _⟩, hgrow hlog⟩,
      fun r hr => Or.inl hr⟩
  exact ⟨h.log, h.batches_whole, hkeep.covered h.committed, hkeep.drainerOk h.drainer,
    hkeep.reconcileOk h.reconcile, h.holder⟩

theorem Inv.advance (h : Inv s) (n : Nat) (hclean : Undisturbed s (.advance n)) :
    Inv (s.advance n) := by
  have hheld := h.holder
  cases hhold : s.holder with
  | free => simpa only [Sys.advance, hhold] using h
  | opening raw =>
    simp only [Undisturbed, hhold] at hclean
    simpa only [Sys.advance, hhold] using h.openLog hhold hclean
  | writing rest => simpa only [Sys.advance, hhold] using h.write hhold n
  | deadLettering payload =>
    simp only [Sys.advance, hhold]
    have hdead : Inv { s with spool := s.spool.deadLetter payload } := by
      apply h.deadChange
      intro _
      show s.spool.deadPayloads ⊆ (s.spool.deadLetter payload).deadPayloads
      rw [Spool.deadPayloads_deadLetter]
      exact List.subset_append_left _ _
    exact hdead.holderStep (by simp only [hhold]; rfl) rfl trivial
  | drainedStat =>
    simp only [Sys.advance, hhold]
    cases s.spool.log with
    | none => exact h.holderStep (by rw [hhold]; rfl) rfl trivial
    | some bytes => exact h.holderStep (by rw [hhold]; rfl) rfl trivial
  | drainedOffset size =>
    simp only [Sys.advance, hhold]
    split
    · exact h.holderStep (by rw [hhold]; rfl) rfl trivial
    · exact h.holderStep (by rw [hhold]; rfl) rfl trivial
  | drainedUnlinkLog =>
    simp only [Sys.advance, hhold]
    exact h.unlinkLog trivial
  | drainedUnlinkOffset =>
    simp only [Sys.advance, hhold]
    exact h.unlinkOffset.holderStep (by simp only [hhold]; rfl) rfl trivial
  | sessionOffset =>
    simp only [Sys.advance, hhold]
    exact h.holderStep (by rw [hhold]; rfl) rfl trivial
  | sessionEnd committed =>
    simp only [Sys.advance, hhold]
    exact h.holderStep (by rw [hhold]; rfl) rfl trivial
  | sessionCount committed completeEnd =>
    simp only [Sys.advance, hhold]
    split
    · exact h.holderStep (by rw [hhold]; rfl) rfl trivial
    · exact h.holderStep (by rw [hhold]; rfl) rfl trivial
  | sessionUnlinkLog =>
    simp only [Sys.advance, hhold]
    exact h.unlinkLog rfl
  | sessionUnlinkOffset =>
    rw [hhold] at hheld
    simp only [Sys.advance, hhold]
    exact h.unlinkOffset.holderStep (by simp only [hhold]; rfl) rfl hheld
  | sessionUnlinkDead =>
    rw [hhold] at hheld
    simp only [Sys.advance, hhold]
    have hdead : Inv { s with spool := { s.spool with dead := none } } :=
      h.deadChange fun hlog => absurd hheld hlog
    exact hdead.holderStep (by simp only [hhold]; rfl) rfl trivial

/-! ## The whole system -/

theorem sysStep_inv (s : Sys) (a : Action) (h : Inv s) (hclean : Undisturbed s a) :
    Inv (sysStep s a) := by
  cases a with
  | readOffset => exact h.readOffset
  | readLog maxItems => exact h.readLog maxItems hclean
  | commit count => exact h.commit count hclean
  | reconcile => exact h.reconcileStep hclean
  | advance n => exact h.advance n hclean
  | acquire op =>
    simp only [sysStep]
    split
    · rename_i hfree
      apply h.holderStep (by rw [hfree]; rfl)
      · cases op <;> rfl
      · cases op <;> trivial
    · exact h

theorem inv_start (r : Resting) : Inv (Sys.start r) := by
  have hmem : ∀ record, (0, record) ∈ (Sys.start r).accepted ↔ record ∈ r.spool.records := by
    intro record
    simp [Sys.start]
  constructor
  · constructor
    · intro a ha
      obtain ⟨record, _, rfl⟩ := List.mem_map.1 ha
      exact Nat.le_refl _
    · intro _
      exact (congrArg _ (List.append_nil _)).trans r.whole
    · intro _ record
      rw [show (Sys.start r).spool.log.getD [] ++ (Sys.start r).holder.rest = r.spool.content from
        List.append_nil _]
      exact hmem record
  · intro number rs hbatch record hrec
    obtain ⟨rfl, rfl⟩ := Prod.mk.inj (List.mem_singleton.1 hbatch)
    rw [hmem, Spool.records, records_eq_append_recordsFrom r.boundary]
    exact List.mem_append_left _ hrec
  · refine ⟨Nat.le_refl _, fun _ _ => ⟨r.boundary, ?_⟩⟩
    intro record hacc hlt
    -- what starts below the offset was read before the threads started
    have hrec := (hmem record).1 hacc
    refine .inl ⟨_, List.mem_singleton.2 rfl, ?_⟩
    exact (mem_records_take_iff r.boundary hrec).2
      (stop_le_of_start_lt r.boundary hrec hlt)
  · trivial
  · trivial
  · trivial

/-- **No data lost beside a live drainer.**  In every interleaving, at the granularity of file
operations, in which each step is undisturbed, every batch the drainer gets consists of records
appended to one log, and every record below the committed offset was read or is dead-lettered. -/
theorem drainerSafe_of_undisturbed (r : Resting) (actions : List Action)
    (h : Along sysStep Undisturbed (Sys.start r) actions) :
    DrainerSafe (run sysStep (Sys.start r) actions) :=
  (h.invariant sysStep_inv (inv_start r)).safe

def Resting.empty : Resting := ⟨Settled.empty, rfl⟩

/-- The file operations of an append that needs one write, and of a `delete_drained`. -/
def appendRun (raw : Bytes) : List Action :=
  [.acquire (.append raw), .advance 0, .advance raw.length]

def deleteDrainedRun : List Action :=
  [.acquire .deleteDrained, .advance 0, .advance 0, .advance 0, .advance 0]

/-- The drainer reads the offset 2 of a drained log. The log is reclaimed and an append creates a
new one before the drainer reads the log. -/
def staleOffsetRead : List Action :=
  appendRun [97] ++ [.readOffset, .readLog 10, .commit 1, .readOffset] ++ deleteDrainedRun
    ++ appendRun [98, 99, 100] ++ [.readLog 10, .commit 1]

/-- The batch then consists of the rest of a record, and the commit passes that record. -/
theorem staleOffsetRead_not_drainerSafe :
    ¬ DrainerSafe (run sysStep (Sys.start Resting.empty) staleOffsetRead) := by
  intro h
  have hbatch : (2, [⟨[100], 2, 4⟩])
        ∈ (run sysStep (Sys.start Resting.empty) staleOffsetRead).batches
      ∧ (2, ⟨[100], 2, 4⟩)
        ∉ (run sysStep (Sys.start Resting.empty) staleOffsetRead).accepted := by
    decide
  exact hbatch.2 (h.batches_whole 2 _ hbatch.1 _ (List.mem_singleton.2 rfl))

/-- A drainer whose offset read, log read and commit have an append and a reconcile pass between
them, and whose log is reclaimed afterwards. -/
theorem drainerSafe_of_undisturbed_reclaimed :
    DrainerSafe (run sysStep (Sys.start Resting.empty)
      ([.readOffset] ++ appendRun [97] ++ [.reconcile, .readLog 10, .reconcile, .commit 1]
        ++ deleteDrainedRun)) :=
  drainerSafe_of_undisturbed Resting.empty _
    ⟨trivial, trivial, fun _ => rfl, trivial, trivial, Or.inl rfl, trivial, rfl, trivial, trivial,
      trivial, trivial, trivial, trivial⟩

end ContextIntelligence.Queue
