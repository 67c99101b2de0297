import ContextIntelligence.Queue.Spool

/-!
# The conservation counters and the files they are compared with

The registry counts accepted and written events in memory; `pipeline_metrics` compares them with the
files. Files and counters change in separate steps; a `LedgerAction` is one such step, or its
failure. Every complete line carries the number of the event it holds, to say which events are lost.
-/

namespace ContextIntelligence.Pipeline

open Lib.Lines Queue

/-! ## One worker key -/

abbrev Tag := Option ℕ

instance lawfulBEqTag : LawfulBEq Tag := inferInstance

/-- The body of a request as `json.dumps` writes it: newlines in it are escaped. -/
abbrev Body := { bytes : Bytes // newline ∉ bytes }

/-- A replay of the dead letters: how many it has appended, and the records still to append. -/
structure Replaying where
  done : ℕ
  rest : List (Option Bytes × Tag)
  deriving DecidableEq, Repr

/-- The files of a key, with the events of the complete lines above the committed offset and of
the lines of the dead-letter file. `letter` says that the first pending line is dead-lettered and
its commit is outstanding. -/
structure KeyLedger where
  spool : Spool
  pending : List Tag
  dead : List Tag
  letter : Bool
  replay : Option Replaying
  deriving DecidableEq, Repr

def KeyLedger.empty : KeyLedger := ⟨Spool.empty, [], [], false, none⟩

namespace KeyLedger

/-- Bytes are written to the log on behalf of an event. Only a single line that starts above the
committed offset holds the event; any other line that appears is none. -/
def wrote (bytes : Bytes) (tag : Tag) (k : KeyLedger) : KeyLedger :=
  let spool := k.spool.writeLog bytes
  let lines := spool.inQueue - k.spool.inQueue
  let tags := if lines = 1 ∧ k.spool.committedOffset ≤ k.spool.content.length then [tag]
    else List.replicate lines none
  { k with spool := spool, pending := k.pending ++ tags }

/-- The drainer commits behind the first `count` records, all of which it has flushed. A line that
is no event cannot be among them. -/
def drain (count : ℕ) (k : KeyLedger) : KeyLedger × List Tag :=
  if k.letter ∨ none ∈ k.pending.take count ∨ k.pending.take count = [] then (k, [])
  else ({ k with
    spool := k.spool.commit (endOf k.spool.committedOffset (k.spool.uncommitted.take count))
    pending := k.pending.drop count }, k.pending.take count)

def deadLetter (k : KeyLedger) : KeyLedger :=
  match k.letter, k.spool.uncommitted, k.pending with
  | false, r :: _, tag :: _ =>
    { k with spool := k.spool.deadLetter r.raw, dead := k.dead ++ [tag], letter := true }
  | _, _, _ => k

def commitLetter (k : KeyLedger) : KeyLedger :=
  if k.letter then { k with
    spool := k.spool.commit (endOf k.spool.committedOffset (k.spool.uncommitted.take 1))
    pending := k.pending.drop 1
    letter := false }
  else k

def deadLetterFails (done : ℕ) (k : KeyLedger) : KeyLedger :=
  let spool := k.spool.deadLetterPartial done
  { k with
    spool := spool
    dead := k.dead ++ List.replicate (spool.countDead - k.spool.countDead) none }

/-- The files after a deletion; a log that is gone has no lines, a dead-letter file that is gone no
letters. -/
def afterDeletion (spool : Spool) (k : KeyLedger) : KeyLedger :=
  { k with
    spool := spool
    pending := if spool.log.isNone then [] else k.pending
    dead := if spool.dead.isNone then [] else k.dead }

/-- The records `read_dead_letters` returns, with their events. -/
def replayRecords (k : KeyLedger) : List (Option Bytes × Tag) :=
  (k.spool.deadLines.zip k.dead).filterMap fun line =>
    line.1.replayed?.map fun payload => (payload, line.2)

def replayRead (k : KeyLedger) : KeyLedger :=
  if k.replay.isSome ∨ k.replayRecords = [] then k
  else { k with replay := some ⟨0, k.replayRecords⟩ }

def reappend (k : KeyLedger) : KeyLedger :=
  match k.replay with
  | some ⟨done, (some payload, tag) :: rest⟩ =>
    { k.wrote (Spool.frame payload) tag with replay := some ⟨done + 1, rest⟩ }
  | some ⟨_, (none, _) :: _⟩ => { k with replay := none }
  | _ => k

/-- The replay fails or is cancelled, with some bytes of its append written. -/
def replayAbort (bytes : Bytes) (k : KeyLedger) : KeyLedger :=
  if k.replay.isSome then { k.wrote bytes none with replay := none } else k

def purge (k : KeyLedger) : KeyLedger :=
  { k with spool := { k.spool with dead := none }, dead := [] }

def replayPurge (k : KeyLedger) : KeyLedger :=
  match k.replay with
  | some ⟨_, []⟩ => { k.purge with replay := none }
  | _ => k

/-- How many lines `recovery_reconcile_dead` steps over. -/
def reconciled (k : KeyLedger) : ℕ :=
  k.spool.uncommitted.length - k.spool.reconcileDead.uncommitted.length

def reconcile (k : KeyLedger) : KeyLedger :=
  { k with
    spool := k.spool.reconcileDead, pending := k.pending.drop k.reconciled, letter := false }

end KeyLedger

/-! ## The server -/

variable {ι : Type*}

/-- Where the boot stands: done, before the scan of `recovery_seed_counts`, or in it, with the keys
still to scan and the sums so far. -/
inductive Boot (ι : Type*) where
  | done
  | reconciling
  | seeding (rest : Finset ι) (accepted written : ℤ)

/-- The server: its keys and which of them ever had files, the two counters, what is still to be
counted, and the events that were written to the graph or removed by an operator. -/
structure Ledger (ι : Type*) where
  keys : ι → KeyLedger
  known : Finset ι
  accepted : ℤ
  written : ℤ
  uncounted : ℕ
  owedWritten : ℕ
  owedPurged : ℕ
  nextEvent : ℕ
  writtenTags : List Tag
  removedTags : List Tag
  boot : Boot ι

/-- One step. Each counter call has a twin that drops it: the caller was cancelled before it. -/
inductive LedgerAction (ι : Type*) where
  | append (i : ι) (body : Body)
  | countAccepted
  | cancelAccepted
  | appendFails (i : ι) (bytes : Bytes)
  | drain (i : ι) (count : ℕ)
  | countWritten (n : ℕ)
  | cancelWritten (n : ℕ)
  | deadLetter (i : ι)
  | commitLetter (i : ι)
  | dropLetter (i : ι)
  | deadLetterFails (i : ι) (done : ℕ)
  | trim (i : ι) (cut : Option ℕ)
  | purge (i : ι)
  | countPurged (n : ℕ)
  | cancelPurged (n : ℕ)
  | replayRead (i : ι)
  | reappend (i : ι)
  | replayAbort (i : ι) (bytes : Bytes)
  | replayPurge (i : ι)
  | deleteSession (i : ι) (cut : Option ℕ)
  | crash
  | reconcile (i : ι)
  | listKeys
  | scanKey (i : ι)
  | seedCounters
  | bootFails

namespace Ledger

def initial : Ledger ι := ⟨fun _ => KeyLedger.empty, ∅, 0, 0, 0, 0, 0, 0, [], [], .done⟩

variable [DecidableEq ι]

def setKey (i : ι) (k : KeyLedger) (s : Ledger ι) : Ledger ι :=
  { s with keys := Function.update s.keys i k, known := insert i s.known }

/-- The keys `_all_worker_keys` lists. -/
def listed (s : Ledger ι) : Finset ι := s.known.filter fun i => (s.keys i).spool.visible

def inQueueTotal (s : Ledger ι) : ℕ := ∑ i ∈ s.listed, (s.keys i).spool.inQueue

def deadTotal (s : Ledger ι) : ℕ := ∑ i ∈ s.listed, (s.keys i).spool.countDead

/-- The residual of `pipeline_metrics` over a fresh snapshot. -/
def residual (s : Ledger ι) : ℤ := s.accepted - s.written - s.inQueueTotal - s.deadTotal

/-- `record_purged`. -/
def recordPurged (n : ℕ) (s : Ledger ι) : Ledger ι :=
  if n = 0 then s else { s with accepted := max s.written (s.accepted - n) }

/-- `append` of a request, before `record_accepted`. -/
def append (i : ι) (body : Body) (s : Ledger ι) : Ledger ι :=
  { s.setKey i ((s.keys i).wrote (Spool.frame body.1) (some s.nextEvent)) with
    uncounted := s.uncounted + 1, nextEvent := s.nextEvent + 1 }

def drain (i : ι) (count : ℕ) (s : Ledger ι) : Ledger ι :=
  let (k, tags) := (s.keys i).drain count
  { s.setKey i k with
    owedWritten := s.owedWritten + tags.length, writtenTags := s.writtenTags ++ tags }

/-- `purge_dead_letters`, before `record_purged`. -/
def purge (i : ι) (s : Ledger ι) : Ledger ι :=
  { s.setKey i (s.keys i).purge with
    owedPurged := s.owedPurged + (s.keys i).spool.countDead
    removedTags := s.removedTags ++ (s.keys i).dead }

/-- `delete_session` calls no counter. -/
def deleteSession (i : ι) (cut : Option ℕ) (s : Ledger ι) : Ledger ι :=
  let k := (s.keys i).afterDeletion ((s.keys i).spool.deleteSessionCut cut)
  { s.setKey i k with
    removedTags := s.removedTags ++ if k.spool.dead.isNone then (s.keys i).dead else [] }

/-- A crash and the start of the next process: the counters are gone, and so is every operation
that was under way. -/
def crash (s : Ledger ι) : Ledger ι :=
  { s with
    keys := fun i => { s.keys i with replay := none }
    accepted := 0, written := 0, uncounted := 0, owedWritten := 0, owedPurged := 0
    boot := .reconciling }

/-- The scan of `recovery_seed_counts` comes to a key. -/
def scanKey (i : ι) (s : Ledger ι) : Ledger ι :=
  match s.boot with
  | .seeding rest accepted written =>
    if i ∈ rest then
      let seed := (s.keys i).spool.recoverySeedCounts
      { s with boot := .seeding (rest.erase i) (accepted + seed.1) (written + seed.2) }
    else s
  | _ => s

/-- `seed_counters`, once every key is scanned. -/
def seedCounters (s : Ledger ι) : Ledger ι :=
  match s.boot with
  | .seeding rest accepted written =>
    if rest = ∅ then
      { s with accepted := s.accepted + accepted, written := s.written + written, boot := .done }
    else s
  | _ => s

end Ledger

variable [DecidableEq ι]

def ledgerStep (s : Ledger ι) : LedgerAction ι → Ledger ι
  | .append i body => s.append i body
  | .countAccepted =>
    if s.uncounted = 0 then s
    else { s with uncounted := s.uncounted - 1, accepted := s.accepted + 1 }
  | .cancelAccepted => { s with uncounted := s.uncounted - 1 }
  | .appendFails i bytes => s.setKey i ((s.keys i).wrote bytes none)
  | .drain i count => s.drain i count
  | .countWritten n =>
    if n ≤ s.owedWritten then
      { s with owedWritten := s.owedWritten - n, written := s.written + n }
    else s
  | .cancelWritten n => { s with owedWritten := s.owedWritten - n }
  | .deadLetter i => s.setKey i (s.keys i).deadLetter
  | .commitLetter i => s.setKey i (s.keys i).commitLetter
  | .dropLetter i => s.setKey i { s.keys i with letter := false }
  | .deadLetterFails i done => s.setKey i ((s.keys i).deadLetterFails done)
  | .trim i cut => s.setKey i ((s.keys i).afterDeletion ((s.keys i).spool.deleteDrainedCut cut))
  | .purge i => s.purge i
  | .countPurged n =>
    if n ≤ s.owedPurged then { s.recordPurged n with owedPurged := s.owedPurged - n } else s
  | .cancelPurged n => { s with owedPurged := s.owedPurged - n }
  | .replayRead i => s.setKey i (s.keys i).replayRead
  | .reappend i => s.setKey i (s.keys i).reappend
  | .replayAbort i bytes => s.setKey i ((s.keys i).replayAbort bytes)
  | .replayPurge i => s.setKey i (s.keys i).replayPurge
  | .deleteSession i cut => s.deleteSession i cut
  | .crash => s.crash
  | .reconcile i => match s.boot with
      | .reconciling => s.setKey i (s.keys i).reconcile
      | _ => s
  | .listKeys => match s.boot with
      | .reconciling => { s with boot := .seeding s.listed 0 0 }
      | _ => s
  | .scanKey i => s.scanKey i
  | .seedCounters => s.seedCounters
  | .bootFails => { s with boot := .done }

end ContextIntelligence.Pipeline
