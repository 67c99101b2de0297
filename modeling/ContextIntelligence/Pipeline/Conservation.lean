import ContextIntelligence.Pipeline.Ledger
import ContextIntelligence.Lib.Runs

/-!
# The conservation law

In a quiescent state the residual of `pipeline_metrics` should be the number of lost events.
`conserved_of_counted` proves it for every run whose steps keep files and counters together: no
counter call is dropped, no line appears that is no event, dead letters leave only by a counted
purge or a replay, and nothing touches a key between a restart and its scan. Every event has one
place (`Placed`); a step moves events between places and the counters follow.
-/

namespace ContextIntelligence.Pipeline

open Lib.Lines Lib.Runs Queue

variable {ι : Type*} [DecidableEq ι]

/-! ## The property and its condition -/

/-- No operation is under way: nothing is still to be counted, every dead-lettered record is
committed, no replay is running and the boot is done. -/
structure Quiescent (s : Ledger ι) : Prop where
  boot : s.boot = .done
  uncounted : s.uncounted = 0
  owedWritten : s.owedWritten = 0
  owedPurged : s.owedPurged = 0
  letter : ∀ i, (s.keys i).letter = false
  replay : ∀ i, (s.keys i).replay = none

/-- The events that were appended and are nowhere: not in the graph, not removed by an operator,
not pending in a log and not in a dead-letter file. -/
def Ledger.lost (s : Ledger ι) : ℕ :=
  ((Finset.range s.nextEvent).filter fun e => some e ∉ s.writtenTags ∧ some e ∉ s.removedTags
    ∧ ∀ i ∈ s.known, some e ∉ (s.keys i).pending ∧ some e ∉ (s.keys i).dead).card

/-- In a quiescent state the residual is the number of lost events. -/
def Conserved (s : Ledger ι) : Prop := Quiescent s → s.residual = s.lost

/-- Live work on the key does not meet the boot: the boot is done, or has scanned the key. -/
def Free (s : Ledger ι) (i : ι) : Prop :=
  match s.boot with
  | .done => True
  | .reconciling => False
  | .seeding rest _ _ => i ∉ rest

/-- An append that creates the log finds no offset of an earlier one. -/
def CleanCreate (k : KeyLedger) : Prop := k.spool.log = none → k.spool.offset = none

def Replayable : DeadLine → Prop
  | .record payload => newline ∉ payload
  | _ => False

def Counted (s : Ledger ι) : LedgerAction ι → Prop
  | .append i _ => Free s i ∧ CleanCreate (s.keys i)
  -- a counter call is dropped only when there is none to make
  | .cancelAccepted => s.uncounted = 0
  | .cancelWritten n => n = 0 ∨ s.owedWritten = 0
  | .cancelPurged n => n = 0 ∨ s.owedPurged = 0
  | .dropLetter i => (s.keys i).letter = false
  -- a failed write leaves no line
  | .appendFails i bytes => newline ∉ bytes ∧ CleanCreate (s.keys i)
  | .deadLetterFails _ done => done ≤ 1
  | .drain i _ => Free s i
  | .deadLetter i => Free s i
  | .commitLetter i => Free s i
  | .purge i => Free s i ∧ (s.keys i).replay = none
  | .countPurged n => s.written ≤ s.accepted - n
  | .replayRead i => Free s i ∧ ∀ line ∈ (s.keys i).spool.deadLines, Replayable line
  | .reappend i => Free s i ∧ CleanCreate (s.keys i)
  -- a replay that fails has appended nothing
  | .replayAbort i bytes => newline ∉ bytes ∧ CleanCreate (s.keys i)
      ∧ ∀ replay, (s.keys i).replay = some replay → replay.done = 0
  | .replayPurge i => Free s i
  -- no dead letter is deleted with its session
  | .deleteSession i _ => (s.keys i).spool.deadLines = []
  -- a restart forgets what was lost and what a replay did
  | .crash => s.lost = 0 ∧ ∀ i,
      (∀ replay, (s.keys i).replay = some replay → replay.done = 0)
        ∧ ((s.keys i).letter = true → ∀ t ∈ (s.keys i).pending.head?, t ∈ (s.keys i).dead)
  | .reconcile i => (s.keys i).reconciled = if (s.keys i).letter then 1 else 0
  | .listKeys => ∀ i, (s.keys i).letter = false
  | .bootFails => s.boot = .done
  | _ => True

/-! ## What stands in the files of a key -/

namespace KeyLedger

def queued (k : KeyLedger) : List Tag := if k.letter then k.pending.drop 1 else k.pending

/-- The dead letters that a running replay has not appended again. -/
def letters (k : KeyLedger) : List Tag :=
  k.dead.drop (match k.replay with | none => 0 | some replay => replay.done)

def alive (k : KeyLedger) : Multiset Tag := (k.queued : Multiset Tag) + (k.letters : Multiset Tag)

end KeyLedger

/-- The tags follow the lines of the files, and a replay its file. -/
structure KeyOk (k : KeyLedger) : Prop where
  pending : k.pending.length = k.spool.inQueue
  dead : k.dead.length = k.spool.countDead
  boundary : k.spool.log ≠ none → Boundary newline k.spool.content k.spool.committedOffset
  letter : k.letter = true → k.pending ≠ []
  replay : ∀ replay, k.replay = some replay → replay.done ≤ k.dead.length
    ∧ (∀ r ∈ replay.rest, ∃ payload, r.1 = some payload ∧ newline ∉ payload)
    ∧ replay.rest.map Prod.snd <+: k.dead.drop replay.done

theorem keyOk_empty : KeyOk KeyLedger.empty where
  pending := rfl
  dead := rfl
  boundary := fun h => absurd rfl h
  letter := nofun
  replay := nofun

theorem KeyOk.settled {k : KeyLedger} (h : KeyOk k) (hclean : CleanCreate k) :
    Boundary newline k.spool.content k.spool.committedOffset := by
  cases hlog : k.spool.log with
  | none =>
    rw [Spool.committedOffset, hclean hlog]
    exact boundary_zero _ _
  | some bytes => exact h.boundary (by rw [hlog]; nofun)

theorem inQueue_writeLog {s : Spool} (h : Boundary newline s.content s.committedOffset)
    (bytes : Bytes) : (s.writeLog bytes).inQueue = s.inQueue + bytes.count newline := by
  unfold Spool.inQueue
  rw [Spool.content_writeLog, Spool.committedOffset_writeLog,
    List.drop_append_of_le_length h.le_length, List.count_append]

variable {k : KeyLedger} {bytes : Bytes}

section

variable (h : KeyOk k)
include h

theorem wrote_pending (hclean : CleanCreate k) (tag : Tag) (hlines : bytes.count newline ≤ 1) :
    (k.wrote bytes tag).pending
      = k.pending ++ if bytes.count newline = 1 then [tag] else [] := by
  have hbound := h.settled hclean
  have hadd : (k.spool.writeLog bytes).inQueue - k.spool.inQueue = bytes.count newline := by
    rw [inQueue_writeLog hbound]
    omega
  simp only [KeyLedger.wrote, hadd, hbound.le_length, and_true]
  split
  · rfl
  · have hnone : bytes.count newline = 0 := by omega
    rw [hnone]
    rfl

theorem KeyOk.wrote (hclean : CleanCreate k) {bytes : Bytes}
    (tag : Tag) (hlines : bytes.count newline ≤ 1) : KeyOk (k.wrote bytes tag) where
  pending := by
    rw [wrote_pending h hclean tag hlines, List.length_append, h.pending]
    show _ = (k.spool.writeLog bytes).inQueue
    rw [inQueue_writeLog (h.settled hclean)]
    split
    · rename_i hone
      rw [hone, List.length_singleton]
    · rename_i hone
      have hnone : bytes.count newline = 0 := by omega
      rw [hnone, List.length_nil]
  dead := h.dead
  boundary := fun _ => (h.settled hclean).append bytes
  letter := by
    intro hletter hnil
    exact h.letter hletter (List.append_eq_nil_iff.1 hnil).1
  replay := h.replay

omit h in
theorem count_frame {payload : Bytes} (h : newline ∉ payload) :
    (Spool.frame payload).count newline = 1 := by
  have hlast : payload.getLast? ≠ some newline := fun hlast => h (List.mem_of_getLast? hlast)
  rw [Spool.frame, if_neg hlast, List.count_append, List.count_eq_zero.2 h]
  rfl

theorem alive_wrote (hclean : CleanCreate k) (tag : Tag) (hlines : bytes.count newline ≤ 1) :
    (k.wrote bytes tag).alive
      = k.alive + ((if bytes.count newline = 1 then [tag] else [] : List Tag) : Multiset Tag) := by
  have hpend := wrote_pending h hclean tag hlines
  have hqueued : (k.wrote bytes tag).queued
      = k.queued ++ if bytes.count newline = 1 then [tag] else [] := by
    unfold KeyLedger.queued
    rw [hpend]
    show (if k.letter = true then _ else _) = _
    split
    · rename_i hletter
      have hlen : 1 ≤ k.pending.length := List.length_pos_iff.2 (h.letter hletter)
      rw [List.drop_append_of_le_length hlen]
    · rfl
  have hlets : (k.wrote bytes tag).letters = k.letters := rfl
  unfold KeyLedger.alive
  rw [hqueued, hlets, ← Multiset.coe_add, add_right_comm]

/-! ## What the operations of a key do -/

structure Neutral (k k' : KeyLedger) : Prop where
  ok : KeyOk k'
  alive : k'.alive = k.alive
  inQueue : k'.spool.inQueue = k.spool.inQueue
  countDead : k'.spool.countDead = k.spool.countDead
  letter : k'.letter = k.letter
  replay : k.replay = none → k'.replay = none

theorem neutral_wrote (hclean : CleanCreate k)
    (hbytes : newline ∉ bytes) : Neutral k (k.wrote bytes none) := by
  have hcount : bytes.count newline = 0 := List.count_eq_zero.2 hbytes
  have hle : bytes.count newline ≤ 1 := by omega
  refine ⟨h.wrote hclean none hle, ?_, ?_, rfl, rfl, id⟩
  · rw [alive_wrote h hclean none hle, hcount]
    simp
  · show (k.spool.writeLog bytes).inQueue = _
    rw [inQueue_writeLog (h.settled hclean), hcount, Nat.add_zero]

theorem neutral_dropLetter (hletter : k.letter = false) : Neutral k { k with letter := false } := by
  have hsame : { k with letter := false } = k := by
    rw [← hletter]
  rw [hsame]
  exact ⟨h, rfl, rfl, rfl, rfl, id⟩

theorem neutral_spool {spool : Spool} (hqueue : spool.inQueue = k.spool.inQueue)
    (hcount : spool.countDead = k.spool.countDead)
    (hbound : spool.log ≠ none → Boundary newline spool.content spool.committedOffset) :
    Neutral k { k with spool := spool } :=
  ⟨⟨h.pending.trans hqueue.symm, h.dead.trans hcount.symm, hbound, h.letter, h.replay⟩, rfl, hqueue,
    hcount, rfl, id⟩

theorem neutral_deadLetterFails {done : ℕ} (hdone : done ≤ 1) :
    Neutral k (k.deadLetterFails done) := by
  have hcount : (k.spool.deadLetterPartial done).countDead = k.spool.countDead := by
    match done, hdone with
    | 0, _ => rfl
    | 1, _ => rfl
  have hspool : (k.spool.deadLetterPartial done).content = k.spool.content
      ∧ (k.spool.deadLetterPartial done).committedOffset = k.spool.committedOffset := by
    simp [Spool.content, Spool.committedOffset]
  have hqueue : (k.spool.deadLetterPartial done).inQueue = k.spool.inQueue := by
    rw [Spool.inQueue, hspool.1, hspool.2, Spool.inQueue]
  have hkey : k.deadLetterFails done = { k with spool := k.spool.deadLetterPartial done } := by
    simp [KeyLedger.deadLetterFails, hcount]
  rw [hkey]
  refine neutral_spool h hqueue hcount ?_
  rw [Spool.log_deadLetterPartial, hspool.1, hspool.2]
  exact h.boundary

theorem neutral_afterDeletion {spool : Spool} (hspool : spool = k.spool ∨ k.spool.Removed spool)
    (hdead : spool.dead = k.spool.dead ∨ k.spool.deadLines = []) :
    Neutral k (k.afterDeletion spool) := by
  have hcount : spool.countDead = k.spool.countDead := by
    rcases hdead with hdead | hnil
    · rw [Spool.countDead, Spool.deadLines, hdead, Spool.countDead, Spool.deadLines]
    · have hlines : spool.deadLines = [] := by
        rcases hspool with rfl | hrem
        · exact hnil
        · rcases hrem.dead with heq | hnone
          · rw [Spool.deadLines, heq]
            exact hnil
          · rw [Spool.deadLines, hnone]
            rfl
      rw [Spool.countDead, hlines, Spool.countDead, hnil]
  have hqueue : spool.inQueue = k.spool.inQueue := by
    rcases hspool with rfl | hrem
    · rfl
    · rw [Spool.inQueue, Spool.content_of_log_none hrem.log, Spool.inQueue_eq, hrem.drained]
      simp
  -- a file that is gone had no lines
  have hpend : (k.afterDeletion spool).pending = k.pending := by
    show (if spool.log.isNone then [] else k.pending) = k.pending
    split
    · rename_i hlog
      have hzero : spool.inQueue = 0 := by
        rw [Spool.inQueue, Spool.content_of_log_none (Option.isNone_iff_eq_none.1 hlog)]
        simp
      exact (List.eq_nil_of_length_eq_zero (h.pending.trans (hqueue.symm.trans hzero))).symm
    · rfl
  have hdeadTags : (k.afterDeletion spool).dead = k.dead := by
    show (if spool.dead.isNone then [] else k.dead) = k.dead
    split
    · rename_i hnone
      have hzero : spool.countDead = 0 := by
        rw [Spool.countDead, Spool.deadLines, Option.isNone_iff_eq_none.1 hnone]
        rfl
      exact (List.eq_nil_of_length_eq_zero (h.dead.trans (hcount.symm.trans hzero))).symm
    · rfl
  have hkey : k.afterDeletion spool = { k with spool := spool } := by
    rw [← hpend, ← hdeadTags]
    rfl
  rw [hkey]
  refine neutral_spool h hqueue hcount ?_
  rcases hspool with rfl | hrem
  · exact h.boundary
  · exact fun hlog => absurd hrem.log hlog

theorem keyOk_commit {pre post : List Record} (hsplit : k.spool.uncommitted = pre ++ post) :
    KeyOk { k with
      spool := k.spool.commit (endOf k.spool.committedOffset pre)
      pending := k.pending.drop pre.length
      letter := false } where
  pending := by
    show (k.pending.drop pre.length).length = Spool.inQueue _
    rw [Spool.inQueue_eq, List.length_drop, h.pending, Spool.inQueue_eq, hsplit]
    have hrest : (k.spool.commit (endOf k.spool.committedOffset pre)).uncommitted = post :=
      recordsFrom_endOf hsplit
    rw [hrest, List.length_append]
    omega
  dead := h.dead
  boundary := fun hlog => boundary_endOf (h.boundary hlog) hsplit
  letter := nofun
  replay := h.replay

theorem drain_cases (count : ℕ) :
    KeyOk (k.drain count).1
      ∧ (k.drain count).1.alive + ((k.drain count).2 : Multiset Tag) = k.alive := by
  unfold KeyLedger.drain
  split
  · exact ⟨h, by simp⟩
  · rename_i hbusy
    simp only [not_or, Bool.not_eq_true] at hbusy
    have hsplit := (List.take_append_drop count k.spool.uncommitted).symm
    have hlen : (k.spool.uncommitted.take count).length = min count k.pending.length := by
      rw [List.length_take, h.pending, Spool.inQueue_eq]
    have hdrop : k.pending.drop (k.spool.uncommitted.take count).length = k.pending.drop count := by
      rw [hlen, List.drop_eq_drop_iff]
      omega
    have hok := keyOk_commit h hsplit
    rw [hdrop] at hok
    refine ⟨⟨hok.pending, hok.dead, hok.boundary, fun hletter => ?_, hok.replay⟩, ?_⟩
    · exact absurd hletter (by simp [hbusy.1])
    · unfold KeyLedger.alive KeyLedger.queued
      simp only [hbusy.1, Bool.false_eq_true, if_false]
      show (k.pending.drop count : Multiset Tag) + (k.letters : Multiset Tag)
        + (k.pending.take count : Multiset Tag) = _
      rw [add_right_comm, add_comm (k.pending.drop count : Multiset Tag), Multiset.coe_add,
        List.take_append_drop]

theorem commitLetter_cases : KeyOk k.commitLetter ∧ k.commitLetter.alive = k.alive := by
  unfold KeyLedger.commitLetter
  split
  · rename_i hletter
    have hsplit := (List.take_append_drop 1 k.spool.uncommitted).symm
    have hlen : (k.spool.uncommitted.take 1).length = 1 := by
      have hpos := List.length_pos_iff.2 (h.letter hletter)
      rw [h.pending, Spool.inQueue_eq] at hpos
      rw [List.length_take]
      omega
    have hok := keyOk_commit h hsplit
    rw [hlen] at hok
    refine ⟨hok, ?_⟩
    unfold KeyLedger.alive KeyLedger.queued
    simp only [hletter, Bool.false_eq_true, if_false, if_true]
    rfl
  · exact ⟨h, rfl⟩

omit h in
theorem coe_cons_eq_add (t : Tag) (tags : List Tag) :
    ((t :: tags : List Tag) : Multiset Tag) = {t} + (tags : Multiset Tag) :=
  (Multiset.singleton_add t tags).symm

theorem deadLetter_cases : KeyOk k.deadLetter ∧ k.deadLetter.alive = k.alive := by
  unfold KeyLedger.deadLetter
  split
  · rename_i r rs tag tags hletter _ hpend
    have hdone : ∀ replay, k.replay = some replay → replay.done ≤ k.dead.length :=
      fun replay hrep => (h.replay replay hrep).1
    refine ⟨⟨h.pending, ?_, h.boundary, ?_, ?_⟩, ?_⟩
    · show (k.dead ++ [tag]).length = (k.spool.deadLines ++ [_]).length
      rw [List.length_append, List.length_append, h.dead]
      rfl
    · intro _ hnil
      rw [hpend] at hnil
      cases hnil
    · intro replay hrep
      obtain ⟨hle, hpays, hload⟩ := h.replay replay hrep
      refine ⟨?_, hpays, ?_⟩
      · rw [List.length_append]
        exact Nat.le_trans hle (Nat.le_add_right _ _)
      · rw [List.drop_append_of_le_length hle]
        exact hload.trans (List.prefix_append _ _)
    · unfold KeyLedger.alive KeyLedger.queued KeyLedger.letters
      simp only [hletter, hpend, Bool.false_eq_true, if_true, if_false, List.drop_one,
        List.tail_cons]
      have hdrop : (match k.replay with | none => 0 | some replay => replay.done)
          ≤ k.dead.length := by
        cases hrep : k.replay with
        | none => exact Nat.zero_le _
        | some replay => exact hdone replay hrep
      rw [List.drop_append_of_le_length hdrop, ← Multiset.coe_add, coe_cons_eq_add tag tags,
        Multiset.coe_singleton, ← add_assoc, add_comm _ ({tag} : Multiset Tag), ← add_assoc]
  · exact ⟨h, rfl⟩

theorem purge_cases (hrep : k.replay = none) :
    KeyOk k.purge ∧ k.purge.alive + (k.dead : Multiset Tag) = k.alive := by
  refine ⟨⟨h.pending, rfl, h.boundary, h.letter, ?_⟩, ?_⟩
  · intro replay hsome
    exact absurd (hrep.symm.trans hsome) nofun
  · have hlets : k.letters = k.dead := by
      simp [KeyLedger.letters, hrep]
    have hnone : k.purge.letters = [] := by
      simp [KeyLedger.letters, KeyLedger.purge]
    unfold KeyLedger.alive
    rw [hnone, hlets]
    simp [KeyLedger.queued, KeyLedger.purge]

theorem replayPurge_cases :
    KeyOk k.replayPurge ∧ ∃ dropped, k.replayPurge.alive + dropped = k.alive := by
  unfold KeyLedger.replayPurge
  split
  · refine ⟨⟨h.pending, rfl, h.boundary, h.letter, nofun⟩, (k.letters : Multiset Tag), ?_⟩
    unfold KeyLedger.alive
    simp [KeyLedger.queued, KeyLedger.letters, KeyLedger.purge]
  · exact ⟨h, 0, add_zero _⟩

theorem replayRecords_map_snd (hlines : ∀ line ∈ k.spool.deadLines, Replayable line) :
    k.replayRecords.map Prod.snd = k.dead
      ∧ ∀ r ∈ k.replayRecords, ∃ payload, r.1 = some payload ∧ newline ∉ payload := by
  have hlen : k.spool.deadLines.length = k.dead.length := h.dead.symm
  unfold KeyLedger.replayRecords
  generalize k.spool.deadLines = lines at hlines hlen
  generalize k.dead = tags at hlen
  induction lines generalizing tags with
  | nil =>
    cases tags with
    | nil => exact ⟨rfl, nofun⟩
    | cons tag tags => cases hlen
  | cons line lines ih =>
    cases tags with
    | nil => cases hlen
    | cons tag tags =>
      obtain ⟨htags, hpays⟩ := ih (fun l hl => hlines l (List.mem_cons_of_mem _ hl))
        tags (Nat.succ.inj hlen)
      have hline := hlines line (List.mem_cons_self ..)
      cases line with
      | record payload =>
        refine ⟨congrArg (tag :: ·) htags, ?_⟩
        intro r hr
        rcases List.mem_cons.1 hr with rfl | hr
        · exact ⟨payload, rfl, hline⟩
        · exact hpays r hr
      | merged payload => exact hline.elim
      | other loads => exact hline.elim

theorem replayRead_cases (hlines : ∀ line ∈ k.spool.deadLines, Replayable line) :
    KeyOk k.replayRead ∧ k.replayRead.alive = k.alive := by
  unfold KeyLedger.replayRead
  split
  · exact ⟨h, rfl⟩
  · rename_i hidle
    have hnone : k.replay = none := by
      cases hrep : k.replay with
      | none => rfl
      | some replay => simp [hrep] at hidle
    obtain ⟨htags, hpays⟩ := replayRecords_map_snd h hlines
    refine ⟨⟨h.pending, h.dead, h.boundary, h.letter, ?_⟩, ?_⟩
    · intro replay hrep
      cases Option.some.inj hrep
      exact ⟨Nat.zero_le _, hpays, by rw [htags]; exact List.prefix_refl _⟩
    · unfold KeyLedger.alive KeyLedger.letters
      rw [hnone]
      rfl

theorem reappend_cases (hclean : CleanCreate k) :
    KeyOk k.reappend ∧ k.reappend.alive = k.alive := by
  unfold KeyLedger.reappend
  split
  · rename_i done payload tag rest hrep
    obtain ⟨hle, hpays, ⟨extra, hextra⟩⟩ := h.replay _ hrep
    obtain ⟨p, hp, hline⟩ := hpays (some payload, tag) (List.mem_cons_self ..)
    cases Option.some.inj hp
    have hcount := count_frame hline
    have hcons : k.dead.drop done = tag :: (rest.map Prod.snd ++ extra) := hextra.symm
    have hnext : k.dead.drop (done + 1) = rest.map Prod.snd ++ extra := by
      rw [← List.drop_drop, hcons]
      rfl
    have hlength : done + 1 ≤ k.dead.length := by
      have hlen := congrArg List.length hcons
      rw [List.length_drop, List.length_cons] at hlen
      omega
    have hok := h.wrote hclean tag (Nat.le_of_eq hcount)
    refine ⟨⟨hok.pending, hok.dead, hok.boundary, hok.letter, ?_⟩, ?_⟩
    · intro replay hsome
      cases Option.some.inj hsome
      refine ⟨hlength, fun r hr => hpays r (List.mem_cons_of_mem _ hr), ?_⟩
      show rest.map Prod.snd <+: k.dead.drop (done + 1)
      rw [hnext]
      exact List.prefix_append _ _
    · have halive := alive_wrote h hclean tag (Nat.le_of_eq hcount)
      rw [if_pos hcount] at halive
      have hlets : k.letters = tag :: k.dead.drop (done + 1) := by
        simp only [KeyLedger.letters, hrep]
        rw [hcons, hnext]
      have hwrote : (k.wrote (Spool.frame payload) tag).letters = k.letters := rfl
      -- the tag leaves the dead letters as it enters the queue
      apply add_right_cancel (b := ({tag} : Multiset Tag))
      rw [← Multiset.coe_singleton, ← halive]
      unfold KeyLedger.alive
      rw [hwrote, hlets, coe_cons_eq_add tag (k.dead.drop (done + 1)), Multiset.coe_singleton,
        add_assoc, add_comm _ ({tag} : Multiset Tag)]
      rfl
  · rename_i tag rest hrep
    obtain ⟨_, hpays, _⟩ := h.replay _ hrep
    obtain ⟨payload, hpay, _⟩ := hpays _ (List.mem_cons_self ..)
    cases hpay
  · exact ⟨h, rfl⟩

theorem neutral_dropReplay (hdone : ∀ replay, k.replay = some replay → replay.done = 0) :
    Neutral k { k with replay := none } := by
  refine ⟨⟨h.pending, h.dead, h.boundary, h.letter, nofun⟩, ?_, rfl, rfl, rfl, fun _ => rfl⟩
  unfold KeyLedger.alive KeyLedger.letters
  cases hrep : k.replay with
  | none => rfl
  | some replay =>
    have hzero : replay.done = 0 := hdone replay hrep
    simp only [hzero]
    rfl

theorem neutral_replayAbort (hclean : CleanCreate k)
    (hbytes : newline ∉ bytes) (hdone : ∀ replay, k.replay = some replay → replay.done = 0) :
    Neutral k (k.replayAbort bytes) := by
  unfold KeyLedger.replayAbort
  split
  · have hwrote := neutral_wrote h hclean hbytes
    have hdrop := neutral_dropReplay hwrote.ok (fun replay hrep => hdone replay hrep)
    exact ⟨hdrop.ok, hdrop.alive.trans hwrote.alive, hwrote.inQueue, hwrote.countDead, rfl,
      fun _ => rfl⟩
  · exact ⟨h, rfl, rfl, rfl, rfl, id⟩

theorem reconcile_cases (hstep : k.reconciled = if k.letter then 1 else 0) :
    KeyOk k.reconcile ∧ k.reconcile.alive = k.alive
      ∧ k.reconcile.letter = false ∧ k.reconcile.replay = k.replay := by
  have hqueued : k.reconcile.queued = k.queued := by
    simp only [KeyLedger.queued, KeyLedger.reconcile, hstep, Bool.false_eq_true, if_false]
    split
    · rfl
    · rw [List.drop_zero]
  refine ⟨?_, ?_, rfl, rfl⟩
  · have hsplit : ∃ pre post, k.spool.uncommitted = pre ++ post
        ∧ k.spool.reconcileDead.content = k.spool.content
        ∧ k.spool.reconcileDead.log = k.spool.log
        ∧ k.spool.reconcileDead.deadLines = k.spool.deadLines
        ∧ k.spool.reconcileDead.committedOffset = endOf k.spool.committedOffset pre := by
      rcases k.spool.reconcileDead_cases with hsame | ⟨pre, post, hpre, heq⟩
      · rw [hsame]
        exact ⟨[], _, rfl, rfl, rfl, rfl, rfl⟩
      · rw [heq]
        exact ⟨pre, post, hpre, rfl, rfl, rfl, rfl⟩
    obtain ⟨pre, post, hpre, hcont, hlog, hdead, hoffset⟩ := hsplit
    have hrest : k.spool.reconcileDead.uncommitted = post := by
      rw [Spool.uncommitted, hcont, hoffset]
      exact recordsFrom_endOf hpre
    have hrec : k.reconciled = pre.length := by
      rw [KeyLedger.reconciled, hrest, hpre, List.length_append]
      omega
    have hok := keyOk_commit h hpre
    constructor
    · show (k.pending.drop k.reconciled).length = k.spool.reconcileDead.inQueue
      rw [hrec, hok.pending, Spool.inQueue_eq, Spool.inQueue_eq, hrest]
      exact congrArg List.length (recordsFrom_endOf hpre)
    · show k.dead.length = k.spool.reconcileDead.countDead
      rw [Spool.countDead, hdead]
      exact h.dead
    · show k.spool.reconcileDead.log ≠ none → _
      rw [hlog]
      intro hsome
      show Boundary newline k.spool.reconcileDead.content k.spool.reconcileDead.committedOffset
      rw [hcont, hoffset]
      exact hok.boundary hsome
    · intro hletter
      cases hletter
    · exact h.replay
  · unfold KeyLedger.alive
    rw [hqueued]
    rfl

end

/-! ## Placing the events of the server -/

theorem sum_insert_update {M κ : Type*} [AddCommMonoid M] (f : κ → M) (g : ι → κ)
    (known : Finset ι) (i : ι) (x : κ) (hunknown : i ∉ known → f (g i) = 0) {a b : M}
    (h : f x + a = f (g i) + b) :
    ∑ j ∈ insert i known, f (Function.update g i x j) + a = ∑ j ∈ known, f (g j) + b := by
  have hrest : ∑ j ∈ known.erase i, f (Function.update g i x j) = ∑ j ∈ known.erase i, f (g j) := by
    apply Finset.sum_congr rfl
    intro j hj
    rw [Function.update_of_ne (Finset.ne_of_mem_erase hj)]
  have hnew : ∑ j ∈ insert i known, f (Function.update g i x j)
      = f x + ∑ j ∈ known.erase i, f (g j) := by
    rw [← Finset.insert_erase (Finset.mem_insert_self i known), Finset.erase_insert_eq_erase,
      Finset.sum_insert (Finset.notMem_erase i known), Function.update_self, hrest]
  have hold : ∑ j ∈ known, f (g j) = f (g i) + ∑ j ∈ known.erase i, f (g j) := by
    by_cases hi : i ∈ known
    · rw [Finset.add_sum_erase known (fun j => f (g j)) hi]
    · rw [hunknown hi, zero_add, Finset.erase_eq_of_notMem hi]
  rw [hnew, hold, add_right_comm, h, add_right_comm]

/-- Where the events are: in the graph, removed, or in the files of a key. -/
def Ledger.places (s : Ledger ι) : Multiset Tag :=
  (s.writtenTags : Multiset Tag) + (s.removedTags : Multiset Tag)
    + ∑ i ∈ s.known, (s.keys i).alive

/-- Every tag is an event below the bound, and no event is in two places. -/
structure Placed (places : Multiset Tag) (bound : ℕ) : Prop where
  nodup : places.Nodup
  tags : ∀ t ∈ places, ∃ e < bound, t = some e

theorem Placed.of_le {places places' : Multiset Tag} {bound : ℕ} (h : Placed places bound)
    (hle : places' ≤ places) : Placed places' bound :=
  ⟨Multiset.nodup_of_le hle h.nodup, fun t ht => h.tags t (Multiset.mem_of_le hle ht)⟩

theorem Placed.add_next {places : Multiset Tag} {bound : ℕ} (h : Placed places bound) :
    Placed (places + {some bound}) (bound + 1) where
  nodup := by
    rw [add_comm, Multiset.singleton_add, Multiset.nodup_cons]
    refine ⟨?_, h.nodup⟩
    intro hmem
    obtain ⟨e, he, heq⟩ := h.tags _ hmem
    cases heq
    exact Nat.lt_irrefl _ he
  tags := by
    intro t ht
    rcases Multiset.mem_add.1 ht with hold | hnew
    · obtain ⟨e, he, heq⟩ := h.tags t hold
      exact ⟨e, by omega, heq⟩
    · exact ⟨bound, Nat.lt_succ_self _, Multiset.mem_singleton.1 hnew⟩

theorem Placed.card_missing {places : Multiset Tag} {bound : ℕ} (h : Placed places bound) :
    ((Finset.range bound).filter fun e => some e ∉ places).card + places.card = bound := by
  have himage : ((Finset.range bound).filter fun e => some e ∈ places).image some
      = places.toFinset := by
    ext t
    simp only [Finset.mem_image, Finset.mem_filter, Finset.mem_range, Multiset.mem_toFinset]
    constructor
    · rintro ⟨e, ⟨_, he⟩, rfl⟩
      exact he
    · intro ht
      obtain ⟨e, he, rfl⟩ := h.tags t ht
      exact ⟨e, ⟨he, ht⟩, rfl⟩
  have hcard : ((Finset.range bound).filter fun e => some e ∈ places).card = places.card := by
    rw [← Finset.card_image_of_injective _ (Option.some_injective ℕ), himage,
      Multiset.toFinset_card_of_nodup h.nodup]
  have hsplit := Finset.card_filter_add_card_filter_not (s := Finset.range bound)
    (fun e => some e ∈ places)
  rw [Finset.card_range] at hsplit
  omega

/-! ## The invariant -/

namespace Ledger

/-- The events the counters account for, those still to be counted included. -/
def balance (s : Ledger ι) : ℤ :=
  s.accepted + s.uncounted - s.written - s.owedWritten - s.owedPurged

def due (s : Ledger ι) : ℤ := s.nextEvent - s.writtenTags.length - s.removedTags.length

def lines (s : Ledger ι) (keys : Finset ι) : ℤ :=
  ∑ i ∈ keys, (((s.keys i).spool.inQueue : ℤ) + (s.keys i).spool.countDead)

end Ledger

/-- The counters agree with the events that are due. In the boot they do so up to what is still to
be seeded; before the scan nothing is counted and nothing is lost. -/
def BootOk (s : Ledger ι) : Boot ι → Prop
  | .done => s.balance = s.due
  | .reconciling => (s.accepted = 0 ∧ s.written = 0 ∧ s.uncounted = 0 ∧ s.owedWritten = 0
      ∧ s.owedPurged = 0) ∧ s.places.card = s.nextEvent ∧ ∀ i, (s.keys i).replay = none
  | .seeding rest accepted written => s.balance + accepted - written = s.due - s.lines rest

structure Inv (s : Ledger ι) : Prop where
  keys : ∀ i, KeyOk (s.keys i)
  unknown : ∀ i, i ∉ s.known → s.keys i = KeyLedger.empty
  placed : Placed s.places s.nextEvent
  boot : BootOk s s.boot

omit [DecidableEq ι] in
theorem inv_initial : Inv (Ledger.initial : Ledger ι) where
  keys := fun _ => keyOk_empty
  unknown := fun _ _ => rfl
  placed := ⟨Multiset.nodup_zero, fun _ h => absurd h (Multiset.notMem_zero _)⟩
  boot := rfl

variable {s : Ledger ι} {i : ι}

theorem places_setKey (h : Inv s) (s' : Ledger ι) (k : KeyLedger)
    (written removed : List Tag) (dropped new : Multiset Tag)
    (hkeys : s'.keys = Function.update s.keys i k) (hknown : s'.known = insert i s.known)
    (hwrite : s'.writtenTags = s.writtenTags ++ written)
    (hrem : s'.removedTags = s.removedTags ++ removed)
    (halive : k.alive + ((written : Multiset Tag) + (removed : Multiset Tag) + dropped)
      = (s.keys i).alive + new) :
    s'.places + dropped = s.places + new := by
  have hunknown : i ∉ s.known → (s.keys i).alive = 0 := by
    intro hi
    rw [h.unknown i hi]
    rfl
  have hsum := sum_insert_update KeyLedger.alive s.keys s.known i k hunknown halive
  unfold Ledger.places
  rw [hkeys, hknown, hwrite, hrem, ← Multiset.coe_add, ← Multiset.coe_add, add_assoc _ _ new,
    ← hsum]
  -- both sides are the same sum in another order
  ac_rfl

theorem places_of_alive (h : Inv s) (halive : k.alive = (s.keys i).alive) :
    (s.setKey i k).places = s.places := by
  have heq := places_setKey h (s.setKey i k) k [] [] 0 0 rfl rfl (List.append_nil _).symm
    (List.append_nil _).symm (by simp [halive])
  simpa using heq

theorem lines_setKey {s s' : Ledger ι} (keys : Finset ι)
    (hkeys : s'.keys = Function.update s.keys i k)
    (hk : i ∈ keys → k.spool.inQueue = (s.keys i).spool.inQueue
      ∧ k.spool.countDead = (s.keys i).spool.countDead) : s'.lines keys = s.lines keys := by
  apply Finset.sum_congr rfl
  intro j hj
  rw [hkeys]
  by_cases hij : j = i
  · subst hij
    rw [Function.update_self, (hk hj).1, (hk hj).2]
  · rw [Function.update_of_ne hij]

theorem Inv.onKey {s s' : Ledger ι} (h : Inv s)
    (hkeys : s'.keys = Function.update s.keys i k) (hknown : s'.known = insert i s.known)
    (hok : KeyOk k) (hplace : Placed s'.places s'.nextEvent) (hboot : BootOk s' s'.boot) :
    Inv s' := by
  refine ⟨fun j => ?_, fun j hj => ?_, hplace, hboot⟩
  · rw [hkeys]
    by_cases hij : j = i
    · subst hij
      rw [Function.update_self]
      exact hok
    · rw [Function.update_of_ne hij]
      exact h.keys j
  · rw [hknown, Finset.mem_insert, not_or] at hj
    rw [hkeys, Function.update_of_ne hj.1]
    exact h.unknown j hj.2

theorem replay_setKey (hk : k.replay = none)
    (hs : ∀ j, (s.keys j).replay = none) (j : ι) : ((s.setKey i k).keys j).replay = none := by
  by_cases hij : j = i
  · subst hij
    simpa [Ledger.setKey] using hk
  · simpa [Ledger.setKey, hij] using hs j

theorem Inv.live {s s' : Ledger ι} (h : Inv s) {i : ι} {k : KeyLedger} (hfree : Free s i)
    (hkeys : s'.keys = Function.update s.keys i k) (hknown : s'.known = insert i s.known)
    (hboot : s'.boot = s.boot) (hok : KeyOk k) (hplace : Placed s'.places s'.nextEvent)
    (hcount : s'.balance - s'.due = s.balance - s.due) : Inv s' := by
  refine h.onKey hkeys hknown hok hplace ?_
  · have hs := h.boot
    rw [hboot]
    unfold Free at hfree
    cases hcase : s.boot with
    | done =>
      rw [hcase] at hs
      show s'.balance = s'.due
      have hsame : s.balance = s.due := hs
      omega
    | reconciling =>
      rw [hcase] at hfree
      exact hfree.elim
    | seeding rest accepted written =>
      rw [hcase] at hs hfree
      have hlines := lines_setKey rest hkeys (fun hi => absurd hi hfree)
      have hsame : s.balance + accepted - written = s.due - s.lines rest := hs
      show s'.balance + accepted - written = s'.due - s'.lines rest
      rw [hlines]
      omega

theorem Inv.neutral (h : Inv s) (hk : Neutral (s.keys i) k) : Inv (s.setKey i k) := by
  have hplace := places_of_alive h hk.alive
  refine h.onKey rfl rfl hk.ok ?_ ?_
  · rw [hplace]
    exact h.placed
  · have hs := h.boot
    show BootOk (s.setKey i k) s.boot
    cases hcase : s.boot with
    | done =>
      rw [hcase] at hs
      exact hs
    | reconciling =>
      rw [hcase] at hs
      exact ⟨hs.1, by rw [hplace]; exact hs.2.1, replay_setKey (hk.replay (hs.2.2 i)) hs.2.2⟩
    | seeding rest accepted written =>
      rw [hcase] at hs
      have hlines : (s.setKey i k).lines rest = s.lines rest :=
        lines_setKey rest rfl (fun _ => ⟨hk.inQueue, hk.countDead⟩)
      show s.balance + accepted - written = s.due - (s.setKey i k).lines rest
      rw [hlines]
      exact hs

/-! ## Live steps -/

theorem Inv.append {s : Ledger ι} (h : Inv s) {i : ι} (body : Body) (hfree : Free s i)
    (hclean : CleanCreate (s.keys i)) : Inv (s.append i body) := by
  have hcount := count_frame body.2
  have hok := (h.keys i).wrote hclean (some s.nextEvent) (Nat.le_of_eq hcount)
  have halive := alive_wrote (h.keys i) hclean (some s.nextEvent) (Nat.le_of_eq hcount)
  rw [if_pos hcount] at halive
  have hplace := places_setKey h (s.append i body) _ [] [] 0 {some s.nextEvent} rfl rfl
    (List.append_nil _).symm (List.append_nil _).symm (by simpa using halive)
  rw [add_zero] at hplace
  refine h.live hfree rfl rfl rfl hok ?_ ?_
  · rw [hplace]
    exact h.placed.add_next
  · simp only [Ledger.balance, Ledger.due, Ledger.append, Ledger.setKey]
    push_cast
    omega

theorem Inv.liveKey (h : Inv s) (hfree : Free s i)
    (hok : KeyOk k) (hdropped : ∃ dropped, k.alive + dropped = (s.keys i).alive) :
    Inv (s.setKey i k) := by
  obtain ⟨dropped, hdropped⟩ := hdropped
  have hplace := places_setKey h (s.setKey i k) k [] [] dropped 0 rfl rfl
    (List.append_nil _).symm (List.append_nil _).symm (by simpa using hdropped)
  rw [add_zero] at hplace
  refine h.live hfree rfl rfl rfl hok (h.placed.of_le ?_) rfl
  rw [← hplace]
  exact Multiset.le_add_right _ _

theorem Inv.drain {s : Ledger ι} (h : Inv s) {i : ι} (count : ℕ) (hfree : Free s i) :
    Inv (s.drain i count) := by
  obtain ⟨hok, halive⟩ := drain_cases (h.keys i) count
  have hplace := places_setKey h (s.drain i count) ((s.keys i).drain count).1
    ((s.keys i).drain count).2 [] 0 0 rfl rfl rfl (List.append_nil _).symm (by simpa using halive)
  rw [add_zero, add_zero] at hplace
  refine h.live hfree rfl rfl rfl hok ?_ ?_
  · rw [hplace]
    exact h.placed
  · simp only [Ledger.balance, Ledger.due, Ledger.drain, Ledger.setKey, List.length_append]
    push_cast
    omega

theorem Inv.purge {s : Ledger ι} (h : Inv s) {i : ι} (hfree : Free s i)
    (hrep : (s.keys i).replay = none) : Inv (s.purge i) := by
  obtain ⟨hok, halive⟩ := purge_cases (h.keys i) hrep
  have hplace := places_setKey h (s.purge i) (s.keys i).purge [] (s.keys i).dead 0 0 rfl rfl
    (List.append_nil _).symm rfl (by simpa using halive)
  rw [add_zero, add_zero] at hplace
  refine h.live hfree rfl rfl rfl hok ?_ ?_
  · rw [hplace]
    exact h.placed
  · have hdead := (h.keys i).dead
    simp only [Ledger.balance, Ledger.due, Ledger.purge, Ledger.setKey, List.length_append, hdead]
    push_cast
    omega

theorem Inv.deleteSession (h : Inv s) (cut : Option ℕ)
    (hnone : (s.keys i).spool.deadLines = []) : Inv (s.deleteSession i cut) := by
  have hdead : (s.keys i).dead = [] := by
    apply List.eq_nil_of_length_eq_zero
    rw [(h.keys i).dead, Spool.countDead, hnone]
    rfl
  have hneutral := neutral_afterDeletion (h.keys i)
    ((s.keys i).spool.deleteSessionCut_cases cut) (.inr hnone)
  have hsame : s.deleteSession i cut
      = s.setKey i ((s.keys i).afterDeletion ((s.keys i).spool.deleteSessionCut cut)) := by
    simp [Ledger.deleteSession, Ledger.setKey, hdead]
  rw [hsame]
  exact h.neutral hneutral

/-! ## Counting the places -/

theorem card_alive (h : KeyOk k) (hletter : k.letter = false) (hrep : k.replay = none) :
    k.alive = (k.pending : Multiset Tag) + (k.dead : Multiset Tag)
      ∧ k.alive.card = k.spool.inQueue + k.spool.countDead := by
  have halive : k.alive = (k.pending : Multiset Tag) + (k.dead : Multiset Tag) := by
    simp [KeyLedger.alive, KeyLedger.queued, KeyLedger.letters, hletter, hrep]
  refine ⟨halive, ?_⟩
  rw [halive, Multiset.card_add, Multiset.coe_card, Multiset.coe_card, h.pending, h.dead]

theorem lines_of_not_visible {s : Spool} (h : s.visible = false) :
    s.inQueue = 0 ∧ s.countDead = 0 := by
  simp only [Spool.visible, Bool.or_eq_false_iff, Option.isSome_eq_false_iff,
    Option.isNone_iff_eq_none] at h
  constructor
  · rw [Spool.inQueue, Spool.content_of_log_none h.1]
    simp
  · rw [Spool.countDead, Spool.deadLines, h.2]
    rfl

omit [DecidableEq ι] in
theorem lines_listed (s : Ledger ι) : s.lines s.listed = s.lines s.known := by
  apply Finset.sum_subset (Finset.filter_subset _ _)
  intro i hknown hlisted
  have hhid : (s.keys i).spool.visible = false := by
    by_contra hvis
    exact hlisted (Finset.mem_filter.2 ⟨hknown, by simpa using hvis⟩)
  obtain ⟨hqueue, hdead⟩ := lines_of_not_visible hhid
  rw [hqueue, hdead]
  rfl

omit [DecidableEq ι] in
theorem card_places (h : Inv s) (hletter : ∀ i, (s.keys i).letter = false)
    (hrep : ∀ i, (s.keys i).replay = none) :
    (s.places.card : ℤ) = s.writtenTags.length + s.removedTags.length + s.lines s.known := by
  have hsum : (∑ i ∈ s.known, (s.keys i).alive).card
      = ∑ i ∈ s.known, ((s.keys i).spool.inQueue + (s.keys i).spool.countDead) := by
    rw [Multiset.card_sum]
    apply Finset.sum_congr rfl
    intro i _
    exact (card_alive (h.keys i) (hletter i) (hrep i)).2
  unfold Ledger.places Ledger.lines
  rw [Multiset.card_add, Multiset.card_add, Multiset.coe_card, Multiset.coe_card, hsum]
  simp only [Nat.cast_add, Nat.cast_sum]

omit [DecidableEq ι] in
theorem mem_places_of_mem_alive {t : Tag} (hi : i ∈ s.known)
    (ht : t ∈ (s.keys i).alive) : t ∈ s.places :=
  Multiset.mem_add.2 (.inr (Multiset.mem_sum.2 ⟨i, hi, ht⟩))

omit [DecidableEq ι] in
theorem card_places_of_lost_eq_zero (h : Inv s) (hlost : s.lost = 0)
    (hkeys : ∀ i, (∀ replay, (s.keys i).replay = some replay → replay.done = 0)
      ∧ ((s.keys i).letter = true → ∀ t ∈ (s.keys i).pending.head?, t ∈ (s.keys i).dead)) :
    s.places.card = s.nextEvent := by
  have hmissing : (Finset.range s.nextEvent).filter (fun e => some e ∉ s.places) = ∅ := by
    rw [Finset.filter_eq_empty_iff]
    intro e he hmiss
    rw [Ledger.lost, Finset.card_eq_zero, Finset.filter_eq_empty_iff] at hlost
    apply hlost he
    refine ⟨?_, ?_, ?_⟩
    · intro hwrite
      apply hmiss
      exact Multiset.mem_add.2 (.inl (Multiset.mem_add.2 (.inl hwrite)))
    · intro hrem
      apply hmiss
      exact Multiset.mem_add.2 (.inl (Multiset.mem_add.2 (.inr hrem)))
    · intro i hi
      have hlets : (s.keys i).letters = (s.keys i).dead := by
        unfold KeyLedger.letters
        cases hrep : (s.keys i).replay with
        | none => rfl
        | some replay =>
          have hzero : replay.done = 0 := (hkeys i).1 replay hrep
          simp only [hzero, List.drop_zero]
      have hdead : some e ∉ (s.keys i).dead := by
        intro hmem
        apply hmiss
        apply mem_places_of_mem_alive hi
        rw [KeyLedger.alive, hlets]
        exact Multiset.mem_add.2 (.inr hmem)
      refine ⟨?_, hdead⟩
      intro hpend
      have hqueued : some e ∉ (s.keys i).queued := by
        intro hmem
        exact hmiss (mem_places_of_mem_alive hi (Multiset.mem_add.2 (.inl hmem)))
      unfold KeyLedger.queued at hqueued
      cases hletter : (s.keys i).letter with
      | false =>
        rw [hletter] at hqueued
        exact hqueued hpend
      | true =>
        -- the first pending record is dead-lettered, and its letter is in the file
        rw [hletter, if_pos rfl] at hqueued
        cases hlist : (s.keys i).pending with
        | nil =>
          rw [hlist] at hpend
          cases hpend
        | cons t tags =>
          rw [hlist] at hpend hqueued
          rcases List.mem_cons.1 hpend with rfl | hrest
          · exact hdead ((hkeys i).2 hletter _ (by rw [hlist]; rfl))
          · exact hqueued hrest
  have hcard := h.placed.card_missing
  rw [hmissing, Finset.card_empty, Nat.zero_add] at hcard
  exact hcard

/-! ## The boot -/

omit [DecidableEq ι] in
theorem Inv.crash {s : Ledger ι} (h : Inv s) (hlost : s.lost = 0)
    (hkeys : ∀ i, (∀ replay, (s.keys i).replay = some replay → replay.done = 0)
      ∧ ((s.keys i).letter = true → ∀ t ∈ (s.keys i).pending.head?, t ∈ (s.keys i).dead)) :
    Inv s.crash := by
  have hneutral : ∀ i, Neutral (s.keys i) { s.keys i with replay := none } :=
    fun i => neutral_dropReplay (h.keys i) (hkeys i).1
  have hplace : s.crash.places = s.places := by
    have hsum : ∑ i ∈ s.known, (s.crash.keys i).alive = ∑ i ∈ s.known, (s.keys i).alive :=
      Finset.sum_congr rfl fun i _ => (hneutral i).alive
    unfold Ledger.places
    rw [← hsum]
    rfl
  constructor
  · exact fun i => (hneutral i).ok
  · intro i hi
    show { s.keys i with replay := none } = KeyLedger.empty
    rw [h.unknown i hi]
    rfl
  · rw [hplace]
    exact h.placed
  · refine ⟨⟨rfl, rfl, rfl, rfl, rfl⟩, ?_, fun _ => rfl⟩
    rw [hplace]
    exact card_places_of_lost_eq_zero h hlost hkeys

theorem Inv.reconcile {s : Ledger ι} (h : Inv s) {i : ι} (hboot : s.boot = .reconciling)
    (hstep : (s.keys i).reconciled = if (s.keys i).letter then 1 else 0) :
    Inv (s.setKey i (s.keys i).reconcile) := by
  obtain ⟨hok, halive, _, hrep⟩ := reconcile_cases (h.keys i) hstep
  have hplace := places_of_alive h halive
  have hs := h.boot
  rw [hboot] at hs
  refine h.onKey rfl rfl hok ?_ ?_
  · rw [hplace]
    exact h.placed
  · show BootOk _ s.boot
    rw [hboot]
    exact ⟨hs.1, by rw [hplace]; exact hs.2.1, replay_setKey (hrep.trans (hs.2.2 i)) hs.2.2⟩

omit [DecidableEq ι] in
theorem Inv.listKeys (h : Inv s) (hboot : s.boot = .reconciling)
    (hletter : ∀ i, (s.keys i).letter = false) : Inv { s with boot := .seeding s.listed 0 0 } := by
  have hs := h.boot
  rw [hboot] at hs
  obtain ⟨⟨ha, hw, hu, how, hop⟩, hcard, hrep⟩ := hs
  refine ⟨h.keys, h.unknown, h.placed, ?_⟩
  show s.balance + 0 - 0 = s.due - s.lines s.listed
  have hplace := card_places h hletter hrep
  rw [lines_listed, Ledger.balance, Ledger.due, ha, hw, hu, how, hop]
  rw [hcard] at hplace
  push_cast
  omega

theorem recoverySeedCounts_sub (s : Spool) :
    (s.recoverySeedCounts.1 : ℤ) - s.recoverySeedCounts.2 = s.inQueue + s.countDead := by
  simp only [Spool.recoverySeedCounts, Spool.pendingCount_eq, Spool.inQueue_eq]
  push_cast
  omega

theorem Inv.scanKey (h : Inv s) (i : ι) : Inv (s.scanKey i) := by
  unfold Ledger.scanKey
  split
  · rename_i rest accepted written hboot
    split
    · rename_i hi
      have hs := h.boot
      rw [hboot] at hs
      refine ⟨h.keys, h.unknown, h.placed, ?_⟩
      have hseed := recoverySeedCounts_sub (s.keys i).spool
      have hlines : s.lines rest = ((s.keys i).spool.inQueue + (s.keys i).spool.countDead)
          + s.lines (rest.erase i) := (Finset.add_sum_erase rest _ hi).symm
      have hsame : s.balance + accepted - written = s.due - s.lines rest := hs
      show s.balance + (accepted + _) - (written + _) = s.due - s.lines (rest.erase i)
      omega
    · exact h
  · exact h

theorem Inv.seedCounters (h : Inv s) : Inv s.seedCounters := by
  unfold Ledger.seedCounters
  split
  · rename_i rest accepted written hboot
    split
    · rename_i hrest
      have hs := h.boot
      rw [hboot, hrest] at hs
      have hsame : s.balance + accepted - written = s.due - s.lines ∅ := hs
      have hempty : s.lines ∅ = 0 := Finset.sum_empty
      refine ⟨h.keys, h.unknown, h.placed, ?_⟩
      show s.accepted + accepted + s.uncounted - (s.written + written) - s.owedWritten
        - s.owedPurged = s.due
      rw [Ledger.balance] at hsame
      omega
    · exact h
  · exact h

/-! ## Whole runs -/

omit [DecidableEq ι] in
theorem Inv.counters {s : Ledger ι} (h : Inv s) (accepted written : ℤ)
    (uncounted owedWritten owedPurged : ℕ)
    (hbalance : accepted + uncounted - written - owedWritten - owedPurged = s.balance)
    (hidle : s.uncounted = 0 → s.owedWritten = 0 → s.owedPurged = 0 →
      accepted = s.accepted ∧ written = s.written ∧ uncounted = 0 ∧ owedWritten = 0
        ∧ owedPurged = 0) :
    Inv { s with
      accepted := accepted, written := written, uncounted := uncounted
      owedWritten := owedWritten, owedPurged := owedPurged } := by
  refine ⟨h.keys, h.unknown, h.placed, ?_⟩
  have hs := h.boot
  show BootOk _ s.boot
  cases hcase : s.boot with
  | done =>
    rw [hcase] at hs
    exact hbalance.trans hs
  | reconciling =>
    rw [hcase] at hs
    obtain ⟨⟨ha, hw, hu, how, hop⟩, hcard, hrep⟩ := hs
    obtain ⟨ha', hw', hu', how', hop'⟩ := hidle hu how hop
    exact ⟨⟨ha'.trans ha, hw'.trans hw, hu', how', hop'⟩, hcard, hrep⟩
  | seeding rest a w =>
    rw [hcase] at hs
    have hsame : s.balance + a - w = s.due - s.lines rest := hs
    show accepted + uncounted - written - owedWritten - owedPurged + a - w
      = s.due - s.lines rest
    omega

theorem ledgerStep_inv (s : Ledger ι) (a : LedgerAction ι) (h : Inv s) (hclean : Counted s a) :
    Inv (ledgerStep s a) := by
  have hexact : ∀ {k k' : KeyLedger}, k.alive = k'.alive →
    ∃ dropped, k.alive + dropped = k'.alive :=
    fun heq => ⟨0, by rw [add_zero, heq]⟩
  cases a with
  | append i body => exact h.append body hclean.1 hclean.2
  | countAccepted =>
    simp only [ledgerStep]
    split
    · exact h
    · refine h.counters _ _ _ _ _ ?_ (fun hu => absurd hu ‹_›)
      simp only [Ledger.balance]
      omega
  | cancelAccepted =>
    have hzero : s.uncounted = 0 := hclean
    refine h.counters _ _ _ _ _ ?_ (fun _ how hop => ⟨rfl, rfl, by omega, how, hop⟩)
    simp only [Ledger.balance]
    omega
  | appendFails i bytes => exact h.neutral (neutral_wrote (h.keys i) hclean.2 hclean.1)
  | drain i count => exact h.drain count hclean
  | countWritten n =>
    simp only [ledgerStep]
    split
    · refine h.counters _ _ _ _ _ ?_ (fun hu how hop => ⟨rfl, by omega, hu, by omega, hop⟩)
      simp only [Ledger.balance]
      omega
    · exact h
  | cancelWritten n =>
    have hzero : s.owedWritten - n = s.owedWritten := by
      rcases hclean with hn | how <;> omega
    refine h.counters _ _ _ _ _ ?_ (fun hu how hop => ⟨rfl, rfl, hu, by omega, hop⟩)
    simp only [Ledger.balance]
    omega
  | deadLetter i =>
    obtain ⟨hok, halive⟩ := deadLetter_cases (h.keys i)
    exact h.liveKey hclean hok (hexact halive)
  | commitLetter i =>
    obtain ⟨hok, halive⟩ := commitLetter_cases (h.keys i)
    exact h.liveKey hclean hok (hexact halive)
  | dropLetter i => exact h.neutral (neutral_dropLetter (h.keys i) hclean)
  | deadLetterFails i done => exact h.neutral (neutral_deadLetterFails (h.keys i) hclean)
  | trim i cut =>
    exact h.neutral (neutral_afterDeletion (h.keys i)
      ((s.keys i).spool.deleteDrainedCut_cases cut)
      (.inl ((s.keys i).spool.deleteDrainedCut_dead cut)))
  | purge i => exact h.purge hclean.1 hclean.2
  | countPurged n =>
    simp only [ledgerStep]
    split
    · rename_i hn
      -- the clamp of `record_purged` does not engage
      have hpurge : s.recordPurged n = { s with accepted := s.accepted - n } := by
        unfold Ledger.recordPurged
        split
        · rename_i hzero
          simp [hzero]
        · rw [max_eq_right hclean]
      rw [hpurge]
      refine h.counters (s.accepted - n) s.written s.uncounted s.owedWritten (s.owedPurged - n)
        ?_ (fun hu how hop => ⟨by omega, rfl, hu, how, by omega⟩)
      simp only [Ledger.balance]
      omega
    · exact h
  | cancelPurged n =>
    have hzero : s.owedPurged - n = s.owedPurged := by
      rcases hclean with hn | hop <;> omega
    refine h.counters _ _ _ _ _ ?_ (fun hu how hop => ⟨rfl, rfl, hu, how, by omega⟩)
    simp only [Ledger.balance]
    omega
  | replayRead i =>
    obtain ⟨hok, halive⟩ := replayRead_cases (h.keys i) hclean.2
    exact h.liveKey hclean.1 hok (hexact halive)
  | reappend i =>
    obtain ⟨hok, halive⟩ := reappend_cases (h.keys i) hclean.2
    exact h.liveKey hclean.1 hok (hexact halive)
  | replayAbort i bytes =>
    exact h.neutral (neutral_replayAbort (h.keys i) hclean.2.1 hclean.1 hclean.2.2)
  | replayPurge i =>
    obtain ⟨hok, hdropped⟩ := replayPurge_cases (h.keys i)
    exact h.liveKey hclean hok hdropped
  | deleteSession i cut => exact h.deleteSession cut hclean
  | crash => exact h.crash hclean.1 hclean.2
  | reconcile i =>
    simp only [ledgerStep]
    split
    · rename_i hboot
      exact h.reconcile hboot hclean
    · exact h
  | listKeys =>
    simp only [ledgerStep]
    split
    · rename_i hboot
      exact h.listKeys hboot hclean
    · exact h
  | scanKey i => exact h.scanKey i
  | seedCounters => exact h.seedCounters
  | bootFails =>
    have hdone : s.boot = .done := hclean
    have hsame : ledgerStep s .bootFails = s := by
      simp only [ledgerStep, ← hdone]
    rw [hsame]
    exact h

omit [DecidableEq ι] in
theorem Inv.conserved {s : Ledger ι} (h : Inv s) : Conserved s := by
  intro hq
  have hplace := card_places h hq.letter hq.replay
  have hmissing := h.placed.card_missing
  have hlost : s.lost = ((Finset.range s.nextEvent).filter fun e => some e ∉ s.places).card := by
    unfold Ledger.lost
    congr 1
    ext e
    simp only [Finset.mem_filter, Ledger.places, Multiset.mem_add, Multiset.mem_coe,
      Multiset.mem_sum, not_or, not_exists, not_and, and_congr_right_iff, and_assoc]
    intro _ _ _
    constructor
    · intro hkeys i hi halive
      rw [(card_alive (h.keys i) (hq.letter i) (hq.replay i)).1, Multiset.mem_add] at halive
      rcases halive with hpend | hdead
      · exact (hkeys i hi).1 hpend
      · exact (hkeys i hi).2 hdead
    · intro hkeys i hi
      have halive := hkeys i hi
      rw [(card_alive (h.keys i) (hq.letter i) (hq.replay i)).1, Multiset.mem_add, not_or] at halive
      exact halive
  have hbalance : s.balance = s.due := by
    have hs := h.boot
    rw [hq.boot] at hs
    exact hs
  have htotal : (s.inQueueTotal : ℤ) + s.deadTotal = s.lines s.known := by
    rw [← lines_listed]
    simp only [Ledger.inQueueTotal, Ledger.deadTotal, Ledger.lines, Nat.cast_sum,
      Finset.sum_add_distrib]
  rw [Ledger.balance, Ledger.due, hq.uncounted, hq.owedWritten, hq.owedPurged] at hbalance
  rw [Ledger.residual, hlost]
  push_cast at hbalance
  omega

/-- **Conservation.**  In every run of the server whose steps are all counted, in every quiescent
state it reaches, the residual over a fresh snapshot is the number of events that were lost. -/
theorem conserved_of_counted (actions : List (LedgerAction ι))
    (h : Along ledgerStep Counted Ledger.initial actions) :
    Conserved (run ledgerStep Ledger.initial actions) :=
  (h.invariant ledgerStep_inv inv_initial).conserved

/-- A request that arrives between the restart and the scan is counted by `record_accepted` and
again by `recovery_seed_counts`: the residual is one and nothing is lost. -/
theorem acceptedBeforeSeed_not_conserved :
    ¬ Conserved (run ledgerStep (Ledger.initial : Ledger Unit)
      [.crash, .append () ⟨[65], by decide⟩, .countAccepted, .listKeys, .scanKey (),
        .seedCounters]) := by
  intro h
  have hres := h ⟨rfl, rfl, rfl, rfl, fun _ => rfl, fun _ => rfl⟩
  revert hres
  decide

/-- Two events, one written and one dead-lettered, with a restart in between. -/
theorem conserved_of_counted_restarted :
    Conserved (run ledgerStep (Ledger.initial : Ledger Unit)
      [.append () ⟨[65], by decide⟩, .countAccepted, .append () ⟨[66], by decide⟩, .countAccepted,
        .drain () 1, .countWritten 1, .crash, .reconcile (), .listKeys, .scanKey (), .seedCounters,
        .deadLetter (), .commitLetter ()]) := by
  apply conserved_of_counted
  refine ⟨⟨trivial, fun _ => rfl⟩, trivial, ⟨trivial, fun _ => rfl⟩, trivial, trivial, trivial,
    ⟨?_, fun _ => ⟨nofun, nofun⟩⟩, ?_, fun _ => rfl, trivial, trivial, trivial, trivial, trivial⟩
  · decide
  · rfl

end ContextIntelligence.Pipeline
