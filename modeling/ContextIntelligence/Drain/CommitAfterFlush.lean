import ContextIntelligence.Drain.Worker

/-!
# Commit after flush

The drain worker moves the committed offset from four places. `Safe` is the invariant that covers
all: the offset stands on a record boundary and every record below it was in a buffer whose flush
returned, or its dead letter is written. Each function of the worker gets one triple; `Ready rs`
says what it knows of a batch it still has to commit. Only a deletion that stops between its two
unlinks breaks the invariant; `CleanDelete` rules it out.
-/

namespace ContextIntelligence.Drain

open Lib.Lines Lib.Coroutine Queue

variable (cfg : Config)

/-! ## The invariant -/

/-- A record of the present log reached the graph or has its dead letter written. -/
def Accounted (w : World) (r : Record) : Prop :=
  (w.logNumber, r) ∈ w.written ∨ (w.logNumber, r) ∈ w.quarantined

/-- Every complete record below the committed offset is accounted for, and the dead letter of a
quarantined record is in the dead-letter file. -/
structure Safe (w : World) : Prop where
  offset_of_log : w.spool.log = none → w.spool.offset = none
  boundary : Boundary newline w.spool.content w.spool.committedOffset
  accounted : ∀ r ∈ w.spool.records, r.stop ≤ w.spool.committedOffset → Accounted w r
  filed : ∀ q ∈ w.quarantined, q.2.raw ∈ w.spool.deadPayloads

/-- The committed offset is `c` and the records `rs` are the first ones above it. -/
structure Ready (c : Nat) (rs : List Record) (w : World) : Prop where
  safe : Safe w
  offset : w.spool.committedOffset = c
  ahead : rs <+: recordsFrom newline w.spool.content c

/-- The records `rs` of the present log are in the graph buffer. -/
def Buffered (rs : List Record) (w : World) : Prop := ∀ r ∈ rs, (w.logNumber, r) ∈ w.buffer

/-- No deletion stops between the unlink of the log and the unlink of the offset. -/
def CleanDelete (t : DrainTurn) : Prop :=
  ∀ done, (t.fate .deleteDrained = .die done ∨ ∃ f, t.fate .deleteDrained = .raise f done) →
    done ≠ 1

/-- A condition on turns under which no deletion stops half way, also where cancellation is held
back. -/
structure Admissible (A : DrainTurn → Prop) : Prop where
  clean : ∀ t, A t → CleanDelete t
  held : ∀ t, A t → A ⟨t.env, t.reading, fun o => holdCancelled (t.fate o)⟩

theorem eq_die_of_holdCancelled {fate : Fate Fault} {done : Nat}
    (h : holdCancelled fate = .die done) : fate = .die done := by
  unfold holdCancelled at h
  split at h
  · cases h
  · exact h

theorem eq_raise_of_holdCancelled {fate : Fate Fault} {f : Fault} {done : Nat}
    (h : holdCancelled fate = .raise f done) : fate = .raise f done := by
  unfold holdCancelled at h
  split at h
  · cases h
  · exact h

theorem admissible_cleanDelete : Admissible CleanDelete where
  clean := fun _ h => h
  held := by
    rintro t h done (hdie | ⟨f, hraise⟩)
    · exact h done (.inl (eq_die_of_holdCancelled hdie))
    · exact h done (.inr ⟨f, eq_raise_of_holdCancelled hraise⟩)

/-! ## What one step does to the invariant -/

variable {w : World}

theorem Safe.writeLog (h : Safe w) (bytes : Bytes) (posts : Nat) :
    Safe { w with spool := w.spool.writeLog bytes, posts := posts } where
  offset_of_log := fun hlog => nomatch hlog
  boundary := h.boundary.append bytes
  accounted := fun r hr hle => h.accounted r (mem_records_of_append h.boundary hr hle) hle
  filed := h.filed

theorem Safe.stable : Stable World.stim Safe := by
  intro i w h
  cases i with
  | post => exact ⟨h.offset_of_log, h.boundary, h.accounted, h.filed⟩
  | append bytes => exact h.writeLog bytes (w.posts - 1)

theorem Ready.stable (c : Nat) (rs : List Record) : Stable World.stim (Ready c rs) := by
  intro i w h
  cases i with
  | post => exact ⟨Safe.stable _ w h.safe, h.offset, h.ahead⟩
  | append bytes =>
    exact ⟨Safe.stable _ w h.safe, h.offset, h.ahead.trans (recordsFrom_append bytes)⟩

theorem stable_and {P Q : World → Prop} (hP : Stable World.stim P) (hQ : Stable World.stim Q) :
    Stable World.stim fun w => P w ∧ Q w :=
  fun i w h => ⟨hP i w h.1, hQ i w h.2⟩

theorem buffered_stable (rs : List Record) : Stable World.stim (Buffered rs) := by
  intro i w h
  cases i with
  | post => exact h
  | append bytes => exact h

theorem accounted_stable (rs : List Record) :
    Stable World.stim fun w => ∀ r ∈ rs, Accounted w r := by
  intro i w h
  cases i with
  | post => exact h
  | append bytes => exact h

theorem Ready.log_ne_none {c : Nat} {rs : List Record} (h : Ready c rs w)
    (hrs : rs ≠ []) : w.spool.log ≠ none := by
  intro hlog
  have hahead := h.ahead
  rw [Spool.content_of_log_none hlog, recordsFrom, List.drop_nil, scan,
    List.prefix_nil] at hahead
  exact hrs hahead

theorem Ready.commit {c : Nat} {w : World} {rs rest : List Record} (h : Ready c (rs ++ rest) w)
    (hne : rs ++ rest ≠ []) (hacc : ∀ r ∈ rs, Accounted w r) :
    Ready (endOf c rs) rest (w.committed (endOf c rs)) := by
  have hlog := h.log_ne_none hne
  obtain ⟨hsafe, rfl, post, hpost⟩ := h
  have hsplit : recordsFrom newline w.spool.content w.spool.committedOffset
      = rs ++ (rest ++ post) := by
    rw [← List.append_assoc]
    exact hpost.symm
  refine ⟨⟨fun hnone => absurd hnone hlog, boundary_endOf hsafe.boundary hsplit, ?_,
    hsafe.filed⟩, rfl, post, (recordsFrom_endOf hsplit).symm⟩
  intro r hr hle
  rcases mem_records_below_endOf hsafe.boundary hsplit hr hle with hle | hmem
  · exact hsafe.accounted r hr hle
  · exact hacc r hmem

theorem Safe.flushed {w : World} (h : Safe w) : Safe w.flushed where
  offset_of_log := h.offset_of_log
  boundary := h.boundary
  accounted := by
    intro r hr hle
    rcases h.accounted r hr hle with hw | hq
    · exact .inl (List.mem_append_left _ hw)
    · exact .inr hq
  filed := h.filed

theorem Safe.congr {w w' : World} (h : Safe w) (hspool : w'.spool = w.spool)
    (hnumber : w'.logNumber = w.logNumber) (hwrite : w'.written = w.written)
    (hquar : w'.quarantined = w.quarantined) : Safe w' := by
  refine ⟨?_, ?_, ?_, ?_⟩
  · rw [hspool]
    exact h.offset_of_log
  · rw [hspool]
    exact h.boundary
  · intro r hr hle
    rw [hspool] at hr hle
    rw [Accounted, hnumber, hwrite, hquar]
    exact h.accounted r hr hle
  · rw [hspool, hquar]
    exact h.filed

theorem Safe.deadLettered (h : Safe w) (rec : Record) : Safe (w.deadLettered rec) where
  offset_of_log := h.offset_of_log
  boundary := h.boundary
  accounted := by
    intro r hr hle
    rcases h.accounted r hr hle with hw | hq
    · exact .inl hw
    · exact .inr (List.mem_append_left _ hq)
  filed := by
    intro q hq
    simp only [World.deadLettered, Spool.deadPayloads_deadLetter, List.mem_append,
      List.mem_singleton] at hq ⊢
    rcases hq with hq | rfl
    · exact .inl (h.filed q hq)
    · exact .inr rfl

theorem Safe.deadLetterPartial (h : Safe w) (done : Nat) :
    Safe { w with spool := w.spool.deadLetterPartial done } := by
  have hcont : (w.spool.deadLetterPartial done).content = w.spool.content := by
    simp [Spool.content]
  have hoffset : (w.spool.deadLetterPartial done).committedOffset = w.spool.committedOffset := by
    simp [Spool.committedOffset]
  refine ⟨?_, ?_, ?_, ?_⟩
  · simpa using h.offset_of_log
  · simpa only [hcont, hoffset] using h.boundary
  · intro r hr hle
    simp only [Spool.records, hcont, hoffset] at hr hle
    exact h.accounted r hr hle
  · simpa only [Spool.deadPayloads_deadLetterPartial] using h.filed

theorem Safe.deleted {w : World} (h : Safe w) :
    Safe (w.withSpool { w.spool with log := none, offset := none }) where
  offset_of_log := fun _ => rfl
  boundary := boundary_zero newline _
  accounted := by
    intro r hr
    simp [World.withSpool, Spool.records, Spool.content, records, scan] at hr
  filed := h.filed

theorem withSpool_self (w : World) : w.withSpool w.spool = w := by
  unfold World.withSpool
  split
  · rename_i hlog
    exact absurd hlog.2 hlog.1
  · rfl

theorem Safe.deleteDrained (h : Safe w) : Safe (w.withSpool w.spool.deleteDrained.2) := by
  rcases w.spool.deleteDrained_cases with ⟨_, heq⟩ | ⟨_, heq⟩
  · rw [heq, withSpool_self]
    exact h
  · rw [heq]
    exact h.deleted

theorem Safe.deleteDrainedPartial (h : Safe w) {done : Nat} (hdone : done ≠ 1) :
    Safe (w.withSpool (w.spool.deleteDrainedPartial done)) := by
  rcases w.spool.deleteDrainedPartial_cases done with heq | ⟨hone, _⟩ | ⟨_, heq⟩
  · rw [heq, withSpool_self]
    exact h
  · exact absurd hone hdone
  · rw [heq]
    exact h.deleted

/-! ## What a batch acknowledges -/

/-- What the loop of `_process_batch` returns when no record fails. -/
def tally (cfg : Config) : List Record → Nat → Option Nat → Nat × Option Nat
  | [], safeCount, terminalAt => (safeCount, terminalAt)
  | _ :: rest, safeCount, some at_ => tally cfg rest safeCount (some at_)
  | rec :: rest, safeCount, none =>
    if cfg.isTerminal rec then tally cfg rest safeCount (some rec.start)
    else tally cfg rest (safeCount + 1) none

theorem tally_some (rs : List Record) (safeCount at_ : Nat) :
    tally cfg rs safeCount (some at_) = (safeCount, some at_) := by
  induction rs with
  | nil => rfl
  | cons r rs ih => exact ih

theorem tally_none (rs : List Record) (safeCount : Nat) :
    ((∀ r ∈ rs, cfg.isTerminal r = false)
        ∧ tally cfg rs safeCount none = (safeCount + rs.length, none))
      ∨ ∃ pre t post, rs = pre ++ t :: post ∧ (∀ r ∈ pre, cfg.isTerminal r = false)
          ∧ cfg.isTerminal t = true
          ∧ tally cfg rs safeCount none = (safeCount + pre.length, some t.start) := by
  induction rs generalizing safeCount with
  | nil => exact .inl ⟨(fun _ h => nomatch h), rfl⟩
  | cons r rs ih =>
    by_cases hterm : cfg.isTerminal r = true
    · refine .inr ⟨[], r, rs, rfl, (fun _ h => nomatch h), hterm, ?_⟩
      simp [tally, hterm, tally_some]
    · have hfalse : cfg.isTerminal r = false := by simpa using hterm
      rcases ih (safeCount + 1) with ⟨hnone, heq⟩ | ⟨pre, t, post, rfl, hpre, ht, heq⟩
      · refine .inl ⟨?_, ?_⟩
        · intro x hx
          rcases List.mem_cons.1 hx with rfl | hx
          · exact hfalse
          · exact hnone x hx
        · simp only [tally, hfalse, Bool.false_eq_true, if_false, heq, List.length_cons]
          rw [show safeCount + 1 + rs.length = safeCount + (rs.length + 1) from by omega]
      · refine .inr ⟨r :: pre, t, post, rfl, ?_, ht, ?_⟩
        · intro x hx
          rcases List.mem_cons.1 hx with rfl | hx
          · exact hfalse
          · exact hpre x hx
        · simp only [tally, hfalse, Bool.false_eq_true, if_false, heq, List.length_cons]
          rw [show safeCount + 1 + pre.length = safeCount + (pre.length + 1) from by omega]

theorem committed_split {log : Bytes} {batch : Spool.Batch}
    {counted : Nat × Option Nat} (hcount : counted = tally cfg batch.records 0 none)
    (hstop : batch.endOffset = endOf batch.startOffset batch.records)
    (hfrom : batch.records <+: recordsFrom newline log batch.startOffset) :
    ∃ rest, batch.records = committedRecords batch counted.1 counted.2 ++ rest
      ∧ commitTo batch counted.2
        = endOf batch.startOffset (committedRecords batch counted.1 counted.2) := by
  rcases tally_none cfg batch.records 0 with ⟨_, heq⟩ | ⟨pre, t, post, hsplit, _, _, heq⟩
  · rw [hcount, heq]
    exact ⟨[], (List.append_nil _).symm, hstop⟩
  · have htake : batch.records.take pre.length = pre := by
      rw [hsplit]
      exact List.take_left
    rw [hcount, heq, Nat.zero_add]
    simp only [committedRecords, commitTo, htake]
    refine ⟨t :: post, hsplit, ?_⟩
    obtain ⟨more, hmore⟩ := hfrom
    have hrest : recordsFrom newline log batch.startOffset = pre ++ (t :: (post ++ more)) := by
      rw [← hmore, hsplit, List.append_assoc, List.cons_append]
    exact (recordsFrom_eq_cons (recordsFrom_endOf hrest)).1

/-! ## Triples for the awaited operations -/

section Triples

variable {A : DrainTurn → Prop}

/-- An exception that goes back to a fault of an operation; the signal by which isolation ends
does not. -/
def Genuine : Exn → Prop
  | .transientInfraFailure => False
  | .queueCommitFailure cause => Genuine cause
  | _ => True

theorem Genuine.ne {e : Exn} (h : Genuine e) : e ≠ .transientInfraFailure := by
  rintro rfl
  exact h

def Raised (P : World → Prop) (e : Exn) (w : World) : Prop := Genuine e ∧ P w

variable {P : World → Prop}

theorem raised_exn {w : World} (f : Fault) (h : P w) : Raised P f.exn w := by
  cases f <;> exact ⟨trivial, h⟩

theorem Raised.mono {P Q : World → Prop} {e : Exn} {w : World} (h : Raised P e w)
    (hPQ : ∀ w, P w → Q w) : Raised Q e w :=
  ⟨h.1, hPQ w h.2⟩

theorem outside_spec (hstable : Stable World.stim P) (hsafe : ∀ w, P w → Safe w) (o : Op) :
    Triple A Safe P (outside o) (fun _ => P) (Raised P) :=
  Triple.await hstable hsafe (fun _ _ _ _ h => h) (fun _ f _ _ _ _ h => raised_exn f h)
    (fun _ _ w _ _ h => hsafe w h)

theorem Ready.congr {c : Nat} {rs : List Record} {w w' : World} (h : Ready c rs w)
    (hspool : w'.spool = w.spool) (hnumber : w'.logNumber = w.logNumber)
    (hwrite : w'.written = w.written) (hquar : w'.quarantined = w.quarantined) : Ready c rs w' :=
  ⟨h.safe.congr hspool hnumber hwrite hquar, hspool ▸ h.offset, hspool ▸ h.ahead⟩

theorem hook_spec (hstable : Stable World.stim P)
    (hsafe : ∀ w, P w → Safe w) (installed : Bool) (o : Op) :
    Triple A Safe P (hook installed o) (fun _ => P) (Raised P) :=
  Triple.ite (fun _ => outside_spec hstable hsafe o) (fun _ => Triple.pure fun _ h => h)

theorem readBatch_spec :
    Triple A Safe Safe (readBatch cfg)
      (fun batch w => Ready batch.startOffset batch.records w
        ∧ batch.endOffset = endOf batch.startOffset batch.records
        ∧ batch.records = (recordsFrom newline w.spool.content batch.startOffset).take
            cfg.drainBatchSize)
      (Raised Safe) := by
  refine Triple.await Safe.stable (fun _ h => h) ?_ (fun _ f _ _ _ _ h => raised_exn f h)
    (fun _ _ _ _ _ h => h)
  intro t w _ _ h
  simp only [Action.still]
  refine ⟨⟨h, rfl, ?_⟩, rfl, Spool.readBatch_records _ _⟩
  rw [Spool.readBatch_records]
  exact List.take_prefix _ _

theorem processOne_spec (c : Nat) (all done : List Record) (rec : Record) :
    Triple A Safe (fun w => Ready c all w ∧ Buffered done w) (processOne rec)
      (fun _ w => Ready c all w ∧ Buffered (done ++ [rec]) w) (Raised (Ready c all)) := by
  refine Triple.await (stable_and (Ready.stable c all) (buffered_stable done))
    (fun _ h => h.1.safe) ?_ (fun _ f _ _ _ _ h => raised_exn f h.1)
    (fun _ _ _ _ _ h => h.1.safe)
  intro t w _ _ h
  refine ⟨h.1.congr rfl rfl rfl rfl, ?_⟩
  intro r hr
  rcases List.mem_append.1 hr with hr | hr
  · exact List.mem_append_left _ (h.2 r hr)
  · rw [List.mem_singleton.1 hr]
    exact List.mem_append_right _ (List.mem_singleton_self _)

theorem flushBarrier_spec (c : Nat) (all done : List Record) :
    Triple A Safe (fun w => Ready c all w ∧ Buffered done w) flushBarrier
      (fun _ w => Ready c all w ∧ ∀ r ∈ done, Accounted w r) (Raised (Ready c all)) := by
  have hstable := stable_and (Ready.stable c all) (buffered_stable done)
  refine Triple.bind ((outside_spec hstable (fun _ h => h.1.safe) .acquire).raises
    (fun _ _ h => h.mono fun _ h => h.1)) fun _ => ?_
  refine Triple.await hstable (fun _ h => h.1.safe) ?_ (fun _ f _ _ _ _ h => raised_exn f h.1)
    (fun _ _ _ _ _ h => h.1.safe)
  intro t w _ _ h
  exact ⟨⟨h.1.safe.flushed, h.1.offset, h.1.ahead⟩,
    fun r hr => Or.inl (List.mem_append_right _ (h.2 r hr))⟩

/-- Committing to the end of accounted records moves on to the records behind them; an
interrupted commit has moved there or not at all. -/
theorem commit_spec {c target : Nat} {rs rest : List Record} (hne : rs ++ rest ≠ [])
    (htarget : target = endOf c rs) :
    Triple A Safe (fun w => Ready c (rs ++ rest) w ∧ ∀ r ∈ rs, Accounted w r)
      (commit target) (fun _ => Ready target rest) (Raised Safe) := by
  subst htarget
  have habort : ∀ (r : Reading) (done : Nat) (w : World),
      (Ready c (rs ++ rest) w ∧ ∀ r ∈ rs, Accounted w r) →
      Safe ((Action.atomic (World.committed (endOf c rs))).abort r done w) := by
    intro r done w h
    simp only [Action.atomic]
    split
    · exact h.1.safe
    · exact (h.1.commit hne h.2).safe
  exact Triple.await (stable_and (Ready.stable c _) (accounted_stable rs)) (fun _ h => h.1.safe)
    (fun _ w _ _ h => h.1.commit hne h.2)
    (fun t f done w _ _ h => raised_exn f (habort t.reading done w h))
    (fun t done w _ _ h => habort t.reading done w h)

theorem deadLetter_spec (c : Nat) (all : List Record) (rec : Record) :
    Triple A Safe (Ready c all) (deadLetter rec)
      (fun _ w => Ready c all w ∧ Accounted w rec) (Raised Safe) := by
  have habort : ∀ (done : Nat) (w : World), Ready c all w →
      Safe (if done < 3 then { w with spool := w.spool.deadLetterPartial done }
        else w.deadLettered rec) := by
    intro done w h
    split
    · exact h.safe.deadLetterPartial done
    · exact h.safe.deadLettered rec
  refine Triple.await (Ready.stable c all) (fun _ h => h.safe) ?_
    (fun _ f done w _ _ h => raised_exn f (habort done w h)) (fun _ done w _ _ h => habort done w h)
  intro t w _ _ h
  exact ⟨⟨h.safe.deadLettered rec, h.offset, h.ahead⟩,
    Or.inr (List.mem_append_right _ (List.mem_singleton_self _))⟩

theorem deleteDrained_spec (hA : Admissible A) :
    Triple A Safe Safe deleteDrained (fun _ => Safe) (fun _ => Safe) := by
  refine Triple.await Safe.stable (fun _ h => h) (fun _ w _ _ h => h.deleteDrained) ?_ ?_
  · intro t f done w ht hfate h
    exact h.deleteDrainedPartial (hA.clean t ht done (.inr ⟨f, hfate⟩))
  · intro t done w ht hfate h
    exact h.deleteDrainedPartial (hA.clean t ht done (.inl hfate))

/-! ## Triples for the functions of the worker -/

/-- A failure after which the worker goes on with the same batch. -/
def Retryable : Exn → Prop
  | .cancelled => False
  | .queueCommitFailure _ => False
  | _ => True

/-- What a failed write of a batch leaves: the invariant, and unless the failure ends the worker
the batch is still the first above the offset. -/
def Failed (c : Nat) (all : List Record) (e : Exn) (w : World) : Prop :=
  Genuine e ∧ Safe w ∧ (Retryable e → Ready c all w)

theorem Raised.failed {c : Nat} {all : List Record} {e : Exn} {w : World}
    (h : Raised (Ready c all) e w) : Failed c all e w :=
  ⟨h.1, h.2.safe, fun _ => h.2⟩

theorem flushAndCommit_spec {c target : Nat} (rs rest records : List Record)
    (hne : rs ++ rest ≠ []) (htarget : target = endOf c rs) :
    Triple A Safe (fun w => Ready c (rs ++ rest) w ∧ Buffered rs w)
      (flushAndCommit cfg records target) (fun _ => Ready target rest)
      (Failed c (rs ++ rest)) := by
  have hstable := stable_and (Ready.stable c (rs ++ rest)) (buffered_stable rs)
  have hhook : ∀ installed o, Triple A Safe (fun w => Ready c (rs ++ rest) w ∧ Buffered rs w)
      (hook installed o) (fun _ w => Ready c (rs ++ rest) w ∧ Buffered rs w)
      (Failed c (rs ++ rest)) := by
    intro installed o
    exact (hook_spec hstable (fun _ h => h.1.safe) installed o).raises
      (fun _ _ h => (h.mono fun _ h => h.1).failed)
  unfold flushAndCommit
  refine Triple.bind (hhook _ _) fun _ => ?_
  refine Triple.bind (hhook _ _) fun _ => ?_
  refine Triple.bind (hhook _ _) fun _ => ?_
  refine Triple.bind ((flushBarrier_spec c (rs ++ rest) rs).raises
    (fun _ _ h => h.failed)) fun _ => ?_
  refine Triple.bind ((hook_spec (stable_and (Ready.stable c _) (accounted_stable rs))
    (fun _ h => h.1.safe) _ _).raises (fun _ _ h => (h.mono fun _ h => h.1).failed)) fun _ => ?_
  -- a failed commit is ambiguous, so only the invariant survives it
  refine Triple.tryCatch (commit_spec hne htarget) fun e => ?_
  cases e <;> exact Triple.raise fun _ h => ⟨h.1, h.2, fun hret => hret.elim⟩

theorem quarantineAndCommit_spec (hA : Admissible A) (cfg : Config) {c : Nat} {rec : Record}
    {rest : List Record} :
    Triple A Safe (fun w => Ready c (rec :: rest) w ∧ Accounted w rec)
      (quarantineAndCommit cfg rec) (fun _ => Ready rec.stop rest) (Raised Safe) := by
  have hstable : Stable World.stim fun w =>
      Ready c ([rec] ++ rest) w ∧ ∀ r ∈ [rec], Accounted w r :=
    stable_and (Ready.stable c _) (accounted_stable [rec])
  have hsafe : ∀ w, (Ready c ([rec] ++ rest) w ∧ ∀ r ∈ [rec], Accounted w r) → Safe w :=
    fun _ h => h.1.safe
  have hhook : ∀ installed o, Triple A Safe
      (fun w => Ready c ([rec] ++ rest) w ∧ ∀ r ∈ [rec], Accounted w r) (hook installed o)
      (fun _ w => Ready c ([rec] ++ rest) w ∧ ∀ r ∈ [rec], Accounted w r) (Raised Safe) := by
    intro installed o
    exact (hook_spec hstable hsafe installed o).raises (fun _ _ h => h.mono hsafe)
  have hack : Triple A Safe (fun w => Ready c ([rec] ++ rest) w ∧ ∀ r ∈ [rec], Accounted w r)
      (publishQuarantineThenAck cfg rec) (fun _ => Ready rec.stop rest) (Raised Safe) :=
    Triple.bind (hhook _ _) fun _ => commit_spec (List.cons_ne_nil _ _) rfl
  have hpre : Triple A Safe (fun w => Ready c ([rec] ++ rest) w ∧ ∀ r ∈ [rec], Accounted w r)
      (quarantineAndCommit cfg rec) (fun _ => Ready rec.stop rest) (Raised Safe) := by
    refine Triple.bind (hhook _ _) fun _ => ?_
    refine Triple.ite (fun _ => ?_) (fun _ => hack)
    refine Triple.bind ((outside_spec hstable hsafe _).raises (fun _ _ h => h.mono hsafe)) fun _ =>
      ?_
    refine Triple.bind (Triple.masked hA.held hack) fun _ => ?_
    exact (outside_spec (Ready.stable _ _) (fun _ h => h.safe) _).raises
      (fun _ _ h => h.mono fun _ h => h.safe)
  refine hpre.pre ?_
  rintro w ⟨hready, hacc⟩
  exact ⟨hready, fun r hr => List.mem_singleton.1 hr ▸ hacc⟩

theorem postCommit_spec (records : List Record)
    (hstable : Stable World.stim P) (hsafe : ∀ w, P w → Safe w) :
    Triple A Safe P (postCommit cfg records) (fun _ => P) (Raised Safe) := by
  refine Triple.tryCatch (hook_spec hstable hsafe _ _) fun e => ?_
  cases e with
  | cancelled => exact Triple.raise fun _ h => h.mono hsafe
  | _ => exact Triple.pure fun _ h => h.2

theorem safeClose_spec : Triple A Safe Safe (safeClose cfg) (fun _ => Safe) (fun _ => Safe) := by
  refine Triple.bind (R := fun _ => Safe)
    (Triple.modify fun _ h => h.congr rfl rfl rfl rfl) fun _ => ?_
  refine Triple.bind (R := fun _ => Safe) ?_ fun _ => ?_
  · exact Triple.ite (fun _ => Triple.modify fun _ h => h.congr rfl rfl rfl rfl)
      (fun _ => Triple.pure fun _ h => h)
  · refine Triple.tryCatch (R := fun _ => Safe) ?_ fun e => ?_
    · exact Triple.await Safe.stable (fun _ h => h) (fun _ _ _ _ h => h.flushed)
        (fun _ _ _ _ _ _ h => h) (fun _ _ _ _ _ h => h)
    · cases e with
      | cancelled => exact Triple.raise fun _ h => h
      | _ => exact Triple.pure fun _ h => h

theorem deregister_spec : Triple A Safe Safe deregister (fun _ => Safe) (fun _ => Safe) :=
  Triple.modify fun _ h => h.congr rfl rfl rfl rfl

theorem processRecords_spec (c : Nat) (all done rs : List Record)
    (safeCount : Nat) (terminalAt : Option Nat) :
    Triple A Safe (fun w => Ready c all w ∧ Buffered done w)
      (processRecords cfg rs safeCount terminalAt)
      (fun counted w => counted = tally cfg rs safeCount terminalAt
        ∧ Ready c all w ∧ Buffered (done ++ rs) w)
      (Raised (Ready c all)) := by
  induction rs generalizing done safeCount terminalAt with
  | nil => exact Triple.pure fun _ h => ⟨rfl, h.1, by simpa using h.2⟩
  | cons rec rest ih =>
    cases hparse : cfg.parseLine rec.raw with
    | none =>
      simp only [processRecords, hparse]
      exact Triple.raise fun _ h => ⟨trivial, h.1⟩
    | some event =>
      simp only [processRecords, hparse]
      refine Triple.bind (processOne_spec c all done rec) fun _ => ?_
      have hshift : done ++ rec :: rest = done ++ [rec] ++ rest := by simp
      rw [hshift]
      cases terminalAt with
      | some at_ => exact ih (done ++ [rec]) safeCount (some at_)
      | none =>
        simp only [tally, Config.isTerminal, hparse]
        refine Triple.ite (fun hterm => ?_) (fun hterm => ?_)
        · rw [if_pos hterm]
          exact ih (done ++ [rec]) safeCount (some rec.start)
        · rw [if_neg hterm]
          exact ih (done ++ [rec]) (safeCount + 1) none

theorem processBatch_spec (c : Nat) (batch : Spool.Batch) :
    Triple A Safe (Ready c batch.records) (processBatch cfg batch)
      (fun counted w => counted = tally cfg batch.records 0 none
        ∧ Ready c batch.records w ∧ Buffered batch.records w)
      (Failed c batch.records) :=
  (processRecords_spec cfg c batch.records [] batch.records 0 none).conseq
    (fun _ h => ⟨h, fun _ h => nomatch h⟩) (fun _ _ h => h) (fun _ _ h => h.failed)

/-! ## Isolation -/

theorem Ready.discarded {c : Nat} {rs : List Record} {w : World} (h : Ready c rs w) :
    Ready c rs w.discardBuffer :=
  h.congr rfl rfl rfl rfl

/-- What an interrupted isolation leaves: the invariant, and after an infrastructure failure the
records in front of the one it stopped at are committed. -/
def Stopped (cfg : Config) (c : Nat) (rs : List Record) (e : Exn) (w : World) : Prop :=
  Safe w ∧ (e = .transientInfraFailure → ∃ pre post, rs = pre ++ post
    ∧ (∀ r ∈ pre, cfg.isTerminal r = false) ∧ Ready (endOf c pre) [] w)

theorem Raised.stopped {cfg : Config} {c : Nat} {rs : List Record} {e : Exn} {w : World}
    (h : Raised Safe e w) : Stopped cfg c rs e w :=
  ⟨h.2, fun he => absurd he h.1.ne⟩

/-- What a completed isolation leaves: every record is committed, or those in front of the first
terminal one. -/
def Isolated (cfg : Config) (c : Nat) (rs : List Record) (seen : Bool) (w : World) : Prop :=
  if seen then ∃ pre t post, rs = pre ++ t :: post ∧ (∀ r ∈ pre, cfg.isTerminal r = false)
      ∧ cfg.isTerminal t = true ∧ Ready (endOf c pre) [] w
  else (∀ r ∈ rs, cfg.isTerminal r = false) ∧ Ready (endOf c rs) [] w

theorem Ready.nil {c : Nat} {rs : List Record} {w : World} (h : Ready c rs w) : Ready c [] w :=
  ⟨h.safe, h.offset, List.nil_prefix⟩

theorem isolateOne_spec (c : Nat) (rec : Record) (rest : List Record) :
    Triple A Safe (Ready c (rec :: rest)) (isolateOne cfg rec)
      (fun wrote w => if wrote then Ready rec.stop rest w
        else Ready c (rec :: rest) w ∧ Accounted w rec)
      (fun e w => Safe w ∧ (e = .transientInfraFailure → Ready c [] w)) := by
  have hwrite : Triple A Safe (Ready c (rec :: rest))
      (do
        processOne rec
        flushAndCommit cfg [rec] rec.stop
        pure true)
      (fun wrote w => if wrote then Ready rec.stop rest w
        else Ready c (rec :: rest) w ∧ Accounted w rec)
      (Failed c (rec :: rest)) := by
    refine Triple.bind (R := fun _ w => Ready c (rec :: rest) w ∧ Buffered [rec] w)
      ?_ fun _ => ?_
    · exact (processOne_spec c (rec :: rest) [] rec).conseq (fun _ h => ⟨h, fun _ h => nomatch h⟩)
        (fun _ _ h => h) (fun _ _ h => h.failed)
    · exact Triple.bind (flushAndCommit_spec cfg [rec] rest [rec] (List.cons_ne_nil rec rest) rfl)
        fun _ => Triple.pure fun _ h => h
  have hfail : ∀ e, Retryable e → Triple A Safe (Failed c (rec :: rest) e)
      (if isTransientInfraError e then do
          discardBuffer
          Co.raise .transientInfraFailure
        else do
          deadLetter rec
          discardBuffer
          pure false)
      (fun wrote w => if wrote then Ready rec.stop rest w
        else Ready c (rec :: rest) w ∧ Accounted w rec)
      (fun e w => Safe w ∧ (e = .transientInfraFailure → Ready c [] w)) := by
    intro e hret
    refine Triple.pre ?_ fun _ h => h.2.2 hret
    refine Triple.ite (fun _ => ?_) (fun _ => ?_)
    · refine Triple.bind (R := fun _ => Ready c (rec :: rest)) ?_ fun _ =>
        Triple.raise fun _ h => ⟨h.safe, fun _ => h.nil⟩
      exact Triple.modify fun _ h => h.discarded
    · refine Triple.bind ((deadLetter_spec c (rec :: rest) rec).raises
        (fun _ _ h => ⟨h.2, fun he => absurd he h.1.ne⟩)) fun _ => ?_
      refine Triple.bind (R := fun _ w => Ready c (rec :: rest) w ∧ Accounted w rec)
        (Triple.modify fun _ h => ⟨h.1.discarded, h.2⟩) fun _ => ?_
      exact Triple.pure fun _ h => h
  refine Triple.tryCatch hwrite fun e => ?_
  cases e with
  | queueCommitFailure cause =>
    exact Triple.raise fun _ h => ⟨h.2.1, fun he => absurd he (Genuine.ne h.1)⟩
  | cancelled => exact Triple.raise fun _ h => ⟨h.2.1, nofun⟩
  | infra => exact hfail _ trivial
  | poison => exact hfail _ trivial
  | transientInfraFailure => exact hfail _ trivial

theorem isolateRecords_spec (hA : Admissible A) (cfg : Config) (c : Nat) (rs : List Record) :
    Triple A Safe (Ready c rs) (isolateRecords cfg rs) (Isolated cfg c rs)
      (Stopped cfg c rs) := by
  induction rs generalizing c with
  | nil => exact Triple.pure fun _ h => ⟨(fun _ h => nomatch h), h.nil⟩
  | cons rec rest ih =>
    -- the isolation of the rest, seen from the whole list
    have hrest : cfg.isTerminal rec = false →
        Triple A Safe (Ready rec.stop rest) (isolateRecords cfg rest)
          (Isolated cfg c (rec :: rest)) (Stopped cfg c (rec :: rest)) := by
      intro hterm
      have hcons : ∀ pre : List Record, (∀ r ∈ pre, cfg.isTerminal r = false) →
          ∀ r ∈ rec :: pre, cfg.isTerminal r = false := by
        intro pre hpre r hr
        rcases List.mem_cons.1 hr with rfl | hr
        · exact hterm
        · exact hpre r hr
      refine (ih rec.stop).conseq (fun _ h => h) ?_ ?_
      · intro seen w h
        cases seen with
        | true =>
          obtain ⟨pre, t, post, rfl, hpre, ht, hready⟩ := h
          exact ⟨rec :: pre, t, post, rfl, hcons pre hpre, ht, hready⟩
        | false => exact ⟨hcons rest h.1, h.2⟩
      · intro e w h
        refine ⟨h.1, fun he => ?_⟩
        obtain ⟨pre, post, rfl, hpre, hready⟩ := h.2 he
        exact ⟨rec :: pre, post, rfl, hcons pre hpre, hready⟩
    cases hparse : cfg.parseLine rec.raw with
    | none =>
      have hterm : cfg.isTerminal rec = false := by
        simp [Config.isTerminal, hparse]
      simp only [isolateRecords, hparse]
      refine Triple.bind ((deadLetter_spec c (rec :: rest) rec).raises
        (fun _ _ h => h.stopped)) fun _ => ?_
      refine Triple.bind (R := fun _ w => Ready c (rec :: rest) w ∧ Accounted w rec)
        (Triple.modify fun _ h => ⟨h.1.discarded, h.2⟩) fun _ => ?_
      exact Triple.bind ((quarantineAndCommit_spec hA cfg).raises
        (fun _ _ h => h.stopped)) fun _ => hrest hterm
    | some event =>
      simp only [isolateRecords, hparse]
      refine Triple.ite (fun hevent => Triple.pure fun _ h => ?_) (fun hevent => ?_)
      · have hterm : cfg.isTerminal rec = true := by
          simpa [Config.isTerminal, hparse] using hevent
        exact ⟨[], rec, rest, rfl, (fun _ h => nomatch h), hterm, h.nil⟩
      · have hterm : cfg.isTerminal rec = false := by
          simpa [Config.isTerminal, hparse] using hevent
        refine Triple.bind ((isolateOne_spec cfg c rec rest).raises ?_) fun wrote => ?_
        · intro e w h
          exact ⟨h.1, fun he => ⟨[], rec :: rest, rfl, (fun _ h => nomatch h), h.2 he⟩⟩
        · refine Triple.bind (R := fun _ => Ready rec.stop rest) ?_ fun _ => hrest hterm
          cases wrote with
          | true =>
            exact (postCommit_spec cfg [rec] (Ready.stable _ _) (fun _ h => h.safe)).raises
              (fun _ _ h => h.stopped)
          | false =>
            exact (quarantineAndCommit_spec hA cfg).raises (fun _ _ h => h.stopped)

theorem handleExhaustedBatch_spec (hA : Admissible A) (cfg : Config) (c : Nat)
    (batch : Spool.Batch) :
    Triple A Safe (Ready c batch.records) (handleExhaustedBatch cfg batch)
      (Isolated cfg c batch.records) (Stopped cfg c batch.records) :=
  Triple.bind (R := fun _ => Ready c batch.records)
    (Triple.modify fun _ h => h.discarded) fun _ => isolateRecords_spec hA cfg c batch.records

/-- Isolation ends at a terminal record, at the end of the batch or, with `none`, at an
infrastructure failure; in each case it says how far the offset has moved. -/
theorem isolateBatch_spec (hA : Admissible A) (cfg : Config) (c : Nat) (batch : Spool.Batch) :
    Triple A Safe (Ready c batch.records) (isolateBatch cfg batch)
      (fun seen w => match seen with
        | some seen => Isolated cfg c batch.records seen w
        | none => ∃ pre post, batch.records = pre ++ post
            ∧ (∀ r ∈ pre, cfg.isTerminal r = false) ∧ Ready (endOf c pre) [] w)
      (fun _ => Safe) := by
  refine Triple.tryCatch (R := Stopped cfg c batch.records) ?_ fun e => ?_
  · exact Triple.bind (handleExhaustedBatch_spec hA cfg c batch) fun _ => Triple.pure fun _ h => h
  · cases e with
    | transientInfraFailure => exact Triple.pure fun _ h => h.2 rfl
    | _ => exact Triple.raise fun _ h => h.1

/-! ## Batches -/

/-- A batch read from the log is dispatched, flushed and then acknowledged up to its end or up
to the first terminal record. -/
theorem writeBatch_spec {batch : Spool.Batch} (hne : batch.records ≠ [])
    (hstop : batch.endOffset = endOf batch.startOffset batch.records) :
    Triple A Safe (Ready batch.startOffset batch.records) (writeBatch cfg batch)
      (fun result w => match result with
        | .ok counted => counted = tally cfg batch.records 0 none
            ∧ Ready (commitTo batch counted.2) [] w
        | .error e => Failed batch.startOffset batch.records e w)
      (fun _ => Safe) := by
  refine Triple.tryCatch (R := Failed batch.startOffset batch.records) ?_
    fun e => Triple.pure fun _ h => h
  refine Triple.bind (processBatch_spec cfg batch.startOffset batch) fun counted => ?_
  refine Triple.of_pre fun _ h => ?_
  obtain ⟨rest, hsplit, htarget⟩ := committed_split cfg h.1 hstop h.2.1.ahead
  refine Triple.bind (R := fun _ => Ready (commitTo batch counted.2) []) ?_ fun _ =>
    Triple.pure fun _ hready => ⟨h.1, hready⟩
  rw [hsplit] at hne
  have hwrite := flushAndCommit_spec (A := A) cfg
    (committedRecords batch counted.1 counted.2) rest
    (committedRecords batch counted.1 counted.2) hne htarget
  rw [← hsplit] at hwrite
  refine hwrite.conseq ?_ (fun _ _ h => h.nil) (fun _ _ h => h)
  rintro w ⟨-, hready, hbuffer⟩
  refine ⟨hready, fun r hr => hbuffer r ?_⟩
  rw [hsplit]
  exact List.mem_append_left _ hr

/-- A batch of the tail is acknowledged as a whole, `session:end` included, or not at all. -/
theorem drainTail_spec {tail : Spool.Batch} (hne : tail.records ≠ [])
    (hstop : tail.endOffset = endOf tail.startOffset tail.records) :
    Triple A Safe (Ready tail.startOffset tail.records) (drainTail cfg tail)
      (fun drained => if drained then Ready tail.endOffset []
        else Ready tail.startOffset tail.records)
      (fun _ => Safe) := by
  refine Triple.tryCatch (R := Failed tail.startOffset tail.records) ?_ fun e => ?_
  · refine Triple.bind (processBatch_spec cfg tail.startOffset tail) fun _ => ?_
    refine Triple.bind (R := fun _ => Ready tail.endOffset []) ?_ fun _ =>
      Triple.pure fun _ h => h
    have hwrite := flushAndCommit_spec (A := A) cfg tail.records [] tail.records
      (by rwa [List.append_nil]) hstop
    rw [List.append_nil] at hwrite
    exact hwrite.pre fun _ h => h.2
  · cases e with
    | queueCommitFailure cause => exact Triple.raise fun _ h => h.2.1
    | cancelled => exact Triple.raise fun _ h => h.2.1
    | _ => exact Triple.pure fun _ h => h.2.2 trivial

/-! ## The invariant over a whole drain task -/

def Keeps {α : Type} (A : DrainTurn → Prop) (m : DrainM α) : Prop :=
  Triple A Safe Safe m (fun _ => Safe) (fun _ => Safe)

theorem keeps_outside (o : Op) : Keeps A (outside o) :=
  (outside_spec Safe.stable (fun _ h => h) o).raises (fun _ _ h => h.2)

theorem keeps_pure {α : Type} (a : α) : Keeps A (pure a : DrainM α) := Triple.pure fun _ h => h

theorem keeps_raise {α : Type} (e : Exn) : Keeps A (Co.raise e : DrainM α) :=
  Triple.raise fun _ h => h

theorem keeps_postCommit (records : List Record) : Keeps A (postCommit cfg records) :=
  (postCommit_spec cfg records Safe.stable fun _ h => h).raises (fun _ _ h => h.2)

theorem drainToEof_keeps : Keeps A (drainToEof cfg) := by
  refine Triple.loop (I := fun _ => Safe) (fun _ _ h => h) (fun _ => ?_) ()
  refine Triple.bind ((readBatch_spec cfg).raises (fun _ _ h => h.2)) fun tail => ?_
  refine Triple.of_pre fun _ h => ?_
  refine Triple.ite (fun _ => Triple.pure fun _ h => h.1.safe) (fun hempty => ?_)
  have hne : tail.records ≠ [] := by simpa using hempty
  refine Triple.bind ((drainTail_spec cfg hne h.2.1).pre fun _ h => h.1) fun drained => ?_
  cases drained with
  | true =>
    exact Triple.bind ((keeps_postCommit cfg tail.records).pre fun _ h => h.safe) fun _ =>
      Triple.pure fun _ h => h
  | false => exact Triple.pure fun _ h => h.safe

theorem finalizeDelete_keeps (hA : Admissible A) (cfg : Config) (left : Nat) :
    Keeps A (finalizeDelete cfg left) := by
  induction left with
  | zero => exact keeps_pure true
  | succ left ih =>
    refine Triple.bind (deleteDrained_spec hA) fun deleted => ?_
    refine Triple.ite (fun _ => keeps_pure true) (fun _ => ?_)
    refine Triple.ite (fun _ => keeps_pure true) (fun _ => ?_)
    refine Triple.bind (drainToEof_keeps cfg) fun drained => ?_
    exact Triple.ite (fun _ => ih) (fun _ => keeps_pure false)

theorem closeAndLeave_spec (exit : Exit) :
    Triple A Safe Safe (closeAndLeave cfg exit) (fun r w => r = .inr exit ∧ Safe w)
      (fun _ => Safe) :=
  Triple.bind (safeClose_spec cfg) fun _ => Triple.bind deregister_spec fun _ =>
    Triple.pure fun _ h => ⟨rfl, h⟩

theorem closeAndLeave_keeps (exit : Exit) : Keeps A (closeAndLeave cfg exit) :=
  (closeAndLeave_spec cfg exit).conseq (fun _ h => h) (fun _ _ h => h.2) (fun _ _ h => h)

theorem finalizeSession_keeps (hA : Admissible A) (cfg : Config) :
    Keeps A (finalizeSession cfg) := by
  refine Triple.bind (drainToEof_keeps cfg) fun drained => ?_
  refine Triple.ite (fun _ => ?_) (fun _ => keeps_pure _)
  refine Triple.bind (finalizeDelete_keeps hA cfg _) fun deleted => ?_
  refine Triple.ite (fun _ => ?_) (fun _ => keeps_pure _)
  exact Triple.bind (safeClose_spec cfg) fun _ => Triple.bind deregister_spec fun _ => keeps_pure _

theorem transientRetry_keeps (budget : Budget) : Keeps A (transientRetry budget) := by
  unfold transientRetry
  split
  · exact keeps_raise _
  · exact Triple.bind (keeps_outside _) fun _ => keeps_pure _

theorem idle_keeps (hA : Admissible A) (cfg : Config) (budget : Budget) :
    Keeps A (idle cfg budget) := by
  refine Triple.bind (R := fun _ => Safe) ?_ fun reading => ?_
  · exact Triple.await Safe.stable (fun _ h => h) (fun _ _ _ _ h => h) (fun _ _ _ _ _ _ h => h)
      (fun _ _ _ _ _ h => h)
  · refine Triple.ite (fun _ => ?_) (fun _ => keeps_pure _)
    refine Triple.bind (R := fun _ => Safe) (Triple.get fun _ h => h) fun w => ?_
    refine Triple.ite (fun _ => closeAndLeave_keeps cfg _) (fun _ => ?_)
    exact Triple.bind (deleteDrained_spec hA) fun _ => keeps_pure _

theorem batchCommitted_keeps (hA : Admissible A) (cfg : Config) (budget : Budget)
    (records : List Record) (terminalAt : Option Nat) :
    Keeps A (batchCommitted cfg budget records terminalAt) := by
  refine Triple.bind (keeps_postCommit cfg records) fun _ => ?_
  cases terminalAt with
  | none => exact keeps_pure _
  | some at_ => exact Triple.bind (finalizeSession_keeps hA cfg) fun _ => keeps_pure _

theorem batchFailed_keeps (hA : Admissible A) (cfg : Config) (budget : Budget) (c : Nat)
    (batch : Spool.Batch) (e : Exn) :
    Triple A Safe (Ready c batch.records) (batchFailed cfg budget batch e) (fun _ => Safe)
      (fun _ => Safe) := by
  refine Triple.ite (fun _ => (transientRetry_keeps _).pre fun _ h => h.safe) (fun _ => ?_)
  refine Triple.ite (fun _ => ?_) (fun _ => ?_)
  · refine Triple.bind (isolateBatch_spec hA cfg c batch) fun seen => ?_
    match seen with
    | none => exact (transientRetry_keeps _).pre fun _ ⟨_, _, _, _, h⟩ => h.safe
    | some true =>
      refine Triple.bind ((finalizeSession_keeps hA cfg).pre ?_) fun _ => keeps_pure _
      rintro w ⟨_, _, _, _, _, _, h⟩
      exact h.safe
    | some false => exact Triple.pure fun _ h => h.2.safe
  · exact Triple.bind ((keeps_outside _).pre fun _ h => h.safe) fun _ => keeps_pure _

theorem drainBatch_keeps (hA : Admissible A) (cfg : Config) (budget : Budget)
    {batch : Spool.Batch} (hne : batch.records ≠ [])
    (hstop : batch.endOffset = endOf batch.startOffset batch.records) :
    Triple A Safe (Ready batch.startOffset batch.records) (drainBatch cfg budget batch)
      (fun _ => Safe) (fun _ => Safe) := by
  refine Triple.bind (writeBatch_spec cfg hne hstop) fun result => ?_
  match result with
  | .ok counted => exact (batchCommitted_keeps hA cfg budget _ _).pre fun _ h => h.2.safe
  | .error (.queueCommitFailure cause) => exact Triple.raise fun _ h => h.2.1
  | .error .cancelled => exact (closeAndLeave_keeps cfg _).pre fun _ h => h.2.1
  | .error .infra =>
    exact (batchFailed_keeps hA cfg budget _ batch _).pre fun _ h => h.2.2 trivial
  | .error .poison =>
    exact (batchFailed_keeps hA cfg budget _ batch _).pre fun _ h => h.2.2 trivial
  | .error .transientInfraFailure => exact Triple.of_pre fun _ h => h.1.elim

theorem drainRound_keeps (hA : Admissible A) (cfg : Config) (budget : Budget) :
    Keeps A (drainRound cfg budget) := by
  refine Triple.tryCatch (R := fun _ => Safe) ?_ fun e => ?_
  · refine Triple.bind ((readBatch_spec cfg).raises (fun _ _ h => h.2)) fun batch => ?_
    refine Triple.of_pre fun _ h => ?_
    refine Triple.ite (fun _ => (idle_keeps hA cfg budget).pre fun _ h => h.1.safe)
      (fun hempty => ?_)
    have hne : batch.records ≠ [] := by simpa using hempty
    exact (drainBatch_keeps hA cfg budget hne h.2.1).pre fun _ h => h.1
  · cases e with
    | cancelled => exact closeAndLeave_keeps cfg _
    | _ => exact keeps_raise _

theorem drainTask_keeps (hA : Admissible A) (cfg : Config) : Keeps A (drainTask cfg) := by
  refine Triple.tryCatch (R := fun _ => Safe) ?_ fun e => ?_
  · refine Triple.loop (I := fun _ => Safe) (fun _ _ h => h) (fun budget => ?_) _
    refine (drainRound_keeps hA cfg budget).conseq (fun _ h => h) ?_ (fun _ _ h => h)
    rintro (budget' | exit) w h
    · exact h
    · exact h
  · cases e with
    | cancelled => exact keeps_raise _
    | _ =>
      exact Triple.bind deregister_spec fun _ => Triple.bind (safeClose_spec cfg) fun _ =>
        keeps_raise _

end Triples

/-! ## Every run of a key -/

/-- A key whose log holds some bytes and that no worker has drained yet. -/
def World.initial (log : Option Bytes) : World :=
  ⟨⟨log, none, none⟩, 0, [], [], [], false, false, false, 0⟩

theorem safe_initial (log : Option Bytes) : Safe (World.initial log) where
  offset_of_log := fun _ => rfl
  boundary := boundary_zero newline _
  accounted := by
    intro r hr hle
    have hpos := mem_scan_bounds newline hr
    simp only [World.initial, Spool.committedOffset, Option.getD_none] at hle
    omega
  filed := fun _ h => nomatch h

theorem Safe.startDrain {w w' : World} (h : Safe w) (hstart : w.startDrain = some w') :
    Safe w' := by
  unfold World.startDrain at hstart
  split at hstart
  · split at hstart
    · cases hstart
    · exact Option.some.inj hstart ▸ h
  · exact Option.some.inj hstart ▸ h.congr rfl rfl rfl rfl

theorem runLife_safe (life : Life) (before : Bool × World)
    (hclean : ∀ t ∈ life.turns, CleanDelete t) (h : Safe before.2) :
    Safe (runLife cfg life before).2 := by
  have hboot : Safe (if life.restart || before.1 then before.2.reboot else before.2) := by
    split
    · exact h.congr rfl rfl rfl rfl
    · exact h
  have harr := Safe.stable.foldl life.arrivals _ hboot
  unfold runLife
  simp only
  split
  · exact harr
  · rename_i w hstart
    have hrun := (drainTask_keeps admissible_cleanDelete cfg w life.turns hclean
      (harr.startDrain hstart)).1
    generalize (drainTask cfg w life.turns).1 = outcome at hrun ⊢
    cases outcome <;> exact hrun

theorem runLives_safe (lives : List Life) (w : World) (h : Safe w)
    (hclean : ∀ life ∈ lives, ∀ t ∈ life.turns, CleanDelete t) : Safe (runLives cfg lives w) := by
  have hfold : ∀ before : Bool × World, Safe before.2 →
      Safe (lives.foldl (fun before life => runLife cfg life before) before).2 := by
    induction lives with
    | nil => exact fun _ h => h
    | cons life rest ih =>
      intro before hbefore
      refine ih (fun l hl => hclean l (List.mem_cons_of_mem _ hl)) _ ?_
      exact runLife_safe cfg life before (hclean life (List.mem_cons_self ..)) hbefore
  exact hfold (false, w) h

/-- Every complete record wholly below the committed offset was in a graph buffer whose flush
returned, or its dead-letter line is fully written. -/
def CommitSafe (w : World) : Prop :=
  ∀ r ∈ w.spool.records, r.stop ≤ w.spool.committedOffset →
    (w.logNumber, r) ∈ w.written
      ∨ ((w.logNumber, r) ∈ w.quarantined ∧ r.raw ∈ w.spool.deadPayloads)

instance (w : World) : Decidable (CommitSafe w) :=
  inferInstanceAs (Decidable (∀ r ∈ w.spool.records, _ → _))

theorem Safe.commitSafe (h : Safe w) : CommitSafe w := by
  intro r hr hle
  rcases h.accounted r hr hle with hw | hq
  · exact .inl hw
  · exact .inr ⟨hq, h.filed _ hq⟩

/-- **Commit after flush.**  In every run of a key's drain tasks, with any failures,
cancellations, deaths, restarts and appends, in which no deletion stops between its two unlinks,
every record below the committed offset has been flushed or dead-lettered. -/
theorem commitSafe_of_cleanDelete (cfg : Config) (log : Option Bytes) (lives : List Life)
    (hclean : ∀ life ∈ lives, ∀ t ∈ life.turns, CleanDelete t) :
    CommitSafe (runLives cfg lives (World.initial log)) :=
  (runLives_safe cfg lives _ (safe_initial log) hclean).commitSafe

/-- A turn in which every operation succeeds and the maintenance deadline has passed. -/
def DrainTurn.calm : DrainTurn := ⟨[], ⟨true, false⟩, fun _ => .ok⟩

/-- A turn in which the process dies after the log was unlinked and before the offset is. -/
def DrainTurn.diesBetweenUnlinks : DrainTurn :=
  ⟨[], ⟨true, false⟩, fun o => if o = .deleteDrained then .die 1 else .ok⟩

/-- A key whose worker drains one record, trims the drained log and dies between the two
unlinks; then the process restarts and another record of the same length arrives. -/
def interruptedTrim : List Life :=
  [⟨false, [.append [97, newline]],
      List.replicate 7 DrainTurn.calm ++ [DrainTurn.diesBetweenUnlinks]⟩,
    ⟨true, [.append [98, newline]], []⟩]

/-- After an interrupted trim the new record lies below the offset of the deleted log: it is
neither written nor dead-lettered and will not be read. -/
theorem interruptedTrim_not_commitSafe :
    ¬ CommitSafe (runLives (Config.live (fun _ => some "prompt:submit") 100 3) interruptedTrim
      (World.initial none)) := by
  decide

/-- The same run with a trim that is not interrupted. -/
theorem commitSafe_of_cleanDelete_calm :
    CommitSafe (runLives (Config.live (fun _ => some "prompt:submit") 100 3)
      [⟨false, [.append [97, newline]], List.replicate 8 DrainTurn.calm⟩,
        ⟨true, [.append [98, newline]], []⟩] (World.initial none)) := by
  apply commitSafe_of_cleanDelete
  intro life hlife t ht done hfate
  simp only [List.mem_cons, List.not_mem_nil, or_false] at hlife
  rcases hlife with rfl | rfl
  · rw [List.eq_of_mem_replicate ht] at hfate
    simp [DrainTurn.calm] at hfate
  · cases ht

end ContextIntelligence.Drain
