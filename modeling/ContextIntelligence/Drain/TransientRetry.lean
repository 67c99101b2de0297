import ContextIntelligence.Drain.CommitAfterFlush

/-!
# Transient failures and the drain loop

When the infrastructure fails under a batch or an isolated record, the worker sleeps and reads
again. The delay is an integer power of two times a float, and Python raises `OverflowError` when
the power does not fit a float: the 1025th failure ends the worker (`longOutage_ends_worker`). A
success does not reset the counter, only a deterministic failure does.
-/

namespace ContextIntelligence.Drain

open Lib.Coroutine Lib.Lines Queue

/-! ## Assertions about the files -/

/-- An assertion about the files of the key that appends cannot break. -/
structure OfSpool (P : World → Prop) : Prop where
  stable : Stable World.stim P
  congr : ∀ {w w' : World}, w'.spool = w.spool → P w → P w'

/-- A triple under any turns that says nothing about where a run is cut off. -/
abbrev FreeTriple {α : Type} (P : World → Prop) (m : DrainM α) (Q : α → World → Prop)
    (E : Exn → World → Prop) : Prop :=
  Triple (fun _ => True) (fun _ => True) P m Q E

/-- Under any turns the coroutine keeps the assertion, also when it raises. -/
def Holds {α : Type} (P : World → Prop) (m : DrainM α) : Prop :=
  FreeTriple P m (fun _ => P) (Raised P)

theorem genuine_exn (f : Fault) : Genuine f.exn := by
  cases f <;> exact trivial

section Holds

variable {P : World → Prop} (hP : OfSpool P)

include hP

theorem holds_op {α : Type} {o : Op} {act : Action World Reading α}
    (hfin : ∀ r w, (act.finish r w).2.spool = w.spool)
    (habort : ∀ r done w, (act.abort r done w).spool = w.spool) : Holds P (op o act) :=
  Triple.await hP.stable (fun _ _ => trivial) (fun _ _ _ _ h => hP.congr (hfin _ _) h)
    (fun _ f _ _ _ _ h => raised_exn f (hP.congr (habort _ _ _) h)) (fun _ _ _ _ _ _ => trivial)

theorem holds_outside (o : Op) : Holds P (outside o) :=
  holds_op hP (fun _ _ => rfl) (fun _ _ _ => rfl)

theorem holds_hook (installed : Bool) (o : Op) : Holds P (hook installed o) :=
  Triple.ite (fun _ => holds_outside hP o) (fun _ => Triple.pure fun _ h => h)

theorem holds_processOne (rec : Record) : Holds P (processOne rec) :=
  holds_op hP (fun _ _ => rfl) (fun _ _ _ => rfl)

theorem holds_flushBarrier : Holds P flushBarrier :=
  Triple.bind (holds_outside hP .acquire) fun _ =>
    holds_op hP (fun _ _ => rfl) (fun _ _ _ => rfl)

theorem holds_discardBuffer : Holds P discardBuffer :=
  Triple.modify fun w h => hP.congr (w := w) rfl h

theorem holds_postCommit (cfg : Config) (records : List Record) :
    Holds P (postCommit cfg records) := by
  refine Triple.tryCatch (holds_hook hP _ _) fun e => ?_
  cases e with
  | cancelled => exact Triple.raise fun _ h => h
  | _ => exact Triple.pure fun _ h => h.2

theorem holds_processRecords (cfg : Config) (rs : List Record) (safeCount : Nat)
    (terminalAt : Option Nat) : Holds P (processRecords cfg rs safeCount terminalAt) := by
  induction rs generalizing safeCount terminalAt with
  | nil => exact Triple.pure fun _ h => h
  | cons rec rest ih =>
    cases hparse : cfg.parseLine rec.raw with
    | none =>
      simp only [processRecords, hparse]
      exact Triple.raise fun _ h => ⟨trivial, h⟩
    | some event =>
      simp only [processRecords, hparse]
      refine Triple.bind (holds_processOne hP rec) fun _ => ?_
      cases terminalAt with
      | some at_ => exact ih safeCount (some at_)
      | none =>
        exact Triple.ite (fun _ => ih safeCount (some rec.start))
          (fun _ => ih (safeCount + 1) none)

theorem flushAndCommit_holds (cfg : Config) (records : List Record) {target : Nat}
    {Q : World → Prop} (hcomm : ∀ w, P w → Q (w.committed target)) :
    FreeTriple P (flushAndCommit cfg records target) (fun _ => Q)
      (fun e w => Genuine e ∧ (Retryable e → P w)) := by
  have hweak : ∀ {m : DrainM Unit}, Holds P m →
      FreeTriple P m (fun _ => P) (fun e w => Genuine e ∧ (Retryable e → P w)) :=
    fun hm => hm.raises (fun _ _ h => ⟨h.1, fun _ => h.2⟩)
  unfold flushAndCommit
  refine Triple.bind (hweak (holds_hook hP _ _)) fun _ => ?_
  refine Triple.bind (hweak (holds_hook hP _ _)) fun _ => ?_
  refine Triple.bind (hweak (holds_hook hP _ _)) fun _ => ?_
  refine Triple.bind (hweak (holds_flushBarrier hP)) fun _ => ?_
  refine Triple.bind (hweak (holds_hook hP _ _)) fun _ => ?_
  refine Triple.tryCatch (R := fun e _ => Genuine e) ?_ fun e => ?_
  · exact Triple.await hP.stable (fun _ _ => trivial) (fun _ w _ _ h => hcomm w h)
      (fun _ f _ _ _ _ _ => genuine_exn f) (fun _ _ _ _ _ _ => trivial)
  · cases e <;> exact Triple.raise fun _ h => ⟨h, fun hretry => hretry.elim⟩

end Holds

/-! ## The batch -/

/-- The files of a key when the records `done` above the offset of `base` are acknowledged: nothing
else is, only records of `done` are dead-lettered, and the log has only grown. -/
structure Isolating (base : Spool) (done : List Record) (w : World) : Prop where
  committed : w.spool.committedOffset = endOf base.committedOffset done
  dead : ∃ letters, letters.Sublist (done.map (·.raw))
    ∧ w.spool.deadPayloads = base.deadPayloads ++ letters
  grown : base.content <+: w.spool.content

theorem Isolating.ofSpool (base : Spool) (done : List Record) : OfSpool (Isolating base done) where
  stable := by
    intro i w h
    cases i with
    | post => exact ⟨h.committed, h.dead, h.grown⟩
    | append bytes => exact ⟨h.committed, h.dead, h.grown.trans (List.prefix_append _ _)⟩
  congr := by
    intro w w' hspool h
    exact ⟨hspool ▸ h.committed, hspool ▸ h.dead, hspool ▸ h.grown⟩

theorem isolating_nil {base : Spool} {w : World} (h : w.spool = base) : Isolating base [] w where
  committed := congrArg Spool.committedOffset h
  dead := ⟨[], List.Sublist.refl _, by rw [h, List.append_nil]⟩
  grown := h ▸ List.prefix_refl _

theorem writeBatch_isolating (cfg : Config) (base : Spool) (batch : Spool.Batch) :
    FreeTriple (Isolating base []) (writeBatch cfg batch)
      (fun r w => ∀ e, r = .error e → Retryable e → Isolating base [] w)
      (fun _ _ => True) := by
  refine Triple.tryCatch (R := fun e w => Retryable e → Isolating base [] w) ?_ fun e => ?_
  · refine Triple.bind (R := fun _ => Isolating base []) ?_ fun counted => ?_
    · exact (holds_processRecords (Isolating.ofSpool base []) cfg batch.records 0 none).raises
        (fun _ _ h _ => h.2)
    · refine Triple.bind (R := fun _ _ => True) ?_ fun _ => ?_
      · exact (flushAndCommit_holds (Isolating.ofSpool base []) cfg _ (Q := fun _ => True)
          fun _ _ => trivial).raises (fun _ _ h => h.2)
      · exact Triple.pure fun _ _ => nofun
  · refine Triple.pure fun w h e' he' => ?_
    cases he'
    exact h

/-! ## Isolation -/

/-- The record behind `done` is dead-lettered and not yet acknowledged. -/
structure Lettered (base : Spool) (done : List Record) (rec : Record) (w : World) : Prop where
  committed : w.spool.committedOffset = endOf base.committedOffset done
  dead : ∃ letters, letters.Sublist ((done ++ [rec]).map (·.raw))
    ∧ w.spool.deadPayloads = base.deadPayloads ++ letters
  grown : base.content <+: w.spool.content

theorem Lettered.ofSpool (base : Spool) (done : List Record) (rec : Record) :
    OfSpool (Lettered base done rec) where
  stable := by
    intro i w h
    cases i with
    | post => exact ⟨h.committed, h.dead, h.grown⟩
    | append bytes => exact ⟨h.committed, h.dead, h.grown.trans (List.prefix_append _ _)⟩
  congr := by
    intro w w' hspool h
    exact ⟨hspool ▸ h.committed, hspool ▸ h.dead, hspool ▸ h.grown⟩

section Isolation

variable {base : Spool} {done : List Record} {rec : Record} {w : World}

theorem Isolating.deadLettered (h : Isolating base done w) :
    Lettered base done rec (w.deadLettered rec) where
  committed := h.committed
  dead := by
    obtain ⟨letters, hsub, hdead⟩ := h.dead
    refine ⟨letters ++ [rec.raw], ?_, ?_⟩
    · rw [List.map_append]
      exact hsub.append (List.Sublist.refl _)
    · simp only [World.deadLettered, Spool.deadPayloads_deadLetter, hdead, List.append_assoc]
  grown := h.grown

theorem endOf_concat (c : Nat) (done : List Record) (rec : Record) :
    endOf c (done ++ [rec]) = rec.stop := by
  rw [endOf_append]
  rfl

theorem Isolating.commit (h : Isolating base done w) :
    Isolating base (done ++ [rec]) (w.committed rec.stop) where
  committed := (endOf_concat _ done rec).symm
  dead := by
    obtain ⟨letters, hsub, hdead⟩ := h.dead
    refine ⟨letters, ?_, hdead⟩
    rw [List.map_append]
    exact hsub.trans (List.sublist_append_left _ _)
  grown := h.grown

theorem Lettered.commit (h : Lettered base done rec w) :
    Isolating base (done ++ [rec]) (w.committed rec.stop) where
  committed := (endOf_concat _ done rec).symm
  dead := h.dead
  grown := h.grown

/-- What an exception leaves of an isolation: the signal that ends it leaves the record it was
raised for alone. -/
def Aborted (base : Spool) (done rest : List Record) (e : Exn) (w : World) : Prop :=
  e = .transientInfraFailure →
    ∃ mid held post, rest = mid ++ held :: post ∧ Isolating base (done ++ mid) w

theorem Genuine.aborted {rest : List Record} {e : Exn} (h : Genuine e) :
    Aborted base done rest e w := fun he => absurd he h.ne

variable (base done rec) in
theorem deadLetter_isolating :
    FreeTriple (Isolating base done) (deadLetter rec)
      (fun _ => Lettered base done rec) (fun e _ => Genuine e) :=
  Triple.await (Isolating.ofSpool base done).stable (fun _ _ => trivial)
    (fun _ _ _ _ h => h.deadLettered) (fun _ f _ _ _ _ _ => genuine_exn f)
    (fun _ _ _ _ _ _ => trivial)

variable (base done rec) in
theorem quarantineAndCommit_isolating (cfg : Config) :
    FreeTriple (Lettered base done rec) (quarantineAndCommit cfg rec)
      (fun _ => Isolating base (done ++ [rec])) (fun e _ => Genuine e) := by
  have hP := Lettered.ofSpool base done rec
  have hweak : ∀ {m : DrainM Unit}, Holds (Lettered base done rec) m →
      FreeTriple (Lettered base done rec) m
        (fun _ => Lettered base done rec) (fun e _ => Genuine e) :=
    fun hm => hm.raises (fun _ _ h => h.1)
  have hack : FreeTriple (Lettered base done rec)
      (publishQuarantineThenAck cfg rec) (fun _ => Isolating base (done ++ [rec]))
      (fun e _ => Genuine e) :=
    Triple.bind (hweak (holds_hook hP _ _)) fun _ =>
      Triple.await hP.stable (fun _ _ => trivial) (fun _ _ _ _ h => h.commit)
        (fun _ f _ _ _ _ _ => genuine_exn f) (fun _ _ _ _ _ _ => trivial)
  refine Triple.bind (hweak (holds_hook hP _ _)) fun _ => ?_
  refine Triple.ite (fun _ => ?_) (fun _ => hack)
  refine Triple.bind (hweak (holds_outside hP _)) fun _ => ?_
  refine Triple.bind (Triple.masked (fun _ _ => trivial) hack) fun _ => ?_
  exact (holds_outside (Isolating.ofSpool base (done ++ [rec])) _).raises (fun _ _ h => h.1)

variable (base done rec) in
/-- One isolated record is written and acknowledged, or dead-lettered; when the infrastructure
fails under it, it is neither. -/
theorem isolateOne_isolating (cfg : Config) (rest : List Record) :
    FreeTriple (Isolating base done) (isolateOne cfg rec)
      (fun wrote w => if wrote then Isolating base (done ++ [rec]) w else Lettered base done rec w)
      (Aborted base done (rec :: rest)) := by
  have hP := Isolating.ofSpool base done
  refine Triple.tryCatch
    (R := fun e w => Genuine e ∧ (Retryable e → Isolating base done w)) ?_
    fun e => ?_
  · refine Triple.bind (R := fun _ => Isolating base done) ?_ fun _ => ?_
    · exact (holds_processOne hP rec).raises (fun _ _ h => ⟨h.1, fun _ => h.2⟩)
    · refine Triple.bind (flushAndCommit_holds hP cfg [rec] fun w h => h.commit) fun _ => ?_
      exact Triple.pure fun _ h => by simpa using h
  · have hletter : FreeTriple (Isolating base done)
        (do
          deadLetter rec
          discardBuffer
          pure false)
        (fun wrote w =>
          if wrote then Isolating base (done ++ [rec]) w else Lettered base done rec w)
        (Aborted base done (rec :: rest)) := by
      refine Triple.bind ((deadLetter_isolating base done rec).raises
        (fun _ _ h => h.aborted)) fun _ => ?_
      refine Triple.bind ((holds_discardBuffer (Lettered.ofSpool base done rec)).raises
        (fun _ _ h => h.1.aborted)) fun _ => ?_
      exact Triple.pure fun _ h => by simpa using h
    cases e with
    | queueCommitFailure cause =>
      -- the cause is a fault of the commit, never the signal itself
      exact Triple.raise fun _ h => Genuine.aborted (e := cause) h.1
    | cancelled => exact Triple.raise fun _ h => h.1.aborted
    | transientInfraFailure =>
      exact hletter.pre fun _ h => absurd rfl h.1.ne
    | poison => exact hletter.pre fun _ h => h.2 trivial
    | infra =>
      refine Triple.bind (R := fun _ => Isolating base done) ?_ fun _ => ?_
      · exact (holds_discardBuffer hP).conseq (fun _ h => h.2 trivial) (fun _ _ h => h)
          (fun _ _ h => h.1.aborted)
      · refine Triple.raise fun w h _ => ?_
        exact ⟨[], rec, rest, rfl, by rwa [List.append_nil]⟩

theorem Aborted.cons {rest : List Record} {e : Exn} (h : Aborted base (done ++ [rec]) rest e w) :
    Aborted base done (rec :: rest) e w := by
  intro he
  obtain ⟨mid, held, post, rfl, hmid⟩ := h he
  exact ⟨rec :: mid, held, post, rfl, by simpa using hmid⟩

end Isolation

/-- An isolation that is ended by the infrastructure has accounted for the records before the one
it was raised for, and left that one alone. -/
theorem isolateRecords_aborted (cfg : Config) (base : Spool) (done rs : List Record) :
    FreeTriple (Isolating base done) (isolateRecords cfg rs) (fun _ _ => True)
      (Aborted base done rs) := by
  induction rs generalizing done with
  | nil => exact Triple.pure fun _ _ => trivial
  | cons rec rest ih =>
    have hrest : FreeTriple (Isolating base (done ++ [rec])) (isolateRecords cfg rest)
        (fun _ _ => True) (Aborted base done (rec :: rest)) :=
      (ih (done ++ [rec])).raises (fun _ _ h => h.cons)
    have hquar : FreeTriple (Lettered base done rec) (quarantineAndCommit cfg rec)
        (fun _ => Isolating base (done ++ [rec])) (Aborted base done (rec :: rest)) :=
      (quarantineAndCommit_isolating base done rec cfg).raises (fun _ _ h => h.aborted)
    cases hparse : cfg.parseLine rec.raw with
    | none =>
      simp only [isolateRecords, hparse]
      refine Triple.bind ((deadLetter_isolating base done rec).raises
        (fun _ _ h => h.aborted)) fun _ => ?_
      refine Triple.bind ((holds_discardBuffer (Lettered.ofSpool base done rec)).raises
        (fun _ _ h => h.1.aborted)) fun _ => ?_
      exact Triple.bind hquar fun _ => hrest
    | some event =>
      simp only [isolateRecords, hparse]
      refine Triple.ite (fun _ => Triple.pure fun _ _ => trivial) (fun _ => ?_)
      refine Triple.bind (isolateOne_isolating base done rec cfg rest) fun wrote => ?_
      refine Triple.bind (R := fun _ => Isolating base (done ++ [rec])) ?_ fun _ => hrest
      cases wrote with
      | true =>
        exact (holds_postCommit (Isolating.ofSpool base (done ++ [rec])) cfg [rec]).raises
          (fun _ _ h => h.1.aborted)
      | false => exact hquar

theorem isolateBatch_aborted (cfg : Config) (base : Spool) (batch : Spool.Batch) :
    FreeTriple (Isolating base []) (isolateBatch cfg batch)
      (fun seen w => seen = none → ∃ done held post, batch.records = done ++ held :: post
        ∧ Isolating base done w)
      (fun _ _ => True) := by
  refine Triple.tryCatch (R := Aborted base [] batch.records) ?_ fun e => ?_
  · refine Triple.bind (R := fun _ _ => True) ?_ fun _ => Triple.pure fun _ _ => nofun
    refine Triple.bind (R := fun _ => Isolating base []) ?_ fun _ =>
      isolateRecords_aborted cfg base [] batch.records
    exact (holds_discardBuffer (Isolating.ofSpool base [])).raises (fun _ _ h => h.1.aborted)
  · cases e with
    | transientInfraFailure => exact Triple.pure fun _ h _ => h rfl
    | _ => exact Triple.raise fun _ _ => trivial

/-! ## Transient failures of a round -/

/-- Where a transient failure is met: under the batch, under a record that is isolated, or in one
of the worker's own writes, the acknowledgement and the quarantine of a record. -/
inductive Site where
  | batch
  | isolation
  | acknowledgement
  | quarantine
  deriving DecidableEq, Repr

def Site.Retried (site : Site) : Prop := site = .batch ∨ site = .isolation

/-- A round of the drain loop: the batch it read and where it stood then. -/
structure Round where
  batch : Spool.Batch
  budget : Budget
  world : World
  turns : List DrainTurn

/-- In the round that starts with `b`, `w` and `ts` the infrastructure fails: `read` is the round
after its batch was read, `failed` the round as the failure leaves it, its retry counted. -/
inductive TransientFailure (cfg : Config) (b : Budget) (w : World) (ts : List DrainTurn) :
    Site → Round → Round → Prop
  | batch {batch w₁ ts₁ e w₂ ts₂} (hread : readBatch cfg w ts = (.ok batch, w₁, ts₁))
      (hrecords : batch.records ≠ [])
      (hwrite : writeBatch cfg batch w₁ ts₁ = (.ok (.error e), w₂, ts₂))
      (htransient : isTransientInfraError e = true) :
      TransientFailure cfg b w ts .batch ⟨batch, b, w₁, ts₁⟩
        ⟨batch, ⟨b.attempts, b.transientAttempts + 1⟩, w₂, ts₂⟩
  | isolation {batch w₁ ts₁ e w₂ ts₂ w₃ ts₃} (hread : readBatch cfg w ts = (.ok batch, w₁, ts₁))
      (hrecords : batch.records ≠ [])
      (hwrite : writeBatch cfg batch w₁ ts₁ = (.ok (.error e), w₂, ts₂)) (hretry : Retryable e)
      (htransient : isTransientInfraError e = false)
      (hspent : cfg.maxDeliveryAttempts ≤ b.attempts + 1)
      (hisolate : isolateBatch cfg batch w₂ ts₂ = (.ok none, w₃, ts₃)) :
      TransientFailure cfg b w ts .isolation ⟨batch, b, w₁, ts₁⟩ ⟨batch, ⟨0, 1⟩, w₃, ts₃⟩
  | acknowledgement {batch w₁ ts₁ e w₂ ts₂}
      (hread : readBatch cfg w ts = (.ok batch, w₁, ts₁)) (hrecords : batch.records ≠ [])
      (hwrite : writeBatch cfg batch w₁ ts₁ = (.ok (.error (.queueCommitFailure e)), w₂, ts₂))
      (htransient : isTransientInfraError e = true) :
      TransientFailure cfg b w ts .acknowledgement ⟨batch, b, w₁, ts₁⟩ ⟨batch, b, w₂, ts₂⟩
  | quarantine {batch w₁ ts₁ e e' w₂ ts₂ w₃ ts₃}
      (hread : readBatch cfg w ts = (.ok batch, w₁, ts₁)) (hrecords : batch.records ≠ [])
      (hwrite : writeBatch cfg batch w₁ ts₁ = (.ok (.error e), w₂, ts₂)) (hretry : Retryable e)
      (htransient : isTransientInfraError e = false)
      (hspent : cfg.maxDeliveryAttempts ≤ b.attempts + 1)
      (hisolate : isolateBatch cfg batch w₂ ts₂ = (.raise e', w₃, ts₃))
      (htransient' : isTransientInfraError e' = true) :
      TransientFailure cfg b w ts .quarantine ⟨batch, b, w₁, ts₁⟩ ⟨batch, b, w₃, ts₃⟩

/-- The rounds a run of `drain_worker` reaches: the loop stands before a round with this budget,
world and turns. -/
inductive Looping (cfg : Config) (w₀ : World) (ts₀ : List DrainTurn) :
    Budget → World → List DrainTurn → Prop
  | start : Looping cfg w₀ ts₀ ⟨0, 0⟩ w₀ ts₀
  | round {b w ts b' w' ts'} (h : Looping cfg w₀ ts₀ b w ts)
      (hround : drainRound cfg b w ts = (.ok (.inl b'), w', ts')) : Looping cfg w₀ ts₀ b' w' ts'

/-! ## The records are held back -/

section HeldBack

variable {cfg : Config} {b : Budget} {w : World} {ts : List DrainTurn} {site : Site}
  {read failed : Round}

theorem FreeTriple.ok {α : Type} {P : World → Prop} {m : DrainM α} {Q : α → World → Prop}
    {E : Exn → World → Prop} (h : FreeTriple P m Q E) {w w' : World} {ts ts' : List DrainTurn}
    {a : α} (hP : P w) (hrun : m w ts = (.ok a, w', ts')) : Q a w' := by
  have hpost := (h w ts (fun _ _ => trivial) hP).1
  rwa [hrun] at hpost

theorem readBatch_run {batch : Spool.Batch} {w₁ : World} {ts₁ : List DrainTurn}
    (h : readBatch cfg w ts = (.ok batch, w₁, ts₁)) :
    batch = w₁.spool.readBatch cfg.drainBatchSize := by
  cases ts with
  | nil => cases h
  | cons t ts =>
    simp only [readBatch, op, await] at h
    split at h
    · cases h
      rfl
    · cases h
    · cases h

/-- What a retried failure leaves of the batch: the records `done` are accounted for one by one,
the others are untouched. -/
theorem TransientFailure.held (hfail : TransientFailure cfg b w ts site read failed)
    (hsite : site.Retried) :
    failed.batch = read.batch ∧ ∃ done held, read.batch.records = done ++ held ∧ held ≠ []
      ∧ (site = .batch → done = []) ∧ Isolating read.world.spool done failed.world := by
  cases hfail with
  | batch hread hrecords hwrite htransient =>
    refine ⟨rfl, [], _, rfl, hrecords, fun _ => rfl, ?_⟩
    refine (writeBatch_isolating cfg _ _).ok (isolating_nil rfl) hwrite _ rfl ?_
    revert htransient
    rename_i e _ _
    cases e <;> simp [isTransientInfraError, Retryable]
  | isolation hread hrecords hwrite hretry htransient hspent hisolate =>
    have hkept := (writeBatch_isolating cfg _ _).ok (isolating_nil rfl) hwrite _ rfl hretry
    obtain ⟨done, held, post, hsplit, h⟩ := (isolateBatch_aborted cfg _ _).ok hkept hisolate rfl
    exact ⟨rfl, done, held :: post, hsplit, List.cons_ne_nil _ _, nofun, h⟩
  | acknowledgement => rcases hsite with h | h <;> cases h
  | quarantine => rcases hsite with h | h <;> cases h

theorem Isolating.held_ahead {base : Spool} {done held more : List Record}
    (h : Isolating base done w) (hahead : base.uncommitted = done ++ held ++ more) :
    held <+: w.spool.uncommitted := by
  obtain ⟨tail, htail⟩ := h.grown
  have hrest : recordsFrom newline base.content (endOf base.committedOffset done) = held ++ more :=
    recordsFrom_endOf (by rwa [List.append_assoc] at hahead)
  have hheld : held <+: recordsFrom newline base.content (endOf base.committedOffset done) :=
    hrest ▸ List.prefix_append _ _
  simp only [Spool.uncommitted, h.committed, ← htail]
  exact hheld.trans (recordsFrom_append _)

theorem TransientFailure.read_ahead (hfail : TransientFailure cfg b w ts site read failed) :
    read.batch.records <+: read.world.spool.uncommitted := by
  have hbatch : ∀ {batch w₁ ts₁}, readBatch cfg w ts = (.ok batch, w₁, ts₁) →
      batch.records <+: w₁.spool.uncommitted := by
    intro batch w₁ ts₁ hread
    rw [readBatch_run hread, Spool.readBatch_records]
    exact List.take_prefix _ _
  cases hfail with
  | batch hread => exact hbatch hread
  | isolation hread => exact hbatch hread
  | acknowledgement hread => exact hbatch hread
  | quarantine hread => exact hbatch hread

end HeldBack

/-! ## The round goes on -/

def arrived (t : DrainTurn) (w : World) : World := t.env.foldl (fun w i => World.stim i w) w

/-- What the loop of `drain_worker` does about an exception of a round. -/
def roundFailed (cfg : Config) : Exn → DrainM (Budget ⊕ Exit)
  | .cancelled => closeAndLeave cfg .cancelled
  | e => Co.raise e

section Retry

variable {cfg : Config} {b : Budget} {w : World} {ts : List DrainTurn} {site : Site}
  {read failed : Round}

theorem drainRound_eq (cfg : Config) (b : Budget) :
    drainRound cfg b = Co.tryCatch
      (do
        let batch ← readBatch cfg
        if batch.records.isEmpty then idle cfg b else drainBatch cfg b batch)
      (roundFailed cfg) := by
  unfold drainRound
  congr 1

theorem drainRound_of_batch {batch : Spool.Batch} {w₁ : World} {ts₁ : List DrainTurn}
    (hread : readBatch cfg w ts = (.ok batch, w₁, ts₁)) (hrecords : batch.records ≠ []) :
    drainRound cfg b w ts = Co.tryCatch (drainBatch cfg b batch) (roundFailed cfg) w₁ ts₁ := by
  rw [drainRound_eq]
  refine Co.tryCatch_congr ?_
  rw [Co.bind_of_ok hread, if_neg (by simpa using hrecords)]

theorem drainBatch_of_retryable {batch : Spool.Batch} {e : Exn} {w₂ : World}
    {ts₂ : List DrainTurn} (hwrite : writeBatch cfg batch w ts = (.ok (.error e), w₂, ts₂))
    (hretry : Retryable e) : drainBatch cfg b batch w ts = batchFailed cfg b batch e w₂ ts₂ := by
  unfold drainBatch
  rw [Co.bind_of_ok hwrite]
  cases e with
  | cancelled => exact hretry.elim
  | queueCommitFailure cause => exact hretry.elim
  | _ => rfl

theorem retryable_of_transient {e : Exn} (h : isTransientInfraError e = true) : Retryable e := by
  cases e with
  | infra => trivial
  | _ => cases h

theorem TransientFailure.round (hfail : TransientFailure cfg b w ts site read failed)
    (hsite : site.Retried) :
    drainRound cfg b w ts
      = Co.tryCatch (transientRetry failed.budget) (roundFailed cfg) failed.world
          failed.turns := by
  cases hfail with
  | batch hread hrecords hwrite htransient =>
    rw [drainRound_of_batch hread hrecords]
    refine Co.tryCatch_congr ?_
    rw [drainBatch_of_retryable hwrite (retryable_of_transient htransient), batchFailed,
      if_pos htransient]
  | isolation hread hrecords hwrite hretry htransient hspent hisolate =>
    rw [drainRound_of_batch hread hrecords]
    refine Co.tryCatch_congr ?_
    rw [drainBatch_of_retryable hwrite hretry, batchFailed, htransient, if_neg nofun,
      if_pos hspent, Co.bind_of_ok hisolate]
  | acknowledgement => rcases hsite with h | h <;> cases h
  | quarantine => rcases hsite with h | h <;> cases h

theorem transientBackoff_le_cap {n : Nat} (h : n ≤ 1024) :
    ∃ delay, transientBackoff n = some delay ∧ 0 < delay ∧ delay ≤ 30 := by
  refine ⟨_, if_neg (by omega), ?_, min_le_right _ _⟩
  exact lt_min (by positivity) (by norm_num)

theorem transientBackoff_eq_none_iff (n : Nat) : transientBackoff n = none ↔ 1024 < n := by
  simp only [transientBackoff, ite_eq_left_iff, reduceCtorEq, imp_false]
  omega

theorem transientRetry_sleeps {budget : Budget} (h : budget.transientAttempts ≤ 1024) :
    transientRetry budget = (do
      outside .sleep
      pure (.inl budget)) := by
  obtain ⟨delay, hdelay, -⟩ := transientBackoff_le_cap h
  simp only [transientRetry, hdelay]

theorem transientRetry_raises {budget : Budget} (h : 1024 < budget.transientAttempts) :
    transientRetry budget = Co.raise .poison := by
  simp only [transientRetry, (transientBackoff_eq_none_iff _).2 h]

/-- Every transient failure of a batch or of an isolated record, while the counter is at most 1024:
the delay is at most the cap; the records `done` aside, nothing is acknowledged or dead-lettered;
and when the timer returns the worker stands before its next round with the same records ahead. -/
theorem transient_failure_keeps_looping {w₀ : World} {ts₀ : List DrainTurn}
    (hloop : Looping cfg w₀ ts₀ b w ts) (hfail : TransientFailure cfg b w ts site read failed)
    (hsite : site.Retried) (hcount : failed.budget.transientAttempts ≤ 1024) :
    (∃ delay, transientBackoff failed.budget.transientAttempts = some delay
      ∧ 0 < delay ∧ delay ≤ 30)
    ∧ ∃ done held, read.batch.records = done ++ held ∧ held ≠ [] ∧ (site = .batch → done = [])
      ∧ Isolating read.world.spool done failed.world
      ∧ ∀ t rest, failed.turns = t :: rest → t.fate .sleep = .ok →
          Looping cfg w₀ ts₀ failed.budget (arrived t failed.world) rest
          ∧ held <+: (arrived t failed.world).spool.uncommitted := by
  refine ⟨transientBackoff_le_cap hcount, ?_⟩
  obtain ⟨-, done, held, hsplit, hheld, hdone, hisolate⟩ := hfail.held hsite
  obtain ⟨more, hmore⟩ := hfail.read_ahead
  refine ⟨done, held, hsplit, hheld, hdone, hisolate, ?_⟩
  intro t rest hturn hsleep
  constructor
  · refine Looping.round hloop ?_
    rw [hfail.round hsite, transientRetry_sleeps hcount, hturn]
    simp only [Co.tryCatch, outside, op, Bind.bind, Co.bind, await, hsleep]
    rfl
  · have harr : Isolating read.world.spool done (arrived t failed.world) :=
      (Isolating.ofSpool _ done).stable.foldl t.env failed.world hisolate
    exact harr.held_ahead (hsplit ▸ hmore.symm)

end Retry

/-! ## An outage that is too long -/

def outageWorld : World :=
  ⟨⟨some [120, 10], none, none⟩, 0, [], [], [], false, false, true, 0⟩

def outageConfig : Config := Config.live (fun _ => some "tool:pre") 100 3

/-- The database is away: every dispatch fails, everything else succeeds. -/
def outage : DrainTurn :=
  ⟨[], ⟨false, false⟩, fun o => match o with
    | .dispatch _ => .raise .infra 0
    | _ => .ok⟩

/-- The turns of some rounds under the outage: a read, a dispatch and a sleep each. -/
def outages : Nat → List DrainTurn
  | 0 => []
  | n + 1 => outage :: outage :: outage :: outages n

/-- The round under the outage after `n` failures: as it reads its batch and as it fails. -/
def outageRead (n left : Nat) : Round :=
  ⟨⟨[⟨[120], 0, 2⟩], 0, 2⟩, ⟨0, n⟩, outageWorld, outage :: outage :: outages left⟩

def outageFailed (n left : Nat) : Round :=
  ⟨⟨[⟨[120], 0, 2⟩], 0, 2⟩, ⟨0, n + 1⟩, outageWorld, outage :: outages left⟩

theorem outage_fails (n left : Nat) :
    TransientFailure outageConfig ⟨0, n⟩ outageWorld (outages (left + 1)) .batch
      (outageRead n left) (outageFailed n left) :=
  .batch (e := .infra) rfl nofun rfl rfl

theorem outage_round {n : Nat} (left : Nat) (h : n < 1024) :
    drainRound outageConfig ⟨0, n⟩ outageWorld (outages (left + 1))
      = (.ok (.inl ⟨0, n + 1⟩), outageWorld, outages left) := by
  rw [(outage_fails n left).round (.inl rfl), transientRetry_sleeps (show n + 1 ≤ 1024 from h)]
  rfl

theorem outage_last_round (left : Nat) :
    drainRound outageConfig ⟨0, 1024⟩ outageWorld (outages (left + 1))
      = (.raise .poison, outageWorld, outage :: outages left) := by
  rw [(outage_fails 1024 left).round (.inl rfl), transientRetry_raises (Nat.lt_succ_self 1024)]
  rfl

theorem outage_looping (n left : Nat) (hn : n ≤ 1024) :
    Looping outageConfig outageWorld (outages (left + n)) ⟨0, n⟩ outageWorld (outages left) := by
  induction n generalizing left with
  | zero => exact .start
  | succ n ih =>
    have hreached := ih (left + 1) (by omega)
    rw [Nat.add_right_comm, Nat.add_assoc] at hreached
    exact .round hreached (outage_round left (by omega))

/-- From `n` failures on, the outage ends the worker with the failure that is one too many. -/
theorem outage_rounds (n k more : Nat) (h : n + k = 1024) :
    (Co.rounds (drainRound outageConfig) (more + k + 1) ⟨0, n⟩ outageWorld
      (outages (k + 1))).1 = .raise .poison := by
  induction k generalizing n with
  | zero =>
    obtain rfl : n = 1024 := h
    simp only [Co.rounds, Co.bind, outage_last_round 0]
  | succ k ih =>
    have hround := outage_round (n := n) (k + 1) (by omega)
    rw [← Nat.add_assoc more k 1, Co.rounds]
    simp only [Co.bind, hround]
    exact ih (n + 1) (by omega)

/-- A record that cannot be parsed under a dead-letter file that cannot be written. -/
def fullDisk : DrainTurn :=
  ⟨[], ⟨false, false⟩, fun o => match o with
    | .deadLetter _ => .raise .infra 0
    | _ => .ok⟩

/-- 1025 failures in a row end the worker: the last of them is met by a round of the loop, its
delay cannot be computed, and the exception of the computation leaves `drain_worker`. A failure
of the worker's own dead-letter write inside isolation ends it at once. -/
theorem longOutage_ends_worker :
    (∃ b w ts read failed, Looping outageConfig outageWorld (outages 1025) b w ts
      ∧ TransientFailure outageConfig b w ts .batch read failed
      ∧ transientBackoff failed.budget.transientAttempts = none
      ∧ (drainRound outageConfig b w ts).1 = .raise .poison)
    ∧ (drainWorker outageConfig outageWorld (outages 1025)).1 = .raise .poison
    ∧ (drainWorker (Config.live (fun _ => none) 100 1) outageWorld [fullDisk, fullDisk]).1
        = .raise .infra := by
  refine ⟨⟨⟨0, 1024⟩, outageWorld, outages 1, outageRead 1024 0, outageFailed 1024 0,
    outage_looping 1024 1 (by decide), outage_fails 1024 0, ?_, ?_⟩, ?_, ?_⟩
  · exact (transientBackoff_eq_none_iff _).2 (by decide)
  · rw [outage_last_round 0]
  · have hlen : ∀ n, (outages n).length = 3 * n := by
      intro n
      induction n with
      | zero => rfl
      | succ n ih =>
        simp only [outages, List.length_cons, ih]
        omega
    simp only [drainWorker, Co.loop, hlen]
    exact outage_rounds 0 1024 2051 rfl
  · decide +kernel

/-- In a short outage the worker is still in its loop, with the record ahead, after the second
failure. -/
theorem shortOutage_keeps_looping :
    ∃ done held, [(⟨[120], 0, 2⟩ : Record)] = done ++ held ∧ held ≠ []
      ∧ Looping outageConfig outageWorld (outages 2) ⟨0, 2⟩ outageWorld []
      ∧ held <+: outageWorld.spool.uncommitted := by
  obtain ⟨-, done, held, hsplit, hheld, -, -, hnext⟩ :=
    transient_failure_keeps_looping (outage_looping 1 1 (by decide)) (outage_fails 1 0) (.inl rfl)
      (by decide)
  exact ⟨done, held, hsplit, hheld, hnext outage [] rfl rfl⟩

end ContextIntelligence.Drain
