import ContextIntelligence.Blobs.Retention

/-!
# Retention never destroys the wrong payload

`retention_safe`: in every run whose steps are careful, whatever is interleaved and wherever
processes are killed or the power fails, a payload is unlinked only under a durable row for exactly
that file, no payload of a settled row comes back, and no write creates a file whose address has a
durable row.
-/

namespace ContextIntelligence.Blobs

open Lib.Durable Lib.Runs FileSystem

/-! ## The system -/

namespace Task

variable {fs : FileSystem}

def Inv (fs : FileSystem) : Task → Prop
  | .write w => w.Inv fs
  | .delete d => d.Inv fs
  | .retention r => r.Inv fs

def Careful (fs : FileSystem) : Task → Prop
  | .retention r => r.Careful fs
  | _ => True

instance (fs : FileSystem) (task : Task) : Decidable (task.Careful fs) := by
  cases task <;> unfold Careful <;> infer_instance

theorem keeps_map {τ : Type} {I : FileSystem → τ → Prop} {f : τ → Task} {p : Progress τ}
    (hI : ∀ fs x, I fs x → (f x).Inv fs) (h : Keeps fs I p) :
    Keeps fs (fun fs task => task.Inv fs) (p.map id (Option.map f)) := by
  refine ⟨h.change, fun task htask => ?_⟩
  obtain ⟨x, hx, rfl⟩ := Option.map_eq_some_iff.1 htask
  exact hI _ x (h.inv x hx)

theorem keeps_step (h : fs.Sound) {task : Task} (ht : task.Inv fs) (hc : task.Careful fs)
    (answer : Answer) : Keeps fs (fun fs task => task.Inv fs) (task.step fs answer) := by
  cases task with
  | write w => exact keeps_map (fun _ _ => id) (w.writes_step h ht answer).keeps
  | delete d => exact keeps_map (fun _ _ => id) (d.keeps_step h ht answer)
  | retention r => exact keeps_map (fun _ _ => id) (r.keeps_step h ht hc answer)

theorem exclusive_step {task task' : Task} {answer : Answer}
    (h : (task.step fs answer).2 = some task') : task'.exclusive = task.exclusive := by
  cases task <;> obtain ⟨x, -, rfl⟩ := Option.map_eq_some_iff.1 h <;> rfl

theorem inv_task (req : Request) (fs : FileSystem) : req.task.Inv fs := by
  cases req with
  | write canonical older fp => exact .inl List.mem_cons_self
  | delete session component => trivial
  | batch items cutoff recovery => trivial

end Task

namespace State

variable {s : State}

structure Inv (s : State) : Prop where
  sound : s.fs.Sound
  leases : s.leases.Excludes Task.exclusive
  queued : ∀ task ∈ s.leases.queue, ∃ req : Request, task = req.task
  holders : ∀ task ∈ s.leases.holders, task.Inv s.fs
  offline : ∀ r, s.offline = some r → r.Inv s.fs
  stopped : s.serving = false → s.leases = .idle
  locked : s.offline ≠ none → s.serving = false

def Careful (s : State) (a : Action) : Prop := ∀ task ∈ s.acting a, task.Careful s.fs

instance (s : State) (a : Action) : Decidable (s.Careful a) := by
  unfold Careful
  infer_instance

variable {fs : FileSystem}

theorem inv_down (h : fs.Sound) : (down fs).Inv where
  sound := h
  leases := Coordinator.excludes_idle
  queued := by rintro _ ⟨⟩
  holders := by rintro _ ⟨⟩
  offline := by rintro _ ⟨⟩
  stopped _ := rfl
  locked h := absurd rfl h

theorem sound_elim (h : fs.Sound) {τ : Type} {I : FileSystem → τ → Prop}
    {p : Progress τ} (hp : Keeps fs I p) : (p.1.elim fs fs.perform).Sound := by
  cases hcall : p.1 with
  | none => exact h
  | some call => exact h.change (hp.change call hcall)

theorem inv_beside_write (hs : s.Inv) {w : Write} (hmem : Task.write w ∈ s.leases.holders)
    (answer : Answer) {other : Task} (hother : other ∈ s.leases.holders) :
    other.Inv ((w.step s.fs answer).1.elim s.fs s.fs.perform) := by
  have hshare : other.exclusive = false := by
    by_contra hex
    have heq := hs.leases.holders_eq hother (by simpa using hex)
    rw [heq, List.mem_singleton] at hmem
    rw [← hmem] at hex
    exact hex rfl
  cases other with
  | delete d => cases hshare
  | retention r => cases hshare
  | write w' =>
    have hw := w.writes_step hs.sound (hs.holders _ hmem) answer
    cases hcall : (w.step s.fs answer).1 with
    | none => exact hs.holders _ hother
    | some call => exact Write.Inv.mono (hs.holders _ hother) (hw.adds call hcall)

theorem holders_proceed (hs : s.Inv) {i : ℕ} {task : Task} (hi : s.leases.holders[i]? = some task)
    (hc : task.Careful s.fs) (answer : Answer) :
    ∀ other ∈ (s.proceed i (task.step s.fs answer)).leases.holders,
      other.Inv (s.proceed i (task.step s.fs answer)).fs := by
  have hmem := List.mem_of_getElem? hi
  have hkeep := Task.keeps_step hs.sound (hs.holders task hmem) hc answer
  intro other hother
  -- either it is the operation that has gone on, or it was there before
  have hcases : (task.step s.fs answer).2 = some other ∨
      other ∈ s.leases.holders ∧ task.exclusive = false := by
    cases hnext : (task.step s.fs answer).2 with
    | some next =>
      simp only [proceed, hnext, Coordinator.advance] at hother
      cases hex : task.exclusive
      · rcases List.mem_or_eq_of_mem_set hother with hother | rfl
        · exact .inr ⟨hother, rfl⟩
        · exact .inl rfl
      · have hall := hs.leases.holders_eq hmem hex
        obtain ⟨hlt, -⟩ := List.getElem?_eq_some_iff.1 hi
        rw [hall, List.length_singleton] at hlt
        obtain rfl : i = 0 := by omega
        rw [hall] at hother
        rw [List.mem_singleton.1 hother]
        exact .inl rfl
    | none =>
      simp only [proceed, hnext, Coordinator.release, hi] at hother
      cases hex : task.exclusive
      · exact .inr ⟨List.mem_of_mem_eraseIdx hother, rfl⟩
      · have hall := hs.leases.holders_eq hmem hex
        obtain ⟨hlt, -⟩ := List.getElem?_eq_some_iff.1 hi
        rw [hall, List.length_singleton] at hlt
        obtain rfl : i = 0 := by omega
        rw [hall] at hother
        cases hother
  rcases hcases with hnext | ⟨hthrow, hex⟩
  · exact hkeep.inv other hnext
  · cases task with
    | write w => exact inv_beside_write hs hmem answer hthrow
    | delete d => cases hex
    | retention r => cases hex

theorem inv_proceed (hs : s.Inv) {i : ℕ} {task : Task} (hi : s.leases.holders[i]? = some task)
    (hc : task.Careful s.fs) (answer : Answer) : (s.proceed i (task.step s.fs answer)).Inv := by
  have hmem := List.mem_of_getElem? hi
  have hkeep := Task.keeps_step hs.sound (hs.holders task hmem) hc answer
  -- a lease is held, so the server runs and no offline run does
  have hserve : s.serving = true := by
    by_contra hno
    rw [hs.stopped (by simpa using hno)] at hmem
    cases hmem
  have hnobody : s.offline = none := by
    by_contra hno
    rw [hs.locked hno] at hserve
    cases hserve
  refine ⟨sound_elim hs.sound hkeep, ?_, ?_, holders_proceed hs hi hc answer, ?_, ?_, ?_⟩
  · unfold proceed
    cases hnext : (task.step s.fs answer).2 with
    | some next => exact hs.leases.advance hi (Task.exclusive_step hnext)
    | none => exact hs.leases.release i
  · unfold proceed
    cases hnext : (task.step s.fs answer).2 with
    | some next => exact hs.queued
    | none =>
      simp only [Coordinator.release, hi]
      exact hs.queued
  · intro r hr
    exact absurd (hnobody.symm.trans hr) (by simp)
  · intro hno
    exact absurd (hserve.symm.trans hno) (by simp)
  · intro hno
    exact absurd hnobody hno

theorem inv_step (hs : s.Inv) {a : Action} (hc : s.Careful a) : (s.step a).Inv := by
  cases a with
  | serve =>
    simp only [State.step]
    split
    · exact hs
    · next hfree =>
        have hnobody : s.offline = none := by simpa using hfree
        exact { hs with stopped := by rintro ⟨⟩, locked := fun hno => absurd hnobody hno }
  | request req =>
    simp only [State.step]
    split
    · next hserve =>
        refine { hs with
          leases := hs.leases.enqueue _, queued := fun task hmem => ?_, stopped := fun hno => ?_ }
        · rcases List.mem_append.1 hmem with hmem | hmem
          · exact hs.queued task hmem
          · exact ⟨req, List.mem_singleton.1 hmem⟩
        · exact absurd (hserve.symm.trans hno) (by simp)
    · exact hs
  | cancel i =>
    refine { hs with
      leases := hs.leases.withdraw i
      queued := fun task hmem => hs.queued task (List.mem_of_mem_eraseIdx hmem)
      stopped := fun hno => ?_ }
    simp only [State.step, hs.stopped hno]
    rfl
  | grant i =>
    refine { hs with
      leases := hs.leases.grant i
      queued := fun task hmem => hs.queued task (Coordinator.mem_queue_grant hmem)
      holders := fun task hmem => ?_
      stopped := fun hno => ?_ }
    · rcases Coordinator.mem_holders_grant hmem with hmem | hmem
      · exact hs.holders task hmem
      · obtain ⟨req, rfl⟩ := hs.queued task hmem
        exact Task.inv_task req _
    · simp only [State.step, hs.stopped hno]
      rfl
  | step i answer =>
    simp only [State.step]
    cases hi : s.leases.holders[i]? with
    | none => exact hs
    | some task => exact inv_proceed hs hi (hc task hi) answer
  | prune cutoff =>
    simp only [State.step]
    split
    · exact hs
    · next hfree =>
        simp only [Bool.or_eq_true, not_or, Bool.not_eq_true] at hfree
        refine { hs with offline := fun r hr => ?_, locked := fun _ => hfree.1 }
        cases hr
        trivial
  | pruneStep answer =>
    simp only [State.step]
    cases hr : s.offline with
    | none => exact hs
    | some r =>
      have hkeep := r.keeps_step hs.sound (hs.offline r hr)
        (hc (.retention r) (by simp [acting, hr])) answer
      -- the server is down while the offline run goes on, so nobody holds a lease
      have hstop := hs.locked (by simp [hr])
      have hidle := hs.stopped hstop
      refine ⟨sound_elim hs.sound hkeep, hs.leases, hs.queued, ?_, fun r' hr' => hkeep.inv r' hr',
        hs.stopped, fun _ => hstop⟩
      intro task hmem
      rw [hidle] at hmem
      cases hmem
  | kill => exact inv_down hs.sound
  | powerLoss choice => exact inv_down (hs.sound.powerLoss choice)

theorem change_step (hs : s.Inv) {a : Action} (hc : s.Careful a) :
    (s.step a).fs = s.fs ∨ s.fs.Change (s.step a).fs := by
  have hcall : ∀ {τ : Type} {I : FileSystem → τ → Prop} {p : Progress τ}, Keeps s.fs I p →
      p.1.elim s.fs s.fs.perform = s.fs ∨ s.fs.Change (p.1.elim s.fs s.fs.perform) := by
    intro τ I p hp
    cases h : p.1 with
    | none => exact .inl rfl
    | some call => exact .inr (hp.change call h)
  cases a with
  | serve => simp only [State.step]; split <;> exact .inl rfl
  | request req => simp only [State.step]; split <;> exact .inl rfl
  | cancel i => exact .inl rfl
  | grant i => exact .inl rfl
  | step i answer =>
    simp only [State.step]
    cases hi : s.leases.holders[i]? with
    | none => exact .inl rfl
    | some task =>
      exact hcall (Task.keeps_step hs.sound (hs.holders task (List.mem_of_getElem? hi)) (hc task hi)
        answer)
  | prune cutoff => simp only [State.step]; split <;> exact .inl rfl
  | pruneStep answer =>
    simp only [State.step]
    cases hr : s.offline with
    | none => exact .inl rfl
    | some r =>
      exact hcall (r.keeps_step hs.sound (hs.offline r hr)
        (hc (.retention r) (by simp [acting, hr])) answer)
  | kill => exact .inl rfl
  | powerLoss choice => exact .inr (.powerLoss choice)

theorem recorded_step (hs : s.Inv) {act : Action} (hc : s.Careful act) {a : Address}
    (hrec : s.fs.Recorded a) : (s.step act).fs.Recorded a := by
  rcases change_step hs hc with heq | hchange
  · rw [heq]
    exact hrec
  · exact hrec.change hs.sound hchange

/-! ## The three guarantees -/

def Unlinks (s : State) (act : Action) : Prop :=
  ∀ r dir name, s.calls act = some (.retention r, .unlink dir name) → r.Licensed s.fs dir name

/-- Where a row is durably not pending, the absence of the payload is durable. -/
def Absent (s : State) : Prop :=
  ∀ a, (s.fs.Survives fun fs => fs.Settled a) → s.fs.Survives fun fs => fs.payload a = none

def Creates (s : State) (act : Action) (a : Address) : Prop :=
  ∃ w dir stat, s.calls act = some (.write w, .replace dir a.filename stat) ∧
    s.fs.blobs a.session = some dir

theorem unlinks_of_inv (hs : s.Inv) (act : Action) : s.Unlinks act := by
  intro r dir name hcall
  cases act with
  | step i answer =>
    obtain ⟨task, hi, hcall⟩ := Option.bind_eq_some_iff.1 hcall
    obtain ⟨call, hcall, heq⟩ := Option.map_eq_some_iff.1 hcall
    cases heq
    exact Run.licensed_of_step (hs.holders _ (List.mem_of_getElem? hi)) hcall
  | pruneStep answer =>
    obtain ⟨r', hr, hcall⟩ := Option.bind_eq_some_iff.1 hcall
    obtain ⟨call, hcall, heq⟩ := Option.map_eq_some_iff.1 hcall
    cases heq
    exact Run.licensed_of_step (hs.offline _ hr) hcall
  | _ => cases hcall

theorem absent_of_inv (hs : s.Inv) : s.Absent := by
  intro a hsettle
  obtain ⟨entries, ⟨t, row, ht, hrow, hpend⟩, hnow⟩ := Disk.Survives.elim hsettle
    (fun q => (s.fs.entries q).now) fun q => Cell.may_now _
  obtain ⟨dir, hdir, htable⟩ := ledger_eq_some.1 ht
  have hledger : s.fs.ledger = some t :=
    ledger_eq_some.2 ⟨dir, (hnow _).symm.trans hdir, (hnow _).symm.trans htable⟩
  exact (hs.sound.gone hledger hrow hpend).survives

theorem replace_of_step {w : Write} {answer : Answer} {dir : Ino} {name : String}
    {stat : Stat} (h : (w.step fs answer).1 = some (.replace dir name stat)) :
    w.phase = .payload dir ∧ name = w.canonical.filename := by
  obtain ⟨canonical, fp, phase⟩ := w
  unfold Write.step at h
  split at h
  · cases h
  cases phase with
  | expiry rest =>
    cases rest with
    | nil => cases h
    | cons a rest => dsimp only at h; split at h <;> cases h
  | session => dsimp only at h; split at h <;> cases h
  | blobs dir' => dsimp only at h; split at h <;> cases h
  | payload dir' =>
    dsimp only at h
    split at h
    · cases h
    · cases h
      exact ⟨rfl, rfl⟩

theorem not_creates_of_recorded (hs : s.Inv) {a : Address} (hrec : s.fs.Recorded a) (act : Action) :
    ¬ s.Creates act a := by
  rintro ⟨w, dir, stat, hcall, hpath⟩
  cases act with
  | step i answer =>
    obtain ⟨task, hi, hcall⟩ := Option.bind_eq_some_iff.1 hcall
    obtain ⟨call, hcall, heq⟩ := Option.map_eq_some_iff.1 hcall
    cases heq
    have hw : w.Inv s.fs := hs.holders _ (List.mem_of_getElem? hi)
    obtain ⟨hphase, hfile⟩ := replace_of_step hcall
    simp only [Write.Inv, hphase] at hw
    obtain ⟨hfree, hcan⟩ := hw
    obtain ⟨s₁, hs₁, hb₁⟩ := blobs_eq_some.1 hcan
    obtain ⟨s₂, hs₂, hb₂⟩ := blobs_eq_some.1 hpath
    have hsess := hs.sound.eq_of_blobs (may_openDir hs₁) (may_openDir hb₁) (may_openDir hs₂)
      (may_openDir hb₂) rfl
    obtain rfl := Address.eq_of_filename hsess hfile
    rw [hrec.contains] at hfree
    cases hfree
  | pruneStep answer =>
    obtain ⟨r, -, hcall⟩ := Option.bind_eq_some_iff.1 hcall
    obtain ⟨call, -, heq⟩ := Option.map_eq_some_iff.1 hcall
    cases heq
  | _ => cases hcall

end State

/-- What retention and the writes guarantee throughout a run of the system. -/
structure Safe (s : State) (actions : List Action) : Prop where
  unlinks : Along State.step State.Unlinks s actions
  absent : Always State.step State.Absent s actions
  blocked : ∀ before after, actions = before ++ after → ∀ a,
    ((run State.step s before).fs.Survives fun fs => fs.contains a = true) →
      Along State.step (fun s act => ¬ s.Creates act a) (run State.step s before) after

/-- A disk as it is found at the start: everything on it is synced, its directories form a tree, and
retention has not been used yet. -/
structure Mounted where
  fs : FileSystem
  used : root < fs.next
  synced : ∀ place, (fs.entries place).kept = []
  fresh : ∀ ino name, fs.next ≤ ino → fs.lookup ino name = none
  child : ∀ dir name i, fs.lookup dir name = some (.dir i) → root < i ∧ i < fs.next
  parent : ∀ dir name dir' name' i, fs.lookup dir name = some (.dir i) →
    fs.lookup dir' name' = some (.dir i) → dir = dir' ∧ name = name'
  unused : fs.lookup root METADATA = none

namespace Mounted

def start (m : Mounted) : State := State.down m.fs

theorem lookup_of_may (m : Mounted) {dir : Ino} {name : String} {node : Option Node}
    (h : m.fs.May dir name node) : m.fs.lookup dir name = node := by
  have hmem : node ∈ (m.fs.entries (dir, name)).now :: (m.fs.entries (dir, name)).kept := h
  rw [m.synced, List.mem_singleton] at hmem
  exact hmem.symm

theorem sound (m : Mounted) : m.fs.Sound where
  used := m.used
  fresh ino name hino node hnode := (m.lookup_of_may hnode).symm.trans (m.fresh ino name hino)
  child hnode := m.child _ _ _ (m.lookup_of_may hnode)
  parent hnode hnode' := m.parent _ _ _ _ _ (m.lookup_of_may hnode) (m.lookup_of_may hnode')
  metadata hnode := Or.inr (m.lookup_of_may hnode).symm
  database hdir _ := absurd (m.unused.symm.trans hdir) (by simp)
  gone hledger := by
    obtain ⟨dir, hdir, -⟩ := ledger_eq_some.1 hledger
    exact absurd (m.unused.symm.trans hdir) (by simp)

end Mounted

/-- In every run whose steps are careful, retention and the writes keep their guarantees. -/
theorem retention_safe (m : Mounted) (actions : List Action)
    (h : Along State.step State.Careful m.start actions) : Safe m.start actions := by
  have hstart : m.start.Inv := State.inv_down m.sound
  refine ⟨?_, ?_, ?_⟩
  · exact h.map_of_invariant (fun s a hs hc => State.inv_step hs hc)
      (fun s a hs _ => State.unlinks_of_inv hs a) hstart
  · exact h.map_of_invariant (fun s a hs hc => State.inv_step hs hc)
      (fun s a hs hc => State.absent_of_inv (State.inv_step hs hc)) hstart
  · rintro before after rfl a hrow
    obtain ⟨hbefore, hafter⟩ := along_append.1 h
    have hs := hbefore.invariant (fun s a hs hc => State.inv_step hs hc) hstart
    have hrec := recorded_of_survives hs.sound hrow
    -- the row stays durable, and while it is no write gets past its check
    exact hafter.map_of_invariant (I := fun s => s.Inv ∧ s.fs.Recorded a)
      (fun s act hI hc => ⟨State.inv_step hI.1 hc, State.recorded_step hI.1 hc hI.2⟩)
      (fun s act hI _ => State.not_creates_of_recorded hI.1 hI.2 act) ⟨hs, hrec⟩

/-! ## One prune, and what it must be able to rely on -/

def sampleAddress : Address := ⟨"s", "x", false, by decide +kernel, by decide +kernel⟩

def sampleFile : Fingerprint := ⟨1, 2, 3, 4, 5⟩

def sampleDisk : FileSystem where
  next := 3
  entries place :=
    if place = (root, "s") then .settled (some (.dir 1))
    else if place = (1, "blobs") then .settled (some (.dir 2))
    else if place = (2, "x.json") then .settled (some (.file ⟨sampleFile, true⟩))
    else .settled none

theorem sampleDisk_dir {dir i : Ino} {name : String}
    (h : sampleDisk.lookup dir name = some (.dir i)) :
    (dir, name, i) = (root, "s", 1) ∨ (dir, name, i) = (1, "blobs", 2) := by
  simp only [FileSystem.lookup, sampleDisk] at h
  split at h
  · next heq => cases heq; cases h; exact .inl rfl
  split at h
  · next heq => cases heq; cases h; exact .inr rfl
  split at h <;> cases h

def sample : Mounted where
  fs := sampleDisk
  used := by decide
  synced place := by
    simp only [sampleDisk]
    split
    · rfl
    split
    · rfl
    split <;> rfl
  fresh ino name hino := by
    have hne : ∀ i < 3, ino ≠ i := fun i hi => Nat.ne_of_gt (Nat.lt_of_lt_of_le hi hino)
    have h0 := hne 0 (by decide)
    have h1 := hne 1 (by decide)
    have h2 := hne 2 (by decide)
    simp [FileSystem.lookup, sampleDisk, root, h0, h1, h2, Cell.settled]
  child dir name i h := by
    rcases sampleDisk_dir h with heq | heq <;> cases heq <;> decide
  parent dir name dir' name' i h h' := by
    rcases sampleDisk_dir h with heq | heq <;> rcases sampleDisk_dir h' with heq' | heq' <;>
      cases heq <;> cases heq' <;> exact ⟨rfl, rfl⟩
  unused := by decide

/-- The prune is confirmed and opens the ledger, which it has to make first. -/
def opensLedger : List Action := .prune 10 :: List.replicate 6 (.pruneStep .ok)

/-- It finds no pending row, scans the one file and journals it. -/
def journals : List Action :=
  .pruneStep .ok :: .pruneStep (.entry sampleAddress) :: .pruneStep .exhausted
    :: List.replicate 4 (.pruneStep .ok)

/-- It unlinks the file, syncs its directory and settles the row. -/
def settles : List Action := List.replicate 6 (.pruneStep .ok)

theorem prune_safe :
    Along State.step State.Careful sample.start (opensLedger ++ journals ++ settles) ∧
      (run State.step sample.start (opensLedger ++ journals ++ settles)).fs.payload
        sampleAddress = none ∧
      Safe sample.start (opensLedger ++ journals ++ settles) :=
  have h : Along State.step State.Careful sample.start (opensLedger ++ journals ++ settles) := by
    decide +kernel
  ⟨h, by decide +kernel, retention_safe sample _ h⟩

def State.unlinksOne (s : State) (act : Action) : Bool :=
  match s.calls act with
  | some (.retention _, .unlink _ _) => true
  | _ => false

theorem not_unlinks {s : State} {act : Action} (hunlink : s.unlinksOne act = true)
    (choice : Ino × String → ℕ) (hlost : ((s.fs.powerLoss choice).ledger.getD []) = []) :
    ¬ s.Unlinks act := by
  intro h
  unfold State.unlinksOne at hunlink
  split at hunlink
  · next r dir name hcall =>
      obtain ⟨a, stat, -, -, -, hsurvives, -⟩ := h r dir name hcall
      obtain ⟨t, row, ht, hrow, -⟩ := hsurvives choice
      have ht : (s.fs.powerLoss choice).ledger = some t := ht
      rw [ht] at hlost
      obtain rfl : t = [] := hlost
      cases hrow
  · cases hunlink

/-- The process is killed after it has made the metadata directory and before it has synced the
root. The next prune finds the directory in place and syncs the root no more, so a power loss may
take the whole ledger, and with it the row of the payload that this prune unlinks. -/
def killedBeforeSync : List Action :=
  .prune 10 :: List.replicate 2 (.pruneStep .ok) ++ .kill :: .prune 10
    :: List.replicate 5 (.pruneStep .ok) ++ journals

theorem killedBeforeSync_not_safe : ¬ Safe sample.start (killedBeforeSync ++ [.pruneStep .ok]) := by
  intro h
  exact not_unlinks (by decide +kernel) (fun place => if place = (root, METADATA) then 1 else 0)
    (by decide +kernel) (along_append.1 h.unlinks).2.1

/-- The process is killed between a commit of the ledger and the sync of its directory. The next
prune finds the row pending and unlinks the payload while a power loss may still undo the commit. -/
def killedBeforeCommitSync : List Action :=
  opensLedger ++ journals.take 6 ++ .kill :: .prune 10 :: List.replicate 4 (.pruneStep .ok)

theorem killedBeforeCommitSync_not_safe :
    ¬ Safe sample.start (killedBeforeCommitSync ++ [.pruneStep .ok]) := by
  intro h
  exact not_unlinks (by decide +kernel) (fun place => if place.2 = DATABASE then 1 else 0)
    (by decide +kernel) (along_append.1 h.unlinks).2.1

/-- With the ledger in place the session is deleted, and a later write makes its directories anew;
neither is synced. -/
def recreatesSession : List Action :=
  opensLedger ++ [.kill, .serve, .request (.delete "s" (by decide +kernel)), .grant 0, .step 0 .ok,
    .step 0 .exhausted, .step 0 .ok, .step 0 .ok,
    .request (.write sampleAddress [] ⟨1, 7, 3, 6, 6⟩), .grant 0]
    ++ List.replicate 5 (.step 0 .ok) ++ [.kill]

def reopensLedger : List Action := .prune 10 :: List.replicate 3 (.pruneStep .ok)

def prunesRecreated : List Action :=
  recreatesSession ++ (reopensLedger ++ journals ++ settles)

/-- It settles the row with the new directory in sight. A power loss may bring the old directory
back, and the old payload with it. -/
theorem prunesRecreated_not_safe : ¬ Safe sample.start prunesRecreated := by
  intro h
  have hopen : (run State.step sample.start prunesRecreated).fs.Opened 3 :=
    show Cell.Sure _ _ by decide +kernel
  have htable : (run State.step sample.start prunesRecreated).fs.Sure 3 DATABASE
      (some (.ledger [⟨sampleAddress, ⟨1, 7, 3, 6, 6⟩, false⟩])) :=
    show Cell.Sure _ _ by decide +kernel
  have hsettle : (run State.step sample.start prunesRecreated).fs.Survives fun fs =>
      fs.Settled sampleAddress := Disk.survives_of fun _ hmay =>
    ⟨_, _, ledger_eq_some.2 ⟨3, hopen _ (hmay _), htable _ (hmay _)⟩, rfl, rfl⟩
  have hgone := h.absent.run_of_ne_nil (by decide) sampleAddress hsettle
    (fun place => if place = (root, "s") then 2 else if place.1 = 1 ∨ place.1 = 2 then 1 else 0)
  exact absurd hgone (by decide +kernel)

end ContextIntelligence.Blobs
