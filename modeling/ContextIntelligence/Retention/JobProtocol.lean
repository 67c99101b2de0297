import ContextIntelligence.Retention.Jobs

/-!
# The protocol of retention jobs

Over every run, with crashes and failing writes: a payload is unlinked only after a save that
recorded the job as confirmed returned in the process that confirmed it; a job is reported completed
only while the snapshot says so; and it keeps the cutoff of its preview.
-/

namespace ContextIntelligence.RetentionJobs

open Lib.Runs

variable (service : Service)

/-! ## What the trace allows -/

def Confirmed (trace : List Item) (id : ℕ) : Prop :=
  ∃ newer older, trace = newer ++ .confirmed id :: older ∧ .restarted ∉ newer

/-- The job was confirmed in the current process, and since then a save that records this returned.
-/
def Permitted (trace : List Item) (id : ℕ) : Prop :=
  ∃ newer older, trace = newer ++ .confirmed id :: older ∧ .restarted ∉ newer ∧
    ∃ body, .recorded body ∈ newer ∧ body.job.id = id ∧ body.job.confirmed = true

/-- An unlink has its permission and the cutoff of the preview; no preview reuses an id. -/
def Allowed (older : List Item) : Item → Prop
  | .unlinked id cutoffNs => Permitted older id ∧ .previewed id cutoffNs ∈ older
  | .previewed id _ => ∀ cutoffNs, .previewed id cutoffNs ∉ older
  | _ => True

def History : List Item → Prop
  | [] => True
  | item :: older => Allowed older item ∧ History older

section Trace

variable {trace : List Item} {id : ℕ} {item : Item}

theorem Confirmed.cons (h : Confirmed trace id) (hitem : item ≠ .restarted) :
    Confirmed (item :: trace) id := by
  obtain ⟨newer, older, rfl, hnewer⟩ := h
  exact ⟨item :: newer, older, rfl, by simp [hnewer, hitem.symm]⟩

theorem Permitted.cons (h : Permitted trace id) (hitem : item ≠ .restarted) :
    Permitted (item :: trace) id := by
  obtain ⟨newer, older, rfl, hnewer, body, hbody, hid⟩ := h
  exact ⟨item :: newer, older, rfl, by simp [hnewer, hitem.symm], body,
    List.mem_cons_of_mem _ hbody, hid⟩

theorem Permitted.confirmed (h : Permitted trace id) : Confirmed trace id := by
  obtain ⟨newer, older, htrace, hnewer, -⟩ := h
  exact ⟨newer, older, htrace, hnewer⟩

theorem Confirmed.record (h : Confirmed trace id) {body : Snapshot} (hid : body.job.id = id)
    (hconf : body.job.confirmed = true) : Permitted (.recorded body :: trace) id := by
  obtain ⟨newer, older, rfl, hnewer⟩ := h
  exact ⟨.recorded body :: newer, older, rfl, by simp [hnewer], body, List.mem_cons_self, hid,
    hconf⟩

theorem History.cutoff_unique (h : History trace) {c c' : ℤ} (hc : .previewed id c ∈ trace)
    (hc' : .previewed id c' ∈ trace) : c' = c := by
  induction trace with
  | nil => cases hc
  | cons item older ih =>
    obtain ⟨hall, holder⟩ := h
    rcases List.mem_cons.1 hc with rfl | hin
    · rcases List.mem_cons.1 hc' with heq | hin'
      · exact (Item.previewed.inj heq).2
      · exact absurd hin' (hall c')
    · rcases List.mem_cons.1 hc' with rfl | hin'
      · exact absurd hin (hall c)
      · exact ih holder hin hin'

end Trace

/-! ## The invariant -/

/-- The job was previewed with its cutoff, and the report has the same. -/
def Known (trace : List Item) (kept : Snapshot) : Prop :=
  .previewed kept.job.id kept.job.cutoffNs ∈ trace ∧ kept.reportCutoffNs = kept.job.cutoffNs

abbrev Active (state : JobState) : Prop := state ∉ terminal ∧ state ≠ .ready

/-- The body is the job as it is or was in this task, with the outcome in a final save. -/
structure Body (job : Job) (reportCutoffNs : ℤ) (point : SavePoint) (body : Snapshot) : Prop where
  job_eq : body.job = { job with state := body.job.state }
  report_eq : body.reportCutoffNs = reportCutoffNs
  outcome : ∀ outcome, point = .final outcome → body.job.state = outcome

def Written (stored : Option Snapshot) (job : Job) (reportCutoffNs : ℤ) (point : SavePoint) :
    Writing → Prop
  | .queued => True
  | .taken body => Body job reportCutoffNs point body
  | .replaced body => Body job reportCutoffNs point body ∧ stored = some body

/-- What a save needs of the trace: only a batch has been unlinking. -/
def Covered (trace : List Item) (id : ℕ) : SavePoint → Prop
  | .batch _ => Permitted trace id
  | .checkpoint | .final _ => Confirmed trace id

def TaskInv (trace : List Item) (stored : Option Snapshot) (job : Job) (reportCutoffNs : ℤ) :
    Task → Prop
  | .idle => True
  | .validating | .previewWindow | .previewSleep _ => Active job.state
  | .save point writing =>
    Active job.state ∧ job.confirmed = true ∧ Covered trace job.id point
      ∧ Written stored job reportCutoffNs point writing
  | _ => Active job.state ∧ job.confirmed = true ∧ Permitted trace job.id

structure Held (trace : List Item) (stored : Option Snapshot) (job : Job) (reportCutoffNs : ℤ)
    (task : Task) : Prop where
  known : Known trace ⟨job, reportCutoffNs⟩
  completed : job.state = .completed → ∃ body, stored = some body ∧ body.job = job
  task : TaskInv trace stored job reportCutoffNs task

def Served (trace : List Item) (stored : Option Snapshot) (service : Service) : Prop :=
  ∀ job, service.job = some job → Held trace stored job service.reportCutoffNs service.task

structure Inv (s : State) : Prop where
  history : History s.trace
  fresh : ∀ id cutoffNs, .previewed id cutoffNs ∈ s.trace → id < s.nextId
  stored : ∀ body, s.snapshot = some body → Known s.trace body
  served : ∀ service, s.service = some service → Served s.trace s.snapshot service

theorem inv_initial : Inv State.initial where
  history := trivial
  fresh := by simp [State.initial]
  stored := by simp [State.initial]
  served := by simp [State.initial]

/-! ## Growing the trace -/

theorem Known.cons {trace : List Item} {kept : Snapshot} (h : Known trace kept) (item : Item) :
    Known (item :: trace) kept :=
  ⟨List.mem_cons_of_mem _ h.1, h.2⟩

section Held

variable {trace : List Item} {stored : Option Snapshot} {job : Job} {reportCutoffNs : ℤ}
  {task : Task} {item : Item} {point : SavePoint}

theorem Covered.confirmed (h : Covered trace job.id point) : Confirmed trace job.id := by
  cases point with
  | checkpoint => exact h
  | batch loop => exact Permitted.confirmed h
  | final outcome => exact h

theorem Covered.cons (h : Covered trace job.id point) (hitem : item ≠ .restarted) :
    Covered (item :: trace) job.id point := by
  cases point with
  | checkpoint => exact Confirmed.cons h hitem
  | batch loop => exact Permitted.cons h hitem
  | final outcome => exact Confirmed.cons h hitem

theorem TaskInv.cons (h : TaskInv trace stored job reportCutoffNs task)
    (hitem : item ≠ .restarted) : TaskInv (item :: trace) stored job reportCutoffNs task := by
  cases task with
  | idle => trivial
  | validating | previewWindow | previewSleep => exact h
  | save point writing => exact ⟨h.1, h.2.1, h.2.2.1.cons hitem, h.2.2.2⟩
  | ledger | page | pageSleep | window | windowSleep | batch | batchSleep =>
    exact ⟨h.1, h.2.1, h.2.2.cons hitem⟩

theorem Held.cons (h : Held trace stored job reportCutoffNs task) (hitem : item ≠ .restarted) :
    Held (item :: trace) stored job reportCutoffNs task :=
  ⟨h.known.cons item, h.completed, h.task.cons hitem⟩

theorem TaskInv.active (h : TaskInv trace stored job reportCutoffNs task) (htask : task ≠ .idle) :
    Active job.state := by
  cases task with
  | idle => exact absurd rfl htask
  | validating | previewWindow | previewSleep => exact h
  | save | ledger | page | pageSleep | window | windowSleep | batch | batchSleep => exact h.1

theorem Active.not_completed (h : Active job.state) : job.state ≠ .completed := by
  intro heq
  exact h.1 (by simp [heq, terminal])

end Held

theorem Inv.log {s : State} (h : Inv s) {item : Item} (hall : Allowed s.trace item)
    (hrest : item ≠ .restarted) (hpreview : ∀ id cutoffNs, item ≠ .previewed id cutoffNs) :
    Inv (s.log item) where
  history := ⟨hall, h.history⟩
  fresh id cutoffNs hmem := by
    rcases List.mem_cons.1 hmem with heq | hmem
    · exact absurd heq.symm (hpreview id cutoffNs)
    · exact h.fresh id cutoffNs hmem
  stored body hbody := (h.stored body hbody).cons item
  served service hserve job hjob := (h.served service hserve job hjob).cons hrest

theorem Inv.put {s : State} (h : Inv s) {service : Service}
    (hserved : Served s.trace s.snapshot service) : Inv (s.put service) where
  history := h.history
  fresh := h.fresh
  stored := h.stored
  served := by
    rintro _ ⟨⟩
    exact hserved

/-! ## Moves of a task -/

/-- The points of `_apply` at which no save is under way. -/
def Task.Working : Task → Prop
  | .save _ writing => writing = .queued
  | .idle | .validating | .previewWindow | .previewSleep _ => False
  | _ => True

/-- The service goes on in `_apply`, with the job as it is. -/
def GoesOn (service service' : Service) : Prop :=
  ∃ task : Task, task.Working ∧ service' = service.goto task

theorem goesOn_goto {task : Task} (h : task.Working) : GoesOn service (service.goto task) :=
  ⟨task, h, rfl⟩

theorem goesOn_finalize (outcome : JobState) : GoesOn service (finalize service outcome) :=
  goesOn_goto service rfl

theorem goesOn_windowsHead (last clockOk : Bool) :
    GoesOn service (windowsHead service last clockOk) := by
  unfold windowsHead
  split_ifs
  all_goals first
    | exact goesOn_finalize _ _
    | exact goesOn_goto _ trivial

theorem goesOn_batchHead (loop : Loop) (clockOk : Bool) :
    GoesOn service (batchHead service loop clockOk) := by
  unfold batchHead
  split_ifs
  · exact goesOn_goto _ trivial
  · exact goesOn_finalize _ _

theorem goesOn_pagesHead (clockOk : Bool) : GoesOn service (pagesHead service clockOk) := by
  unfold pagesHead
  split_ifs
  · exact goesOn_windowsHead _ _ _
  · exact goesOn_goto _ trivial
  · exact goesOn_finalize _ _

theorem goesOn_itemsHead (left : ℕ) (full clockOk : Bool) :
    GoesOn service (itemsHead service left full clockOk) := by
  -- the loop over the items ends in the same way with no item left and with a cancellation
  have hend : GoesOn service
      (if full then service.goto .pageSleep else windowsHead service false clockOk) := by
    split_ifs
    · exact goesOn_goto _ trivial
    · exact goesOn_windowsHead _ _ _
  cases left with
  | zero => exact hend
  | succ left =>
    simp only [itemsHead]
    by_cases hcancel : service.cancelRequested = true
    · rw [if_pos hcancel]
      exact hend
    · rw [if_neg hcancel]
      exact goesOn_batchHead _ _ _

theorem goesOn_loopHead (loop : Loop) (clockOk : Bool) :
    GoesOn service (loopHead service loop clockOk) := by
  cases loop with
  | items left full => exact goesOn_itemsHead _ _ _ _
  | windows last => exact goesOn_windowsHead _ _ _

section Moves

variable {trace : List Item} {stored : Option Snapshot} {service} {service' : Service} {job : Job}

theorem taskInv_of_working {reportCutoffNs : ℤ} {task : Task} (hact : Active job.state)
    (hconf : job.confirmed = true) (hperm : Permitted trace job.id) (h : task.Working) :
    TaskInv trace stored job reportCutoffNs task := by
  cases task with
  | idle | validating | previewWindow | previewSleep => exact absurd h id
  | save point writing =>
    obtain rfl : writing = .queued := h
    refine ⟨hact, hconf, ?_, trivial⟩
    cases point with
    | checkpoint | final => exact hperm.confirmed
    | batch loop => exact hperm
  | ledger | page | pageSleep | window | windowSleep | batch | batchSleep =>
    exact ⟨hact, hconf, hperm⟩

theorem served_goesOn (h : Held trace stored job service.reportCutoffNs service.task)
    (hjob : service.job = some job)
    (hperm : Active job.state ∧ job.confirmed = true ∧ Permitted trace job.id)
    (hgoes : GoesOn service service') : Served trace stored service' := by
  obtain ⟨task, hwork, rfl⟩ := hgoes
  intro job' hjob'
  obtain rfl : job = job' := Option.some.inj (hjob.symm.trans hjob')
  exact ⟨h.known, h.completed,
    taskInv_of_working hperm.1 hperm.2.1 hperm.2.2 hwork⟩

theorem served_goto (h : Held trace stored job service.reportCutoffNs service.task)
    (hjob : service.job = some job) {task : Task}
    (htask : TaskInv trace stored job service.reportCutoffNs task) :
    Served trace stored (service.goto task) := by
  intro job' hjob'
  obtain rfl : job = job' := Option.some.inj (hjob.symm.trans hjob')
  exact ⟨h.known, h.completed, htask⟩

theorem served_become_idle (h : Known trace ⟨job, service.reportCutoffNs⟩) {state : JobState}
    (hstate : state ≠ .completed) : Served trace stored (service.become job state .idle) := by
  rintro _ ⟨⟩
  exact ⟨h, fun hcomp => absurd hcomp hstate, trivial⟩

theorem served_previewHead (h : Held trace stored job service.reportCutoffNs service.task)
    (hjob : service.job = some job) (hact : Active job.state) (last clockOk : Bool) :
    Served trace stored (previewHead service job last clockOk) := by
  unfold previewHead
  split_ifs
  · exact served_become_idle h.known (by decide)
  · exact served_become_idle h.known (by decide)
  · exact served_goto h hjob hact
  · exact served_become_idle h.known (by decide)

end Moves

/-! ## Steps -/

section Steps

variable {s : State} {service} {job : Job}

theorem body_saveBody (service : Service) (job : Job) (point : SavePoint) :
    Body job service.reportCutoffNs point (saveBody service job point) := by
  cases point with
  | checkpoint | batch =>
    refine ⟨rfl, rfl, ?_⟩
    rintro _ ⟨⟩
  | final outcome =>
    refine ⟨rfl, rfl, ?_⟩
    rintro _ ⟨⟩
    rfl

variable {stored : Option Snapshot} {trace : List Item}

theorem Held.idle_of_ready {reportCutoffNs : ℤ}
    {task : Task} (h : Held trace stored job reportCutoffNs task) (hready : job.state = .ready) :
    task = .idle := by
  by_contra htask
  exact (h.task.active htask).2 hready

section Serving

variable (h : Inv s) (hserve : s.service = some service) (hjob : service.job = some job)
include h hserve hjob

theorem Inv.held : Held s.trace s.snapshot job service.reportCutoffNs service.task :=
  h.served service hserve job hjob

theorem inv_beginStep : Inv (s.put (beginStep service job)) := by
  have hheld := h.held hserve hjob
  have htask := hheld.task
  refine h.put ?_
  unfold beginStep
  split
  next point heq =>
    rw [heq] at htask
    exact served_goto hheld hjob ⟨htask.1, htask.2.1, htask.2.2.1, body_saveBody service job point⟩
  next loop heq =>
    rw [heq] at htask
    exact served_goto hheld hjob htask
  next => exact h.served service hserve

theorem inv_replaceStep : Inv (replaceStep s service) := by
  have hheld := h.held hserve hjob
  have htask := hheld.task
  unfold replaceStep
  split
  next point body heq =>
    rw [heq] at htask
    obtain ⟨hact, hconf, hcov, hbody⟩ := htask
    have hknown : Known s.trace body := by
      obtain ⟨hpreview, hrep⟩ := hheld.known
      rw [Known, hbody.job_eq, hbody.report_eq]
      exact ⟨hpreview, hrep⟩
    refine ⟨h.history, h.fresh, ?_, ?_⟩
    · rintro _ ⟨⟩
      exact hknown
    · rintro _ ⟨⟩ job' hjob'
      obtain rfl : job = job' := Option.some.inj (hjob.symm.trans hjob')
      -- the snapshot changes while the job is active, so not reported completed
      exact ⟨hheld.known, fun hcomp => absurd hcomp hact.not_completed,
        hact, hconf, hcov, hbody, rfl⟩
  next => exact h

theorem inv_unlinkStep : Inv (unlinkStep s service job) := by
  have hheld := h.held hserve hjob
  have htask := hheld.task
  unfold unlinkStep
  split
  next loop heq =>
    rw [heq] at htask
    obtain ⟨hpreview, hrep⟩ := hheld.known
    refine h.log ⟨htask.2.2, ?_⟩ nofun nofun
    rw [show service.reportCutoffNs = job.cutoffNs from hrep]
    exact hpreview
  next => exact h

theorem inv_saved {point : SavePoint} {body : Snapshot}
    (htask : service.task = .save point (.replaced body)) :
    Inv ((s.log (.recorded body)).put (savedStep service job point)) := by
  have hlog : Inv (s.log (.recorded body)) := h.log trivial nofun nofun
  have hheld := hlog.held hserve hjob
  have hinv := (h.held hserve hjob).task
  rw [htask] at hinv
  obtain ⟨hact, hconf, hcov, hbody, hstore⟩ := hinv
  have hid : body.job.id = job.id := by rw [hbody.job_eq]
  have hrec : Permitted (.recorded body :: s.trace) job.id :=
    hcov.confirmed.record hid (by rw [hbody.job_eq]; exact hconf)
  refine hlog.put ?_
  cases point with
  | checkpoint =>
    intro job' hjob'
    obtain rfl : job = job' := Option.some.inj (hjob.symm.trans hjob')
    exact ⟨⟨hheld.known.1, rfl⟩, hheld.completed, hact, hconf, hrec⟩
  | batch loop => exact served_goto hheld hjob ⟨hact, hconf, hrec⟩
  | final outcome =>
    rintro _ ⟨⟩
    refine ⟨hheld.known, fun _ => ⟨body, hstore, ?_⟩, trivial⟩
    rw [hbody.job_eq, hbody.outcome outcome rfl]

theorem inv_unsaved {point : SavePoint} {writing : Writing}
    (htask : service.task = .save point writing) : Inv (s.put (unsavedStep service job point)) := by
  have hheld := h.held hserve hjob
  have hinv := hheld.task
  rw [htask] at hinv
  obtain ⟨hact, hconf, hcov, -⟩ := hinv
  refine h.put ?_
  cases point with
  | checkpoint | batch =>
    exact served_goto hheld hjob ⟨hact, hconf, hcov.confirmed, trivial⟩
  | final outcome => exact served_become_idle hheld.known (by decide)

theorem inv_goesOn {task : Task} (htask : service.task = task) (hwork : task.Working)
    (hsave : ∀ point writing, task ≠ .save point writing) {service' : Service}
    (hgoes : GoesOn service service') : Inv (s.put service') := by
  have hheld := h.held hserve hjob
  refine h.put (served_goesOn hheld hjob ?_ hgoes)
  have hinv := hheld.task
  rw [htask] at hinv
  cases task with
  | idle | validating | previewWindow | previewSleep => exact absurd hwork id
  | save point writing => exact absurd rfl (hsave point writing)
  | ledger | page | pageSleep | window | windowSleep | batch | batchSleep => exact hinv

theorem inv_resumeStep (answer : Answer) (clockOk : Bool) :
    Inv (resumeStep s service job answer clockOk) := by
  have hheld := h.held hserve hjob
  have htask := hheld.task
  have hgoesOn := @inv_goesOn service s job h hserve hjob
  unfold resumeStep
  split
  next => exact h
  next heq =>
    rw [heq] at htask
    exact h.put (served_previewHead hheld hjob htask _ _)
  next heq =>
    rw [heq] at htask
    exact h.put (served_goto hheld hjob htask)
  next => exact h.put (served_become_idle hheld.known (by decide))
  next => exact h.put (served_become_idle hheld.known (by decide))
  next heq =>
    rw [heq] at htask
    exact h.put (served_previewHead hheld hjob htask _ _)
  next heq => exact inv_saved h hserve hjob heq
  next heq => exact inv_unsaved h hserve hjob heq
  -- the other points are outside a save and lead to one another
  next heq => exact hgoesOn heq trivial (by simp) (goesOn_pagesHead _ _)
  next heq => exact hgoesOn heq trivial (by simp) (goesOn_itemsHead _ _ _ _)
  next heq => exact hgoesOn heq trivial (by simp) (goesOn_pagesHead _ _)
  next heq =>
    refine hgoesOn heq trivial (by simp) ?_
    split_ifs
    · exact goesOn_batchHead _ _ _
    · exact goesOn_goto _ trivial
  next heq => exact hgoesOn heq trivial (by simp) (goesOn_windowsHead _ _ _)
  next heq => exact hgoesOn heq trivial (by simp) (goesOn_goto _ rfl)
  next heq => exact hgoesOn heq trivial (by simp) (goesOn_loopHead _ _ _)
  next heq => exact hgoesOn heq trivial (by simp) (goesOn_finalize _ _)
  next heq => exact hgoesOn heq trivial (by simp) (goesOn_finalize _ _)
  next heq => exact hgoesOn heq trivial (by simp) (goesOn_finalize _ _)
  next heq => exact hgoesOn heq trivial (by simp) (goesOn_finalize _ _)
  next => exact h

theorem inv_start (confirmation : String) (clockOk inTime : Bool) :
    Inv (start s service job confirmation clockOk inTime) := by
  have hheld := h.held hserve hjob
  unfold start
  split_ifs with hready hprune hcalc htime
  · exact h
  · exact h
  · rw [hheld.idle_of_ready (by tauto)]
    exact h.put (served_become_idle hheld.known (by decide))
  · exact h
  · have hlog : Inv (s.log (.confirmed job.id)) := h.log trivial nofun nofun
    have hrunning : Active .running := by decide
    refine hlog.put ?_
    rintro _ ⟨⟩
    refine ⟨hheld.known.cons _, nofun, hrunning, rfl, ?_, trivial⟩
    exact ⟨[], s.trace, rfl, List.not_mem_nil⟩

end Serving

theorem TaskInv.cancelling {reportCutoffNs : ℤ}
    {task : Task} (h : TaskInv trace stored job reportCutoffNs task)
    (hfinal : task.finalizing = false) :
    TaskInv trace stored { job with state := .cancelling } reportCutoffNs task := by
  have hact : Active .cancelling := by decide
  have hbody {point : SavePoint} {body : Snapshot} (hb : Body job reportCutoffNs point body) :
      Body { job with state := .cancelling } reportCutoffNs point body :=
    ⟨hb.job_eq, hb.report_eq, hb.outcome⟩
  cases task with
  | idle => trivial
  | validating | previewWindow | previewSleep => exact hact
  | save point writing =>
    obtain ⟨-, hconf, hcov, hwrite⟩ := h
    refine ⟨hact, hconf, hcov, ?_⟩
    cases writing with
    | queued => trivial
    | taken body => exact hbody hwrite
    | replaced body => exact ⟨hbody hwrite.1, hwrite.2⟩
  | ledger | page | pageSleep | window | windowSleep | batch | batchSleep => exact ⟨hact, h.2⟩

theorem served_cancel (h : Served trace stored service) (hjob : service.job = some job) :
    Served trace stored (cancel service job) := by
  have hheld := h job hjob
  unfold cancel
  split_ifs with hcondemned hready
  · rintro _ ⟨⟩
    refine ⟨hheld.known, nofun, ?_⟩
    rw [show service.task = .idle from hheld.idle_of_ready hready]
    trivial
  · rintro _ ⟨⟩
    exact ⟨hheld.known, nofun, hheld.task.cancelling (by simpa using hcondemned.2)⟩
  · exact h

theorem served_stop (h : Served trace stored service) : Served trace stored (stop service) := by
  unfold stop
  split
  next => exact h
  next job hjob => exact served_cancel h hjob

theorem inv_preview (h : Inv s) (service : Service) (cutoffNs : Option ℤ) :
    Inv (preview s service cutoffNs) := by
  unfold preview
  split_ifs with href
  · exact h
  cases cutoffNs with
  | none => exact h
  | some cutoffNs =>
    have hact : Active .previewing := by decide
    constructor
    · refine ⟨?_, h.history⟩
      intro c hmem
      exact absurd (h.fresh _ _ hmem) (Nat.lt_irrefl _)
    · intro id c hmem
      rcases List.mem_cons.1 hmem with heq | hmem
      · obtain ⟨rfl, -⟩ := Item.previewed.inj heq
        exact Nat.lt_succ_self _
      · exact Nat.lt_succ_of_lt (h.fresh id c hmem)
    · intro body hbody
      exact (h.stored body hbody).cons _
    · rintro _ ⟨⟩ _ ⟨⟩
      exact ⟨⟨List.mem_cons_self, rfl⟩, nofun, hact⟩

theorem inv_opened (h : Inv s) (path : String) {loaded : Option Snapshot}
    (hload : ∀ body, loaded = some body → s.snapshot = some body) :
    Inv (s.put (.opened path loaded)) := by
  refine h.put ?_
  intro job hjob
  cases loaded with
  | none => cases hjob
  | some body =>
    obtain rfl : body.job = job := Option.some.inj hjob
    have hstore := hload body rfl
    exact ⟨h.stored body hstore, fun _ => ⟨body, hstore, rfl⟩, trivial⟩

theorem inv_interrupt (h : Inv s) (hdown : s.service = none) (path : String) {found : Snapshot}
    (hfound : s.snapshot = some found) (result : SaveResult) :
    Inv (interrupt s path found result) := by
  have hreplace : Inv { s with snapshot := some found.interrupt } := by
    refine ⟨h.history, h.fresh, ?_, ?_⟩
    · rintro _ ⟨⟩
      exact h.stored found hfound
    · intro service hserve
      exact absurd (hdown.symm.trans hserve) nofun
  cases result with
  | lost => exact h
  | replaced => exact hreplace
  | saved =>
    have hlog : Inv (State.log _ (.recorded found.interrupt)) := hreplace.log trivial nofun nofun
    exact inv_opened hlog path (fun body hbody => hbody)

theorem inv_load (h : Inv s) (hdown : s.service = none) (path : String) (readable : Bool)
    (result : SaveResult) : Inv (load s path readable result) := by
  unfold load
  split
  · exact h
  split
  next => exact inv_opened h path nofun
  next found hfound =>
    split_ifs with hall hfor hterm
    · exact h
    · exact inv_opened h path nofun
    · exact inv_opened h path (fun body hbody => hfound.trans hbody)
    · exact inv_interrupt h hdown path hfound result

end Steps

/-! ## Runs -/

variable {s : State}

theorem Inv.restarted (h : Inv s) (hdown : s.service = none) : Inv (s.log .restarted) where
  history := ⟨trivial, h.history⟩
  fresh id cutoffNs hmem := by
    rcases List.mem_cons.1 hmem with heq | hmem
    · cases heq
    · exact h.fresh id cutoffNs hmem
  stored body hbody := (h.stored body hbody).cons _
  served service hserve := absurd (hdown.symm.trans hserve) nofun

theorem inv_jobStep (h : Inv s) {service : Service} (hserve : s.service = some service)
    {job : Job} (hjob : service.job = some job) (e : Event) : Inv (jobStep s service job e) := by
  cases e with
  | start id confirmation clockOk inTime =>
    simp only [jobStep]
    split_ifs
    · exact inv_start h hserve hjob _ _ _
    · exact h
  | cancel id =>
    simp only [jobStep]
    split_ifs
    · exact h.put (served_cancel (h.served service hserve) hjob)
    · exact h
  | begins => exact inv_beginStep h hserve hjob
  | replaces => exact inv_replaceStep h hserve hjob
  | unlinks => exact inv_unlinkStep h hserve hjob
  | resumes answer clockOk => exact inv_resumeStep h hserve hjob answer clockOk
  | preview | stop | crash | restart => exact h

theorem inv_serviceStep (h : Inv s) {service : Service}
    (hserve : s.service = some service) (e : Event) : Inv (serviceStep s service e) := by
  cases e with
  | crash =>
    refine ⟨h.history, h.fresh, h.stored, ?_⟩
    rintro _ ⟨⟩
  | restart path readable result => exact h
  | preview cutoffNs => exact inv_preview h service cutoffNs
  | stop => exact h.put (served_stop (h.served service hserve))
  | start | cancel | begins | replaces | unlinks | resumes =>
    dsimp only [serviceStep]
    cases hjob : service.job with
    | none => exact h
    | some job => exact inv_jobStep h hserve hjob _

theorem inv_step (s : State) (e : Event) (h : Inv s) : Inv (step s e) := by
  unfold step
  split
  next service hserve => exact inv_serviceStep h hserve e
  next hdown =>
    split
    next path readable result => exact inv_load (h.restarted hdown) hdown path readable result
    next => exact h

/-- A cutoff that the state holds for a job: in memory, in the report or in the snapshot. -/
def State.Carries (s : State) (id : ℕ) (cutoffNs : ℤ) : Prop :=
  (∃ service job, s.service = some service ∧ service.job = some job ∧ job.id = id
      ∧ (cutoffNs = job.cutoffNs ∨ cutoffNs = service.reportCutoffNs))
    ∨ ∃ body, s.snapshot = some body ∧ body.job.id = id
      ∧ (cutoffNs = body.job.cutoffNs ∨ cutoffNs = body.reportCutoffNs)

/-- The protocol, as it shows in a state: every unlink in its history was permitted, a job reported
completed is so in the snapshot, and every cutoff held for a job is the one of its only preview. -/
structure Protocol (s : State) : Prop where
  history : History s.trace
  completed : ∀ service job, s.service = some service → service.job = some job →
    job.state = .completed → ∃ body, s.snapshot = some body ∧ body.job = job
  cutoff : ∀ id cutoffNs, s.Carries id cutoffNs → .previewed id cutoffNs ∈ s.trace
    ∧ ∀ other, .previewed id other ∈ s.trace → other = cutoffNs

theorem Inv.protocol (h : Inv s) : Protocol s where
  history := h.history
  completed service job hserve hjob := (h.held hserve hjob).completed
  cutoff id cutoffNs hcarries := by
    have hknown : .previewed id cutoffNs ∈ s.trace := by
      rcases hcarries with ⟨service, job, hserve, hjob, rfl, hcut⟩ | ⟨body, hbody, rfl, hcut⟩
      · obtain ⟨hpreview, hrep⟩ := (h.held hserve hjob).known
        rcases hcut with rfl | rfl
        · exact hpreview
        · rw [show service.reportCutoffNs = job.cutoffNs from hrep]
          exact hpreview
      · obtain ⟨hpreview, hrep⟩ := h.stored body hbody
        rcases hcut with rfl | rfl
        · exact hpreview
        · rw [hrep]
          exact hpreview
    exact ⟨hknown, fun other => h.history.cutoff_unique hknown⟩

/-- In every run, from the first process on an empty root, the protocol holds in every state. -/
theorem protocol_always (events : List Event) : Always step Protocol State.initial events :=
  along_of_invariant (I := Inv) inv_step (fun s e h => (inv_step s e h).protocol) inv_initial events

end ContextIntelligence.RetentionJobs
