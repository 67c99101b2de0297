import ContextIntelligence.Lib.Runs
import ContextIntelligence.Queue.Spool

/-!
# Deleting a session graph

`DeletionService.apply` resolves the graph of a session, checks that none of its sessions has a
pending record, and deletes queue files, graph and blobs, in this order. `delete_session` counts
again under the lock of the key. The call advances from one await to the next; in between the files
of any key change. `changed` collects what the call itself has changed. A refused call has changed
nothing as long as no checked session gets a pending record before its own delete
(`nothingChanged_of_undisturbed`).
-/

namespace ContextIntelligence.Deletion

open Lib.Lines Lib.Runs Queue

/-! ## The call -/

/-- What `resolve_session_graph` returns, as far as `apply` reads it. -/
structure SessionGraph where
  rootId : String
  /-- The sessions in sorted order. -/
  sessionIds : List String
  /-- The order in which the set of the sessions is iterated. -/
  order : List String
  order_perm : order.Perm sessionIds

/-- The reads of `pending_count`: the committed offset, the end of the complete data, the newlines
between them. -/
inductive Reading where
  | start
  | offset (committed : ℕ)
  | stop (committed completeEnd : ℕ)
  deriving DecidableEq, Repr

inductive Outcome where
  | notFound
  /-- `SessionsPendingError`. -/
  | refused (rootId : String) (pendingSessions : List String)
  /-- Any other exception. -/
  | raised
  | deleted (rootId : String) (queueSessionsCleaned nodesDeleted blobsDeleted : ℕ)
  deriving DecidableEq, Repr

inductive Phase where
  | resolve
  | guarding (graph : SessionGraph)
  | checking (graph : SessionGraph) (sid : String) (todo pending : List String) (reading : Reading)
  | deleting (graph : SessionGraph) (sid : String) (todo : List String) (cleaned : ℕ)
  | deletingGraph (graph : SessionGraph) (cleaned : ℕ)
  | deletingBlobs (graph : SessionGraph) (sid : String) (todo : List String)
      (cleaned nodes blobs : ℕ)
  | ended (outcome : Outcome)

/-- A part of the stores that the call has changed. -/
inductive Change where
  | queue (key : String)
  | graph
  | blobs (sessionId : String)
  deriving DecidableEq, Repr

structure State where
  /-- The queue files of each worker key. -/
  spools : String → Spool
  /-- The nodes of the graph store. -/
  nodes : List String
  /-- The blobs of each session. -/
  blobs : String → List String
  phase : Phase
  changed : List Change

def State.called (spools : String → Spool) (nodes : List String) (blobs : String → List String) :
    State :=
  ⟨spools, nodes, blobs, .resolve, []⟩

def State.goto (s : State) (phase : Phase) : State := { s with phase := phase }

def State.end (s : State) (outcome : Outcome) : State := s.goto (.ended outcome)

/-! ## Changes of the stores -/

/-- The files of a key are left as given; the change counts if it is one. -/
def State.leaveSpool (s : State) (key : String) (spool : Spool) : State :=
  { s with
    spools := Function.update s.spools key spool
    changed := if spool = s.spools key then s.changed else .queue key :: s.changed }

def State.removeNodes (s : State) (owned : List String) : State :=
  { s with
    nodes := s.nodes.filter (· ∉ owned)
    changed := if s.nodes.filter (· ∉ owned) = s.nodes then s.changed else .graph :: s.changed }

def State.removeBlobs (s : State) (sid : String) (removed : ℕ) : State :=
  { s with
    blobs := Function.update s.blobs sid ((s.blobs sid).drop removed)
    changed := if (s.blobs sid).drop removed = s.blobs sid then s.changed
      else .blobs sid :: s.changed }

/-! ## Steps of the call -/

inductive Answer where
  | resolved (graph : Option SessionGraph)
  | done
  /-- `delete_session_graph` removed these nodes. -/
  | nodes (owned : List String)
  /-- `delete_session_graph` found no graph. -/
  | vanished
  /-- A `RuntimeError` before the awaited function has run. -/
  | runtimeError
  /-- Another exception, after part of the work: unlinks, nodes or blobs. -/
  | raised (unlinks : ℕ) (owned : List String) (blobs : ℕ)

/-- The loop over the sessions in `_pending_sessions`, and the decision after it. -/
def checkNext (s : State) (graph : SessionGraph) (todo pending : List String) : State :=
  match todo with
  | sid :: rest => s.goto (.checking graph sid rest pending .start)
  | [] =>
    if pending ≠ [] then s.end (.refused graph.rootId pending)
    else
      match graph.order with
      | sid :: rest => s.goto (.deleting graph sid rest 0)
      | [] => s.goto (.deletingGraph graph 0)

def deleteNext (s : State) (graph : SessionGraph) (todo : List String) (cleaned : ℕ) : State :=
  match todo with
  | sid :: rest => s.goto (.deleting graph sid rest cleaned)
  | [] => s.goto (.deletingGraph graph cleaned)

def blobsNext (s : State) (graph : SessionGraph) (todo : List String) (cleaned nodes blobs : ℕ) :
    State :=
  match todo with
  | sid :: rest => s.goto (.deletingBlobs graph sid rest cleaned nodes blobs)
  | [] => s.end (.deleted graph.rootId cleaned nodes blobs)

/-- One read of `pending_count`. -/
def checkStep (s : State) (spool : Spool) (graph : SessionGraph) (sid : String)
    (todo pending : List String) (reading : Reading) (answer : Answer) : State :=
  match answer, reading with
  | .done, .start => s.goto (.checking graph sid todo pending (.offset spool.committedOffset))
  | .done, .offset committed =>
    s.goto (.checking graph sid todo pending (.stop committed spool.completeDataEnd))
  | .done, .stop committed completeEnd =>
    checkNext s graph todo
      (if 0 < spool.countNewlines committed completeEnd then pending ++ [sid] else pending)
  | _, _ => s.end .raised

/-- `delete_session` of the next session. A `RuntimeError` of any origin is taken for a pending
record. -/
def deleteStep (s : State) (key : String) (graph : SessionGraph) (sid : String) (todo : List String)
    (cleaned : ℕ) (answer : Answer) : State :=
  let spool := s.spools key
  match answer with
  | .runtimeError => s.end (.refused graph.rootId [sid])
  | .done =>
    if spool.pendingCount ≠ 0 then s.end (.refused graph.rootId [sid])
    else
      deleteNext (s.leaveSpool key Spool.empty) graph todo
        (if spool = Spool.empty then cleaned else cleaned + 1)
  | .raised unlinks _ _ =>
    if spool.pendingCount ≠ 0 then s.end (.refused graph.rootId [sid])
    else (s.leaveSpool key (spool.deleteSessionPartial unlinks)).end .raised
  | _ => s.end .raised

section Call

-- `fold_worker_key`
variable (foldWorkerKey : String → String)

def advance (s : State) (answer : Answer) : State :=
  match s.phase with
  | .resolve =>
    match answer with
    | .resolved none => s.end .notFound
    | .resolved (some graph) => s.goto (.guarding graph)
    | _ => s.end .raised
  | .guarding graph =>
    match answer with
    | .done => checkNext s graph graph.sessionIds []
    | _ => s.end .raised
  | .checking graph sid todo pending reading =>
    checkStep s (s.spools (foldWorkerKey sid)) graph sid todo pending reading answer
  | .deleting graph sid todo cleaned =>
    deleteStep s (foldWorkerKey sid) graph sid todo cleaned answer
  | .deletingGraph graph cleaned =>
    match answer with
    | .nodes owned => blobsNext (s.removeNodes owned) graph graph.order cleaned owned.length 0
    | .raised _ owned _ => (s.removeNodes owned).end .raised
    | _ => s.end .raised
  | .deletingBlobs graph sid todo cleaned nodes blobs =>
    let stored := (s.blobs sid).length
    match answer with
    | .done => blobsNext (s.removeBlobs sid stored) graph todo cleaned nodes (blobs + stored)
    | .raised _ _ removed => (s.removeBlobs sid removed).end .raised
    | _ => s.end .raised
  | .ended _ => s

/-! ## What happens meanwhile -/

/-- What ingestion and the drain do to the files of a key. -/
inductive Concurrent where
  /-- Bytes of a record, or of a part of one. -/
  | append (bytes : Bytes)
  | commit (newOffset : ℕ)
  | deleteDrained (cut : Option ℕ)
  | deadLetter (payload : Bytes)
  | deadLetterPartial (done : ℕ)
  deriving DecidableEq, Repr

def Concurrent.apply : Concurrent → Spool → Spool
  | .append bytes => Spool.writeLog bytes
  | .commit newOffset => Spool.commit newOffset
  | .deleteDrained cut => Spool.deleteDrainedCut cut
  | .deadLetter payload => Spool.deadLetter payload
  | .deadLetterPartial done => Spool.deadLetterPartial done

inductive Event where
  | advance (answer : Answer)
  | concurrent (key : String) (op : Concurrent)

def step (s : State) : Event → State
  | .advance answer => advance foldWorkerKey s answer
  | .concurrent key op =>
    { s with spools := Function.update s.spools key (op.apply (s.spools key)) }

/-! ## Refusals -/

/-- If the call has raised `SessionsPendingError`, it has changed nothing. -/
def NothingChanged (s : State) : Prop :=
  ∀ rootId pending, s.phase = .ended (.refused rootId pending) → s.changed = []

/-- What can make a record of the files pending: an append that completes a line, or a commit that
moves the offset back. -/
def Disturbs (spool : Spool) : Concurrent → Prop
  | .append bytes => newline ∈ bytes
  | .commit newOffset => newOffset < spool.committedOffset
  | _ => False

/-- The sessions whose check has begun and that are deleted after another one: those behind the
first of the loop and, once a file has been removed, the next of the loop too. -/
def State.waiting (s : State) : List String :=
  match s.phase with
  | .checking graph sid todo _ reading =>
    graph.order.tail.filter fun other => other ∉ todo ∧ (other = sid → reading ≠ .start)
  | .deleting _ sid todo _ => if s.changed = [] then todo else sid :: todo
  | _ => []

/-- The condition on one step: no record of a waiting session becomes pending, and no
`RuntimeError` comes from outside a delete once a file has been removed. -/
def Undisturbed (s : State) : Event → Prop
  | .advance answer =>
    answer = .runtimeError → ∀ graph sid todo cleaned, s.phase = .deleting graph sid todo cleaned →
      s.changed = []
  | .concurrent key op =>
    Disturbs (s.spools key) op → ∀ sid ∈ s.waiting, foldWorkerKey sid ≠ key

end Call

/-! ## What the check establishes -/

/-- What the reads of `pending_count` still say about the files: there is no complete line, or the
offset read is not above the committed one and the end read not below the end of the data. -/
def Reads (spool : Spool) : Reading → Prop
  | .start => True
  | .offset committed => newline ∉ spool.content ∨ committed ≤ spool.committedOffset
  | .stop committed completeEnd => newline ∉ spool.content
      ∨ (committed ≤ spool.committedOffset ∧ spool.completeDataEnd ≤ completeEnd)

theorem pendingCount_eq_count (spool : Spool) :
    spool.pendingCount = (spool.content.drop spool.committedOffset).count newline := by
  rw [Spool.pendingCount_eq, ← Spool.inQueue_eq]
  rfl

theorem pendingCount_of_notMem {spool : Spool} (h : newline ∉ spool.content) :
    spool.pendingCount = 0 := by
  rw [pendingCount_eq_count, List.count_eq_zero]
  exact fun hmem => h (List.mem_of_mem_drop hmem)

/-- A deletion of a drained log leaves the files alone or takes the log. -/
theorem deleteDrainedCut_log (cut : Option ℕ) (spool : Spool) :
    spool.deleteDrainedCut cut = spool ∨ newline ∉ (spool.deleteDrainedCut cut).content := by
  rcases Spool.deleteDrainedCut_cases cut spool with hsame | hgone
  · exact .inl hsame
  · exact .inr (by simp [Spool.content_of_log_none hgone.log])

section Files

variable {spool : Spool} {op : Concurrent}

theorem pendingCount_apply (hquiet : ¬ Disturbs spool op) (h : spool.pendingCount = 0) :
    (op.apply spool).pendingCount = 0 := by
  cases op with
  | append bytes =>
    rw [pendingCount_eq_count, List.count_eq_zero] at h ⊢
    simp only [Concurrent.apply, Spool.content_writeLog, Spool.committedOffset_writeLog,
      List.drop_append, List.mem_append, not_or]
    exact ⟨h, fun hmem => hquiet (List.mem_of_mem_drop hmem)⟩
  | commit newOffset =>
    rw [pendingCount_eq_count, List.count_eq_zero] at h ⊢
    have hle : spool.committedOffset ≤ newOffset := Nat.le_of_not_lt hquiet
    exact fun hmem => h ((List.drop_subset_drop_left _ hle) hmem)
  | deleteDrained cut =>
    rcases deleteDrainedCut_log cut spool with hsame | hgone
    · rwa [Concurrent.apply, hsame]
    · exact pendingCount_of_notMem hgone
  | deadLetter payload => exact h
  | deadLetterPartial done =>
    rw [pendingCount_eq_count] at h ⊢
    simpa [Concurrent.apply, Spool.content, Spool.committedOffset] using h

theorem reads_apply (hquiet : ¬ Disturbs spool op) {reading : Reading} (h : Reads spool reading) :
    Reads (op.apply spool) reading := by
  cases op with
  | append bytes =>
    have hend : (spool.writeLog bytes).completeDataEnd = spool.completeDataEnd := by
      rw [Spool.completeDataEnd, Spool.content_writeLog, completeEnd_append]
      exact completeEnd_of_scan_eq_nil (scan_of_not_mem hquiet _ _)
    have hmem : newline ∉ (spool.writeLog bytes).content ↔ newline ∉ spool.content := by
      rw [Spool.content_writeLog, List.mem_append, or_iff_left (show newline ∉ bytes from hquiet)]
    cases reading with
    | start => trivial
    | offset committed => exact h.imp_left hmem.2
    | stop committed completeEnd => exact h.imp hmem.2 fun hin => ⟨hin.1, hend.trans_le hin.2⟩
  | commit newOffset =>
    have hle : spool.committedOffset ≤ newOffset := Nat.le_of_not_lt hquiet
    cases reading with
    | start => trivial
    | offset committed => exact h.imp_right (·.trans hle)
    | stop committed completeEnd => exact h.imp_right fun hin => ⟨hin.1.trans hle, hin.2⟩
  | deleteDrained cut =>
    rcases deleteDrainedCut_log cut spool with hsame | hgone
    · rwa [Concurrent.apply, hsame]
    · cases reading with
      | start => trivial
      | offset | stop => exact .inl hgone
  | deadLetter payload => exact h
  | deadLetterPartial done =>
    cases reading <;> simp_all [Reads, Concurrent.apply, Spool.content, Spool.committedOffset,
      Spool.completeDataEnd]

/-- A check that counts no newline between its readings has found nothing pending. -/
theorem pendingCount_of_reads {committed completeEnd : ℕ}
    (h : Reads spool (.stop committed completeEnd))
    (hnone : spool.countNewlines committed completeEnd = 0) : spool.pendingCount = 0 := by
  rcases h with hno | ⟨hle, hend⟩
  · exact pendingCount_of_notMem hno
  · rw [Spool.countNewlines, List.count_eq_zero] at hnone
    rw [Spool.pendingCount, Spool.countNewlines, List.count_eq_zero]
    refine fun hmem => hnone (List.drop_subset_drop_left _ hle ?_)
    rw [← min_eq_left hend, ← List.take_take, List.drop_take] at hmem
    exact List.mem_of_mem_take hmem

end Files

/-! ## The invariant -/

/-- A call that has not begun to delete has changed nothing, nor has one that was refused; and the
waiting sessions have nothing pending, as far as the check has got. -/
def Inv (foldWorkerKey : String → String) (s : State) : Prop :=
  match s.phase with
  | .resolve | .guarding _ | .ended (.refused _ _) => s.changed = []
  | .checking graph sid todo pending reading => s.changed = []
      ∧ (pending = [] → ∀ other ∈ graph.order.tail, other ∉ sid :: todo →
        (s.spools (foldWorkerKey other)).pendingCount = 0)
      ∧ (sid ∈ graph.order.tail → sid ∉ todo → Reads (s.spools (foldWorkerKey sid)) reading)
  | .deleting _ _ _ _ => ∀ sid ∈ s.waiting, (s.spools (foldWorkerKey sid)).pendingCount = 0
  | _ => True

section Steps

variable {foldWorkerKey : String → String} {s : State} {graph : SessionGraph} {sid : String}
  {todo pending : List String} {reading : Reading} {cleaned : ℕ}

theorem Inv.nothingChanged (h : Inv foldWorkerKey s) : NothingChanged s := by
  intro rootId pending hphase
  simpa only [Inv, hphase] using h

theorem mem_waiting (hphase : s.phase = .deleting graph sid todo cleaned) (other : String) :
    (other ∈ s.waiting → other ∈ sid :: todo) ∧ (other ∈ todo → other ∈ s.waiting) := by
  simp only [State.waiting, hphase]
  split
  · exact ⟨List.mem_cons_of_mem _, id⟩
  · exact ⟨id, List.mem_cons_of_mem _⟩

theorem inv_concurrent (h : Inv foldWorkerKey s) {key : String} {op : Concurrent}
    (hundisturbed : Undisturbed foldWorkerKey s (.concurrent key op)) :
    Inv foldWorkerKey (step foldWorkerKey s (.concurrent key op)) := by
  -- a property that undisturbed files keep is kept by those of a waiting session
  have hkeep : ∀ sid ∈ s.waiting, ∀ P : Spool → Prop,
      (∀ spool, ¬ Disturbs spool op → P spool → P (op.apply spool)) →
      P (s.spools (foldWorkerKey sid)) →
        P (Function.update s.spools key (op.apply (s.spools key)) (foldWorkerKey sid)) := by
    intro sid hsid P hP hfiles
    by_cases hkey : foldWorkerKey sid = key
    · rw [hkey] at hfiles ⊢
      rw [Function.update_self]
      exact hP _ (fun hdisjoint => hundisturbed hdisjoint sid hsid hkey) hfiles
    · rwa [Function.update_of_ne hkey]
  unfold Inv at h ⊢
  unfold State.waiting at hkeep
  simp only [step]
  cases hphase : s.phase with
  | checking graph sid todo pending reading =>
    simp only [hphase, List.mem_filter, decide_eq_true_eq] at h hkeep ⊢
    refine ⟨h.1, fun hnone other hother hnot => ?_, fun hsid hnot => ?_⟩
    · obtain ⟨hne, hnot'⟩ := not_or.1 (mt List.mem_cons.2 hnot)
      exact hkeep other ⟨hother, hnot', fun heq => absurd heq hne⟩ _
        (fun _ => pendingCount_apply) (h.2.1 hnone other hother hnot)
    · cases reading with
      | start => trivial
      | offset | stop =>
        exact hkeep sid ⟨hsid, hnot, fun _ => nofun⟩ (Reads · _)
          (fun _ hquiet => reads_apply hquiet)
          (h.2.2 hsid hnot)
  | deleting graph sid todo cleaned =>
    simp only [hphase, State.waiting] at h hkeep ⊢
    exact fun other hother => hkeep other hother _ (fun _ => pendingCount_apply) (h other hother)
  | ended outcome =>
    rw [hphase] at h
    cases outcome <;> exact h
  | resolve | guarding | deletingGraph | deletingBlobs =>
    rw [hphase] at h
    exact h

theorem inv_checkNext (hchanged : s.changed = [])
    (h : pending = [] → ∀ other ∈ graph.order.tail, other ∉ todo →
      (s.spools (foldWorkerKey other)).pendingCount = 0) :
    Inv foldWorkerKey (checkNext s graph todo pending) := by
  unfold checkNext
  split
  · exact ⟨hchanged, h, fun _ _ => trivial⟩
  · split_ifs with hpending
    · exact hchanged
    · split
      next sid rest horder =>
        intro other hother
        simp only [State.waiting, State.goto, hchanged, if_true] at hother
        exact h (not_not.1 hpending) other (by rwa [horder]) List.not_mem_nil
      next => trivial

theorem inv_checkStep (hphase : s.phase = .checking graph sid todo pending reading)
    (h : Inv foldWorkerKey s) (answer : Answer) :
    Inv foldWorkerKey
      (checkStep s (s.spools (foldWorkerKey sid)) graph sid todo pending reading answer) := by
  simp only [Inv, hphase] at h
  obtain ⟨hchanged, hvetted, hreads⟩ := h
  unfold checkStep
  split
  next => exact ⟨hchanged, hvetted, fun _ _ => .inr le_rfl⟩
  next committed =>
    exact ⟨hchanged, hvetted, fun hsid hnot => (hreads hsid hnot).imp_right fun hle =>
      ⟨hle, le_rfl⟩⟩
  next committed completeEnd =>
    refine inv_checkNext hchanged fun hnone other hother hnot => ?_
    split_ifs at hnone with hcount
    · exact absurd hnone (List.append_ne_nil_of_right_ne_nil _ (List.cons_ne_nil _ _))
    · by_cases heq : other = sid
      · subst heq
        exact pendingCount_of_reads (hreads hother hnot) (Nat.eq_zero_of_not_pos hcount)
      · exact hvetted hnone other hother (not_or.2 ⟨heq, hnot⟩ ∘ List.mem_cons.1)
  next => trivial

/-- A delete of the loop refuses before any file is removed, or not at all. -/
theorem inv_deleteStep (hphase : s.phase = .deleting graph sid todo cleaned)
    (h : Inv foldWorkerKey s) {answer : Answer}
    (hundisturbed : Undisturbed foldWorkerKey s (.advance answer)) :
    Inv foldWorkerKey (deleteStep s (foldWorkerKey sid) graph sid todo cleaned answer) := by
  simp only [Inv, hphase] at h
  have hrefuse (hpending : (s.spools (foldWorkerKey sid)).pendingCount ≠ 0) : s.changed = [] := by
    by_contra hchanged
    exact hpending (h sid (by simp [State.waiting, hphase, hchanged]))
  unfold deleteStep
  cases answer with
  | runtimeError => exact hundisturbed rfl graph sid todo cleaned hphase
  | done =>
    by_cases hpending : (s.spools (foldWorkerKey sid)).pendingCount ≠ 0
    · simp only [if_pos hpending]
      exact hrefuse hpending
    · simp only [if_neg hpending]
      cases todo with
      | nil => trivial
      | cons next rest =>
        intro other hother
        have hmem : other ∈ next :: rest := (mem_waiting rfl other).1 hother
        simp only [deleteNext, State.goto, State.leaveSpool]
        by_cases hkey : foldWorkerKey other = foldWorkerKey sid
        · rw [hkey, Function.update_self]
          rfl
        · rw [Function.update_of_ne hkey]
          exact h other ((mem_waiting hphase other).2 hmem)
  | raised unlinks owned blobs =>
    by_cases hpending : (s.spools (foldWorkerKey sid)).pendingCount ≠ 0
    · simp only [if_pos hpending]
      exact hrefuse hpending
    · simp only [if_neg hpending]
      trivial
  | resolved | nodes | vanished => trivial

theorem inv_step (s : State) (e : Event) (h : Inv foldWorkerKey s)
    (hundisturbed : Undisturbed foldWorkerKey s e) :
      Inv foldWorkerKey (step foldWorkerKey s e) := by
  cases e with
  | concurrent key op => exact inv_concurrent h hundisturbed
  | advance answer =>
    simp only [step, advance]
    split
    next hphase =>
      simp only [Inv, hphase] at h
      split <;> first | exact h | trivial
    next graph hphase =>
      simp only [Inv, hphase] at h
      split
      · refine inv_checkNext h fun _ other hother hnot => absurd ?_ hnot
        exact graph.order_perm.mem_iff.1 (List.mem_of_mem_tail hother)
      · trivial
    next graph sid todo pending reading hphase => exact inv_checkStep hphase h answer
    next graph sid todo cleaned hphase => exact inv_deleteStep hphase h hundisturbed
    next graph cleaned hphase =>
      split
      · cases graph.order <;> trivial
      · trivial
      · trivial
    next graph sid todo cleaned nodes blobs hphase =>
      split
      · cases todo <;> trivial
      · trivial
      · trivial
    next outcome hphase => exact h

end Steps

/-- Over every interleaving in which no waiting session gets a pending record and no `RuntimeError`
comes from outside after a file was removed: a call that was refused has changed nothing. -/
theorem nothingChanged_of_undisturbed (foldWorkerKey : String → String) (spools : String → Spool)
    (nodes : List String) (blobs : String → List String) (events : List Event)
    (h : Along (step foldWorkerKey) (Undisturbed foldWorkerKey) (State.called spools nodes blobs)
      events) :
    Always (step foldWorkerKey) NothingChanged (State.called spools nodes blobs) events := by
  exact h.map_of_invariant inv_step (fun s e hs he => (inv_step s e hs he).nothingChanged) rfl

/-! ## An append between two deletes -/

def drainedSpools (key : String) : Spool :=
  if key = "a" ∨ key = "b" then ⟨some [97, 10], some 2, none⟩ else Spool.empty

def twoSessions : SessionGraph := ⟨"a", ["a", "b"], ["a", "b"], List.Perm.refl _⟩

/-- Both sessions pass the check; the first is deleted, then bytes arrive for the second. -/
def appendBetweenDeletes (bytes : Bytes) : List Event :=
  [.advance (.resolved (some twoSessions)), .advance .done,
    .advance .done, .advance .done, .advance .done,
    .advance .done, .advance .done, .advance .done,
    .advance .done, .concurrent "b" (.append bytes), .advance .done]

theorem appendBetweenDeletes_changes :
    ¬ Always (step id) NothingChanged (State.called drainedSpools ["a", "b"] fun _ => [])
      (appendBetweenDeletes [98, 10]) := by
  intro h
  have hend := h.run_of_ne_nil (by simp [appendBetweenDeletes])
  have href : (run (step id) (State.called drainedSpools ["a", "b"] fun _ => [])
      (appendBetweenDeletes [98, 10])).phase = .ended (.refused "a" ["b"]) := by
    rfl
  have hchange := hend "a" ["b"] href
  revert hchange
  decide

/-- The bytes of an unfinished record do not disturb the call. -/
theorem nothingChanged_of_undisturbed_partial :
    Always (step id) NothingChanged (State.called drainedSpools ["a", "b"] fun _ => [])
      (appendBetweenDeletes [98]) := by
  apply nothingChanged_of_undisturbed
  simp only [appendBetweenDeletes, Along, Undisturbed, Disturbs]
  exact ⟨nofun, nofun, nofun, nofun, nofun, nofun, nofun, nofun, nofun,
    fun hline => absurd hline (by decide), nofun, trivial⟩

end ContextIntelligence.Deletion
