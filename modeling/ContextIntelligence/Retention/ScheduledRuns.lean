import ContextIntelligence.Lib.Runs
import ContextIntelligence.Retention.Scheduler

/-!
# What the scheduled client does against any server

Every item of the trace was allowed by the items before it (`History`): `start` goes out once,
outside a dry run, for the job that was created and observed ready; `cancel` for that job only; and
what is returned agrees with what was observed. A signal that ends the cleanup of a dry run must not
do so before the cancellation has gone out (`Undisturbed`).
-/

namespace ContextIntelligence.Retention

open Lib.Runs ContextIntelligence.Graph

/-! ## Histories -/

def lastObserved : List Item → Option (String × Job)
  | [] => none
  | .observed id job :: _ => some (id, job)
  | _ :: older => lastObserved older

def Job.ReadyClean (job : Job) : Prop :=
  job.state = "ready" ∧ job.confirmed = false ∧ job.hasError = false
    ∧ job.counts.of "errors" = 0 ∧ job.counts.of "changed" = 0

def Job.CompletedClean (job : Job) : Prop :=
  job.state = "completed" ∧ job.confirmed ∧ job.counts.of "errors" = 0 ∧ job.counts.of "changed" = 0

/-- The newest observation is that of the created job, completed and clean. -/
def Succeeded (trace : List Item) : Prop :=
  ∃ id job, .created id ∈ trace ∧ lastObserved trace = some (id, job) ∧ job.CompletedClean

def Allowed (cfg : Config) (older : List Item) : Item → Prop
  | .sent (.start id) =>
    cfg.dryRun = false ∧ (∀ other, Item.sent (.start other) ∉ older) ∧ Item.created id ∈ older
      ∧ ∃ job, .observed id job ∈ older ∧ job.ReadyClean
  | .sent (.cancel id) => Item.created id ∈ older
  | .created _ => ∀ other, Item.created other ∉ older
  | .returned result =>
    (result.exitCode = 0 → result.outcome = .completed → Succeeded older)
      ∧ (result.exitCode ≠ 0 → ∀ id, Item.created id ∈ older →
        Item.sent (.cancel id) ∈ older ∨ Item.budgetOut ∈ older)
  | _ => True

def History (cfg : Config) : List Item → Prop
  | [] => True
  | item :: older => Allowed cfg older item ∧ History cfg older

/-- The cleanup of a dry run is not hit by a signal outside its guarded part before the cancellation
has gone out. -/
def Undisturbed (s : State) (r : Reaction) : Prop :=
  match s.phase with
  | .cleanup true .loop _ _ | .cleanup true (.handler _) _ _ =>
    r.isSignal → ∀ owner ∈ s.owned, Item.sent (.cancel owner.id) ∈ s.trace
  | _ => True

instance (s : State) (r : Reaction) : Decidable (Undisturbed s r) := by
  unfold Undisturbed
  split <;> infer_instance

/-! ## The invariant -/

section Invariant

variable {cfg : Config} {s : State} {result : Result} {owned : Option Identity} {trace : List Item}

/-- The trace is a history, and its one job is the one that is owned. -/
structure Base (cfg : Config) (owned : Option Identity) (trace : List Item) : Prop where
  history : History cfg trace
  created : ∀ id, Item.created id ∈ trace ↔ owned.map Identity.id = some id

def NoStart (trace : List Item) : Prop := ∀ id, Item.sent (.start id) ∉ trace

def CancelSent (owned : Option Identity) (trace : List Item) : Prop :=
  ∀ owner ∈ owned, Item.sent (.cancel owner.id) ∈ trace

/-- A cleanup that is over has sent the cancellation, or its time was over. -/
def Settled (result : Result) (owned : Option Identity) (trace : List Item) : Prop :=
  result.cleanupState ≠ .notRequested → CancelSent owned trace ∨ Item.budgetOut ∈ trace

structure Fresh (result : Result) : Prop where
  exitCode : result.exitCode ≠ 0
  cleanupState : result.cleanupState = .notRequested

theorem Fresh.settled (h : Fresh result) : Settled result owned trace :=
  fun hne => absurd h.cleanupState hne

/-- The local variable `job` is what was observed last. -/
def Current (owned : Option Identity) (job : Job) (trace : List Item) : Prop :=
  ∃ owner, owned = some owner ∧ lastObserved trace = some (owner.id, job)

def Honest (result : Result) (trace : List Item) : Prop :=
  result.exitCode = 0 → result.outcome = .completed → Succeeded trace

structure CleanupOk (stage : Stage) (job : Option Job) (s : State) : Prop where
  owned : s.owned.isSome
  exitCode : s.result.exitCode ≠ 0
  opening : stage = .opening → s.result.cleanupState = .notRequested
  requested : stage ≠ .opening → s.result.cleanupState ≠ .notRequested
  sent : stage ∈ [.lost, .remaining, .pause, .poll] ∨ job.isSome → CancelSent s.owned s.trace

def PhaseOk (cfg : Config) (s : State) : Prop :=
  match s.phase with
  | .arguments | .current | .preview => Fresh s.result ∧ NoStart s.trace ∧ s.owned = none
  | .previewCheck => Fresh s.result ∧ NoStart s.trace ∧ Current s.owned s.job s.trace
  | .previewPause | .previewPoll => Fresh s.result ∧ NoStart s.trace
  | .start => Fresh s.result ∧ NoStart s.trace ∧ cfg.dryRun = false
      ∧ ∃ owner job, s.owned = some owner ∧ Item.observed owner.id job ∈ s.trace ∧ job.ReadyClean
  | .startLost | .applyPause | .applyPoll => Fresh s.result
  | .applyCheck => Fresh s.result ∧ Current s.owned s.job s.trace ∧ s.result.counts = s.job.counts
  | .leaving => Settled s.result s.owned s.trace ∧ Honest s.result s.trace
  | .handling _ => Settled s.result s.owned s.trace ∧ s.result.exitCode ≠ 0
  | .cleanup _ stage job _ => CleanupOk stage job s
  | .done => True

structure Inv (cfg : Config) (s : State) : Prop where
  base : Base cfg s.owned s.trace
  phase : PhaseOk cfg s

/-! ### Logging -/

theorem Base.log (h : Base cfg owned trace) {item : Item} (hall : Allowed cfg trace item)
    (hcreated : ∀ id, item ≠ .created id) : Base cfg owned (item :: trace) where
  history := ⟨hall, h.history⟩
  created id := by
    rw [← h.created id, List.mem_cons]
    exact or_iff_right fun heq => hcreated id heq.symm

theorem Base.created_mem {owner : Identity} (h : Base cfg (some owner) trace) :
    Item.created owner.id ∈ trace := (h.created owner.id).2 rfl

theorem base_own (h : Base cfg none trace) (id : Identity) :
    Base cfg (some id) (.created id.id :: trace) where
  history := by
    refine ⟨fun other hother => ?_, h.history⟩
    exact absurd ((h.created other).1 hother) (by simp)
  created other := by
    rw [List.mem_cons, h.created other]
    simp [eq_comm]

theorem NoStart.log (h : NoStart trace) {item : Item} (hitem : ∀ id, item ≠ .sent (.start id)) :
    NoStart (item :: trace) := fun id hmem => by
  rcases List.mem_cons.1 hmem with heq | hold
  · exact hitem id heq.symm
  · exact h id hold

theorem CancelSent.log (h : CancelSent owned trace) (item : Item) :
    CancelSent owned (item :: trace) :=
  fun owner howner => List.mem_cons_of_mem item (h owner howner)

theorem request_cases (s : State) (sent : Sent) (r : Reaction) :
    (request s sent r).1 = s ∨ (request s sent r).1 = s.log (.sent sent) := by
  unfold request
  cases r.call.1 with
  | true => exact .inr rfl
  | false => exact .inl rfl

theorem request_frame {P : State → Prop} (sent : Sent) (s : State) (r : Reaction) (h : P s)
    (hlog : P (s.log (.sent sent))) : P (request s sent r).1 := by
  rcases request_cases s sent r with heq | heq
  · rwa [heq]
  · rwa [heq]

theorem observe_ok {reply : Json} {s' : State} {job : Job}
    (h : observe cfg s reply = .ok (s', job)) :
    ∃ owner, s.owned = some owner
      ∧ s' = { s with
          result := { s.result with
            state := some job.state, counts := job.counts, confirmed := job.confirmed }
          trace := .observed owner.id job :: s.trace } := by
  unfold observe at h
  split at h
  · cases h
  · next owner _ =>
      split at h
      · cases h
      · next howned =>
          split at h
          · cases h
          · split at h
            · cases h
            · cases h
              exact ⟨owner, (not_not.1 howned).symm, rfl⟩

theorem readyClean_of_cleanPreview {job : Job} {now : ℤ} (h : cleanPreview job now = none)
    (hready : job.state = "ready") : job.ReadyClean := by
  unfold cleanPreview at h
  split at h
  · cases h
  · next hconf =>
      split at h
      · cases h
      · next hclean =>
          simp only [not_or, Bool.not_eq_true, not_not, ne_eq] at hconf hclean
          exact ⟨hready, hconf, hclean.1, hclean.2.1, hclean.2.2⟩

theorem mem_of_lastObserved {id : String} {job : Job} (h : lastObserved trace = some (id, job)) :
    Item.observed id job ∈ trace := by
  induction trace with
  | nil => cases h
  | cons item older ih =>
    cases item with
    | observed id' job' =>
      cases h
      exact List.mem_cons_self
    | _ => exact List.mem_cons_of_mem _ (ih h)

/-! ### The end of the function -/

theorem allowed_returned (h : Base cfg owned trace) (hsettle : Settled result owned trace)
    (hreq : result.exitCode ≠ 0 → owned.isSome → result.cleanupState ≠ .notRequested)
    (hhonest : Honest result trace) : Allowed cfg trace (.returned result) := by
  refine ⟨hhonest, ?_⟩
  intro hfail id hid
  obtain ⟨owner, rfl, rfl⟩ := Option.map_eq_some_iff.1 ((h.created id).1 hid)
  exact (hsettle (hreq hfail rfl)).imp_left fun hsent => hsent owner rfl

theorem signalCode_ne (sig : Signal) : State.signalCode sig ≠ 0 := by
  cases sig <;> decide

theorem honest_of_ne (h : result.exitCode ≠ 0) : Honest result trace := fun hzero => absurd hzero h

section Leaving

variable (h : Base cfg s.owned s.trace) (hsettle : Settled s.result s.owned s.trace)
include h hsettle

theorem inv_finish
    (hreq : s.result.exitCode ≠ 0 → s.owned.isSome → s.result.cleanupState ≠ .notRequested)
    (hhonest : Honest s.result s.trace) : Inv cfg s.finish := by
  have hall : ∀ result, (result = { s.result with outcome := .cancelUnconfirmed }
      ∨ result = s.result) → Allowed cfg s.trace (.returned result) := by
    rintro result (rfl | rfl)
    · exact allowed_returned h hsettle hreq fun _ hcomp => (nomatch hcomp)
    · exact allowed_returned h hsettle hreq hhonest
  have hres : ∀ c : Prop, ∀ _ : Decidable c, Allowed cfg s.trace (.returned
      (if c then { s.result with outcome := .cancelUnconfirmed } else s.result)) := by
    intro c _
    split
    · exact hall _ (.inl rfl)
    · exact hall _ (.inr rfl)
  unfold State.finish
  cases hescape : s.escaping with
  | true => exact ⟨h, trivial⟩
  | false => exact ⟨h.log (hres _ _) (fun _ => by simp), trivial⟩

theorem inv_finallyBlock (hhonest : Honest s.result s.trace) : Inv cfg s.finallyBlock := by
  unfold State.finallyBlock
  split
  · next hends =>
      exact ⟨h, ⟨hends.2.1, hends.1, fun _ => hends.2.2, fun hne => absurd rfl hne,
        fun hsent => by simp at hsent⟩⟩
  · next hends =>
      refine inv_finish h hsettle (fun hexit howned hnot => ?_) hhonest
      exact hends ⟨hexit, howned, hnot⟩

theorem inv_raise_signal (sig : Signal) : Inv cfg (s.raise (.signal sig)) :=
  inv_finallyBlock h hsettle (honest_of_ne (signalCode_ne sig))

theorem inv_raise (hexit : s.result.exitCode ≠ 0) (exn : Exn) : Inv cfg (s.raise exn) := by
  cases exn with
  | signal sig => exact inv_raise_signal h hsettle sig
  | badValue => exact inv_finallyBlock h hsettle (honest_of_ne hexit)
  | client status => exact ⟨h, hsettle, hexit⟩
  | problem code => exact ⟨h, hsettle, hexit⟩
  | other => exact ⟨h, hsettle, hexit⟩

theorem inv_leaving (hhonest : Honest s.result s.trace) (r : Reaction) :
    Inv cfg (leavingStep s r) := by
  unfold leavingStep
  split
  · exact inv_raise_signal h hsettle _
  · exact inv_finallyBlock h hsettle hhonest

theorem inv_handling (hexit : s.result.exitCode ≠ 0) (exn : Exn) (r : Reaction) :
    Inv cfg (handlingStep s exn r) := by
  unfold handlingStep
  split <;> exact inv_finallyBlock h hsettle (honest_of_ne hexit)

end Leaving

/-! ### Before the job is owned -/

section Fresh

variable (h : Base cfg s.owned s.trace) (hfresh : Fresh s.result) (r : Reaction)
include h hfresh

theorem inv_raise_fresh (exn : Exn) : Inv cfg (s.raise exn) :=
  inv_raise h hfresh.settled hfresh.exitCode exn

theorem inv_skipBusy : Inv cfg (skipBusy s) :=
  ⟨h, hfresh.settled, fun _ hcomp => (nomatch hcomp)⟩

section Unowned

variable (hnone : NoStart s.trace) (howned : s.owned = none)
include hnone howned

theorem request_unowned (sent : Sent) (hall : Allowed cfg s.trace (.sent sent))
    (hstart : ∀ id, sent ≠ .start id) :
    let s' := (request s sent r).1
    Base cfg s'.owned s'.trace ∧ Fresh s'.result ∧ NoStart s'.trace ∧ s'.owned = none := by
  intro s'
  rcases request_cases s sent r with heq | heq <;> simp only [s', heq]
  · exact ⟨h, hfresh, hnone, howned⟩
  · exact ⟨h.log hall (fun _ => by simp), hfresh, hnone.log fun id => by simpa using hstart id,
      howned⟩

theorem inv_arguments : Inv cfg (argumentsStep cfg s r) := by
  unfold argumentsStep
  split
  · exact inv_raise_fresh h hfresh _
  · split
    · exact ⟨h, hfresh, hnone, howned⟩
    · exact inv_raise_fresh h hfresh _

theorem inv_current : Inv cfg (currentStep cfg s r) := by
  have hrequest := request_unowned h hfresh r hnone howned (.status none) trivial nofun
  unfold currentStep
  generalize request s (.status none) r = answer at hrequest
  obtain ⟨s', reply⟩ := answer
  obtain ⟨h', hfresh', hnone', howned'⟩ := hrequest
  dsimp only at h' hfresh' hnone' howned' ⊢
  have hraise := inv_raise_fresh h' hfresh'
  split
  · split
    · exact ⟨h', hfresh', hnone', howned'⟩
    · exact hraise _
  · exact hraise _
  · split
    · exact hraise _
    · split
      · exact hraise _
      · split
        · exact inv_skipBusy h' hfresh'
        · exact ⟨h', hfresh', hnone', howned'⟩

theorem inv_preview : Inv cfg (previewStep cfg s r) := by
  -- whether or not the request went out, the result is fresh and nothing is owned
  have hrequest := request_unowned h hfresh r hnone howned (.preview cfg.olderThan) trivial nofun
  unfold previewStep
  generalize request s (.preview cfg.olderThan) r = answer at hrequest
  obtain ⟨s', reply⟩ := answer
  obtain ⟨h', hfresh', hnone', howned'⟩ := hrequest
  dsimp only at h' hfresh' hnone' howned' ⊢
  have hraise := inv_raise_fresh h' hfresh'
  split
  · split
    · exact inv_skipBusy h' hfresh'
    · exact hraise _
  · exact hraise _
  · split
    · exact hraise _
    · next id _ =>
        split
        · exact hraise _
        · split
          · exact hraise _
          · have hbase : Base cfg (own s' id).owned (own s' id).trace := by
              rw [howned'] at h'
              exact base_own h' id
            have hown : Fresh (own s' id).result := ⟨hfresh'.exitCode, hfresh'.cleanupState⟩
            have hstart : NoStart (own s' id).trace := hnone'.log (fun _ => by simp)
            split
            · exact inv_raise_fresh hbase hown _
            · next s'' job hobserve =>
                obtain ⟨owner, howner, rfl⟩ := observe_ok hobserve
                refine ⟨hbase.log trivial (fun _ => by simp), ⟨hown.exitCode, hown.cleanupState⟩,
                  hstart.log (fun _ => by simp), owner, howner, rfl⟩

end Unowned

/-! ### Watching the job -/

theorem inv_pause {next : Phase} (hnext : PhaseOk cfg (s.goto next)) :
    Inv cfg (pauseStep next s r) := by
  unfold pauseStep
  split
  · exact inv_raise_fresh h hfresh _
  · exact ⟨h, hnext⟩

theorem inv_poll {next : Phase} (hphase : Inv cfg s)
    (hnext : ∀ s' : State, Fresh s'.result → Current s'.owned s'.job s'.trace →
      s'.result.counts = s'.job.counts → (NoStart s.trace → NoStart s'.trace) →
      PhaseOk cfg (s'.goto next)) : Inv cfg (pollStep cfg next s r) := by
  unfold pollStep
  cases howned : s.owned with
  | none => exact hphase
  | some owner =>
    have hrequest := request_frame (P := fun s' => Base cfg s'.owned s'.trace ∧ Fresh s'.result
        ∧ (NoStart s.trace → NoStart s'.trace)) (.status (some owner.id)) s r ⟨h, hfresh, id⟩
      ⟨h.log trivial (fun _ => by simp), hfresh, fun hn => hn.log (fun _ => by simp)⟩
    dsimp only
    generalize request s (.status (some owner.id)) r = answer at hrequest
    obtain ⟨s', reply⟩ := answer
    obtain ⟨h', hfresh', hnone'⟩ := hrequest
    dsimp only at h' hfresh' hnone' ⊢
    have hraise := inv_raise_fresh h' hfresh'
    split
    · exact hraise _
    · split
      · exact hraise _
      · next s'' job hobserve =>
          obtain ⟨owner', howner', rfl⟩ := observe_ok hobserve
          refine ⟨h'.log trivial (fun _ => by simp), hnext _ ⟨hfresh'.exitCode,
            hfresh'.cleanupState⟩ ⟨owner', howner', rfl⟩ rfl ?_⟩
          exact fun hn => (hnone' hn).log (fun _ => by simp)

theorem inv_previewCheck (hnone : NoStart s.trace) (hcurr : Current s.owned s.job s.trace) :
    Inv cfg (previewCheckStep cfg s r) := by
  obtain ⟨owner, howner, hlast⟩ := hcurr
  unfold previewCheckStep
  split
  · exact inv_raise_fresh h hfresh _
  · split
    · exact inv_raise_fresh h hfresh _
    · next hclean =>
        split
        · next hready =>
            have hjob := readyClean_of_cleanPreview hclean hready
            split
            · exact ⟨h, ⟨by simp [State.goto, howner], hfresh.exitCode,
                fun _ => hfresh.cleanupState,
                fun hne => absurd rfl hne, fun hsent => by simp at hsent⟩⟩
            · next hdry =>
                exact ⟨h, hfresh, hnone, by simpa using hdry, owner, s.job, howner,
                  mem_of_lastObserved hlast, hjob⟩
        · exact ⟨h, hfresh, hnone⟩

theorem inv_start (hnone : NoStart s.trace) (hdry : cfg.dryRun = false)
    (hready : ∃ owner job, s.owned = some owner ∧ Item.observed owner.id job ∈ s.trace
      ∧ job.ReadyClean) : Inv cfg (startStep cfg s r) := by
  obtain ⟨owner, job, howner, hobserved, hjob⟩ := hready
  unfold startStep
  simp only [howner]
  have hcreated : Item.created owner.id ∈ s.trace := by
    rw [howner] at h
    exact h.created_mem
  have hrequest := request_frame (P := fun s' => Base cfg s'.owned s'.trace ∧ Fresh s'.result)
    (.start owner.id) s r ⟨h, hfresh⟩
    ⟨h.log ⟨hdry, hnone, hcreated, job, hobserved, hjob⟩ (fun _ => by simp), hfresh⟩
  generalize request s (.start owner.id) r = answer at hrequest
  obtain ⟨s', reply⟩ := answer
  obtain ⟨h', hfresh'⟩ := hrequest
  dsimp only at h' hfresh' ⊢
  split
  · exact ⟨h', hfresh'⟩
  · exact inv_raise_fresh h' hfresh' _
  · split
    · exact inv_raise_fresh h' hfresh' _
    · next s'' job' hobserve =>
        obtain ⟨owner', howner', rfl⟩ := observe_ok hobserve
        exact ⟨h'.log trivial (fun _ => by simp), ⟨hfresh'.exitCode, hfresh'.cleanupState⟩,
          ⟨owner', howner', rfl⟩, rfl⟩

theorem inv_applyCheck (hcurr : Current s.owned s.job s.trace)
    (hcounts : s.result.counts = s.job.counts) : Inv cfg (applyCheckStep s r) := by
  obtain ⟨owner, howner, hlast⟩ := hcurr
  have hraise := inv_raise_fresh h hfresh
  unfold applyCheckStep
  split
  · exact hraise _
  · split
    · exact hraise _
    · split
      · exact hraise _
      · next hstate =>
          split
          · next hcomp =>
              split
              · exact hraise _
              · next hclean =>
                  simp only [not_or, not_not, ne_eq] at hclean hstate
                  rw [hcounts] at hclean
                  refine ⟨h, hfresh.settled, fun _ _ => ?_⟩
                  refine ⟨owner.id, s.job, ?_, hlast, hcomp, hstate.1, hclean.1, hclean.2⟩
                  rw [howner] at h
                  exact h.created_mem
          · exact ⟨h, hfresh⟩

end Fresh

/-! ### The cleanup -/

theorem inv_leaveCleanup {fromDryRun : Bool} (h : Base cfg s.owned s.trace)
    (hsettle : fromDryRun → Settled s.result s.owned s.trace) (sig : Signal) :
    Inv cfg (leaveCleanup fromDryRun (.signal sig) s) := by
  unfold leaveCleanup
  cases fromDryRun with
  | true => exact inv_raise_signal h (hsettle rfl) sig
  | false => exact ⟨h, trivial⟩

theorem inv_returnCleanup {fromDryRun confirmed : Bool} (h : Base cfg s.owned s.trace)
    (hexit : s.result.exitCode ≠ 0) (hreq : s.result.cleanupState ≠ .notRequested)
    (hattempt : CancelSent s.owned s.trace ∨ Item.budgetOut ∈ s.trace) :
    Inv cfg (returnCleanup fromDryRun confirmed s) := by
  have hsettle : Settled s.result s.owned s.trace := fun _ => hattempt
  unfold returnCleanup
  split
  · split
    · exact inv_raise h hsettle hexit _
    · split
      · exact inv_raise h hsettle hexit _
      · dsimp only
        split
        · exact ⟨h, hsettle, honest_of_ne hexit⟩
        · exact ⟨h, fun _ => hattempt, fun _ hcomp => (nomatch hcomp)⟩
  · split
    · exact inv_finish h hsettle (fun _ _ => hreq) (honest_of_ne hexit)
    · exact inv_finish h (fun _ => hattempt) (fun _ _ => hreq) (honest_of_ne hexit)

section Cleanup

variable {fromDryRun acknowledged : Bool} {stage : Stage} {job : Option Job}

theorem inv_gotoCleanup {t : State} {stage' : Stage} {job' : Option Job} {acknowledged' : Bool}
    (h : Base cfg t.owned t.trace) (howned : t.owned.isSome) (hexit : t.result.exitCode ≠ 0)
    (hreq : t.result.cleanupState ≠ .notRequested) (hstage : stage' ≠ .opening)
    (hsent : stage' ∈ [.lost, .remaining, .pause, .poll] ∨ job'.isSome →
      CancelSent t.owned t.trace) :
    Inv cfg (t.goto (.cleanup fromDryRun stage' job' acknowledged')) :=
  ⟨h, ⟨howned, hexit, fun heq => absurd heq hstage, fun _ => hreq, hsent⟩⟩

theorem inv_catchCleanup (h : Base cfg s.owned s.trace) (howned : s.owned.isSome)
    (hexit : s.result.exitCode ≠ 0) (hreq : s.result.cleanupState ≠ .notRequested)
    (hjob : job.isSome → CancelSent s.owned s.trace) {exn : Exn}
    (hsent : (∃ sig, exn = .signal sig) ∨ CancelSent s.owned s.trace) :
    Inv cfg (catchCleanup fromDryRun job acknowledged s exn) := by
  have hret : (∀ sig, exn ≠ .signal sig) → Inv cfg (returnCleanup fromDryRun false s) := by
    intro hno
    refine inv_returnCleanup h hexit hreq (.inl (hsent.resolve_left ?_))
    rintro ⟨sig, heq⟩
    exact hno sig heq
  cases exn with
  | signal sig =>
    refine inv_gotoCleanup h howned hexit hreq (by simp) fun hor => ?_
    simp only [List.mem_cons, reduceCtorEq, List.not_mem_nil, or_self, false_or] at hor
    exact hjob hor
  | badValue => exact hret fun _ => by simp
  | client status => exact hret fun _ => by simp
  | problem code => exact hret fun _ => by simp
  | other => exact hret fun _ => by simp

theorem inv_lookCleanup {owner : Identity} {next : Stage} (h : Base cfg s.owned s.trace)
    (hok : CleanupOk stage job s) (hstage : stage ≠ .opening)
    (hsent : CancelSent s.owned s.trace) (hnext : next ≠ .opening) (r : Reaction) :
    Inv cfg (match (request s (.status (some owner.id)) r).2 with
      | .error exn => catchCleanup fromDryRun job acknowledged
          (request s (.status (some owner.id)) r).1 exn
      | .ok reply =>
        match observe cfg (request s (.status (some owner.id)) r).1 reply with
        | .error exn => catchCleanup fromDryRun job acknowledged
            (request s (.status (some owner.id)) r).1 exn
        | .ok (s', job') => s'.goto (.cleanup fromDryRun next (some job') acknowledged)) := by
  have hrequest := request_frame (P := fun s' => Base cfg s'.owned s'.trace ∧ s'.owned.isSome
      ∧ s'.result.exitCode ≠ 0 ∧ s'.result.cleanupState ≠ .notRequested
      ∧ CancelSent s'.owned s'.trace) (.status (some owner.id)) s r
    ⟨h, hok.owned, hok.exitCode, hok.requested hstage, hsent⟩
    ⟨h.log trivial (fun _ => by simp), hok.owned, hok.exitCode, hok.requested hstage, hsent.log _⟩
  generalize request s (.status (some owner.id)) r = answer at hrequest
  obtain ⟨s', reply⟩ := answer
  obtain ⟨h', howned', hexit', hreq', hsent'⟩ := hrequest
  dsimp only at h' howned' hexit' hreq' hsent' ⊢
  split
  · exact inv_catchCleanup h' howned' hexit' hreq' (fun _ => hsent') (.inr hsent')
  · split
    · exact inv_catchCleanup h' howned' hexit' hreq' (fun _ => hsent') (.inr hsent')
    · next s'' job' hobserve =>
        obtain ⟨owner', howner', rfl⟩ := observe_ok hobserve
        exact inv_gotoCleanup (h'.log trivial (fun _ => by simp)) howned' hexit' hreq' hnext
          (fun _ => hsent'.log _)

theorem inv_cancelCleanup {owner : Identity} (howner : s.owned = some owner)
    (h : Base cfg s.owned s.trace) (hok : CleanupOk .cancel job s) (r : Reaction) :
    Inv cfg (cleanupStep cfg s fromDryRun .cancel job acknowledged r) := by
  have hreq := hok.requested (by simp)
  have hlog : Base cfg s.owned (.sent (.cancel owner.id) :: s.trace) := by
    refine h.log ?_ (fun _ => by simp)
    rw [howner] at h
    exact h.created_mem
  have hsent : CancelSent s.owned (.sent (.cancel owner.id) :: s.trace) := by
    intro owner' howner'
    rw [howner] at howner'
    cases howner'
    exact List.mem_cons_self
  have hjob : job.isSome → CancelSent s.owned s.trace := fun hsome => hok.sent (.inr hsome)
  -- whatever goes wrong behind the request, it has gone out
  have hcatch : ∀ exn, Inv cfg (catchCleanup fromDryRun job acknowledged
      (s.log (.sent (.cancel owner.id))) exn) := fun exn =>
    inv_catchCleanup (s := s.log _) hlog hok.owned hok.exitCode hreq (fun _ => hsent)
      (.inr hsent)
  simp only [cleanupStep, howner, request]
  cases r with
  | signal sig sent =>
    -- a signal may come before or after the request went out
    cases sent with
    | true => exact hcatch _
    | false => exact inv_catchCleanup h hok.owned hok.exitCode hreq hjob (.inl ⟨sig, rfl⟩)
  | expired =>
    exact inv_returnCleanup (s := s.log .budgetOut) (h.log trivial (fun _ => by simp)) hok.exitCode
      hreq (.inr List.mem_cons_self)
  | inTime now => exact hcatch _
  | badValue => exact hcatch _
  | otherError => exact hcatch _
  | clientError status =>
    exact inv_gotoCleanup (t := s.log _) hlog hok.owned hok.exitCode hreq (by simp)
      (fun _ => hsent)
  | reply reply =>
    simp only [Reaction.call, if_true]
    split
    · exact hcatch _
    · next s'' job' hobserve =>
        obtain ⟨owner', howner', rfl⟩ := observe_ok hobserve
        exact inv_gotoCleanup (hlog.log trivial (fun _ => by simp)) hok.owned hok.exitCode
          hreq (by simp) (fun _ => hsent.log _)

theorem inv_cleanup (hphase : s.phase = .cleanup fromDryRun stage job acknowledged)
    (h : Base cfg s.owned s.trace) (hok : CleanupOk stage job s) {r : Reaction}
    (hundisturbed : Undisturbed s r) :
      Inv cfg (cleanupStep cfg s fromDryRun stage job acknowledged r) := by
  obtain ⟨owner, howner⟩ := Option.isSome_iff_exists.1 hok.owned
  obtain ⟨phase, owned, currentRoot, current, estimate, result, escaping, trace⟩ := s
  dsimp only at howner hphase
  subst howner hphase
  have hjob : job.isSome → CancelSent (some owner) trace := fun hsome => hok.sent (.inr hsome)
  -- a signal outside the guarded part of a dry run comes after the cancellation
  have hsettle : (stage = .loop ∨ ∃ sig, stage = .handler sig) → r.isSignal → fromDryRun →
      Settled result (some owner) trace := by
    rintro hstage hsign rfl _
    left
    rcases hstage with rfl | ⟨sig, rfl⟩
    · exact hundisturbed hsign
    · exact hundisturbed hsign
  cases stage with
  | opening =>
    simp only [cleanupStep]
    split
    · refine inv_leaveCleanup h (fun _ hne => absurd (hok.opening rfl) hne) _
    · exact inv_gotoCleanup h hok.owned hok.exitCode (by simp) (by simp) (fun hor => by simp at hor)
  | loop =>
    have hreq := hok.requested (by simp)
    simp only [cleanupStep]
    split
    · next sig hsig =>
        refine inv_leaveCleanup h (hsettle (.inl rfl) ?_) _
        cases r <;> simp_all [Reaction.time, Reaction.isSignal]
    · exact inv_returnCleanup (s := State.log _ .budgetOut) (h.log trivial (fun _ => by simp))
        hok.exitCode hreq (.inr List.mem_cons_self)
    · refine inv_gotoCleanup h hok.owned hok.exitCode hreq (by split <;> simp) fun hor => ?_
      cases hmust : mustCancel job acknowledged with
      | true =>
          simp only [hmust, if_true, List.mem_cons, reduceCtorEq, List.not_mem_nil, or_self,
            false_or] at hor
          exact hjob hor
      | false =>
        cases job with
        | none => cases hmust
        | some current => exact hjob rfl
  | cancel => exact inv_cancelCleanup rfl h hok r
  | lost =>
    simp only [cleanupStep]
    exact inv_lookCleanup h hok (by simp) (hok.sent (by simp)) (by simp) r
  | remaining =>
    have hsent := hok.sent (by simp)
    have hreq := hok.requested (by simp)
    simp only [cleanupStep]
    split
    · exact inv_catchCleanup h hok.owned hok.exitCode hreq hjob (.inr hsent)
    · split
      · split
        · exact inv_returnCleanup h hok.exitCode (by simp) (.inl hsent)
        · exact inv_gotoCleanup h hok.owned hok.exitCode hreq (by simp) (fun _ => hsent)
      · exact inv_gotoCleanup h hok.owned hok.exitCode hreq (by simp) (fun _ => hsent)
  | pause =>
    have hsent := hok.sent (by simp)
    have hreq := hok.requested (by simp)
    simp only [cleanupStep]
    split
    · exact inv_catchCleanup h hok.owned hok.exitCode hreq hjob (.inr hsent)
    · exact inv_gotoCleanup h hok.owned hok.exitCode hreq (by simp) (fun _ => hsent)
  | poll =>
    simp only [cleanupStep]
    exact inv_lookCleanup h hok (by simp) (hok.sent (by simp)) (by simp) r
  | handler sig =>
    have hreq := hok.requested (by simp)
    simp only [cleanupStep]
    split
    · next second hsig =>
        refine inv_leaveCleanup h (hsettle (.inr ⟨sig, rfl⟩) ?_) _
        cases r <;> simp_all [Reaction.time, Reaction.isSignal]
    · refine inv_gotoCleanup h hok.owned (signalCode_ne sig) hreq (by simp) fun hor => ?_
      simp only [List.mem_cons, reduceCtorEq, List.not_mem_nil, or_self, false_or] at hor
      exact hjob hor

end Cleanup

/-! ## Whole runs -/

theorem inv_step (s : State) (r : Reaction) (h : Inv cfg s) (hundisturbed : Undisturbed s r) :
    Inv cfg (scheduledStep cfg s r) := by
  obtain ⟨hbase, hplace⟩ := h
  have hself : Inv cfg s := ⟨hbase, hplace⟩
  unfold scheduledStep
  unfold PhaseOk at hplace
  generalize hphase : s.phase = phase at hplace ⊢
  cases phase with
  | arguments => exact inv_arguments hbase hplace.1 r hplace.2.1 hplace.2.2
  | current => exact inv_current hbase hplace.1 r hplace.2.1 hplace.2.2
  | preview => exact inv_preview hbase hplace.1 r hplace.2.1 hplace.2.2
  | previewCheck => exact inv_previewCheck hbase hplace.1 r hplace.2.1 hplace.2.2
  | previewPause => exact inv_pause hbase hplace.1 r hplace
  | previewPoll =>
    exact inv_poll hbase hplace.1 r hself
      fun _ hfresh hcurr _ hnone => ⟨hfresh, hnone hplace.2, hcurr⟩
  | start => exact inv_start hbase hplace.1 r hplace.2.1 hplace.2.2.1 hplace.2.2.2
  | startLost | applyPoll =>
    exact inv_poll hbase hplace r hself fun _ hfresh hcurr hcounts _ => ⟨hfresh, hcurr, hcounts⟩
  | applyCheck => exact inv_applyCheck hbase hplace.1 r hplace.2.1 hplace.2.2
  | applyPause => exact inv_pause hbase hplace r hplace
  | leaving => exact inv_leaving hbase hplace.1 hplace.2 r
  | handling exn => exact inv_handling hbase hplace.1 hplace.2 exn r
  | cleanup fromDryRun stage job acknowledged => exact inv_cleanup hphase hbase hplace hundisturbed
  | done => exact hself

theorem inv_initial : Inv cfg State.initial where
  base := ⟨trivial, fun _ => by simp [State.initial]⟩
  phase := ⟨⟨by decide, rfl⟩, fun _ => by simp [State.initial], rfl⟩

end Invariant

/-- Against any server, and whatever else happens: in every run that is not disturbed in the cleanup
of a dry run, the trace is always a history. -/
theorem history_of_undisturbed (cfg : Config) (reactions : List Reaction)
    (h : Along (scheduledStep cfg) Undisturbed State.initial reactions) :
    Always (scheduledStep cfg) (fun s => History cfg s.trace) State.initial reactions :=
  h.map_of_invariant inv_step (fun s r hinv hc => (inv_step s r hinv hc).base.history) inv_initial

def sampleConfig (dryRun : Bool) : Config := ⟨⟨some, fun root => (root, [])⟩, "1s", dryRun, true⟩

def sampleReply (state : String) (confirmed : Bool) : Json :=
  .obj [("id", .str "job"), ("root", .str "/blobs"), ("older_than", .str "1s"),
    ("cutoff_ns", .int 0), ("preview_started_ns", .int 1000000000), ("state", .str state),
    ("confirmed", .bool confirmed), ("error", .null), ("expires_ns", .int 5),
    ("report", .obj ([("root", .str "/blobs"), ("cutoff_ns", .int 0)]
      ++ countNames.map fun key => (key, .int 0)))]

/-- No job yet, a preview that is ready at once, a start, and a job that is completed. -/
def completedRun : List Reaction :=
  [.inTime 0, .clientError (some 404), .reply (sampleReply "ready" false), .inTime 1,
    .reply (sampleReply "running" true), .inTime 2, .inTime 3,
      .reply (sampleReply "completed" true),
    .inTime 4, .inTime 5]

theorem history_completedRun :
    History (sampleConfig false)
      (run (scheduledStep (sampleConfig false)) State.initial completedRun).trace :=
  (history_of_undisturbed (sampleConfig false) completedRun (by decide +kernel)).run_of_ne_nil
    (by decide)

/-- A dry run whose preview is ready at once; a signal arrives after the cleanup was begun and
before it has asked for the cancellation. -/
def disturbedDryRun : List Reaction :=
  [.inTime 0, .clientError (some 404), .reply (sampleReply "ready" false), .inTime 1, .inTime 2,
    .signal .termination false]

theorem disturbedDryRun_not_history :
    ¬ History (sampleConfig true)
      (run (scheduledStep (sampleConfig true)) State.initial disturbedDryRun).trace := by
  intro h
  have htrace : ∃ result older,
      (run (scheduledStep (sampleConfig true)) State.initial disturbedDryRun).trace
        = .returned result :: older ∧ result.exitCode ≠ 0 ∧ Item.created "job" ∈ older
        ∧ Item.sent (.cancel "job") ∉ older ∧ Item.budgetOut ∉ older := by
    refine ⟨(run (scheduledStep (sampleConfig true)) State.initial disturbedDryRun).result,
      (run (scheduledStep (sampleConfig true)) State.initial disturbedDryRun).trace.tail, ?_⟩
    decide +kernel
  obtain ⟨result, older, heq, hexit, hcreated, hcancel, hbudget⟩ := htrace
  rw [heq] at h
  exact (h.1.2 hexit "job" hcreated).elim hcancel hbudget

end ContextIntelligence.Retention
