import ContextIntelligence.Recovery.Gate

/-!
# Live records go first

The admission gate in every run of its tasks. `Accounted` pairs each acceptance with an earlier
issue that it uses up. By `Check.Scanned` what has been scanned stays drained, because the drain
only moves offsets forward and appends wait for the lock.
-/

namespace ContextIntelligence.Recovery

open Lib Lib.Mutex Lib.Runs
  Queue

variable {env : Surroundings} (state : ReceiptClassification)

/-! ## Issues and acceptances -/

abbrev Issue := String × PermitBinding × ℕ

/-- The history in which every acceptance has used up one earlier issue with its token and its
binding that had not expired when the consumption took the lock; `unused` are the issues that are
left. -/
inductive Accounted : List Exchange → List Issue → Prop where
  | nil : Accounted [] []
  | issued {history : List Exchange} {unused : List Issue} (token : String)
      (binding : PermitBinding) (expiry : ℕ) (h : Accounted history unused) :
      Accounted (history ++ [.issued token binding expiry]) ((token, binding, expiry) :: unused)
  | accepted {history : List Exchange} {unused : List Issue} (token : String)
      (binding : PermitBinding) (expiry entered : ℕ) (h : Accounted history unused)
      (hissue : (token, binding, expiry) ∈ unused) (hlive : entered < expiry) :
      Accounted (history ++ [.accepted token binding entered])
        (unused.erase (token, binding, expiry))

def Exchange.issues (token : String) (binding : PermitBinding) : Exchange → Bool
  | .issued token' binding' _ => token' = token ∧ binding' = binding
  | .accepted _ _ _ => false

def Exchange.accepts (token : String) (binding : PermitBinding) : Exchange → Bool
  | .issued _ _ _ => false
  | .accepted token' binding' _ => token' = token ∧ binding' = binding

def Issue.names (token : String) (binding : PermitBinding) (issue : Issue) : Bool :=
  issue.1 = token ∧ issue.2.1 = binding

theorem accounted_count {history : List Exchange} {unused : List Issue}
    (h : Accounted history unused) (token : String) (binding : PermitBinding) :
    history.countP (Exchange.accepts token binding) + unused.countP (Issue.names token binding)
      = history.countP (Exchange.issues token binding) := by
  induction h with
  | nil => rfl
  | issued token' binding' expiry _ ih =>
    simp only [List.countP_append, List.countP_cons, List.countP_nil, Exchange.accepts,
      Exchange.issues, Issue.names, Bool.false_eq_true, if_false]
    by_cases hnames : token' = token ∧ binding' = binding
    · simp only [hnames, and_self, decide_true, if_true]
      omega
    · simp only [hnames, decide_false, Bool.false_eq_true, if_false]
      omega
  | @accepted history unused token' binding' expiry entered _ hissue _ ih =>
    have hpos : Issue.names token binding (token', binding', expiry) = true →
        0 < unused.countP (Issue.names token binding) := fun hnames =>
      List.countP_pos_iff.2 ⟨_, hissue, hnames⟩
    have hera := List.countP_erase (Issue.names token binding) unused (token', binding', expiry)
    simp only [List.countP_append, List.countP_singleton, Exchange.accepts, Exchange.issues,
      Bool.false_eq_true, if_false, hera, hissue, true_and] at ih ⊢
    simp only [Issue.names] at hpos ih ⊢
    by_cases hnames : token' = token ∧ binding' = binding
    · have hsome := hpos (decide_eq_true hnames)
      simp only [hnames, and_self, decide_true, if_true]
      omega
    · simp only [hnames, decide_false, Bool.false_eq_true, if_false]
      omega

/-! ## What a resumption does to the permits -/

/-- What the task in a phase has asked for, as long as it is not decided. -/
def Phase.purpose? : Phase env → Option (Purpose env)
  | .classify purpose => some purpose
  | .check _ purpose _ => some purpose
  | _ => none

/-- One resumption leaves the permits alone, stores the first one, or takes the matching one out. -/
inductive PermitMove (phase : Phase env) (s : GateState) :
    Option (Phase env) × GateState → Prop where
  | quiet (next : Option (Phase env)) (s' : GateState) (hpermits : s'.permits = s.permits)
      (hhistory : s'.history = s.history)
      (hnext : ∀ p, next = some p → p.purpose? = none ∨ p.purpose? = phase.purpose?) :
      PermitMove phase s (next, s')
  | issue (token : String) (binding : PermitBinding) (expiry : ℕ) (s' : GateState)
      (hempty : s.permits.entries = [])
      (hpermits : s'.permits = s.permits.set token (binding, expiry))
      (hhistory : s'.history = s.history ++ [.issued token binding expiry]) :
      PermitMove phase s (none, s')
  | accept (token : Option String) (sub : Submission env) (entered expiry : ℕ) (s' : GateState)
      (hpurpose : phase.purpose? = some (.consume token sub entered))
      (hstored : s.permits.get (token.getD "") = some (sub.event.binding env, expiry))
      (hpermits : s'.permits = s.permits.erase (token.getD ""))
      (hhistory : s'.history
        = s.history ++ [.accepted (token.getD "") (sub.event.binding env) entered]) :
      PermitMove phase s (some (.reserve sub), s')

theorem PermitMove.leave (phase : Phase env) (s : GateState) : PermitMove phase s (none, s) :=
  .quiet none s rfl rfl fun _ h => by cases h

theorem permitResult_eq_accepted {state : ReceiptClassification}
    {stored : Option (PermitBinding × ℕ)} {binding : PermitBinding} {available : Bool}
    (h : permitResult state stored binding available = .accepted) :
    available = true ∧ ∃ expiry, stored = some (binding, expiry) := by
  cases state with
  | new =>
    obtain _ | ⟨held, expiry⟩ := stored
    · cases h
    · by_cases hheld : held = binding
      · subst hheld
        cases available with
        | false => simp [permitResult] at h
        | true => exact ⟨rfl, expiry, rfl⟩
      · simp [permitResult, hheld] at h
  | duplicate => cases h
  | conflict => cases h
  | foreign => cases h

variable {phase : Phase env}

theorem conclude_permits (available : Bool)
    (answer : Answer) (s : GateState) {purpose : Purpose env}
    (hpurpose : phase.purpose? = some purpose) :
    PermitMove phase s (conclude state available answer s purpose) := by
  cases purpose with
  | issue event =>
    simp only [conclude]
    split
    · exact .leave phase s
    · rename_i hfree
      have hempty : s.permits.entries = [] := by
        by_contra hne
        exact hfree (.inl hne)
      exact .issue _ _ _ _ hempty rfl rfl
  | consume token sub entered =>
    simp only [conclude]
    split
    · rename_i haccepted
      obtain ⟨_, expiry, hstored⟩ := permitResult_eq_accepted haccepted
      exact .accept token sub entered expiry _ hpurpose hstored rfl rfl
    · exact .leave phase s
  | operation op =>
    simp only [conclude]
    split
    · exact .quiet _ s rfl rfl fun p hp => by cases hp; exact .inl rfl
    · exact .leave phase s

theorem checkStep_permits (purpose : Purpose env) (answer : Answer)
    (s : GateState) (progress : Check) :
    PermitMove (.check state purpose progress) s (checkStep state purpose answer s progress) := by
  have hgo : ∀ (next : Check) (s' : GateState), s'.permits = s.permits → s'.history = s.history →
      PermitMove (.check state purpose progress) s (some (.check state purpose next), s') :=
    fun next s' hpermits hhistory =>
      .quiet _ s' hpermits hhistory fun p hp => by cases hp; exact .inr rfl
  have hend : ∀ available, PermitMove (.check state purpose progress) s
      (conclude state available answer s purpose) :=
    fun available => conclude_permits state available answer s rfl
  cases progress with
  | receipts => exact hgo _ _ rfl rfl
  | list pending =>
    simp only [checkStep]
    split
    · exact hend false
    · exact hgo _ s rfl rfl
  | keys pending todo =>
    cases todo with
    | nil => exact hend _
    | cons key todo =>
      simp only [checkStep]
      split
      · exact hend false
      · exact hgo _ s rfl rfl
  | measure pending key committed todo =>
    simp only [checkStep]
    split
    · exact hend false
    · exact hgo _ s rfl rfl

theorem advance_permits (phase : Phase env) (answer : Answer) (s : GateState) :
    PermitMove phase s (advanceGate phase answer s) := by
  -- outside the check the permits are not touched, and nothing that follows is undecided again
  have hquiet : ∀ (next : Option (Phase env)) (s' : GateState), s'.permits = s.permits →
      s'.history = s.history → (∀ p, next = some p → p.purpose? = none) →
      PermitMove phase s (next, s') :=
    fun next s' hpermits hhistory hnext =>
      .quiet next s' hpermits hhistory fun p hp => Or.inl (hnext p hp)
  cases phase with
  | classify purpose =>
    simp only [advanceGate]
    split
    · exact hquiet _ _ rfl rfl fun _ h => by cases h
    · split
      · exact hquiet _ _ rfl rfl fun _ h => by cases h
      · exact .quiet _ _ rfl rfl fun p hp => by cases hp; exact .inr rfl
  | check state purpose progress => exact checkStep_permits state purpose answer s progress
  | reserve sub =>
    simp only [advanceGate]
    split
    · exact .leave _ s
    · exact hquiet _ s rfl rfl fun p hp => by cases hp; rfl
  | admission sub =>
    simp only [advanceGate]
    split
    · exact hquiet _ _ rfl rfl fun p hp => by cases hp; rfl
    · split
      · exact hquiet _ _ rfl rfl fun p hp => by cases hp; rfl
      · exact hquiet _ _ rfl rfl fun p hp => by cases hp; rfl
  | release => exact .leave _ s
  | finalize fresh =>
    simp only [advanceGate]
    split
    · exact .leave _ s
    · exact hquiet _ s rfl rfl fun p hp => by cases fresh <;> cases hp <;> rfl
  | enqueue => exact .leave _ s
  | repair => exact .leave _ s
  | operate op => exact hquiet _ _ rfl rfl fun _ h => by cases h
  | append key rest =>
    simp only [advanceGate]
    split
    · split
      · exact hquiet _ _ rfl rfl fun _ h => by cases h
      · exact .leave _ s
    · refine hquiet _ _ rfl rfl fun p hp => ?_
      split at hp
      · cases hp
      · cases hp
        rfl

/-! ## The permits of a run -/

/-- At most one permit is stored, and what is stored has been issued and not been used. -/
structure Balanced (s : GateState) : Prop where
  single : s.permits.entries.length ≤ 1
  accounted : ∃ unused, Accounted s.history unused ∧ ∀ entry ∈ s.permits.entries, entry ∈ unused

/-- The permits that are stored had not expired when the consumption took the lock. -/
def Phase.Fresh (phase : Phase env) (s : GateState) : Prop :=
  ∀ token sub entered, phase.purpose? = some (.consume token sub entered) →
    ∀ entry ∈ s.permits.entries, entered < entry.2.2

theorem Balanced.sublist {s s' : GateState} (h : Balanced s)
    (hpermits : s'.permits.entries.Sublist s.permits.entries) (hhistory : s'.history = s.history) :
    Balanced s' := by
  obtain ⟨unused, hacc, hstored⟩ := h.accounted
  refine ⟨hpermits.length_le.trans h.single, unused, ?_, fun entry hentry => ?_⟩
  · rw [hhistory]
    exact hacc
  · exact hstored entry (hpermits.subset hentry)

theorem Balanced.advance {s : GateState} {r : Option (Phase env) × GateState}
    (hmove : PermitMove phase s r) (h : Balanced s) (hfresh : phase.Fresh s) :
    Balanced r.2 ∧ ∀ next, r.1 = some next → next.Fresh r.2 := by
  cases hmove with
  | quiet next s' hpermits hhistory hnext =>
    have hsub : s'.permits.entries.Sublist s.permits.entries := by rw [hpermits]
    refine ⟨h.sublist hsub hhistory, fun p hp token sub entered hpurpose entry hentry => ?_⟩
    rcases hnext p hp with hnone | hsame
    · rw [hnone] at hpurpose
      cases hpurpose
    · exact hfresh token sub entered (hsame ▸ hpurpose) entry (hsub.subset hentry)
  | issue token binding expiry s' hempty hpermits hhistory =>
    have hentries : s'.permits.entries = [(token, binding, expiry)] := by
      rw [hpermits]
      simp [Dict.set, hempty, Assoc.set]
    obtain ⟨unused, hacc, _⟩ := h.accounted
    refine ⟨⟨by simp [hentries], (token, binding, expiry) :: unused, ?_, ?_⟩, fun _ h => by cases h⟩
    · rw [hhistory]
      exact .issued token binding expiry hacc
    · intro entry hentry
      rw [hentries, List.mem_singleton] at hentry
      rw [hentry]
      exact List.mem_cons_self
  | accept token sub entered expiry s' hpurpose hstored hpermits hhistory =>
    have hmem := Dict.mem_entries_iff.2 hstored
    -- the permit that is taken out was the only one
    have honly : s.permits.entries = [(token.getD "", sub.event.binding env, expiry)] := by
      have hsingle := h.single
      rcases hlist : s.permits.entries with _ | ⟨entry, _ | ⟨other, rest⟩⟩
      · rw [hlist] at hmem
        cases hmem
      · rw [hlist, List.mem_singleton] at hmem
        rw [hmem]
      · rw [hlist] at hsingle
        simp at hsingle
    have hentries : s'.permits.entries = [] := by
      rw [hpermits]
      simp [Dict.erase, honly]
    obtain ⟨unused, hacc, hiss⟩ := h.accounted
    refine ⟨⟨by simp [hentries], unused.erase (token.getD "", sub.event.binding env, expiry), ?_,
      by simp [hentries]⟩, fun next hnext => ?_⟩
    · rw [hhistory]
      exact .accepted _ _ expiry entered hacc (hiss _ hmem)
        (hfresh token sub entered hpurpose _ hmem)
    · cases hnext
      exact fun _ _ _ hpurpose => by cases hpurpose

theorem keeps_balanced :
    Keeps (gate env) (fun _ _ => True) (fun _ _ _ => True) Balanced Phase.Fresh where
  enter request s h := by
    have hdiscard : Balanced s.discardExpired := h.sublist List.filter_sublist rfl
    cases request with
    | issue event => exact ⟨hdiscard, fun _ _ _ h => by cases h⟩
    | consume token sub =>
      refine ⟨hdiscard, fun token' sub' entered hpurpose entry hentry => ?_⟩
      cases hpurpose
      simpa using (List.mem_filter.1 hentry).2
    | liveEnqueue key raw => exact ⟨h, fun _ _ _ h => by cases h⟩
    | runIfAvailable op => exact ⟨h, fun _ _ _ h => by cases h⟩
  advance phase answer s _ h hfresh := h.advance (advance_permits phase answer s) hfresh
  outside event s _ h := by
    have hpermits : (outsideGate event s).permits = s.permits := by cases event <;> rfl
    have hhistory : (outsideGate event s).history = s.history := by cases event <;> rfl
    refine ⟨h.sublist (by rw [gate, hpermits]) hhistory, fun phase hfresh => ?_⟩
    intro token sub entered hpurpose entry hentry
    rw [gate, hpermits] at hentry
    exact hfresh token sub entered hpurpose entry hentry
  restart s h := h.sublist (List.nil_sublist _) rfl

/-! ## The live queue while a task is inside -/

def Phase.admitting : Phase env → Bool
  | .check _ (.consume _ _ _) _ => true
  | .reserve _ => true
  | .admission _ => true
  | _ => false

def Phase.appends : Phase env → Bool
  | .append _ _ => true
  | _ => false

theorem queue_conclude (available : Bool) (answer : Answer)
    (s : GateState) (purpose : Purpose env) :
    (conclude state available answer s purpose).2.queue = s.queue := by
  cases purpose <;> simp only [conclude] <;> split <;> rfl

theorem queue_checkStep (purpose : Purpose env) (answer : Answer)
    (s : GateState) (progress : Check) :
    (checkStep state purpose answer s progress).2.queue = s.queue := by
  cases progress with
  | receipts => rfl
  | list pending =>
    simp only [checkStep]
    split
    · exact queue_conclude ..
    · rfl
  | keys pending todo =>
    cases todo with
    | nil => exact queue_conclude ..
    | cons key todo =>
      simp only [checkStep]
      split
      · exact queue_conclude ..
      · rfl
  | measure pending key committed todo =>
    simp only [checkStep]
    split
    · exact queue_conclude ..
    · rfl

theorem queue_advance (h : phase.appends = false) (answer : Answer)
    (s : GateState) : (advanceGate phase answer s).2.queue = s.queue := by
  cases phase with
  | classify purpose =>
    simp only [advanceGate]
    split
    · rfl
    · split <;> rfl
  | check state purpose progress => exact queue_checkStep ..
  | reserve sub =>
    simp only [advanceGate]
    split <;> rfl
  | admission sub =>
    simp only [advanceGate]
    split
    · rfl
    · split <;> rfl
  | release => rfl
  | finalize fresh =>
    simp only [advanceGate]
    split <;> rfl
  | enqueue => rfl
  | repair => rfl
  | operate op => rfl
  | append key rest => cases h

theorem GateState.spool_modifySpool_self (s : GateState) (key : String) (f : Spool → Spool) :
    (s.modifySpool key f).spool key = f (s.spool key) := by
  simp [modifySpool, spool]

theorem GateState.spool_modifySpool_of_ne (s : GateState) {key key' : String} (h : key ≠ key')
    (f : Spool → Spool) : (s.modifySpool key f).spool key' = s.spool key' := by
  simp only [modifySpool, spool]
  rw [Dict.get_set_of_ne _ h]

/-- A file operation commits, leaves the content and the offset, or removes the log. -/
theorem FileOp.apply_frame {P : Spool → Prop} {op : FileOp} {s : Spool}
    (hcommit : ∀ newOffset, op = .commit newOffset → P (s.commit newOffset))
    (hsame : ∀ s' : Spool, s'.content = s.content → s'.committedOffset = s.committedOffset → P s')
    (hgone : ∀ s' : Spool, s'.content = [] → P s') : P (op.apply s) := by
  have hcut : ∀ {s'}, s' = s ∨ s.Removed s' → P s' := by
    rintro s' (rfl | hrem)
    · exact hsame _ rfl rfl
    · exact hgone s' (Spool.content_of_log_none hrem.log)
  cases op with
  | commit newOffset => exact hcommit newOffset rfl
  | deleteDrained cut => exact hcut (s.deleteDrainedCut_cases cut)
  | deleteSession cut => exact hcut (s.deleteSessionCut_cases cut)
  | deadLetter payload => exact hsame _ rfl rfl
  | deadLetterPartial done =>
    exact hsame _ (by simp [FileOp.apply, Spool.content])
      (by simp [FileOp.apply, Spool.committedOffset])

theorem FileOp.content_apply (op : FileOp) (s : Spool) :
    (op.apply s).content = s.content ∨ (op.apply s).content = [] :=
  FileOp.apply_frame (P := fun s' => s'.content = s.content ∨ s'.content = [])
    (fun _ _ => .inl rfl) (fun _ hcont _ => .inl hcont) fun _ => .inr

/-- While a consumption is between its check and its admission, the step adds to no live log. -/
def NoLiveAppend (s : GateSystem env) (a : GateAction env) : Prop :=
  ∀ task phase, s.tasks task = .inside phase → phase.admitting = true → ∀ key,
    (((gate env).step s a).shared.spool key).content = (s.shared.spool key).content
      ∨ (((gate env).step s a).shared.spool key).content = []

theorem noLiveAppend_of_held {s : GateSystem env} (h : Held Balanced Phase.Fresh s)
    (a : GateAction env) : NoLiveAppend s a := by
  intro task phase hin hadm key
  -- a state with the same queue has the same logs
  have hsame : ∀ s' : GateState, s'.queue = s.shared.queue →
      (s'.spool key).content = (s.shared.spool key).content := by
    intro s' hq
    simp only [GateState.spool, hq]
  rcases shared_step (P := gate env) s a with hs | ⟨request, hfree, _⟩
    | ⟨task', phase', answer, _, hin', hs⟩ | ⟨event, _, hs⟩ | ⟨_, hs⟩
  · rw [hs]
    exact .inl rfl
  · exact absurd hfree (h.holder_ne_none hin)
  · -- the task that moves is the consumption itself, and it does not append
    have htask := h.unique hin hin'
    subst htask
    rw [hin] at hin'
    cases hin'
    have hquiet : phase.appends = false := by
      cases phase with
      | append key rest => cases hadm
      | _ => rfl
    rw [hs]
    exact .inl (hsame _ (queue_advance hquiet answer s.shared))
  · rw [hs]
    cases event with
    | tick elapsed => exact .inl rfl
    | pause paused => exact .inl rfl
    | ledger action => exact .inl rfl
    | files key' op =>
      by_cases hkey : key' = key
      · subst hkey
        change ((s.shared.modifySpool key' op.apply).spool key').content = _
          ∨ ((s.shared.modifySpool key' op.apply).spool key').content = _
        rw [GateState.spool_modifySpool_self]
        exact op.content_apply _
      · left
        change ((s.shared.modifySpool key' op.apply).spool key).content = _
        rw [GateState.spool_modifySpool_of_ne _ hkey]
  · rw [hs]
    exact .inl rfl

/-! ## The scan of the live queue -/

def FileOp.Forward (s : Spool) : FileOp → Prop
  | .commit newOffset => s.committedOffset ≤ newOffset
  | _ => True

instance FileOp.Forward.decidable (s : Spool) (op : FileOp) : Decidable (op.Forward s) := by
  cases op <;> unfold FileOp.Forward <;> infer_instance

def Forward (s : GateState) : Outside env → Prop
  | .files key op => op.Forward (s.spool key)
  | _ => True

instance Forward.decidable (s : GateState) (event : Outside env) : Decidable (Forward s event) := by
  cases event <;> unfold Forward <;> infer_instance

/-- `committed` was read from the offset of a key that nobody has appended to since. -/
def Seen (committed : ℕ) (s : Spool) : Prop := committed ≤ s.committedOffset ∨ s.content = []

abbrev Drained (s : Spool) : Prop := s.uncommitted = []

variable {s : Spool}

theorem drained_of_completeDataEnd_le (h : s.completeDataEnd ≤ s.committedOffset) : Drained s := by
  have hcount : s.pendingCount = 0 := by
    unfold Spool.pendingCount Spool.countNewlines
    rw [List.drop_eq_nil_of_le]
    · rfl
    · exact (List.length_take_le _ _).trans h
  rw [s.pendingCount_eq] at hcount
  exact List.length_eq_zero_iff.1 hcount

theorem drained_of_content_nil (h : s.content = []) : Drained s := by
  apply Spool.uncommitted_eq_nil_of_le
  rw [h]
  exact Nat.zero_le _

theorem Seen.drained {committed : ℕ} {s : Spool} (h : Seen committed s)
    (hend : s.completeDataEnd = committed) : Drained s := by
  rcases h with hle | hnil
  · exact drained_of_completeDataEnd_le (hend.trans_le hle)
  · exact drained_of_content_nil hnil

theorem drained_commit {n : ℕ} (h : Drained s) (hn : s.committedOffset ≤ n) :
    Drained (s.commit n) := by
  have hcount : (s.content.drop s.committedOffset).count newline = 0 := by
    have hq := s.inQueue_eq
    rw [show s.uncommitted = [] from h] at hq
    exact hq
  have hq := (s.commit n).inQueue_eq
  have hdrop : s.content.drop n
      = (s.content.drop s.committedOffset).drop (n - s.committedOffset) := by
    rw [List.drop_drop]
    congr 1
    omega
  have hzero : (s.commit n).inQueue = 0 := by
    change (s.content.drop n).count newline = 0
    rw [hdrop]
    exact Nat.le_zero.1 (((List.drop_sublist _ _).count_le newline).trans hcount.le)
  rw [hzero] at hq
  exact List.length_eq_zero_iff.1 hq.symm

theorem FileOp.drained_apply {op : FileOp} (hop : op.Forward s) (h : Drained s) :
    Drained (op.apply s) := by
  refine FileOp.apply_frame ?_ ?_ fun _ => drained_of_content_nil
  · rintro newOffset rfl
    exact drained_commit h hop
  · intro s' hcont hoffset
    rwa [Drained, Spool.uncommitted, hcont, hoffset]

theorem FileOp.seen_apply {op : FileOp} {committed : ℕ} (hop : op.Forward s)
    (h : Seen committed s) : Seen committed (op.apply s) := by
  refine FileOp.apply_frame ?_ ?_ fun _ => .inr
  · rintro newOffset rfl
    exact h.imp (fun hle => hle.trans hop) id
  · intro s' hcont hoffset
    rwa [Seen, hcont, hoffset]

/-- What a scan knows: every key is still to be read, or drained. -/
def Check.Scanned (s : GateState) : Check → Prop
  | .receipts => True
  | .list _ => True
  | .keys _ todo => ∀ key, key ∈ todo ∨ Drained (s.spool key)
  | .measure _ key committed todo =>
    Seen committed (s.spool key) ∧ ∀ key', key' = key ∨ key' ∈ todo ∨ Drained (s.spool key')

def Phase.Clear (phase : Phase env) (s : GateState) : Prop :=
  match phase with
  | .check _ _ progress => progress.Scanned s
  | .reserve _ => ∀ key, Drained (s.spool key)
  | .admission _ => ∀ key, Drained (s.spool key)
  | .operate _ => ∀ key, Drained (s.spool key)
  | _ => True

theorem Phase.clear_congr {s s' : GateState} (hq : s'.queue = s.queue)
    (h : phase.Clear s) : phase.Clear s' := by
  have hspool : ∀ key, s'.spool key = s.spool key := fun key => by
    simp only [GateState.spool, hq]
  cases phase with
  | check state purpose progress =>
    cases progress with
    | receipts => trivial
    | list pending => trivial
    | keys pending todo => exact fun key => hspool key ▸ h key
    | measure pending key committed todo =>
      exact ⟨hspool key ▸ h.1, fun key' => hspool key' ▸ h.2 key'⟩
  | reserve sub => exact fun key => hspool key ▸ h key
  | admission sub => exact fun key => hspool key ▸ h key
  | operate op => exact fun key => hspool key ▸ h key
  | classify purpose => trivial
  | release => trivial
  | finalize fresh => trivial
  | enqueue => trivial
  | repair => trivial
  | append key rest => trivial

theorem scanned_pendingWorkerKeys (s : GateState) (pending : Bool) :
    (Check.keys pending s.pendingWorkerKeys).Scanned s := by
  intro key
  cases hget : s.queue.get key with
  | none =>
    right
    apply drained_of_content_nil
    simp [GateState.spool, hget, Spool.empty, Spool.content]
  | some files =>
    by_cases hvis : files.visible = true
    · left
      apply List.mem_map.2
      exact ⟨(key, files),
        List.mem_filter.2 ⟨Dict.mem_entries_iff.2 hget, hvis⟩, rfl⟩
    · right
      apply drained_of_content_nil
      have hlog : files.log = none := by
        simp only [Spool.visible, Bool.or_eq_true, not_or, Bool.not_eq_true,
          Option.isSome_eq_false_iff, Option.isNone_iff_eq_none] at hvis
        exact hvis.1
      simp [GateState.spool, hget, Spool.content, hlog]

theorem conclude_unavailable (answer : Answer) (s : GateState)
    (purpose : Purpose env) : (conclude state false answer s purpose).1 = none := by
  cases purpose with
  | issue event =>
    simp only [conclude]
    split <;> rfl
  | consume token sub entered =>
    simp only [conclude]
    split
    · rename_i haccepted
      exact absurd (permitResult_eq_accepted haccepted).1 Bool.false_ne_true
    · rfl
  | operation op => rfl

variable {s : GateState}

theorem clear_conclude (available : Bool) (answer : Answer)
    (purpose : Purpose env) (h : ∀ key, Drained (s.spool key)) :
    ∀ next, (conclude state available answer s purpose).1 = some next → next.Clear s := by
  intro next hnext
  cases purpose with
  | issue event =>
    simp only [conclude] at hnext
    split at hnext <;> cases hnext
  | consume token sub entered =>
    simp only [conclude] at hnext
    split at hnext
    · cases hnext
      exact h
    · cases hnext
  | operation op =>
    simp only [conclude] at hnext
    split at hnext
    · cases hnext
      exact h
    · cases hnext

theorem clear_checkStep (purpose : Purpose env) (answer : Answer)
    {progress : Check} (h : progress.Scanned s) :
    ∀ next, (checkStep state purpose answer s progress).1 = some next → next.Clear s := by
  have hstop : ∀ next, (conclude state false answer s purpose).1 = some next → next.Clear s := by
    intro next hnext
    rw [conclude_unavailable] at hnext
    cases hnext
  intro next hnext
  cases progress with
  | receipts =>
    cases hnext
    trivial
  | list pending =>
    simp only [checkStep] at hnext
    split at hnext
    · exact hstop next hnext
    · cases hnext
      exact scanned_pendingWorkerKeys s pending
  | keys pending todo =>
    cases todo with
    | nil =>
      refine clear_conclude state _ answer purpose (fun key => ?_) next hnext
      exact (h key).resolve_left List.not_mem_nil
    | cons key todo =>
      simp only [checkStep] at hnext
      split at hnext
      · exact hstop next hnext
      · cases hnext
        refine ⟨.inl (le_refl _), fun key' => ?_⟩
        rcases h key' with hmem | hdrained
        · rcases List.mem_cons.1 hmem with heq | hmem
          · exact .inl heq
          · exact .inr (.inl hmem)
        · exact .inr (.inr hdrained)
  | measure pending key committed todo =>
    simp only [checkStep] at hnext
    split at hnext
    · exact hstop next hnext
    · rename_i hread
      cases hnext
      intro key'
      rcases h.2 key' with heq | hmem | hdrained
      · -- the key that was just measured: its log ends at the offset that was read
        subst heq
        exact .inr (h.1.drained (by omega))
      · exact .inl hmem
      · exact .inr hdrained

theorem clear_advance (phase : Phase env) (answer : Answer) (s : GateState) (h : phase.Clear s) :
    ∀ next, (advanceGate phase answer s).1 = some next →
      next.Clear (advanceGate phase answer s).2 := by
  intro next hnext
  cases phase with
  | classify purpose =>
    simp only [advanceGate] at hnext
    split at hnext
    · cases hnext
    · split at hnext <;> cases hnext
      trivial
  | check state purpose progress =>
    exact Phase.clear_congr (queue_checkStep ..) (clear_checkStep state purpose answer h next hnext)
  | reserve sub =>
    have hq : (advanceGate (.reserve sub) answer s).2.queue = s.queue :=
      queue_advance rfl answer s
    refine Phase.clear_congr hq ?_
    simp only [advanceGate] at hnext
    split at hnext
    · cases hnext
    · cases hnext
      exact h
  | admission sub =>
    simp only [advanceGate] at hnext
    split at hnext
    · cases hnext
      trivial
    · split at hnext
      · cases hnext
        trivial
      · cases hnext
        trivial
  | release => cases hnext
  | finalize fresh =>
    simp only [advanceGate] at hnext
    split at hnext
    · cases hnext
    · cases fresh <;> cases hnext <;> trivial
  | enqueue => cases hnext
  | repair => cases hnext
  | operate op => cases hnext
  | append key rest =>
    simp only [advanceGate] at hnext
    split at hnext
    · cases hnext
    · dsimp only at hnext
      split at hnext
      · cases hnext
      · cases hnext
        trivial

theorem clear_files {key : String} {op : FileOp}
    (hop : op.Forward (s.spool key)) (h : phase.Clear s) :
    phase.Clear (s.modifySpool key op.apply) := by
  have hdrained : ∀ key', Drained (s.spool key') →
      Drained ((s.modifySpool key op.apply).spool key') := by
    intro key' hkey'
    by_cases heq : key = key'
    · subst heq
      rw [GateState.spool_modifySpool_self]
      exact FileOp.drained_apply hop hkey'
    · rwa [GateState.spool_modifySpool_of_ne _ heq]
  cases phase with
  | check state purpose progress =>
    cases progress with
    | receipts => trivial
    | list pending => trivial
    | keys pending todo => exact fun key' => (h key').imp_right (hdrained key')
    | measure pending key' committed todo =>
      refine ⟨?_, fun key'' => (h.2 key'').imp_right (Or.imp_right (hdrained key''))⟩
      by_cases heq : key = key'
      · subst heq
        rw [GateState.spool_modifySpool_self]
        exact FileOp.seen_apply hop h.1
      · rw [GateState.spool_modifySpool_of_ne _ heq]
        exact h.1
  | reserve sub => exact fun key' => hdrained key' (h key')
  | admission sub => exact fun key' => hdrained key' (h key')
  | operate op => exact fun key' => hdrained key' (h key')
  | classify purpose => trivial
  | release => trivial
  | finalize fresh => trivial
  | enqueue => trivial
  | repair => trivial
  | append key rest => trivial

theorem keeps_clear : Keeps (gate env) Forward (fun _ _ _ => True) (fun _ => True) Phase.Clear where
  enter request s _ := by cases request <;> exact ⟨trivial, trivial⟩
  advance phase answer s _ _ h := ⟨trivial, clear_advance phase answer s h⟩
  outside event s hforward _ := by
    refine ⟨trivial, fun phase h => ?_⟩
    cases event with
    | tick elapsed => exact Phase.clear_congr rfl h
    | pause paused => exact Phase.clear_congr rfl h
    | ledger action => exact Phase.clear_congr rfl h
    | files key op => exact clear_files hforward h
  restart _ _ := trivial

/-! ## The result -/

/-- The task is about to admit a record, or to run the retry it was called for. -/
def Phase.delivers : Phase env → Bool
  | .admission _ => true
  | .operate _ => true
  | _ => false

/-- In every run of the gate: each acceptance has used up one earlier issue with its token and
binding that had not expired when the consumption began, no permit is accepted more often than it
was issued, and at most one can be used at a time; between the check of a consumption and its
admission no live log grows; and unless the drain moved an offset back, no live record is pending
when a record is admitted or retried. -/
theorem admission_liveFirst (env : Surroundings) (clock ttlSeconds : ℕ) (paused : Bool)
    (ledger : Ledger) (queue : Dict String Spool) (actions : List (GateAction env)) :
    let start : GateSystem env := System.start (GateState.boot clock ttlSeconds paused ledger queue)
    Always (gate env).step (fun s =>
        (∃ unused, Accounted s.shared.history unused)
        ∧ (∀ token binding, s.shared.history.countP (Exchange.accepts token binding)
            ≤ s.shared.history.countP (Exchange.issues token binding))
        ∧ s.shared.unexpired.length ≤ 1) start actions
      ∧ Along (gate env).step NoLiveAppend start actions
      ∧ (Along (gate env).step (Protocol.Outside Forward) start actions →
          Always (gate env).step (fun s => ∀ task phase, s.tasks task = .inside phase →
            phase.delivers = true → ∀ key, (s.shared.spool key).uncommitted = [])
          start actions) := by
  intro start
  have hboot : Balanced (GateState.boot clock ttlSeconds paused ledger queue) :=
    ⟨Nat.zero_le 1, [], .nil, fun entry hentry => absurd hentry List.not_mem_nil⟩
  have hstart : Held Balanced Phase.Fresh start := Held.start hboot
  have hany := along_outside_true (P := gate env) start actions
  refine ⟨?_, ?_, fun hforward => ?_⟩
  · refine hstart.always keeps_balanced (fun s hs => ?_) hany
    obtain ⟨unused, hacc, _⟩ := hs.shared.accounted
    refine ⟨⟨unused, hacc⟩, fun token binding => ?_, ?_⟩
    · have hcount := accounted_count hacc token binding
      omega
    · exact (List.length_filter_le _ _).trans hs.shared.single
  · exact hstart.along keeps_balanced (fun s a hs _ => noLiveAppend_of_held hs a) hany
  · have hclear : Held (fun _ => True) Phase.Clear start := Held.start trivial
    refine hclear.always keeps_clear (fun s hs task phase hin hdeletes => ?_) hforward
    have hphase := hs.phase task phase hin
    cases phase with
    | admission sub => exact hphase
    | operate op => exact hphase
    | _ => cases hdeletes

/-- Surroundings in which every text is a time and every digest is empty. -/
def plainSurroundings : Surroundings where
  payloadDigest := fun _ => ""
  descriptorDigest := fun _ _ _ _ _ => ""
  isBlank := fun s => s = ""
  isIsoTime := fun _ => true

def firstSubmission : Submission plainSurroundings where
  sourceHandle := "h"
  source := ⟨"native-recovery-source-v1", "s", "", "", 1⟩
  ordinal := 0
  sourceLineSha256 := ""
  actor := "c"
  workspace := "w"
  request :=
    { event := "prompt:submit"
      workspace := "w"
      idempotencyKey := none
      data := [("session_id", .str "s"), ("timestamp", .str "t")]
      passes := by decide +kernel }

/-- A live record is appended in two writes while an issue already waits; the drain commits it; then
a permit is issued and consumed up to the admission. -/
def admissionAfterAppend : List (GateAction plainSurroundings) :=
  let go (task : ℕ) : GateAction plainSurroundings := .resume task
    { Answer.plain with token := "p" }
  let write : GateAction plainSurroundings := .resume 2 { Answer.plain with written := 1 }
  [.call 2 (.liveEnqueue "k" [65]), go 2, .call 0 (.issue firstSubmission.event), go 0,
    write, write, .outside (.files "k" (.commit 2)), go 0, go 0, go 0, go 0, go 0, go 0, go 0,
    .outside (.tick 3), .call 1 (.consume (some "p") firstSubmission),
    go 1, go 1, go 1, go 1, go 1, go 1, go 1, go 1]

theorem admission_liveFirst_afterAppend :
    let start : GateSystem plainSurroundings :=
      System.start (GateState.boot 0 10 false ⟨true, Tables.empty⟩ Dict.empty)
    (run (gate plainSurroundings).step start admissionAfterAppend).shared.history
        = [.issued "p" (firstSubmission.event.binding plainSurroundings) 10,
          .accepted "p" (firstSubmission.event.binding plainSurroundings) 3]
      ∧ Always (gate plainSurroundings).step (fun s => ∀ task phase, s.tasks task = .inside phase →
          phase.delivers = true → ∀ key, (s.shared.spool key).uncommitted = []) start
          admissionAfterAppend :=
  ⟨by decide +kernel,
    (admission_liveFirst plainSurroundings 0 10 false ⟨true, Tables.empty⟩ Dict.empty
      admissionAfterAppend).2.2 (by decide +kernel)⟩

end ContextIntelligence.Recovery
