import ContextIntelligence.Lib.Runs

/-!
# Idempotent ingest

`post_events` asks the `EventIdempotencyCache` whether the key of a request is new, which also
stores it, and appends the record several steps later; requests may fail or be cancelled in between.
`duplicatesSafe_of_completes` says when the answer "duplicate" can be trusted; `retryAfterFailure`
is the shortest run against it.
-/

namespace ContextIntelligence.Ingest

open Lib.Runs

/-! ## The cache -/

/-- `EventIdempotencyCache` without its contents. -/
structure CacheConfig where
  ttlSeconds : Int
  maxEntries : Nat
  deriving DecidableEq, Repr

/-- `_seen`: the remembered keys with the time they were stored, the oldest entry first. -/
abbrev Seen := List (String × Int)

def Seen.keys (seen : Seen) : List String := seen.map Prod.fst

namespace CacheConfig

variable (cache : CacheConfig)

/-- `_purge`: drop leading entries until one has not expired. -/
def purge (now : Int) (seen : Seen) : Seen :=
  seen.dropWhile fun entry => !decide (now - entry.2 < cache.ttlSeconds)

/-- `_trim`: drop leading entries until there are at most `max_entries`. -/
def trim (seen : Seen) : Seen := seen.drop (seen.length - cache.maxEntries)

/-- `OrderedDict.move_to_end`. -/
def moveToEnd (key : String) (seen : Seen) : Seen :=
  seen.filter (fun entry => entry.1 ≠ key) ++ seen.filter (fun entry => entry.1 = key)

/-- `check_and_store`: whether the key is new, and the entries afterwards. -/
def checkAndStore (key : String) (now : Int) (seen : Seen) : Bool × Seen :=
  let seen := cache.purge now seen
  if key ∈ seen.keys then (false, moveToEnd key seen)
  else (true, cache.trim (seen ++ [(key, now)]))

theorem purge_subset (now : Int) (seen : Seen) : cache.purge now seen ⊆ seen :=
  (List.dropWhile_suffix _).subset

theorem checkAndStore_duplicate {key : String} {now : Int} {seen : Seen}
    (h : (cache.checkAndStore key now seen).1 = false) :
    key ∈ seen.keys ∧ (cache.checkAndStore key now seen).2.keys ⊆ seen.keys := by
  have hpurge : (cache.purge now seen).keys ⊆ seen.keys :=
    List.map_subset _ (cache.purge_subset now seen)
  unfold checkAndStore at h ⊢
  by_cases hmem : key ∈ (cache.purge now seen).keys
  · refine ⟨hpurge hmem, ?_⟩
    simp only [if_pos hmem]
    intro k hk
    obtain ⟨entry, hentry, rfl⟩ := List.mem_map.1 hk
    apply hpurge
    apply List.mem_map_of_mem
    rcases List.mem_append.1 hentry with hentry | hentry
    · exact List.mem_of_mem_filter hentry
    · exact List.mem_of_mem_filter hentry
  · simp only [if_neg hmem] at h
    cases h

theorem checkAndStore_new {key : String} {now : Int} {seen : Seen}
    (h : (cache.checkAndStore key now seen).1 = true) :
    (cache.checkAndStore key now seen).2.keys ⊆ key :: seen.keys := by
  unfold checkAndStore at h ⊢
  by_cases hmem : key ∈ (cache.purge now seen).keys
  · simp only [if_pos hmem] at h
    cases h
  · simp only [if_neg hmem]
    intro k hk
    obtain ⟨entry, hentry, rfl⟩ := List.mem_map.1 hk
    rcases List.mem_append.1 (List.mem_of_mem_drop hentry) with hold | hnew
    · exact List.mem_cons_of_mem _ (List.mem_map_of_mem (cache.purge_subset now seen hold))
    · rw [List.mem_singleton.1 hnew]
      exact List.mem_cons_self ..

end CacheConfig

/-! ## Requests -/

/-- `access_control_mode`. -/
inductive AccessControlMode where
  | compatibility
  | scopedAccess
  deriving DecidableEq, Repr

/-- What `post_events` reads of a request. `sessionBlank` says that `data.session_id` is missing,
no string or blank, `timestampValid` that `_validate_data_timestamp` accepts `data.timestamp`. -/
structure EventRequest where
  idempotencyKey : Option String
  replay : Bool
  contributor : Option String
  workspace : String
  sessionBlank : Bool
  timestampValid : Bool
  deriving DecidableEq, Repr

/-- The key under which a request is remembered: in scoped mode it is bound to the contributor and
the workspace. A missing or empty key is none. -/
def EventRequest.effectiveKey (mode : AccessControlMode) (r : EventRequest) : Option String :=
  match r.idempotencyKey with
  | none => none
  | some "" => none
  | some key =>
    if mode = .scopedAccess then
      some (r.contributor.getD "None" ++ "\x1f" ++ r.workspace ++ "\x1f" ++ key)
    else some key

inductive Rejection where
  | badTimestamp
  | forbidden
  | sessionRequired
  | sessionConflict
  deriving DecidableEq, Repr

inductive Answer where
  | rejected (why : Rejection)
  | duplicate (key : String)
  | queued
  | failed
  deriving DecidableEq, Repr

/-- The checks before the cache is asked. `granted` and `claimed` are the outcomes of
`require_workspace_access` and of the session claim, which only scoped mode consults. -/
def guards (mode : AccessControlMode) (granted claimed : Bool) (r : EventRequest) :
    Except Rejection Unit :=
  if !r.timestampValid then .error .badTimestamp
  else if mode = .compatibility then .ok ()
  else if !granted then .error .forbidden
  else if r.sessionBlank then .error .sessionRequired
  else if r.contributor.getD "" = "" || !claimed then .error .sessionConflict
  else .ok ()

/-- Where a request in flight stands: past the guards, past the cache check without a key of its
own in the cache, or past it with its key stored. -/
inductive Phase where
  | arrived
  | unkeyed
  | stored
  deriving DecidableEq, Repr

structure InFlight where
  request : EventRequest
  phase : Phase
  deriving DecidableEq, Repr

/-- The server: the cache, the requests in flight, those whose record is completely in a durable
log, and the answers given. -/
structure Server where
  seen : Seen
  inFlight : List InFlight
  durable : List EventRequest
  answers : List Answer
  deriving DecidableEq, Repr

/-- How the append of a request ends: the record is written and the request answered, written but
the request cancelled while the write settled, or not written completely. -/
inductive AppendOutcome where
  | written
  | cancelled
  | failed
  deriving DecidableEq, Repr

/-- One step of the server. `index` names a request in flight; `abort` is a failure or a
cancellation anywhere outside the append. -/
inductive IngestAction where
  | receive (request : EventRequest) (granted claimed : Bool)
  | check (index : Nat) (now : Int)
  | append (index : Nat) (outcome : AppendOutcome)
  | abort (index : Nat)
  | restart
  deriving DecidableEq, Repr

namespace Server

def initial : Server := ⟨[], [], [], []⟩

def receive (mode : AccessControlMode) (r : EventRequest) (granted claimed : Bool) (s : Server) :
    Server :=
  match guards mode granted claimed r with
  | .error why => { s with answers := s.answers ++ [.rejected why] }
  | .ok () => { s with inFlight := s.inFlight ++ [⟨r, .arrived⟩] }

/-- The key a request asks the cache for: none without a key or in a replay. -/
def askedKey (mode : AccessControlMode) (r : EventRequest) : Option String :=
  if r.replay then none else r.effectiveKey mode

def check (mode : AccessControlMode) (cache : CacheConfig) (index : Nat) (now : Int) (s : Server) :
    Server :=
  match s.inFlight[index]? with
  | some ⟨r, .arrived⟩ =>
    match askedKey mode r with
    | none => { s with inFlight := s.inFlight.set index ⟨r, .unkeyed⟩ }
    | some key =>
      let (isNew, seen) := cache.checkAndStore key now s.seen
      if isNew then { s with seen := seen, inFlight := s.inFlight.set index ⟨r, .stored⟩ }
      else { s with
        seen := seen
        inFlight := s.inFlight.eraseIdx index
        answers := s.answers ++ [.duplicate key] }
  | _ => s

/-- The durable append of a request that passed the cache check. -/
def append (index : Nat) (outcome : AppendOutcome) (s : Server) : Server :=
  match s.inFlight[index]? with
  | none => s
  | some ⟨_, .arrived⟩ => s
  | some ⟨r, _⟩ =>
    let left := { s with inFlight := s.inFlight.eraseIdx index }
    match outcome with
    | .written =>
      { left with durable := s.durable ++ [r], answers := s.answers ++ [.queued] }
    | .cancelled =>
      { left with durable := s.durable ++ [r], answers := s.answers ++ [.failed] }
    | .failed => { left with answers := s.answers ++ [.failed] }

def abort (index : Nat) (s : Server) : Server :=
  { s with inFlight := s.inFlight.eraseIdx index, answers := s.answers ++ [.failed] }

end Server

/-- A restart forgets the cache and the requests in flight; the logs stay. -/
def ingestStep (mode : AccessControlMode) (cache : CacheConfig) (s : Server) : IngestAction → Server
  | .receive request granted claimed => s.receive mode request granted claimed
  | .check index now => s.check mode cache index now
  | .append index outcome => s.append index outcome
  | .abort index => s.abort index
  | .restart => { s with seen := [], inFlight := [] }

/-! ## The property and its condition -/

section Runs

variable (mode : AccessControlMode) (cache : CacheConfig)

/-- The record of some request with this key is in a durable log. -/
def KeyDurable (s : Server) (key : String) : Prop :=
  ∃ r ∈ s.durable, r.effectiveKey mode = some key

/-- Some request in flight has stored this key and not appended yet. -/
def KeyHeld (s : Server) (key : String) : Prop :=
  ∃ f ∈ s.inFlight, f.phase = .stored ∧ f.request.effectiveKey mode = some key

/-- Whenever a request was answered "duplicate", the record of another one with the same key is in
a durable log. -/
def DuplicatesSafe (s : Server) : Prop :=
  ∀ key, Answer.duplicate key ∈ s.answers → KeyDurable mode s key

/-- A request that gives up either has no key in the cache, or one whose record is durable. -/
def GivesUpSafely (s : Server) (index : Nat) : Prop :=
  ∀ f, s.inFlight[index]? = some f → f.phase = .stored →
    ∀ key, f.request.effectiveKey mode = some key → key ∉ s.seen.keys ∨ KeyDurable mode s key

/-- The condition on one step: a request whose append fails, or that is aborted, gives up safely,
and no request asks for a key that is held and not durable yet. -/
def Completes (s : Server) : IngestAction → Prop
  | .check index _ => ∀ f, s.inFlight[index]? = some f →
      ∀ key, Server.askedKey mode f.request = some key → KeyHeld mode s key → KeyDurable mode s key
  | .append index .failed => GivesUpSafely mode s index
  | .abort index => GivesUpSafely mode s index
  | _ => True

/-! ## The invariant -/

/-- A remembered key is durable, or held by a request that has still to append. -/
structure IngestInv (s : Server) : Prop where
  remembered : ∀ key ∈ s.seen.keys, KeyDurable mode s key ∨ KeyHeld mode s key
  duplicates : DuplicatesSafe mode s

variable {mode cache}

theorem ingestInv_initial : IngestInv mode Server.initial := ⟨nofun, nofun⟩

variable {key : String}

theorem effectiveKey_of_askedKey {r : EventRequest}
    (h : Server.askedKey mode r = some key) : r.effectiveKey mode = some key := by
  unfold Server.askedKey at h
  split at h
  · cases h
  · exact h

theorem IngestInv.of_kept {s s' : Server} (h : IngestInv mode s) (hdurable : s.durable ⊆ s'.durable)
    (hanswers : ∀ key, Answer.duplicate key ∈ s'.answers → Answer.duplicate key ∈ s.answers)
    (hkeys : ∀ key ∈ s'.seen.keys, KeyDurable mode s' key ∨ KeyHeld mode s' key) :
    IngestInv mode s' := by
  refine ⟨hkeys, ?_⟩
  intro key hkey
  obtain ⟨r, hr, hrkey⟩ := h.duplicates key (hanswers key hkey)
  exact ⟨r, hdurable hr, hrkey⟩

theorem duplicate_mem_concat {answers : List Answer} {a : Answer}
    (ha : a ≠ .duplicate key) (h : Answer.duplicate key ∈ answers ++ [a]) :
    Answer.duplicate key ∈ answers := by
  rcases List.mem_append.1 h with h | h
  · exact h
  · exact absurd (List.mem_singleton.1 h).symm ha

variable {index : Nat}

theorem mem_set_of_ne {l : List InFlight} {f g new : InFlight} (hf : f ∈ l)
    (hg : l[index]? = some g) (hne : f ≠ g) : f ∈ l.set index new := by
  obtain ⟨j, hj⟩ := List.mem_iff_getElem?.1 hf
  have hidx : index ≠ j := by
    rintro rfl
    rw [hg] at hj
    exact hne (Option.some.inj hj).symm
  apply List.mem_iff_getElem?.2
  exact ⟨j, by rw [List.getElem?_set_ne hidx]; exact hj⟩

theorem mem_eraseIdx_of_ne {l : List InFlight} {f : InFlight} (hf : f ∈ l)
    (hne : l[index]? ≠ some f) : f ∈ l.eraseIdx index := by
  obtain ⟨j, hj⟩ := List.mem_iff_getElem?.1 hf
  apply List.mem_eraseIdx_iff_getElem?.2
  refine ⟨j, ?_, hj⟩
  rintro rfl
  exact hne hj

theorem KeyHeld.erase {s : Server} (h : KeyHeld mode s key)
    (durable : List EventRequest) (answers : List Answer) (seen : Seen) :
    KeyHeld mode ⟨seen, s.inFlight.eraseIdx index, durable, answers⟩ key
      ∨ ∃ f, s.inFlight[index]? = some f ∧ f.phase = .stored
          ∧ f.request.effectiveKey mode = some key := by
  obtain ⟨f, hf, hphase, hkey⟩ := h
  by_cases hidx : s.inFlight[index]? = some f
  · exact .inr ⟨f, hidx, hphase, hkey⟩
  · exact .inl ⟨f, mem_eraseIdx_of_ne hf hidx, hphase, hkey⟩

/-! ## The steps -/

theorem IngestInv.receive {s : Server} (h : IngestInv mode s) (r : EventRequest)
    (granted claimed : Bool) : IngestInv mode (s.receive mode r granted claimed) := by
  unfold Server.receive
  split
  · exact h.of_kept (List.Subset.refl _) (fun _ => duplicate_mem_concat nofun) h.remembered
  · refine h.of_kept (List.Subset.refl _) (fun _ hkey => hkey) ?_
    intro key hkey
    rcases h.remembered key hkey with hdurable | ⟨f, hf, hheld⟩
    · exact .inl hdurable
    · exact .inr ⟨f, List.mem_append_left _ hf, hheld⟩

theorem IngestInv.givesUp {s : Server} (h : IngestInv mode s) (hsafe : GivesUpSafely mode s index) :
    IngestInv mode { s with
      inFlight := s.inFlight.eraseIdx index, answers := s.answers ++ [.failed] } := by
  refine h.of_kept (List.Subset.refl _) (fun _ => duplicate_mem_concat nofun) ?_
  intro key hkey
  rcases h.remembered key hkey with hdurable | hheld
  · exact .inl hdurable
  · rcases hheld.erase s.durable (s.answers ++ [.failed]) s.seen with hheld | ⟨f, hf, hphase, hown⟩
    · exact .inr hheld
    · rcases hsafe f hf hphase key hown with hforgets | hdurable
      · exact absurd hkey hforgets
      · exact .inl hdurable

theorem IngestInv.appended {s : Server} (h : IngestInv mode s) {index : Nat} {f : InFlight}
    (hf : s.inFlight[index]? = some f) {a : Answer} (ha : ∀ key, a ≠ .duplicate key) :
    IngestInv mode { s with
      inFlight := s.inFlight.eraseIdx index
      durable := s.durable ++ [f.request]
      answers := s.answers ++ [a] } := by
  refine h.of_kept (List.subset_append_left _ _) (fun key => duplicate_mem_concat (ha key)) ?_
  intro key hkey
  rcases h.remembered key hkey with ⟨r, hr, hrkey⟩ | hheld
  · exact .inl ⟨r, List.mem_append_left _ hr, hrkey⟩
  · rcases hheld.erase (s.durable ++ [f.request]) (s.answers ++ [a]) s.seen
      with hheld | ⟨g, hg, _, hown⟩
    · exact .inr hheld
    · -- the key was its own, and its record is in the log now
      rw [hf] at hg
      cases hg
      exact .inl ⟨f.request, List.mem_append_right _ (List.mem_singleton.2 rfl), hown⟩

theorem IngestInv.append {s : Server} (h : IngestInv mode s) {index : Nat}
    {outcome : AppendOutcome} (hclean : Completes mode s (.append index outcome)) :
    IngestInv mode (s.append index outcome) := by
  unfold Server.append
  split
  · exact h
  · exact h
  · rename_i r phase _ hidx
    cases outcome with
    | written => exact h.appended hidx nofun
    | cancelled => exact h.appended hidx nofun
    | failed => exact h.givesUp hclean

theorem KeyHeld.set {s : Server} {index : Nat} {r : EventRequest} {key : String}
    (h : KeyHeld mode s key) (hidx : s.inFlight[index]? = some ⟨r, .arrived⟩) (new : InFlight)
    (seen : Seen) :
    KeyHeld mode { s with seen := seen, inFlight := s.inFlight.set index new } key := by
  obtain ⟨f, hf, hphase, hkey⟩ := h
  refine ⟨f, mem_set_of_ne hf hidx ?_, hphase, hkey⟩
  rintro rfl
  cases hphase

theorem IngestInv.check {s : Server} (h : IngestInv mode s) {index : Nat} {now : Int}
    (hclean : Completes mode s (.check index now)) :
    IngestInv mode (s.check mode cache index now) := by
  unfold Server.check
  split
  · rename_i r hidx
    split
    · -- nothing is asked
      refine h.of_kept (List.Subset.refl _) (fun _ hkey => hkey) ?_
      intro key hkey
      rcases h.remembered key hkey with hdurable | hheld
      · exact .inl hdurable
      · exact .inr (hheld.set hidx ⟨r, .unkeyed⟩ s.seen)
    · rename_i key hask
      cases hnew : (cache.checkAndStore key now s.seen).1 with
      | true =>
        have hkeys := cache.checkAndStore_new hnew
        simp only [hnew, if_true]
        refine h.of_kept (List.Subset.refl _) (fun _ hkey => hkey) ?_
        intro k hk
        rcases List.mem_cons.1 (hkeys hk) with rfl | hold
        · -- its own key is held by the request itself
          right
          refine ⟨⟨r, .stored⟩, ?_, rfl, effectiveKey_of_askedKey hask⟩
          exact List.mem_set (List.getElem?_eq_some_iff.1 hidx).1 _
        · rcases h.remembered k hold with hdurable | hheld
          · exact .inl hdurable
          · exact .inr (hheld.set hidx ⟨r, .stored⟩ _)
      | false =>
        obtain ⟨hmem, hkeys⟩ := cache.checkAndStore_duplicate hnew
        have hdurable : KeyDurable mode s key := by
          rcases h.remembered key hmem with hdurable | hheld
          · exact hdurable
          · exact hclean _ hidx key hask hheld
        simp only [hnew, Bool.false_eq_true, if_false]
        constructor
        · intro k hk
          rcases h.remembered k (hkeys hk) with hdurable | hheld
          · exact .inl hdurable
          · rcases hheld.erase s.durable (s.answers ++ [.duplicate key])
              (cache.checkAndStore key now s.seen).2 with hheld | ⟨f, hf, hphase, _⟩
            · exact .inr hheld
            · rw [hidx] at hf
              cases hf
              cases hphase
        · intro k hk
          rcases List.mem_append.1 hk with hold | hown
          · exact h.duplicates k hold
          · cases List.mem_singleton.1 hown
            exact hdurable
  · exact h

theorem ingestStep_inv (s : Server) (a : IngestAction) (h : IngestInv mode s)
    (hclean : Completes mode s a) : IngestInv mode (ingestStep mode cache s a) := by
  cases a with
  | receive request granted claimed => exact h.receive request granted claimed
  | check index now => exact h.check hclean
  | append index outcome => exact h.append hclean
  | abort index => exact h.givesUp hclean
  | restart => exact h.of_kept (List.Subset.refl _) (fun _ hkey => hkey) nofun

variable (mode cache)

/-- **No event is swallowed.** In every run in which a request that stored its key gives up only
when the key is forgotten or durable, and none asks for a key that is held and not durable, a
request is answered "duplicate" only when the record of one with the same key is durable. -/
theorem duplicatesSafe_of_completes (actions : List IngestAction)
    (h : Along (ingestStep mode cache) (Completes mode) Server.initial actions) :
    DuplicatesSafe mode (run (ingestStep mode cache) Server.initial actions) :=
  (h.invariant ingestStep_inv ingestInv_initial).duplicates

end Runs

/-- The defaults of `EventIdempotencyCache`. -/
def defaultCache : CacheConfig := ⟨7 * 24 * 60 * 60, 100000⟩

def keyedRequest : EventRequest := ⟨some "k", false, some "c", "w", false, true⟩

/-- The append of a request fails after its key was stored; the client retries. -/
def retryAfterFailure : List IngestAction :=
  [.receive keyedRequest true true, .check 0 0, .append 0 .failed,
    .receive keyedRequest true true, .check 0 1]

/-- The retry is answered "duplicate" although nothing was appended. -/
theorem retryAfterFailure_not_duplicatesSafe :
    ¬ DuplicatesSafe .compatibility
      (run (ingestStep .compatibility defaultCache) Server.initial retryAfterFailure) := by
  intro h
  have hanswer : Answer.duplicate "k"
        ∈ (run (ingestStep .compatibility defaultCache) Server.initial retryAfterFailure).answers
      ∧ (run (ingestStep .compatibility defaultCache) Server.initial retryAfterFailure).durable
        = [] := by
    decide
  obtain ⟨r, hr, _⟩ := h "k" hanswer.1
  rw [hanswer.2] at hr
  cases hr

/-- A retry after the record was appended, although the first request was cancelled. -/
theorem duplicatesSafe_of_completes_retry :
    DuplicatesSafe .compatibility (run (ingestStep .compatibility defaultCache) Server.initial
      [.receive keyedRequest true true, .check 0 0, .append 0 .cancelled,
        .receive keyedRequest true true, .check 0 1]) := by
  apply duplicatesSafe_of_completes
  refine ⟨trivial, ?_, trivial, trivial, ?_, trivial⟩
  · intro f hf key _ hheld
    obtain ⟨g, hg, hphase, _⟩ := hheld
    cases List.mem_singleton.1 hg
    cases hphase
  · intro f hf key hask _
    refine ⟨keyedRequest, by decide, ?_⟩
    cases Option.some.inj hf
    exact effectiveKey_of_askedKey hask

end ContextIntelligence.Ingest
