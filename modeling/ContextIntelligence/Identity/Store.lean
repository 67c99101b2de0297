import ContextIntelligence.Graph.Store
import ContextIntelligence.Lib.Runs

/-!
# The managed identity store

A managed `IdentityStore` works only under an attached lock: a failed ownership check or a replaced
file whose durability is unknown latches it until it is stopped and attached anew. A `load` that
cannot read the file, and a rename that takes effect although the call fails, are not treated so;
apart from these the store fails closed (`failsClosed_iff_certain`).
-/

namespace ContextIntelligence.Identity

open Lib Lib.Runs ContextIntelligence.Graph

/-! ## Credentials -/

/-- The entry of a key: a JSON object, normally with `id` and `display_name`. -/
structure Meta where
  fields : List (String × Json)

abbrev Credentials := Dict String Meta

/-- The contributor an entry is for: its `id`, if that is not blank. -/
def Meta.contributor (entry : Meta) : Option Json :=
  ((entry.fields.find? fun field => field.1 = "id").map Prod.snd).filter Json.truthy

/-- `_rebuild_flat`. -/
def project (data : Credentials) (key : String) : Option Json :=
  (data.get key).bind Meta.contributor

/-- What `json.loads` makes of the bytes of the file. -/
inductive Parsed where
  | corrupt
  | notObject
  | object (entries : Dict String Json)

def accept (entries : Dict String Json) : Credentials where
  entries := entries.entries.filterMap fun entry =>
    match entry.2 with
    | .obj fields => some (entry.1, ⟨fields⟩)
    | _ => none
  nodup := by
    refine entries.nodup.sublist ?_
    have hsub : ∀ l : List (String × Json),
        ((l.filterMap fun entry =>
          match entry.2 with
          | .obj fields => some (entry.1, Meta.mk fields)
          | _ => none).map Prod.fst).Sublist (l.map Prod.fst) := by
      intro l
      induction l with
      | nil => exact List.Sublist.slnil
      | cons entry rest ih =>
        obtain ⟨key, value⟩ := entry
        cases value with
        | obj fields => exact ih.cons_cons key
        | _ => exact ih.cons key
    exact hsub _

abbrev Bytes := List UInt8

/-- `json` and UTF-8: what is written is read back. -/
structure Format where
  /-- `none` where the text cannot be encoded. -/
  encode : Credentials → Option Bytes
  parse : Bytes → Parsed
  parse_encode : ∀ data bytes, encode data = some bytes →
    parse bytes = .object (data.mapValues fun _ entry => .obj entry.fields)

/-- The credentials a file holds; none where there is no file or its content is of no use. -/
def held (f : Format) : Option Bytes → Credentials
  | none => Dict.empty
  | some bytes =>
    match f.parse bytes with
    | .object entries => accept entries
    | .corrupt | .notObject => Dict.empty

theorem accept_mapValues (data : Credentials) :
    accept (data.mapValues fun _ entry => .obj entry.fields) = data := by
  obtain ⟨entries, nodup⟩ := data
  simp only [accept, Dict.mapValues, List.filterMap_map, Dict.mk.injEq]
  exact List.filterMap_some

theorem held_encode (f : Format) {data : Credentials} {bytes : Bytes}
    (h : f.encode data = some bytes) : held f (some bytes) = data := by
  simp only [held, f.parse_encode data bytes h, accept_mapValues]

/-! ## The store -/

structure IdentityStore where
  file : Option Bytes
  data : Credentials
  flatDict : String → Option Json
  /-- A lock is attached. -/
  attached : Bool
  stopped : Bool
  ownershipFailed : Bool

inductive Failure where
  | ownership (message : String)
  | io
  | encoding
  deriving DecidableEq, Repr

inductive Outcome where
  | done
  | answer (value : Bool)
  | raised (failure : Failure)
  deriving DecidableEq, Repr

inductive ReadOutcome where
  | notOwned
  | failed
  | read
  deriving DecidableEq, Repr

/-- How `write_store_atomic` ends. -/
inductive WriteOutcome where
  | notOwned
  /-- The temporary file cannot be written, or the rename fails and has no effect. -/
  | notWritten
  /-- The rename takes effect and its call fails all the same. -/
  | replacedUnseen
  /-- The rename succeeds, the sync of the directory fails. -/
  | unsynced
  | written
  deriving DecidableEq, Repr

inductive Operation where
  | attach
  | stop
  | healthy (ownedByThisProcess owned : Bool)
  | fileExists (outcome : ReadOutcome)
  | load (outcome : ReadOutcome)
  | put (key : String) (value : Meta) (outcome : WriteOutcome)
  | delete (key : String) (outcome : WriteOutcome)
  | seed (data : Credentials) (outcome : WriteOutcome)

namespace IdentityStore

def managed (file : Option Bytes) : IdentityStore :=
  ⟨file, Dict.empty, fun _ => none, false, true, false⟩

def latch (s : IdentityStore) : IdentityStore :=
  { s with ownershipFailed := true, flatDict := fun _ => none }

/-- `_require_ownership`: why the store refuses to work, if it does. -/
def refusal (s : IdentityStore) : Option Failure :=
  if s.stopped then some (.ownership "identity store is stopped")
  else if s.ownershipFailed then some (.ownership "identity store ownership was lost")
  else if !s.attached then some (.ownership "identity store has no owner attached")
  else none

/-- `_write_atomic`. -/
def writeAtomic (f : Format) (new : Credentials) (outcome : WriteOutcome) (s : IdentityStore) :
    Option Failure × IdentityStore :=
  match f.encode new with
  | none => (some .encoding, s)
  | some payload =>
    match outcome with
    | .notOwned => (some (.ownership "identity store is not owned"), s.latch)
    | .notWritten => (some .io, s)
    | .replacedUnseen => (some .io, { s with file := some payload })
    | .unsynced =>
      (some (.ownership "identity store was replaced but the directory sync failed"),
        { s with file := some payload }.latch)
    | .written => (none, { s with file := some payload })

/-- `put`, `delete` and `seed`: the file first, the maps only after it. -/
def mutate (f : Format) (s : IdentityStore) (new : Credentials) (outcome : WriteOutcome)
    (update : IdentityStore → IdentityStore) : Outcome × IdentityStore :=
  match s.refusal with
  | some failure => (.raised failure, s)
  | none =>
    match s.writeAtomic f new outcome with
    | (some failure, s') => (.raised failure, s')
    | (none, s') => (.done, update s')

def put (f : Format) (key : String) (value : Meta) (outcome : WriteOutcome) (s : IdentityStore) :
    Outcome × IdentityStore :=
  s.mutate f (s.data.set key value) outcome fun s =>
    { s with
      data := s.data.set key value
      flatDict := Function.update s.flatDict key value.contributor }

def delete (f : Format) (key : String) (outcome : WriteOutcome) (s : IdentityStore) :
    Outcome × IdentityStore :=
  s.mutate f (s.data.erase key) outcome fun s =>
    { s with data := s.data.erase key, flatDict := Function.update s.flatDict key none }

/-- `seed` of a managed store. -/
def seed (f : Format) (data : Credentials) (outcome : WriteOutcome) (s : IdentityStore) :
    Outcome × IdentityStore :=
  s.mutate f data outcome fun s => { s with data := data, flatDict := project data }

/-- `load` of a managed store; an unusable content is an empty map. -/
def load (f : Format) (outcome : ReadOutcome) (s : IdentityStore) : Outcome × IdentityStore :=
  match s.refusal with
  | some failure => (.raised failure, s)
  | none =>
    match outcome with
    | .notOwned => (.raised (.ownership "identity store is not owned"), s.latch)
    | .failed => (.raised .io, { s with data := Dict.empty, flatDict := project Dict.empty })
    | .read => (.done, { s with data := held f s.file, flatDict := project (held f s.file) })

def healthy (ownedByThisProcess owned : Bool) (s : IdentityStore) : Outcome × IdentityStore :=
  if s.stopped ∨ s.ownershipFailed ∨ !s.attached ∨ !ownedByThisProcess then (.answer false, s)
  else if owned then (.answer true, s)
  else (.answer false, s.latch)

def fileExists (outcome : ReadOutcome) (s : IdentityStore) : Outcome × IdentityStore :=
  match s.refusal with
  | some failure => (.raised failure, s)
  | none =>
    match outcome with
    | .notOwned => (.raised (.ownership "identity store is not owned"), s.latch)
    | .failed => (.raised .io, s)
    | .read => (.answer s.file.isSome, s)

def perform (f : Format) (s : IdentityStore) : Operation → Outcome × IdentityStore
  | .attach => (.done, { s with attached := true, stopped := false, ownershipFailed := false })
  | .stop => (.done, { s with
      stopped := true, attached := false, data := Dict.empty, flatDict := fun _ => none })
  | .healthy ownedByThisProcess owned => s.healthy ownedByThisProcess owned
  | .fileExists outcome => s.fileExists outcome
  | .load outcome => s.load f outcome
  | .put key value outcome => s.put f key value outcome
  | .delete key outcome => s.delete f key outcome
  | .seed data outcome => s.seed f data outcome

end IdentityStore

def storeStep (f : Format) (s : IdentityStore) (op : Operation) : IdentityStore :=
  (s.perform f op).2

/-! ## What failing closed means -/

section Closed

variable (f : Format)

def Served (s : IdentityStore) : Prop :=
  ∀ key contributor, s.flatDict key = some contributor →
    project (held f s.file) key = some contributor

structure Agrees (s : IdentityStore) : Prop where
  data : s.data = held f s.file
  flat : s.flatDict = project s.data

def Refuses (s : IdentityStore) : Prop := s.refusal.isSome

instance (s : IdentityStore) : Decidable (Refuses s) := inferInstanceAs (Decidable (_ = true))

def Unchanged (s s' : IdentityStore) : Prop :=
  s'.file = s.file ∧ s'.data = s.data ∧ s'.flatDict = s.flatDict

def Operation.ofCredentials : Operation → Bool
  | .load _ | .put _ _ _ | .delete _ _ | .seed _ _ => true
  | _ => false

def Operation.isAttach : Operation → Bool
  | .attach => true
  | _ => false

/-- What is served is in the file; an operation that fails changes nothing or latches the store; and
a store that refuses goes on refusing, answers no operation on credentials and is not healthy. -/
structure FailsClosed (s : IdentityStore) (op : Operation) : Prop where
  served : Served f (storeStep f s op)
  agrees : op.ofCredentials → (s.perform f op).1 = .done → Agrees f (storeStep f s op)
  raised : ∀ failure, (s.perform f op).1 = .raised failure →
    Unchanged s (storeStep f s op)
      ∨ (storeStep f s op).flatDict = (fun _ => none) ∧ Refuses (storeStep f s op)
  refuses : Refuses s → op.isAttach = false → Refuses (storeStep f s op)
    ∧ (op.ofCredentials → Unchanged s (storeStep f s op)
      ∧ ∃ failure, (s.perform f op).1 = .raised failure)
  unhealthy : Refuses s → ∀ ownedByThisProcess owned, op = .healthy ownedByThisProcess owned →
    (s.perform f op).1 = .answer false

def AttachesStopped (s : IdentityStore) : Operation → Prop
  | .attach => s.stopped
  | _ => True

def Operation.writes (s : IdentityStore) : Operation → Option (Credentials × WriteOutcome)
  | .put key value outcome => some (s.data.set key value, outcome)
  | .delete key outcome => some (s.data.erase key, outcome)
  | .seed data outcome => some (data, outcome)
  | _ => none

/-- A store in service is not asked to load a file that cannot be read, unless its maps are empty,
and no rename takes effect behind a failing call, unless it changes nothing. -/
def Certain (s : IdentityStore) (op : Operation) : Prop :=
  Refuses s ∨ (match op with
    | .load .failed => s.data = Dict.empty ∧ s.flatDict = fun _ => none
    | _ => ∀ new, op.writes s = some (new, .replacedUnseen) →
        ∀ payload, f.encode new = some payload → s.file = some payload)

end Closed

/-! ## The invariant -/

section Steps

variable {f : Format} {s : IdentityStore}

structure Kept (f : Format) (s : IdentityStore) : Prop where
  stopped : s.stopped → s.data = Dict.empty ∧ s.flatDict = fun _ => none
  latched : s.ownershipFailed → s.flatDict = fun _ => none
  active : s.stopped = false → s.ownershipFailed = false →
    s.flatDict = project s.data ∧ (s.data = Dict.empty ∨ s.data = held f s.file)

theorem project_empty : project Dict.empty = fun _ => none := rfl

theorem served_of_empty (h : s.flatDict = fun _ => none) : Served f s := by
  intro key contributor hkey
  rw [h] at hkey
  cases hkey

theorem Kept.served (h : Kept f s) : Served f s := by
  by_cases hstop : s.stopped
  · exact served_of_empty (h.stopped hstop).2
  · by_cases hfail : s.ownershipFailed
    · exact served_of_empty (h.latched hfail)
    · obtain ⟨hflat, hdata | hdata⟩ := h.active (by simpa using hstop) (by simpa using hfail)
      · exact served_of_empty (by rw [hflat, hdata, project_empty])
      · intro key contributor hkey
        rw [hflat, hdata] at hkey
        exact hkey

theorem Agrees.kept (h : Agrees f s) (hstop : s.stopped = false)
    (hfail : s.ownershipFailed = false) : Kept f s where
  stopped hs := by simp [hstop] at hs
  latched hl := by simp [hfail] at hl
  active _ _ := ⟨h.flat, Or.inr h.data⟩

theorem refusal_eq_none :
    s.refusal = none ↔ s.stopped = false ∧ s.ownershipFailed = false ∧ s.attached := by
  unfold IdentityStore.refusal
  cases s.stopped <;> cases s.ownershipFailed <;> cases s.attached <;> simp

theorem refuses_iff : Refuses s ↔ s.stopped ∨ s.ownershipFailed ∨ s.attached = false := by
  unfold Refuses IdentityStore.refusal
  cases s.stopped <;> cases s.ownershipFailed <;> cases s.attached <;> simp

theorem refuses_latch (s : IdentityStore) : Refuses s.latch := by
  simp [refuses_iff, IdentityStore.latch]

theorem kept_latch (h : Kept f s) (file : Option Bytes) : Kept f { s with file := file }.latch where
  stopped hs := ⟨(h.stopped hs).1, rfl⟩
  latched _ := rfl
  active _ hf := by simp [IdentityStore.latch] at hf

/-- The end of an operation that only reads, or of one that is refused. -/
structure Ends (f : Format) (s s' : IdentityStore) (out : Outcome) : Prop where
  kept : Kept f s'
  agrees : out = .done → Agrees f s'
  raised : ∀ failure, out = .raised failure →
    Unchanged s s' ∨ s'.flatDict = (fun _ => none) ∧ Refuses s'

theorem ends_refused (h : Kept f s) (failure : Failure) : Ends f s s (.raised failure) :=
  ⟨h, fun hout => (nomatch hout), fun _ _ => Or.inl ⟨rfl, rfl, rfl⟩⟩

theorem ends_latched (h : Kept f s) (file : Option Bytes) (failure : Failure) :
    Ends f s { s with file := file }.latch (.raised failure) :=
  ⟨kept_latch h file, fun hout => (nomatch hout), fun _ _ => Or.inr ⟨rfl, refuses_latch _⟩⟩

theorem ends_mutate (h : Kept f s) {new : Credentials} {outcome : WriteOutcome}
    {update : IdentityStore → IdentityStore}
    (hupd : ∀ file, s.flatDict = project s.data → let s' := update { s with file := file }
      s'.file = file ∧ s'.data = new ∧ s'.flatDict = project new
        ∧ s'.stopped = s.stopped ∧ s'.ownershipFailed = s.ownershipFailed)
    (hcert : Refuses s ∨ (outcome = .replacedUnseen →
      ∀ payload, f.encode new = some payload → s.file = some payload)) :
    Ends f s (s.mutate f new outcome update).2 (s.mutate f new outcome update).1 := by
  unfold IdentityStore.mutate
  cases href : s.refusal with
  | some failure => exact ends_refused h failure
  | none =>
    obtain ⟨hstop, hfail, -⟩ := refusal_eq_none.1 href
    have hcert := hcert.resolve_left (by simp [Refuses, href])
    unfold IdentityStore.writeAtomic
    cases henc : f.encode new with
    | none => exact ends_refused h _
    | some payload =>
      cases outcome with
      | notOwned => exact ends_latched h s.file _
      | notWritten => exact ends_refused h _
      | replacedUnseen =>
        -- the file was replaced, but by what it held
        have hfile : { s with file := some payload } = s := by
          rw [← hcert rfl payload henc]
        simp only [hfile]
        exact ends_refused h _
      | unsynced => exact ends_latched h (some payload) _
      | written =>
        obtain ⟨hfile, hdata, hflat, hstop', hfail'⟩ :=
          hupd (some payload) (h.active hstop hfail).1
        have hagrees : Agrees f (update { s with file := some payload }) :=
          ⟨by rw [hdata, hfile, held_encode f henc], by rw [hflat, hdata]⟩
        exact ⟨hagrees.kept (hstop'.trans hstop) (hfail'.trans hfail),
          fun _ => hagrees, fun _ hraise => (nomatch hraise)⟩

theorem project_set (data : Credentials) (key : String) (value : Meta) :
    Function.update (project data) key value.contributor = project (data.set key value) := by
  funext key'
  by_cases hkey : key' = key
  · subst hkey
    simp [project]
  · rw [Function.update_of_ne hkey, project, project, Dict.get_set_of_ne _ (Ne.symm hkey)]

theorem project_erase (data : Credentials) (key : String) :
    Function.update (project data) key none = project (data.erase key) := by
  funext key'
  by_cases hkey : key' = key
  · subst hkey
    simp [project, Dict.get_erase]
  · rw [Function.update_of_ne hkey, project, project, Dict.get_erase, if_neg (Ne.symm hkey)]

variable {op : Operation}

theorem ends_perform (h : Kept f s) (hop : op.ofCredentials)
    (hcert : Certain f s op) : Ends f s (s.perform f op).2 (s.perform f op).1 := by
  cases op with
  | load outcome =>
    simp only [IdentityStore.perform, IdentityStore.load]
    cases href : s.refusal with
    | some failure => exact ends_refused h failure
    | none =>
      obtain ⟨hstop, hfail, -⟩ := refusal_eq_none.1 href
      cases outcome with
      | notOwned => exact ends_latched h s.file _
      | failed =>
        -- the maps were empty before they were emptied
        obtain ⟨hdata, hflat⟩ := hcert.resolve_left (by simp [Refuses, href])
        have hsame : { s with data := Dict.empty, flatDict := project Dict.empty } = s := by
          rw [project_empty, ← hdata, ← hflat]
        simp only [hsame]
        exact ends_refused h _
      | read =>
        have hagrees : Agrees f
            { s with data := held f s.file, flatDict := project (held f s.file) } :=
          ⟨rfl, rfl⟩
        exact ⟨hagrees.kept hstop hfail, fun _ => hagrees,
          fun _ hraise => (nomatch hraise)⟩
  | put key value outcome =>
    refine ends_mutate h (fun file hflat => ?_) (hcert.imp_right fun hc hout => ?_)
    · exact ⟨rfl, rfl, by rw [hflat, project_set], rfl, rfl⟩
    · exact hc _ (by rw [Operation.writes, hout])
  | delete key outcome =>
    refine ends_mutate h (fun file hflat => ?_) (hcert.imp_right fun hc hout => ?_)
    · exact ⟨rfl, rfl, by rw [hflat, project_erase], rfl, rfl⟩
    · exact hc _ (by rw [Operation.writes, hout])
  | seed data outcome =>
    refine ends_mutate h (fun file _ => ?_) (hcert.imp_right fun hc hout => ?_)
    · exact ⟨rfl, rfl, rfl, rfl, rfl⟩
    · exact hc _ (by rw [Operation.writes, hout])
  | _ => cases hop

theorem kept_of_not_ofCredentials (h : Kept f s) (hop : op.ofCredentials = false)
    (hattach : AttachesStopped s op) : Kept f (storeStep f s op) := by
  cases op with
  | attach =>
    obtain ⟨hdata, hflat⟩ := h.stopped hattach
    have hproject : s.flatDict = project s.data := by rw [hflat, hdata, project_empty]
    exact ⟨fun hs => (nomatch hs), fun hl => (nomatch hl), fun _ _ => ⟨hproject, Or.inl hdata⟩⟩
  | stop => exact ⟨fun _ => ⟨rfl, rfl⟩, fun _ => rfl, fun hs => (nomatch hs)⟩
  | healthy ownedByThisProcess owned =>
    simp only [storeStep, IdentityStore.perform, IdentityStore.healthy]
    split
    · exact h
    · split
      · exact h
      · exact kept_latch h s.file
  | fileExists outcome =>
    simp only [storeStep, IdentityStore.perform, IdentityStore.fileExists]
    split
    · exact h
    · cases outcome with
      | notOwned => exact kept_latch h s.file
      | failed => exact h
      | read => exact h
  | _ => cases hop

theorem kept_step (s : IdentityStore) (op : Operation) (h : Kept f s)
    (hop : AttachesStopped s op ∧ Certain f s op) : Kept f (storeStep f s op) := by
  cases hcred : op.ofCredentials with
  | true => exact (ends_perform h hcred hop.2).kept
  | false => exact kept_of_not_ofCredentials h hcred hop.1

theorem raised_of_not_ofCredentials (hop : op.ofCredentials = false)
    {failure : Failure} (hraise : (s.perform f op).1 = .raised failure) :
    Unchanged s (storeStep f s op)
      ∨ (storeStep f s op).flatDict = (fun _ => none) ∧ Refuses (storeStep f s op) := by
  cases op with
  | attach => cases hraise
  | stop => cases hraise
  | healthy ownedByThisProcess owned =>
    simp only [IdentityStore.perform, IdentityStore.healthy] at hraise
    split at hraise
    · cases hraise
    · split at hraise <;> cases hraise
  | fileExists outcome =>
    simp only [storeStep, IdentityStore.perform, IdentityStore.fileExists]
    split
    · exact .inl ⟨rfl, rfl, rfl⟩
    · cases outcome with
      | notOwned => exact .inr ⟨rfl, refuses_latch s⟩
      | failed => exact .inl ⟨rfl, rfl, rfl⟩
      | read => exact .inl ⟨rfl, rfl, rfl⟩
  | _ => cases hop

theorem refuses_step (hrefs : Refuses s) (hop : op.isAttach = false) :
    Refuses (storeStep f s op) ∧ (op.ofCredentials →
      Unchanged s (storeStep f s op) ∧ ∃ failure, (s.perform f op).1 = .raised failure) := by
  obtain ⟨failure, hfailure⟩ := Option.isSome_iff_exists.1 hrefs
  have hsame : Refuses s ∧ Unchanged s s ∧ ∃ e, Outcome.raised failure = .raised e :=
    ⟨hrefs, ⟨rfl, rfl, rfl⟩, failure, rfl⟩
  cases op with
  | attach => cases hop
  | stop => exact ⟨refuses_iff.2 (.inl rfl), fun h => (nomatch h)⟩
  | healthy ownedByThisProcess owned =>
    refine ⟨?_, fun h => (nomatch h)⟩
    simp only [storeStep, IdentityStore.perform, IdentityStore.healthy]
    split
    · exact hrefs
    · split
      · exact hrefs
      · exact refuses_latch s
  | fileExists outcome =>
    refine ⟨?_, fun h => (nomatch h)⟩
    simpa only [storeStep, IdentityStore.perform, IdentityStore.fileExists, hfailure]
  | load outcome =>
    simpa only [storeStep, IdentityStore.perform, IdentityStore.load, hfailure] using
      ⟨hsame.1, fun _ => hsame.2⟩
  | put key value outcome =>
    simpa only [storeStep, IdentityStore.perform, IdentityStore.put, IdentityStore.mutate,
      hfailure] using ⟨hsame.1, fun _ => hsame.2⟩
  | delete key outcome =>
    simpa only [storeStep, IdentityStore.perform, IdentityStore.delete, IdentityStore.mutate,
      hfailure] using ⟨hsame.1, fun _ => hsame.2⟩
  | seed data outcome =>
    simpa only [storeStep, IdentityStore.perform, IdentityStore.seed, IdentityStore.mutate,
      hfailure] using ⟨hsame.1, fun _ => hsame.2⟩

theorem failsClosed_of_certain (h : Kept f s) (hattach : AttachesStopped s op)
    (hcert : Certain f s op) : FailsClosed f s op where
  served := (kept_step s op h ⟨hattach, hcert⟩).served
  agrees hop := (ends_perform h hop hcert).agrees
  raised failure hraise := by
    cases hcred : op.ofCredentials with
    | true => exact (ends_perform h hcred hcert).raised failure hraise
    | false => exact raised_of_not_ofCredentials hcred hraise
  refuses hrefs hop := refuses_step hrefs hop
  unhealthy hrefs ownedByThisProcess owned hop := by
    subst hop
    rcases refuses_iff.1 hrefs with h | h | h <;>
      simp [IdentityStore.perform, IdentityStore.healthy, h]

theorem mutate_replacedUnseen (href : s.refusal = none) {new : Credentials} {payload : Bytes}
    (henc : f.encode new = some payload) (update : IdentityStore → IdentityStore) :
    s.mutate f new .replacedUnseen update = (.raised .io, { s with file := some payload }) := by
  simp only [IdentityStore.mutate, href, IdentityStore.writeAtomic, henc]

theorem certain_of_failsClosed (h : FailsClosed f s op) : Certain f s op := by
  by_cases hrefs : Refuses s
  · exact .inl hrefs
  · right
    have href : s.refusal = none := by simpa [Refuses] using hrefs
    -- a store that stays in service and raises has to have kept its file
    have hwrite : ∀ new payload, f.encode new = some payload →
        s.perform f op = (.raised .io, { s with file := some payload }) →
          s.file = some payload := by
      intro new payload henc hperform
      rcases h.raised .io (by rw [hperform]) with hsame | ⟨-, hclosed⟩
      · have hfile := hsame.1
        rw [storeStep, hperform] at hfile
        exact hfile.symm
      · rw [storeStep, hperform] at hclosed
        exact absurd hclosed hrefs
    have hunseen : ∀ new, op.writes s = some (new, .replacedUnseen) →
        ∀ payload, f.encode new = some payload → s.file = some payload := by
      intro new hnew payload henc
      apply hwrite new payload henc
      cases op with
      | put key value outcome =>
        cases hnew
        exact mutate_replacedUnseen href henc _
      | delete key outcome =>
        cases hnew
        exact mutate_replacedUnseen href henc _
      | seed data outcome =>
        cases hnew
        exact mutate_replacedUnseen href henc _
      | _ => cases hnew
    cases op with
    | load outcome =>
      cases outcome with
      | failed =>
        have hperform : s.perform f (.load .failed)
            = (.raised .io, { s with data := Dict.empty, flatDict := project Dict.empty }) := by
          simp only [IdentityStore.perform, IdentityStore.load, href]
        rcases h.raised .io (by rw [hperform]) with ⟨-, hdata, hflat⟩ | ⟨-, hclosed⟩
        · rw [storeStep, hperform] at hdata hflat
          exact ⟨hdata.symm, hflat.symm⟩
        · rw [storeStep, hperform] at hclosed
          exact absurd hclosed hrefs
      | notOwned => exact hunseen
      | read => exact hunseen
    | _ => exact hunseen

end Steps

/-! ## Whole runs -/

theorem kept_managed (f : Format) (file : Option Bytes) : Kept f (.managed file) :=
  ⟨fun _ => ⟨rfl, rfl⟩, fun _ => rfl, fun hs => (nomatch hs)⟩

/-- A managed store that is attached only at first or after a stop fails closed throughout a run
exactly when every operation of the run is certain. -/
theorem failsClosed_iff_certain (f : Format) (file : Option Bytes) (ops : List Operation) :
    Along (storeStep f) (fun s op => AttachesStopped s op ∧ FailsClosed f s op) (.managed file) ops
      ↔ Along (storeStep f) (fun s op => AttachesStopped s op ∧ Certain f s op)
          (.managed file) ops := by
  apply along_iff_along kept_step _ (kept_managed f file)
  intro s op h
  constructor
  · rintro ⟨hattach, hclosed⟩
    exact ⟨hattach, certain_of_failsClosed hclosed⟩
  · rintro ⟨hattach, hcert⟩
    exact ⟨hattach, failsClosed_of_certain h hattach hcert⟩

/-! ### Two failures that leave the store in service -/

def sampleKey : Credentials := Dict.empty.set "key" ⟨[("id", .str "contributor")]⟩

/-- A format that can write one map with one key, and the empty map. -/
def sampleFormat : Format where
  encode data :=
    match data.entries with
    | [] => some [0]
    | [("key", ⟨[("id", .str "contributor")]⟩)] => some [1]
    | _ => none
  parse bytes :=
    match bytes with
    | [0] => .object Dict.empty
    | [1] => .object (sampleKey.mapValues fun _ entry => .obj entry.fields)
    | _ => .corrupt
  parse_encode := by
    rintro ⟨entries, nodup⟩ bytes h
    dsimp only at h
    split at h
    · cases h
      rfl
    · cases h
      rfl
    · cases h

/-- The store after it was attached and has loaded the one key of its file. -/
def loadedStore : IdentityStore :=
  run (storeStep sampleFormat) (.managed (some [1])) [.attach, .load .read]

/-- A second `load` that cannot read the file empties the maps of a store that goes on working, and
a `delete` whose rename takes effect behind a failing call leaves a deleted key in service. -/
theorem loadedStore_not_failsClosed :
    ¬ FailsClosed sampleFormat loadedStore (.load .failed)
      ∧ ¬ FailsClosed sampleFormat loadedStore (.delete "key" .replacedUnseen) := by
  constructor
  · intro h
    rcases h.raised .io rfl with ⟨-, hdata, -⟩ | ⟨-, hrefs⟩
    · exact absurd (congrArg (fun data => data.entries.length) hdata) (by decide)
    · exact absurd hrefs (by decide)
  · intro h
    have hserve := h.served "key" (.str "contributor") rfl
    exact absurd (congrArg Option.isSome hserve) (by decide)

end ContextIntelligence.Identity
