import ContextIntelligence.Lib.Runs
import ContextIntelligence.Queue.Names
import ContextIntelligence.Queue.Spool

/-!
# Migration of over-long keys

`migrate_overlong_keys` renames the log, the offset and the dead letters of each over-long key, in
this order, onto the folded key, unless a file of that exists. A rename may fail, and the process
may die in between. Every log of the model has an identity and every offset that of its log.
`migration_keeps_offsets_paired` needs that no pass renames an offset without its log: the next
append would put a new log under it.
-/

namespace ContextIntelligence.Queue.Migration

open Lib.Runs

/-! ## Files -/

/-- A log, with an identity that tells it from every other log. -/
structure LogFile where
  id : Nat
  bytes : Bytes
  deriving DecidableEq, Repr

/-- A committed offset, with the identity of the log it was committed for. -/
structure Offset where
  log : Nat
  value : Nat
  deriving DecidableEq, Repr

structure Files where
  log : Option LogFile
  offset : Option Offset
  dead : Option Bytes
  deriving DecidableEq, Repr

def Files.absent : Files := ⟨none, none, none⟩

/-- The three artifacts, in the order of their renames. -/
inductive Kind where
  | log
  | offset
  | dead
  deriving DecidableEq, Repr

def kinds : List Kind := [.log, .offset, .dead]

namespace Files

def has (f : Files) : Kind → Bool
  | .log => f.log.isSome
  | .offset => f.offset.isSome
  | .dead => f.dead.isSome

/-- `os.replace` of one artifact of `src` onto that of `dst`. -/
def rename (src dst : Files) : Kind → Files × Files
  | .log => ({ src with log := none }, { dst with log := src.log })
  | .offset => ({ src with offset := none }, { dst with offset := src.offset })
  | .dead => ({ src with dead := none }, { dst with dead := src.dead })

/-- The renames of `_migrate_one_key`, of which the first `stop` are done: the pass may fail or the
process die before the next. -/
def migrate (stop : Nat) (raw folded : Files) : Files × Files :=
  let existing := kinds.filter raw.has
  if existing = [] then (raw, folded)
  else if kinds.any folded.has then (raw, folded)
  else (existing.take stop).foldl (fun files kind => files.1.rename files.2 kind) (raw, folded)

end Files

/-! ## The server -/

/-- The files of all keys, the keys that the running pass has listed and not visited, and an
identity no log has had. -/
structure State where
  files : WorkerKey → Files
  pass : WorkerKey → Bool
  nextId : Nat

inductive Action where
  | boot
  | migrate (key : WorkerKey) (stop : Nat)
  | append (key : WorkerKey) (bytes : Bytes)
  | drain (key : WorkerKey) (newOffset : Nat)
  | deadLetter (key : WorkerKey) (line : Bytes)
  | deleteDrained (key : WorkerKey)

variable (digest : Digest)

namespace State

/-- The start of a process: `_all_worker_keys`, of which the pass takes the safe over-long ones. -/
def boot (s : State) : State :=
  { s with pass := fun key => isSafeSessionComponent key && isOverlong key
      && ((s.files key).log.isSome || (s.files key).dead.isSome) }

def put (key : WorkerKey) (f : Files) (s : State) : State :=
  { s with files := Function.update s.files key f }

/-- `_migrate_one_key`, when the pass comes to a key. -/
def migrateOneKey (key : WorkerKey) (stop : Nat) (s : State) : State :=
  if s.pass key then
    let folded := foldWorkerKey digest key
    let visited : State := { s with pass := Function.update s.pass key false }
    if folded = key then visited
    else
      let renamed := (s.files key).migrate stop (s.files folded)
      (visited.put folded renamed.2).put key renamed.1
  else s

/-- `append` to a key; a missing log is created. Ingest folds every key. -/
def append (key : WorkerKey) (bytes : Bytes) (s : State) : State :=
  if isOverlong key then s
  else
    match (s.files key).log with
    | some log => s.put key { s.files key with log := some ⟨log.id, log.bytes ++ bytes⟩ }
    | none =>
      { s.put key { s.files key with log := some ⟨s.nextId, bytes⟩ } with
        nextId := s.nextId + 1 }

def drain (key : WorkerKey) (newOffset : Nat) (s : State) : State :=
  if isOverlong key then s
  else
    match (s.files key).log with
    | some log => s.put key { s.files key with offset := some ⟨log.id, newOffset⟩ }
    | none => s

/-- `dead_letter`. -/
def deadLetter (key : WorkerKey) (line : Bytes) (s : State) : State :=
  if isOverlong key then s
  else s.put key { s.files key with dead := some ((s.files key).dead.getD [] ++ line) }

/-- `delete_drained`: a log with uncommitted bytes is kept, a missing one leaves no offset. -/
def deleteDrained (key : WorkerKey) (s : State) : State :=
  if isOverlong key then s
  else
    match (s.files key).log with
    | none => s.put key { s.files key with offset := none }
    | some log =>
      if ((s.files key).offset.map Offset.value).getD 0 < log.bytes.length then s
      else s.put key { s.files key with log := none, offset := none }

def step (s : State) : Action → State
  | .boot => s.boot
  | .migrate key stop => s.migrateOneKey digest key stop
  | .append key bytes => s.append key bytes
  | .drain key newOffset => s.drain key newOffset
  | .deadLetter key line => s.deadLetter key line
  | .deleteDrained key => s.deleteDrained key

end State

/-! ## The properties -/

/-- No offset is in force for a log other than the one it was committed for. -/
def Paired (s : State) : Prop :=
  ∀ key log offset, (s.files key).log = some log → (s.files key).offset = some offset →
    offset.log = log.id

/-- An artifact stays where it is, or goes from one name to the other, which was free. -/
def Moved {α : Type} (src dst src' dst' : Option α) : Prop :=
  (src' = src ∧ dst' = dst) ∨ (dst = none ∧ src' = none ∧ dst' = src)

/-- A step of the migration overwrites and loses nothing: each artifact of the key is where it was
or under the folded name, whose own artifacts stay, and no other key is touched. -/
def Preserves (s : State) : Action → Prop
  | .migrate key stop =>
    let folded := foldWorkerKey digest key
    let after := s.step digest (.migrate key stop)
    (∀ other, other ≠ key → other ≠ folded → after.files other = s.files other)
      ∧ Moved (s.files key).log (s.files folded).log (after.files key).log (after.files folded).log
      ∧ Moved (s.files key).offset (s.files folded).offset (after.files key).offset
          (after.files folded).offset
      ∧ Moved (s.files key).dead (s.files folded).dead (after.files key).dead
          (after.files folded).dead
  | _ => True

/-- The condition: a pass that renames the files of a key with an offset finds its log too. -/
def Whole (s : State) : Action → Prop
  | .migrate key _ => s.pass key = true → s.files (foldWorkerKey digest key) = Files.absent →
      (s.files key).offset ≠ none → (s.files key).log ≠ none
  | _ => True

instance (s : State) (a : Action) : Decidable (Whole digest s a) := by
  cases a <;> unfold Whole <;> infer_instance

/-! ## One key -/

def Files.Paired (f : Files) : Prop :=
  ∀ log offset, f.log = some log → f.offset = some offset → offset.log = log.id

/-- What the renames of a key do: nothing when the folded key has a file; otherwise every artifact
stays or goes to the free name, and an offset only goes when the log has gone before it. -/
theorem Files.migrate_spec (stop : Nat) (raw folded : Files) :
    raw.migrate stop folded = (raw, folded)
      ∨ (folded = Files.absent
          ∧ Moved raw.log folded.log (raw.migrate stop folded).1.log
              (raw.migrate stop folded).2.log
          ∧ Moved raw.offset folded.offset (raw.migrate stop folded).1.offset
              (raw.migrate stop folded).2.offset
          ∧ Moved raw.dead folded.dead (raw.migrate stop folded).1.dead
              (raw.migrate stop folded).2.dead
          ∧ ((raw.migrate stop folded).2.offset ≠ none →
              (raw.migrate stop folded).2.log = raw.log)) := by
  by_cases hfree : kinds.any folded.has = true
  · left
    simp only [migrate, hfree, if_true, ite_self]
  · right
    obtain rfl : folded = Files.absent := by
      obtain ⟨log, offset, dead⟩ := folded
      cases log <;> cases offset <;> cases dead <;> simp_all [kinds, has, Files.absent]
    refine ⟨rfl, ?_⟩
    -- the artifacts that exist and the number of renames that are done
    obtain ⟨_ | log, _ | offset, _ | dead⟩ := raw <;>
      rcases stop with _ | _ | _ | stop <;>
      simp [migrate, kinds, has, rename, Moved, Files.absent, List.filter_cons]

theorem Moved.of_absent {α : Type} {src src' dst' : Option α} (h : Moved src none src' dst') :
    (src' = src ∨ src' = none) ∧ (dst' = none ∨ dst' = src) := by
  rcases h with ⟨rfl, rfl⟩ | ⟨-, rfl, rfl⟩
  · exact ⟨.inl rfl, Or.inl rfl⟩
  · exact ⟨.inr rfl, Or.inr rfl⟩

theorem Moved.refl {α : Type} (src dst : Option α) : Moved src dst src dst := Or.inl ⟨rfl, rfl⟩

/-- Renames of a key whose log and offset belong together leave both keys so, and no offset without
a log under the folded key, when the offset has its log. -/
theorem Files.Paired.migrate {raw folded : Files} (hraw : raw.Paired) (hfold : folded.Paired)
    (hown : folded.offset ≠ none → folded.log ≠ none)
    (hwhole : folded = Files.absent → raw.offset ≠ none → raw.log ≠ none) (stop : Nat) :
    (raw.migrate stop folded).1.Paired ∧ (raw.migrate stop folded).2.Paired
      ∧ ((raw.migrate stop folded).2.offset ≠ none → (raw.migrate stop folded).2.log ≠ none) := by
  rcases raw.migrate_spec stop folded with hsame | ⟨rfl, hlog, hoffset, -, hord⟩
  · rw [hsame]
    exact ⟨hraw, hfold, hown⟩
  · obtain ⟨hlogS, -⟩ := hlog.of_absent
    obtain ⟨hoffsetSrc, hoff⟩ := hoffset.of_absent
    generalize raw.migrate stop Files.absent = renamed at *
    refine ⟨?_, ?_, ?_⟩
    · intro log offset hl ho
      refine hraw log offset ?_ ?_
      · rcases hlogS with h | h
        · rwa [h] at hl
        · rw [h] at hl
          cases hl
      · rcases hoffsetSrc with h | h
        · rwa [h] at ho
        · rw [h] at ho
          cases ho
    · intro log offset hl ho
      have hne : renamed.2.offset ≠ none := by
        rw [ho]
        exact Option.some_ne_none offset
      rw [hord hne] at hl
      rcases hoff with h | h
      · exact absurd h hne
      · rw [h] at ho
        exact hraw log offset hl ho
    · intro hne
      rw [hord hne]
      rcases hoff with h | h
      · exact absurd h hne
      · exact hwhole rfl (h ▸ hne)

/-! ## Every run -/

/-- In every key the log and the offset belong together, and no key within the budget has an offset
without a log. -/
structure Owned (s : State) : Prop where
  paired : ∀ key, (s.files key).Paired
  owned : ∀ key, isOverlong key = false → (s.files key).offset ≠ none → (s.files key).log ≠ none

section Steps

variable {s : State} {digest}

theorem Owned.put (h : Owned s) {key : WorkerKey} {f : Files} (hpair : f.Paired)
    (hown : isOverlong key = false → f.offset ≠ none → f.log ≠ none) : Owned (s.put key f) := by
  constructor
  · intro other
    by_cases heq : other = key
    · subst heq
      simpa [State.put] using hpair
    · simpa [State.put, Function.update_of_ne heq] using h.paired other
  · intro other
    by_cases heq : other = key
    · subst heq
      simpa [State.put] using hown
    · simpa [State.put, Function.update_of_ne heq] using h.owned other

theorem isOverlong_of_foldWorkerKey_ne {key : WorkerKey} (h : foldWorkerKey digest key ≠ key) :
    isOverlong key = true := by
  by_contra hshare
  apply h
  apply Lib.Folding.fold_of_le
  rw [isOverlong, decide_eq_true_iff, Nat.not_lt] at hshare
  exact hshare

theorem Owned.migrateOneKey (h : Owned s) {key : WorkerKey} {stop : Nat}
    (hwhole : Whole digest s (.migrate key stop)) : Owned (s.migrateOneKey digest key stop) := by
  simp only [State.migrateOneKey]
  split
  · rename_i hpass
    have hvis : Owned { s with pass := Function.update s.pass key false } :=
      ⟨h.paired, h.owned⟩
    split
    · exact hvis
    · rename_i hne
      obtain ⟨hraw, hfold, hown⟩ :=
        (h.paired key).migrate (h.paired (foldWorkerKey digest key))
          (h.owned _ (isOverlong_foldWorkerKey digest key)) (hwhole hpass) stop
      refine (hvis.put hfold fun _ => hown).put hraw fun hshare => ?_
      rw [isOverlong_of_foldWorkerKey_ne hne] at hshare
      cases hshare
  · exact h

theorem Owned.append (h : Owned s) (key : WorkerKey) (bytes : Bytes) :
    Owned (s.append key bytes) := by
  simp only [State.append]
  split
  · exact h
  · rename_i hshare
    cases hlog : (s.files key).log with
    | some log =>
      refine h.put ?_ (fun _ _ => Option.some_ne_none _)
      intro log' offset hlog' hoffset
      cases hlog'
      exact h.paired key log offset hlog hoffset
    | none =>
      -- without a log there is no offset that the new log could be read from
      have hnone : (s.files key).offset = none := by
        by_contra hne
        exact h.owned key (by simpa using hshare) hne hlog
      have hput : Owned (s.put key { s.files key with log := some ⟨s.nextId, bytes⟩ }) := by
        refine h.put ?_ (fun _ _ => Option.some_ne_none _)
        intro log' offset _ hoffset
        rw [hnone] at hoffset
        cases hoffset
      exact ⟨hput.paired, hput.owned⟩

theorem Owned.drain (h : Owned s) (key : WorkerKey) (newOffset : Nat) :
    Owned (s.drain key newOffset) := by
  simp only [State.drain]
  split
  · exact h
  · cases hlog : (s.files key).log with
    | none => exact h
    | some log =>
      refine h.put ?_ (fun _ _ => by simp)
      intro log' offset hlog' hoffset
      cases hlog'
      cases hoffset
      rfl

theorem Owned.deadLetter (h : Owned s) (key : WorkerKey) (line : Bytes) :
    Owned (s.deadLetter key line) := by
  simp only [State.deadLetter]
  split
  · exact h
  · refine h.put ?_ (h.owned key)
    intro log offset hlog hoffset
    exact h.paired key log offset hlog hoffset

theorem Owned.deleteDrained (h : Owned s) (key : WorkerKey) : Owned (s.deleteDrained key) := by
  simp only [State.deleteDrained]
  split
  · exact h
  · cases hlog : (s.files key).log with
    | none =>
      refine h.put ?_ (fun _ hne => absurd rfl hne)
      rintro _ _ _ ⟨⟩
    | some log =>
      simp only
      split
      · exact h
      · refine h.put ?_ (fun _ hne => absurd rfl hne)
        rintro _ _ ⟨⟩

theorem Owned.step (h : Owned s) (a : Action) (ha : Whole digest s a) :
    Owned (s.step digest a) := by
  cases a with
  | boot => exact ⟨h.paired, h.owned⟩
  | migrate key stop => exact h.migrateOneKey ha
  | append key bytes => exact h.append key bytes
  | drain key newOffset => exact h.drain key newOffset
  | deadLetter key line => exact h.deadLetter key line
  | deleteDrained key => exact h.deleteDrained key

end Steps

theorem preserves (s : State) (a : Action) : Preserves digest s a := by
  cases a with
  | migrate key stop =>
    simp only [Preserves, State.step, State.migrateOneKey]
    split
    · split
      · exact ⟨fun _ _ _ => rfl, Moved.refl _ _, Moved.refl _ _, Moved.refl _ _⟩
      · rename_i hne
        simp only [State.put, Function.update_self, Function.update_of_ne hne]
        refine ⟨fun other hkey hfold => ?_, ?_⟩
        · rw [Function.update_of_ne hkey, Function.update_of_ne hfold]
        · rcases (s.files key).migrate_spec stop (s.files (foldWorkerKey digest key)) with
            hsame | ⟨-, hlog, hoffset, hdead, -⟩
          · rw [hsame]
            exact ⟨Moved.refl _ _, Moved.refl _ _, Moved.refl _ _⟩
          · exact ⟨hlog, hoffset, hdead⟩
    · exact ⟨fun _ _ _ => rfl, Moved.refl _ _, Moved.refl _ _, Moved.refl _ _⟩
  | _ => trivial

/-- In every run of boots, interrupted and failing migrations, appends, drains and deletions the
migration overwrites and loses nothing; and in every state of a run whose passes find the log of
each offset they rename, no offset is in force for a log other than its own. -/
theorem migration_keeps_offsets_paired (s : State) (h : Owned s) (actions : List Action)
    (hwhole : Along (State.step digest) (Whole digest) s actions) :
    Along (State.step digest) (Preserves digest) s actions
      ∧ Always (State.step digest) Paired s actions :=
  ⟨along_of_invariant (I := fun _ => True) (fun _ _ _ => trivial)
    (fun s a _ => preserves digest s a)
      trivial actions,
    hwhole.map_of_invariant (fun _ a hs ha => hs.step a ha)
      (fun _ a hs ha => (hs.step a ha).paired) h⟩

/-! ## Runs -/

def sampleDigest : Digest where
  hex := fun _ => List.replicate 16 48
  length := fun _ => rfl

def longKey : WorkerKey := List.replicate 212 97

def sampleState : State where
  files := fun key =>
    if key = longKey then ⟨some ⟨0, [97, newline]⟩, some ⟨0, 2⟩, some [123, newline]⟩
    else Files.absent
  pass := fun _ => false
  nextId := 1

theorem sampleState_owned : Owned sampleState := by
  constructor
  · intro key log offset hlog hoffset
    simp only [sampleState] at hlog hoffset
    split at hlog
    · rename_i hkey
      rw [if_pos hkey] at hoffset
      cases hlog
      cases hoffset
      rfl
    · cases hlog
  · intro key hshare hoffset
    simp only [sampleState] at hoffset ⊢
    split at hoffset
    · rename_i hkey
      rw [if_pos hkey]
      exact Option.some_ne_none _
    · exact absurd rfl hoffset

/-- The passes of two boots, the first of which dies after two renames. -/
theorem interrupted_migration_paired :
    Always (State.step sampleDigest) Paired sampleState
      [.boot, .migrate longKey 2, .boot, .migrate longKey 3,
        .append (foldWorkerKey sampleDigest longKey) [98, newline]] :=
  (migration_keeps_offsets_paired sampleDigest sampleState sampleState_owned _ (by
    decide +kernel)).2

/-- The process dies when the log is renamed and the offset is not. The next boot finds the folded
log and skips the key; the log is drained and deleted. The boot after that renames the offset, and
the next append creates a log under it. -/
def leftBehind : List Action :=
  let folded := foldWorkerKey sampleDigest longKey
  [.boot, .migrate longKey 1, .boot, .migrate longKey 3, .drain folded 2, .deleteDrained folded,
    .boot, .migrate longKey 3, .append folded [98, newline]]

/-- The offset committed for log 0 is in force for log 1, whose only record it skips. -/
theorem leftBehind_not_paired :
    (run (State.step sampleDigest) sampleState leftBehind).files
      (foldWorkerKey sampleDigest longKey)
        = ⟨some ⟨1, [98, newline]⟩, some ⟨0, 2⟩, some [123, newline]⟩
      ∧ ¬ Paired (run (State.step sampleDigest) sampleState leftBehind) := by
  have hfiles : (run (State.step sampleDigest) sampleState leftBehind).files
      (foldWorkerKey sampleDigest longKey)
        = ⟨some ⟨1, [98, newline]⟩, some ⟨0, 2⟩, some [123, newline]⟩ := by
    decide +kernel
  refine ⟨hfiles, fun h => ?_⟩
  have hids := h _ ⟨1, [98, newline]⟩ ⟨0, 2⟩ (congrArg Files.log hfiles)
    (congrArg Files.offset hfiles)
  cases hids

end ContextIntelligence.Queue.Migration
