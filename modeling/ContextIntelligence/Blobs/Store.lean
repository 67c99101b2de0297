import ContextIntelligence.Blobs.Coordination
import ContextIntelligence.Lib.Durable
import ContextIntelligence.Lib.Runs

/-!
# The blob store, its expiry ledger and retention

Writes, session deletes and online retention batches are admitted by the `Coordinator`; the offline
prune needs the root for itself. Every operation is a sequence of system calls with a phase for
each, so a process can be killed and the power can fail between any two of them. A directory entry
is a cell of a `Disk`, durable once its directory has been synced.
-/

namespace ContextIntelligence.Blobs

open Lib.Durable

/-! ## Addresses -/

def LOCK : String := ".ci-blob-retention.lock"

def METADATA : String := ".ci-blob-retention"

def DATABASE : String := "expiry.sqlite3"

def MAPPED_MARKER : String := "~ci-key-v1"

/-- The test of `component`: one file name, never a path, and none of the reserved names. -/
def isComponent (value : String) : Bool :=
  value != "" && !([".", "..", LOCK, METADATA].contains value)
    && value.toList.all fun c => c != '/' && c != '\\' && 32 ≤ c.toNat && c.toNat != 127

/-- `_ordinary_stem`: on POSIX a literal backslash of an old name is let through. -/
def isOrdinaryStem (value : String) : Bool :=
  isComponent (value.map fun c => if c = '\\' then '_' else c)

/-- `_HEX64.fullmatch`. -/
def isHex64 (value : String) : Bool :=
  value.length == 64 && value.toList.all fun c => c.isDigit || ('a' ≤ c && c ≤ 'f')

/-- `BlobAddress` with the checks of its `__post_init__`. -/
structure Address where
  session : String
  name : String
  mapped : Bool
  component : isComponent session = true
  stem : (if mapped then isHex64 name else isOrdinaryStem name) = true
  deriving DecidableEq

namespace Address

def uri (a : Address) : String :=
  if a.mapped then "ci-blob://" ++ a.session ++ "/" ++ MAPPED_MARKER ++ "/" ++ a.name
  else "ci-blob://" ++ a.session ++ "/" ++ a.name

def filename (a : Address) : String :=
  if a.mapped then MAPPED_MARKER ++ "~" ++ a.name ++ ".blob" else a.name ++ ".json"

end Address

/-! ## The ledger -/

/-- `fingerprint`: what identifies one version of a file. -/
structure Fingerprint where
  dev : ℕ
  ino : ℕ
  size : ℕ
  mtimeNs : ℤ
  ctimeNs : ℤ
  deriving DecidableEq

/-- What `os.stat` tells: the fingerprint, and whether the entry passes `_regular`. -/
structure Stat where
  fp : Fingerprint
  regular : Bool
  deriving DecidableEq

structure Candidate where
  address : Address
  fp : Fingerprint
  deriving DecidableEq

/-- A tombstone. The source keys it by the URI of the address. -/
structure Row where
  address : Address
  fp : Fingerprint
  pending : Bool
  deriving DecidableEq

abbrev Table := List Row

namespace Table

def row (t : Table) (a : Address) : Option Row := t.find? fun r => r.address = a

/-- `INSERT OR IGNORE` of one pending row. -/
def insert (t : Table) (item : Candidate) : Table :=
  if (t.row item.address).isSome then t else t ++ [⟨item.address, item.fp, true⟩]

def insertAll (t : Table) (items : List Candidate) : Table := items.foldl insert t

/-- `UPDATE expiry SET pending=0` for each of the addresses. -/
def settle (t : Table) (marked : List Address) : Table :=
  t.map fun r => if r.address ∈ marked then { r with pending := false } else r

/-- One page of `_recover`: pending rows below the cutoff, by URI, after the last one seen. -/
def page (t : Table) (cutoff : ℤ) (after : String) (size : ℕ) : List Row :=
  ((t.filter fun r => r.pending && r.fp.mtimeNs < cutoff && after < r.address.uri).mergeSort
    fun r r' => r.address.uri ≤ r'.address.uri).take size

end Table

/-! ## The file system -/

abbrev Ino := ℕ

/-- What a directory entry leads to. The ledger file is given by the table that its last commit
left: with `journal_mode=DELETE` a transaction commits by the removal of the rollback journal from
the directory, so a commit is a change of the directory as a rename is. -/
inductive Node where
  | dir (ino : Ino)
  | file (stat : Stat)
  | ledger (table : Table)
  deriving DecidableEq

/-- The entries of all directories, and the first inode that is not in use. -/
structure FileSystem where
  entries : Disk (Ino × String) (Option Node)
  next : Ino

def root : Ino := 0

inductive Call where
  | mkdir (dir : Ino) (name : String)
  | fsync (dir : Ino)
  | replace (dir : Ino) (name : String) (stat : Stat)
  | unlink (dir : Ino) (name : String)
  | rmdir (dir : Ino) (name : String)
  | clear (dir : Ino)
  | store (dir : Ino) (table : Table)
  deriving DecidableEq

namespace FileSystem

variable (fs : FileSystem)

def lookup (dir : Ino) (name : String) : Option Node := (fs.entries (dir, name)).now

def openDir (dir : Ino) (name : String) : Option Ino :=
  match fs.lookup dir name with
  | some (.dir i) => some i
  | _ => none

/-- `Root.blobs`, without `create`. -/
def blobs (session : String) : Option Ino :=
  (fs.openDir root session).bind fun dir => fs.openDir dir "blobs"

/-- `os.stat` of the file of an address. -/
def payload (a : Address) : Option Node :=
  (fs.blobs a.session).bind fun dir => fs.lookup dir a.filename

def tableAt (dir : Ino) : Option Table :=
  match fs.lookup dir DATABASE with
  | some (.ledger t) => some t
  | _ => none

/-- The ledger a reader opens; without metadata directory or database there is none. -/
def ledger : Option Table := (fs.openDir root METADATA).bind fs.tableAt

/-- `Ledger.contains`, and with it `expired`. -/
def contains (a : Address) : Bool := (fs.ledger.bind fun t => t.row a).isSome

/-- `_matches`. -/
def fits (item : Candidate) : Bool := fs.payload item.address == some (.file ⟨item.fp, true⟩)

def perform : Call → FileSystem
  | .mkdir dir name => ⟨fs.entries.put (dir, name) (some (.dir fs.next)), fs.next + 1⟩
  | .fsync dir => { fs with entries := fs.entries.sync fun place => place.1 == dir }
  | .replace dir name stat => { fs with entries := fs.entries.put (dir, name) (some (.file stat)) }
  | .unlink dir name => { fs with entries := fs.entries.put (dir, name) none }
  | .rmdir dir name => { fs with entries := fs.entries.put (dir, name) none }
  | .clear dir =>
    { fs with entries := fun place =>
        if place.1 = dir then (fs.entries place).set none else fs.entries place }
  | .store dir table => { fs with entries := fs.entries.put (dir, DATABASE) (some (.ledger table)) }

def powerLoss (choice : Ino × String → ℕ) : FileSystem :=
  { fs with entries := fs.entries.lose choice }

def Survives (P : FileSystem → Prop) : Prop :=
  fs.entries.Survives fun entries => P ⟨entries, fs.next⟩

end FileSystem

/-! ## Operations -/

/-- How the system answers a call: it succeeds; it fails with an `OSError`; the payload is gone but
closing its directory fails; any other exception; or a listing that names an entry or ends. -/
inductive Answer where
  | ok
  | fails
  | late
  | raises
  | entry (address : Address)
  | name (name : String)
  | exhausted
  deriving DecidableEq

/-- The call an operation makes and how it goes on, if it does. -/
abbrev Progress (τ : Type) := Option Call × Option τ

def stop {τ : Type} : Progress τ := (none, none)

/-- `BlobStore.write`: the expiry checks, the two directories, and the rename of the written
temporary file. Temporary names are left out. -/
inductive WritePhase where
  | expiry (rest : List Address)
  | session
  | blobs (dir : Ino)
  | payload (dir : Ino)

structure Write where
  canonical : Address
  fp : Fingerprint
  phase : WritePhase

def Write.step (fs : FileSystem) (w : Write) (answer : Answer) : Progress Write :=
  if answer ≠ .ok then stop else
  match w.phase with
  | .expiry [] => (none, some { w with phase := .session })
  | .expiry (a :: rest) =>
    -- a recorded expiry keeps the reference and creates nothing
    if fs.contains a then stop else (none, some { w with phase := .expiry rest })
  | .session =>
    match fs.lookup root w.canonical.session with
    | none => (some (.mkdir root w.canonical.session), some { w with phase := .blobs fs.next })
    | some (.dir dir) => (none, some { w with phase := .blobs dir })
    | some _ => stop
  | .blobs dir =>
    match fs.lookup dir "blobs" with
    | none => (some (.mkdir dir "blobs"), some { w with phase := .payload fs.next })
    | some (.dir blobs) => (none, some { w with phase := .payload blobs })
    | some _ => stop
  | .payload dir =>
    match fs.lookup dir w.canonical.filename with
    | some (.dir _) => stop
    | _ => (some (.replace dir w.canonical.filename ⟨w.fp, true⟩), none)

/-- `delete_session`: `rmtree` empties the blobs directory name by name, then removes it and the
session directory. -/
inductive DeletePhase where
  | opening
  | emptying (dir blobs : Ino)
  | removingBlobs (dir : Ino)
  | removing

structure Delete where
  session : String
  component : isComponent session = true
  phase : DeletePhase

def Delete.step (fs : FileSystem) (d : Delete) (answer : Answer) : Progress Delete :=
  match d.phase with
  | .opening =>
    if answer ≠ .ok then stop else
    match fs.openDir root d.session with
    | none => stop
    | some dir =>
      match fs.openDir dir "blobs" with
      | none => stop
      | some blobs => (none, some { d with phase := .emptying dir blobs })
  | .emptying dir blobs =>
    match answer with
    | .name name => (some (.unlink blobs name), some d)
    -- whatever has not been named is removed in one go
    | .exhausted => (some (.clear blobs), some { d with phase := .removingBlobs dir })
    | _ => stop
  | .removingBlobs dir =>
    if answer ≠ .ok then stop else
    (some (.rmdir dir "blobs"), some { d with phase := .removing })
  | .removing =>
    if answer ≠ .ok then stop else (some (.rmdir root d.session), none)

def BATCH_SIZE : ℕ := 512

/-- Where the candidates of a run come from: the online service hands over a batch, of scanned files
or of pending rows; the offline prune pages through the ledger and then scans. -/
inductive Source where
  | batch (items : List Candidate) (recovery : Bool)
  | prune

inductive Resume where
  | finish
  | page (after : String)
  | scan

/-- The phases of `apply_batch` and of `apply`. From `database` on, `dir` is the open metadata
directory; `pinned` are the blob directories to sync, `marked` the rows updated in the open
transaction. -/
inductive RunPhase where
  | confirm
  | metadata
  | syncRoot (dir : Ino)
  | database (dir : Ino)
  | publish (dir : Ino)
  | syncPublished (dir : Ino)
  | recover (dir : Ino) (after : String)
  | scan (dir : Ino) (batch : List Candidate)
  | select (dir : Ino) (todo ready : List Candidate)
  | journal (dir : Ino) (ready : List Candidate)
  | syncJournal (dir : Ino) (ready : List Candidate)
  | unlinking (dir : Ino) (todo : List Candidate) (pinned : List Ino) (marked : List Address)
  | syncing (dir : Ino) (todo : List Ino) (marked : List Address) (failed : Bool)
  | commit (dir : Ino) (marked : List Address)
  | syncCommit (dir : Ino)

structure Run where
  cutoff : ℤ
  source : Source
  resume : Resume
  phase : RunPhase

namespace Run

variable (fs : FileSystem) (r : Run)

def goes (call : Option Call) (phase : RunPhase) : Progress Run := (call, some { r with phase })

def opened (dir : Ino) : RunPhase :=
  match r.source with
  | .batch items _ => .select dir items []
  | .prune => .recover dir ""

/-- Whether the candidates are pending rows, which are not journaled again. -/
def recovery : Bool :=
  match r.source with
  | .batch _ recovery => recovery
  | .prune => false

/-- `apply_batch` refuses a candidate at or after the frozen cutoff. -/
def refuses (item : Candidate) : Bool :=
  match r.source with
  | .batch _ _ => r.cutoff ≤ item.fp.mtimeNs
  | .prune => false

def selectStep (dir : Ino) (ready : List Candidate) : List Candidate → Progress Run
  | [] => r.goes none (if r.recovery then .unlinking dir ready [] [] else .journal dir ready)
  | item :: todo =>
    if r.refuses item then stop
    else if r.recovery then r.goes none (.select dir todo (ready ++ [item]))
    else if fs.contains item.address then r.goes none (.select dir todo ready)
    else if fs.fits item then r.goes none (.select dir todo (ready ++ [item]))
    else r.goes none (.select dir todo ready)

def pin (dir : Ino) (pinned : List Ino) : List Ino :=
  if dir ∈ pinned then pinned else pinned ++ [dir]

/-- The row that `_unlink` reads inside the open transaction still asks for this deletion. -/
def wanted (dir : Ino) (marked : List Address) (item : Candidate) : Bool :=
  match fs.tableAt dir with
  | none => false
  | some t =>
    match (t.settle marked).row item.address with
    | none => false
    | some row => row.fp = item.fp && row.pending

/-- `_unlink` for the first of the candidates. -/
def unlinkStep (dir : Ino) (item : Candidate) (todo : List Candidate) (pinned : List Ino)
    (marked : List Address) (answer : Answer) : Progress Run :=
  if wanted fs dir marked item = false ∨ answer = .fails then
    r.goes none (.unlinking dir todo pinned marked)
  else
    match fs.blobs item.address.session with
    -- a missing ancestor cannot be synced: the row stays pending
    | none => r.goes none (.unlinking dir todo pinned marked)
    | some blobs =>
      -- an error on the way out leaves the row pending as well
      let marked' := if answer = .ok then item.address :: marked else marked
      match fs.lookup blobs item.address.filename with
      | none => r.goes none (.unlinking dir todo (pin blobs pinned) marked')
      | some node =>
        if node = .file ⟨item.fp, true⟩ then
          r.goes (some (.unlink blobs item.address.filename))
            (.unlinking dir todo (pin blobs pinned) marked')
        else r.goes none (.unlinking dir todo pinned marked)

/-- `candidates` looks at the next entry. -/
def scanStep (dir : Ino) (batch : List Candidate) : Answer → Progress Run
  | .entry a =>
    match fs.payload a with
    | some (.file st) =>
      if st.regular && st.fp.mtimeNs < r.cutoff then
        let batch := batch ++ [⟨a, st.fp⟩]
        if batch.length = BATCH_SIZE then
          (none, some { r with resume := .scan, phase := .select dir batch [] })
        else r.goes none (.scan dir batch)
      else r.goes none (.scan dir batch)
    | _ => r.goes none (.scan dir batch)
  | .exhausted =>
    if batch = [] then stop
    else (none, some { r with resume := .finish, phase := .select dir batch [] })
  | .raises => stop
  | _ => r.goes none (.scan dir batch)

/-- The phases between calls that need the answer to be a success. -/
def calmStep : Progress Run :=
  match r.phase with
  | .confirm => r.goes none .metadata
  | .metadata =>
    match fs.lookup root METADATA with
    | none => r.goes (some (.mkdir root METADATA)) (.syncRoot fs.next)
    -- `FileExistsError`: nothing is synced
    | some (.dir dir) => r.goes none (.database dir)
    | some _ => stop
  | .syncRoot dir => r.goes (some (.fsync root)) (.database dir)
  | .database dir =>
    match fs.lookup dir DATABASE with
    | none => r.goes none (.publish dir)
    | some (.ledger _) => r.goes none (r.opened dir)
    | some _ => stop
  | .publish dir => r.goes (some (.store dir [])) (.syncPublished dir)
  | .syncPublished dir => r.goes (some (.fsync dir)) (r.opened dir)
  | .recover dir after =>
    match fs.tableAt dir with
    | none => stop
    | some t =>
      let rows := t.page r.cutoff after BATCH_SIZE
      match rows.getLast? with
      | none => r.goes none (.scan dir [])
      | some last =>
        (none, some { r with
          resume := .page last.address.uri
          phase := .unlinking dir (rows.map fun row => ⟨row.address, row.fp⟩) [] [] })
  | .select dir todo ready => r.selectStep fs dir ready todo
  | .journal dir ready =>
    match fs.tableAt dir with
    | none => stop
    | some t => r.goes (some (.store dir (t.insertAll ready))) (.syncJournal dir ready)
  | .syncJournal dir ready => r.goes (some (.fsync dir)) (.unlinking dir ready [] [])
  | .commit dir marked =>
    match fs.tableAt dir with
    | none => stop
    | some t => r.goes (some (.store dir (t.settle marked))) (.syncCommit dir)
  | .syncCommit dir =>
    match r.resume with
    | .finish => (some (.fsync dir), none)
    | .page after => r.goes (some (.fsync dir)) (.recover dir after)
    | .scan => r.goes (some (.fsync dir)) (.scan dir [])
  | .scan _ _ => stop
  | .unlinking _ _ _ _ => stop
  | .syncing _ _ _ _ => stop

def step (answer : Answer) : Progress Run :=
  match r.phase with
  | .scan dir batch => r.scanStep fs dir batch answer
  | .unlinking dir [] pinned marked => r.goes none (.syncing dir pinned marked false)
  | .unlinking dir (item :: todo) pinned marked =>
    -- an exception leaves the transaction, after the pinned directories have been synced
    if answer = .raises then r.goes none (.syncing dir pinned [] true)
    else r.unlinkStep fs dir item todo pinned marked answer
  | .syncing dir [] marked failed =>
    if failed || answer ≠ .ok then stop else r.goes none (.commit dir marked)
  | .syncing dir (blobs :: todo) marked failed =>
    -- `_sync_dirs` tries every directory before it reports a failure
    if answer = .ok then r.goes (some (.fsync blobs)) (.syncing dir todo marked failed)
    else r.goes none (.syncing dir todo marked true)
  | _ => if answer ≠ .ok then stop else r.calmStep fs

end Run

/-! ## The system -/

inductive Task where
  | write (w : Write)
  | delete (d : Delete)
  | retention (r : Run)

namespace Task

def exclusive : Task → Bool
  | .write _ => false
  | .delete _ => true
  | .retention _ => true

def step (fs : FileSystem) (answer : Answer) : Task → Progress Task
  | .write w => (w.step fs answer).map id (Option.map .write)
  | .delete d => (d.step fs answer).map id (Option.map .delete)
  | .retention r => (r.step fs answer).map id (Option.map .retention)

end Task

/-- What the server is asked to do: to write a blob whose canonical address and older addresses are
known, to delete the blobs of a session, or to apply one batch of a confirmed job. -/
inductive Request where
  | write (canonical : Address) (older : List Address) (fp : Fingerprint)
  | delete (session : String) (component : isComponent session = true)
  | batch (items : List Candidate) (cutoff : ℤ) (recovery : Bool)

def Request.task : Request → Task
  | .write canonical older fp => .write ⟨canonical, fp, .expiry (canonical :: older)⟩
  | .delete session component => .delete ⟨session, component, .opening⟩
  | .batch items cutoff recovery => .retention ⟨cutoff, .batch items recovery, .finish, .metadata⟩

/-- The server holds the shared root lock from start to end; the offline prune needs the exclusive
one, so it runs only while no server does. -/
structure State where
  fs : FileSystem
  serving : Bool
  leases : Coordinator Task
  offline : Option Run

inductive Action where
  | serve
  | request (req : Request)
  | cancel (i : ℕ)
  | grant (i : ℕ)
  | step (i : ℕ) (answer : Answer)
  | prune (cutoff : ℤ)
  | pruneStep (answer : Answer)
  | kill
  | powerLoss (choice : Ino × String → ℕ)

namespace State

variable (s : State)

def down (fs : FileSystem) : State := ⟨fs, false, .idle, none⟩

/-- The call is made and the operation goes on or gives its lease back. -/
def proceed (i : ℕ) (p : Progress Task) : State :=
  { s with
    fs := p.1.elim s.fs s.fs.perform
    leases := match p.2 with
      | some task => s.leases.advance i task
      | none => s.leases.release Task.exclusive i }

def step : Action → State
  | .serve => if s.offline.isSome then s else { s with serving := true }
  | .request req => if s.serving then { s with leases := s.leases.enqueue req.task } else s
  | .cancel i => { s with leases := s.leases.withdraw i }
  | .grant i => { s with leases := s.leases.grant Task.exclusive i }
  | .step i answer =>
    match s.leases.holders[i]? with
    | none => s
    | some task => s.proceed i (task.step s.fs answer)
  | .prune cutoff =>
    if s.serving || s.offline.isSome then s
    else { s with offline := some ⟨cutoff, .prune, .finish, .confirm⟩ }
  | .pruneStep answer =>
    match s.offline with
    | none => s
    | some r =>
      let p := r.step s.fs answer
      { s with fs := p.1.elim s.fs s.fs.perform, offline := p.2 }
  | .kill => down s.fs
  | .powerLoss choice => down (s.fs.powerLoss choice)

def acting : Action → Option Task
  | .step i _ => s.leases.holders[i]?
  | .pruneStep _ => s.offline.map .retention
  | _ => none

/-- The system call that an action makes, with the operation that makes it. -/
def calls (a : Action) : Option (Task × Call) :=
  match a with
  | .step i answer =>
    s.leases.holders[i]?.bind fun task => (task.step s.fs answer).1.map fun call => (task, call)
  | .pruneStep answer =>
    s.offline.bind fun r => (r.step s.fs answer).1.map fun call => (.retention r, call)
  | _ => none

end State

end ContextIntelligence.Blobs
