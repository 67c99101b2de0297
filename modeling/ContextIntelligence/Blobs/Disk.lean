import ContextIntelligence.Blobs.Store

/-!
# What holds of the disk

`FileSystem.Sound` is the invariant of the disk, stated with what a power loss may leave: a tree,
one metadata directory, older versions of the present table, and no payload anywhere for a row that
is not pending. `FileSystem.Change` lists what operations and failures do to the disk and under
which condition; each keeps it.
-/

namespace ContextIntelligence.Blobs

open Lib.Durable

/-! ## Names -/

theorem ne_metadata_of_isComponent {session : String} (h : isComponent session = true) :
    session ≠ METADATA := by
  rintro rfl
  simp [isComponent] at h

theorem Address.session_ne_metadata (a : Address) : a.session ≠ METADATA :=
  ne_metadata_of_isComponent a.component

theorem Address.filename_toList (a : Address) :
    ∃ stem suffix, a.filename.toList = stem ++ suffix
      ∧ (suffix = ".json".toList ∨ suffix = ".blob".toList) := by
  unfold Address.filename
  split
  · exact ⟨_, _, String.toList_append, Or.inr rfl⟩
  · exact ⟨_, _, String.toList_append, Or.inl rfl⟩

theorem Address.filename_ne (a : Address) {name : String}
    (hname : name.toList.getLast? ≠ some 'n' ∧ name.toList.getLast? ≠ some 'b') :
    a.filename ≠ name := by
  rintro rfl
  obtain ⟨stem, suffix, heq, hsuffix⟩ := a.filename_toList
  rw [heq] at hname
  rcases hsuffix with rfl | rfl
  · exact hname.1 (by simp [List.getLast?_append])
  · exact hname.2 (by simp [List.getLast?_append])

theorem Address.filename_ne_blobs (a : Address) : a.filename ≠ "blobs" := a.filename_ne (by decide)

theorem Address.filename_ne_database (a : Address) : a.filename ≠ DATABASE :=
  a.filename_ne (by decide)

/-- In one session the file name tells the address. -/
theorem Address.eq_of_filename {a b : Address} (hsess : a.session = b.session)
    (hfile : a.filename = b.filename) : a = b := by
  obtain ⟨session, name, mapped, hc, hs⟩ := a
  obtain ⟨session', name', mapped', hc', hs'⟩ := b
  obtain rfl : session = session' := hsess
  have happ := congrArg String.toList hfile
  cases mapped <;> cases mapped' <;>
    simp only [Address.filename, Bool.false_eq_true, if_false, if_true,
      String.toList_append] at happ
  · obtain rfl := String.toList_inj.1 (List.append_cancel_right happ)
    rfl
  · exact absurd (List.append_inj' happ (by simp)).2 (by decide)
  · exact absurd (List.append_inj' happ (by simp)).2 (by decide)
  · have hname := List.append_cancel_right happ
    obtain rfl := String.toList_inj.1 (List.append_cancel_left hname)
    rfl

/-! ## Tables -/

namespace Table

variable {t t' t'' : Table}

/-- The second table has every row of the first, and what is settled stays settled. -/
def Within (t t' : Table) : Prop :=
  ∀ a row, t.row a = some row →
    ∃ row', t'.row a = some row' ∧ row'.fp = row.fp ∧ (row.pending = false → row'.pending = false)

theorem Within.refl (t : Table) : t.Within t := fun _ row h => ⟨row, h, rfl, id⟩

theorem Within.trans (h : t.Within t') (h' : t'.Within t'') : t.Within t'' := by
  intro a row hrow
  obtain ⟨row', hrow', hfp, hpend⟩ := h a row hrow
  obtain ⟨row'', hrow'', hfp', hpend'⟩ := h' a row' hrow'
  exact ⟨row'', hrow'', hfp'.trans hfp, hpend' ∘ hpend⟩

theorem row_insert (t : Table) (item : Candidate) (a : Address) :
    (t.insert item).row a =
      (t.row a).or (if item.address = a then some ⟨item.address, item.fp, true⟩ else none) := by
  unfold insert
  split
  · next h =>
      split
      · next ha =>
          subst ha
          obtain ⟨row, hrow⟩ := Option.isSome_iff_exists.1 h
          rw [hrow, Option.some_or]
      · rw [Option.or_none]
  · simp only [row, List.find?_append, List.find?_singleton, decide_eq_true_eq]

theorem within_insertAll (t : Table) (items : List Candidate) : t.Within (t.insertAll items) := by
  induction items generalizing t with
  | nil => exact .refl t
  | cons item items ih =>
    refine Within.trans ?_ (ih (t.insert item))
    intro a row hrow
    exact ⟨row, by rw [row_insert, hrow, Option.some_or], rfl, id⟩

theorem row_of_insertAll {items : List Candidate} {a : Address} {row : Row}
    (h : (t.insertAll items).row a = some row) (hpend : row.pending = false) :
    t.row a = some row := by
  induction items generalizing t with
  | nil => exact h
  | cons item items ih =>
    have hrow := ih h
    rw [row_insert] at hrow
    cases ht : t.row a with
    | some row' => rwa [ht, Option.some_or] at hrow
    | none =>
      rw [ht, Option.none_or] at hrow
      split at hrow
      · cases hrow
        cases hpend
      · exact absurd hrow (by simp)

theorem row_settle (t : Table) (marked : List Address) (a : Address) :
    (t.settle marked).row a =
      (t.row a).map fun r => if r.address ∈ marked then { r with pending := false } else r := by
  unfold settle row
  rw [List.find?_map]
  congr 2
  funext r
  simp only [Function.comp]
  split <;> rfl

theorem address_of_row {a : Address} {row : Row} (h : t.row a = some row) : row.address = a := by
  simpa using List.find?_some h

theorem within_settle (t : Table) (marked : List Address) : t.Within (t.settle marked) := by
  intro a row hrow
  rw [row_settle, hrow]
  refine ⟨_, rfl, ?_, fun hpend => ?_⟩
  · dsimp only
    split <;> rfl
  · dsimp only
    split
    · rfl
    · exact hpend

theorem row_of_settle {marked : List Address} {a : Address} {row : Row}
    (h : (t.settle marked).row a = some row) (hpend : row.pending = false) :
    a ∈ marked ∨ ∃ row', t.row a = some row' ∧ row'.pending = false := by
  rw [row_settle] at h
  obtain ⟨row', hrow', rfl⟩ := Option.map_eq_some_iff.1 h
  by_cases hmark : row'.address ∈ marked
  · exact .inl (address_of_row hrow' ▸ hmark)
  · exact .inr ⟨row', hrow', by simpa [hmark] using hpend⟩

end Table

namespace FileSystem

variable {fs : FileSystem}

/-! ## What a power loss may leave -/

variable (fs) in
/-- The entry may be found in the directory after a power loss. -/
def May (dir : Ino) (name : String) (node : Option Node) : Prop := (fs.entries (dir, name)).May node

variable (fs) in
def Sure (dir : Ino) (name : String) (node : Option Node) : Prop :=
  (fs.entries (dir, name)).Sure node

variable (fs) in
/-- No payload can be found at the address, along any path a power loss may leave. -/
def Gone (a : Address) : Prop :=
  ∀ dir blobs node, fs.May root a.session (some (.dir dir)) →
    fs.May dir "blobs" (some (.dir blobs)) →
    fs.May blobs a.filename node → node = none

variable (fs) in
/-- The address has a row in every ledger that a power loss may leave. -/
def Recorded (a : Address) : Prop :=
  ∃ dir, fs.Sure root METADATA (some (.dir dir)) ∧
    ∀ node, fs.May dir DATABASE node → ∃ t row, node = some (.ledger t) ∧ t.row a = some row

theorem may_lookup (dir : Ino) (name : String) : fs.May dir name (fs.lookup dir name) :=
  Cell.may_now _

variable {node : Option Node} {dir : Ino} {name : String}

theorem Sure.lookup (h : fs.Sure dir name node) : fs.lookup dir name = node :=
  Cell.Sure.now h

theorem openDir_eq_some {i : Ino} :
    fs.openDir dir name = some i ↔ fs.lookup dir name = some (.dir i) := by
  unfold openDir
  split
  · next h => rw [h]; simp
  · next h =>
      constructor
      · exact fun h' => absurd h' (by simp)
      · exact fun h' => absurd h' (h i)

theorem tableAt_eq_some {t : Table} :
    fs.tableAt dir = some t ↔ fs.lookup dir DATABASE = some (.ledger t) := by
  unfold tableAt
  split
  · next h => rw [h]; simp
  · next h =>
      constructor
      · exact fun h' => absurd h' (by simp)
      · exact fun h' => absurd h' (h t)

theorem blobs_eq_some {session : String} {b : Ino} :
    fs.blobs session = some b ↔
      ∃ dir, fs.lookup root session = some (.dir dir) ∧ fs.lookup dir "blobs" = some (.dir b) := by
  simp only [blobs, Option.bind_eq_some_iff, openDir_eq_some]

theorem ledger_eq_some {t : Table} :
    fs.ledger = some t ↔
      ∃ dir, fs.lookup root METADATA = some (.dir dir)
        ∧ fs.lookup dir DATABASE = some (.ledger t) := by
  simp only [ledger, Option.bind_eq_some_iff, openDir_eq_some, tableAt_eq_some]

theorem may_openDir {i : Ino} (h : fs.lookup dir name = some (.dir i)) :
    fs.May dir name (some (.dir i)) :=
  h ▸ may_lookup dir name

/-! ## The invariant of the disk -/

structure Sound (fs : FileSystem) : Prop where
  used : root < fs.next
  fresh : ∀ ino name, fs.next ≤ ino → fs.Sure ino name none
  child : ∀ {dir name i}, fs.May dir name (some (.dir i)) → root < i ∧ i < fs.next
  parent : ∀ {dir name dir' name' i}, fs.May dir name (some (.dir i)) →
    fs.May dir' name' (some (.dir i)) → dir = dir' ∧ name = name'
  metadata : ∀ {node}, fs.May root METADATA node → node = none ∨ node = fs.lookup root METADATA
  database : ∀ {dir t}, fs.lookup root METADATA = some (.dir dir) →
    fs.May dir DATABASE (some (.ledger t)) → ∃ t', fs.tableAt dir = some t' ∧ t.Within t'
  gone : ∀ {t a row}, fs.ledger = some t → t.row a = some row → row.pending = false → fs.Gone a

def Reserved (fs : FileSystem) (place : Ino × String) : Prop :=
  place = (root, METADATA) ∨ ∃ dir, fs.May root METADATA (some (.dir dir)) ∧ place = (dir, DATABASE)

/-- What happens to the disk. `remove` covers `unlink`, `rmdir` and the emptying of a directory. -/
inductive Change (fs : FileSystem) : FileSystem → Prop where
  | mkdir {dir : Ino} {name : String} (hnew : fs.lookup dir name = none) (hdir : dir < fs.next)
      (hplace : dir = root ∨ name = "blobs") : Change fs (fs.perform (.mkdir dir name))
  | replace {a : Address} {dir : Ino} {stat : Stat} (hdir : fs.blobs a.session = some dir)
      (hfree : fs.contains a = false) : Change fs (fs.perform (.replace dir a.filename stat))
  | remove {entries : Disk (Ino × String) (Option Node)}
      (hentries : ∀ place, entries place = fs.entries place ∨
        entries place = (fs.entries place).set none ∧ ¬ fs.Reserved place) :
      Change fs ⟨entries, fs.next⟩
  | fsync (dir : Ino) : Change fs (fs.perform (.fsync dir))
  | powerLoss (choice : Ino × String → ℕ) : Change fs (fs.powerLoss choice)
  | store {dir : Ino} {table : Table} (hdir : fs.lookup root METADATA = some (.dir dir))
      (hwithin : ∀ t, fs.tableAt dir = some t → t.Within table)
      (hgone : ∀ a row, table.row a = some row → row.pending = false → fs.Gone a) :
      Change fs (fs.perform (.store dir table))

namespace Sound

variable (h : fs.Sound)
include h

theorem lookup_of_may {dir : Ino} (hmay : fs.May root METADATA (some (.dir dir))) :
    fs.lookup root METADATA = some (.dir dir) := by
  rcases h.metadata hmay with hno | heq
  · exact absurd hno (by simp)
  · exact heq.symm

theorem not_reserved {dir i : Ino} {name : String} (hmay : fs.May dir name (some (.dir i)))
    (hname : name ≠ METADATA) (entry : String) : ¬ fs.Reserved (i, entry) := by
  rintro (heq | ⟨m, hm, heq⟩)
  · have := (h.child hmay).1
    rw [(Prod.mk.inj heq).1] at this
    exact absurd this (by decide)
  · rw [(Prod.mk.inj heq).1] at hmay
    exact hname (h.parent hmay hm).2

theorem not_reserved_root {name : String} (hname : name ≠ METADATA) :
    ¬ fs.Reserved (root, name) := by
  rintro (heq | ⟨m, hm, heq⟩)
  · exact hname (Prod.mk.inj heq).2
  · have := (h.child hm).1
    rw [← (Prod.mk.inj heq).1] at this
    exact absurd this (by decide)

theorem eq_of_blobs {a : Address} {dir blobs dir' blobs' : Ino} {session : String}
    (hdir : fs.May root session (some (.dir dir))) (hblobs : fs.May dir "blobs" (some (.dir blobs)))
    (hdir' : fs.May root a.session (some (.dir dir')))
    (hblobs' : fs.May dir' "blobs" (some (.dir blobs'))) (heq : blobs' = blobs) :
    a.session = session := by
  subst heq
  obtain rfl := (h.parent hblobs' hblobs).1
  exact (h.parent hdir' hdir).2

end Sound

/-! ## Every change keeps the disk sound -/

variable {fs' : FileSystem}

/-- A change away from the reserved names keeps the disk sound. -/
theorem Sound.of_ordinary (h : fs.Sound) (hnext : fs'.next = fs.next)
    (hfresh : ∀ ino name, fs.next ≤ ino → fs'.Sure ino name none)
    (hdirs : ∀ {dir name i}, fs'.May dir name (some (.dir i)) → fs.May dir name (some (.dir i)))
    (hreserved : ∀ {dir name}, fs.Reserved (dir, name) →
      fs'.lookup dir name = fs.lookup dir name ∧
        ∀ {node}, fs'.May dir name node → fs.May dir name node)
    (hgone : ∀ {a dir blobs node}, fs.contains a = true → fs.May root a.session (some (.dir dir)) →
      fs.May dir "blobs" (some (.dir blobs)) → fs'.May blobs a.filename node →
      node = none ∨ fs.May blobs a.filename node) :
    fs'.Sound := by
  have hmeta : fs'.lookup root METADATA = fs.lookup root METADATA ∧
      ∀ {node}, fs'.May root METADATA node → fs.May root METADATA node := hreserved (.inl rfl)
  have hdata : ∀ {dir}, fs.lookup root METADATA = some (.dir dir) → fs.Reserved (dir, DATABASE) :=
    fun hdir => Or.inr ⟨_, may_openDir hdir, rfl⟩
  refine ⟨hnext ▸ h.used, hnext ▸ hfresh, fun hmay => hnext ▸ h.child (hdirs hmay),
    fun hmay hmay' => h.parent (hdirs hmay) (hdirs hmay'), ?_, ?_, ?_⟩
  · intro node hmay
    rw [hmeta.1]
    exact h.metadata (hmeta.2 hmay)
  · intro dir t hdir hmay
    rw [hmeta.1] at hdir
    -- the database is a reserved place, so it is as it was
    obtain ⟨hlook, hold⟩ := hreserved (hdata hdir)
    obtain ⟨t', ht', hwithin⟩ := h.database hdir (hold hmay)
    exact ⟨t', tableAt_eq_some.2 (hlook.trans (tableAt_eq_some.1 ht')), hwithin⟩
  · intro t a row hledger hrow hpend
    obtain ⟨dir, hdir, htable⟩ := ledger_eq_some.1 hledger
    rw [hmeta.1] at hdir
    rw [(hreserved (hdata hdir)).1] at htable
    have hledger : fs.ledger = some t := ledger_eq_some.2 ⟨dir, hdir, htable⟩
    have hcont : fs.contains a = true := by simp [contains, hledger, hrow]
    intro dir' blobs node hd hb hnode
    -- a row is on record, so the change may only have emptied the place of its payload
    rcases hgone hcont (hdirs hd) (hdirs hb) hnode with rfl | hmay
    · rfl
    · exact h.gone hledger hrow hpend dir' blobs node (hdirs hd) (hdirs hb) hmay

theorem Sound.replace (h : fs.Sound) {a : Address} {dir : Ino} {stat : Stat}
    (hdir : fs.blobs a.session = some dir) (hfree : fs.contains a = false) :
    (fs.perform (.replace dir a.filename stat)).Sound := by
  obtain ⟨session, hsess, hblobs⟩ := blobs_eq_some.1 hdir
  -- one place has a new file, every other is as it was
  have hmay : ∀ {d n node}, (fs.perform (.replace dir a.filename stat)).May d n node →
      (d, n) = (dir, a.filename) ∧ node = some (.file stat) ∨ fs.May d n node :=
    fun hnode => Disk.may_put.1 hnode
  refine h.of_ordinary rfl ?_ ?_ ?_ ?_
  · intro ino name hino node hnode
    rcases hmay hnode with ⟨heq, -⟩ | hnode
    · have := (h.child (may_openDir hblobs)).2
      rw [← (Prod.mk.inj heq).1] at this
      exact absurd hino (Nat.not_le.2 this)
    · exact h.fresh ino name hino node hnode
  · intro d n i hnode
    rcases hmay hnode with ⟨-, heq⟩ | hnode
    · cases heq
    · exact hnode
  · intro d n hres
    have hne : (d, n) ≠ (dir, a.filename) := by
      rintro heq
      rw [heq] at hres
      exact h.not_reserved (may_openDir hblobs) (by decide) _ hres
    refine ⟨congrArg Cell.now (Disk.put_of_ne _ _ hne), fun hnode => ?_⟩
    rcases hmay hnode with ⟨heq, -⟩ | hnode
    · exact absurd heq hne
    · exact hnode
  · intro a' d b node hcont hd hb hnode
    rcases hmay hnode with ⟨heq, -⟩ | hnode
    · -- the same file is the file of one address only
      obtain ⟨hb', hfile⟩ := Prod.mk.inj heq
      have hsame := h.eq_of_blobs (may_openDir hsess) (may_openDir hblobs) hd hb hb'
      obtain rfl := Address.eq_of_filename hsame hfile
      rw [hfree] at hcont
      cases hcont
    · exact .inr hnode

theorem Sound.remove (h : fs.Sound) {entries : Disk (Ino × String) (Option Node)}
    (hentries : ∀ place, entries place = fs.entries place ∨
      entries place = (fs.entries place).set none ∧ ¬ fs.Reserved place) :
    (FileSystem.mk entries fs.next).Sound := by
  have hmay : ∀ {d n node}, (FileSystem.mk entries fs.next).May d n node →
      node = none ∨ fs.May d n node := by
    intro d n node hnode
    have hnode : (entries (d, n)).May node := hnode
    rcases hentries (d, n) with heq | ⟨heq, -⟩ <;> rw [heq] at hnode
    · exact .inr hnode
    · exact Cell.may_set.1 hnode
  refine h.of_ordinary rfl ?_ ?_ ?_ ?_
  · intro ino name hino node hnode
    rcases hmay hnode with rfl | hnode
    · rfl
    · exact h.fresh ino name hino node hnode
  · intro d n i hnode
    rcases hmay hnode with heq | hnode
    · cases heq
    · exact hnode
  · intro d n hres
    rcases hentries (d, n) with heq | ⟨-, hno⟩
    · refine ⟨congrArg Cell.now heq, fun {node} hnode => ?_⟩
      have hnode : (entries (d, n)).May node := hnode
      rwa [heq] at hnode
    · exact absurd hres hno
  · intro a d b node _ _ _ hnode
    exact hmay hnode

variable {n : String}

theorem may_of_fsync {dir d : Ino}
    (hnode : (fs.perform (.fsync dir)).May d n node) : fs.May d n node :=
  Disk.may_of_sync hnode

theorem lookup_fsync (dir d : Ino) (n : String) :
    (fs.perform (.fsync dir)).lookup d n = fs.lookup d n :=
  Disk.now_sync _ _ _

theorem Sound.fsync (h : fs.Sound) (dir : Ino) : (fs.perform (.fsync dir)).Sound :=
  h.of_ordinary rfl (fun ino name hino node hnode =>
    h.fresh ino name hino node (may_of_fsync hnode))
    may_of_fsync (fun _ => ⟨lookup_fsync _ _ _, may_of_fsync⟩)
    (fun _ _ _ hnode => Or.inr (may_of_fsync hnode))

theorem Sound.mkdir (h : fs.Sound) {dir : Ino} {name : String} (hnew : fs.lookup dir name = none)
    (hdir : dir < fs.next) (hplace : dir = root ∨ name = "blobs") :
    (fs.perform (.mkdir dir name)).Sound := by
  have hmay : ∀ {d n node}, (fs.perform (.mkdir dir name)).May d n node →
      (d, n) = (dir, name) ∧ node = some (.dir fs.next) ∨ fs.May d n node :=
    fun hnode => Disk.may_put.1 hnode
  have hinside : ∀ {n node}, (fs.perform (.mkdir dir name)).May fs.next n node → node = none := by
    intro n node hnode
    rcases hmay hnode with ⟨heq, -⟩ | hnode
    · exact absurd (Prod.mk.inj heq).1 (Nat.ne_of_gt hdir)
    · exact h.fresh fs.next n (Nat.le_refl _) node hnode
  have hlook : ∀ {d n}, (d, n) ≠ (dir, name) →
      (fs.perform (.mkdir dir name)).lookup d n = fs.lookup d n :=
    fun hne => congrArg Cell.now (Disk.put_of_ne _ _ hne)
  have hself : (fs.perform (.mkdir dir name)).lookup dir name = some (.dir fs.next) :=
    Disk.now_put_self _ _ _
  -- no place inside a directory that is found under another name is the new entry
  have hapart : ∀ {m i n n'}, fs.May m n' (some (.dir i)) → n ≠ "blobs" → (i, n) ≠ (dir, name) := by
    intro m i n n' hi hn heq
    obtain ⟨rfl, rfl⟩ := Prod.mk.inj heq
    rcases hplace with rfl | rfl
    · exact absurd (h.child hi).1 (by decide)
    · exact hn rfl
  have hdata : ∀ {m t}, (fs.perform (.mkdir dir name)).lookup root METADATA = some (.dir m) →
      (fs.perform (.mkdir dir name)).May m DATABASE (some (.ledger t)) →
      fs.lookup root METADATA = some (.dir m) ∧ fs.May m DATABASE (some (.ledger t)) ∧
        (fs.perform (.mkdir dir name)).lookup m DATABASE = fs.lookup m DATABASE := by
    intro m t hm ht
    by_cases hplace : (root, METADATA) = (dir, name)
    · obtain ⟨rfl, rfl⟩ := Prod.mk.inj hplace
      rw [hself] at hm
      cases hm
      cases hinside ht
    · rw [hlook hplace] at hm
      rcases hmay ht with ⟨-, heq⟩ | ht
      · cases heq
      · exact ⟨hm, ht, hlook (hapart (may_openDir hm) (by decide))⟩
  refine ⟨Nat.lt_succ_of_lt h.used, ?_, ?_, ?_, ?_, ?_, ?_⟩
  · intro ino n hino node hnode
    rcases hmay hnode with ⟨heq, -⟩ | hnode
    · obtain ⟨rfl, -⟩ := Prod.mk.inj heq
      exact absurd (Nat.lt_of_lt_of_le (Nat.lt_succ_of_lt hdir) hino) (Nat.lt_irrefl _)
    · exact h.fresh ino n (Nat.le_of_succ_le hino) node hnode
  · intro d n i hnode
    rcases hmay hnode with ⟨-, heq⟩ | hnode
    · cases heq
      exact ⟨h.used, Nat.lt_succ_self _⟩
    · exact ⟨(h.child hnode).1, Nat.lt_succ_of_lt (h.child hnode).2⟩
  · intro d n d' n' i hnode hnode'
    rcases hmay hnode with ⟨heq, hi⟩ | hnode <;> rcases hmay hnode' with ⟨heq', hi'⟩ | hnode'
    · exact Prod.mk.inj (heq.trans heq'.symm)
    · cases hi
      exact absurd (h.child hnode').2 (Nat.lt_irrefl _)
    · cases hi'
      exact absurd (h.child hnode).2 (Nat.lt_irrefl _)
    · exact h.parent hnode hnode'
  · intro node hnode
    by_cases hplace : (root, METADATA) = (dir, name)
    · obtain ⟨rfl, rfl⟩ := Prod.mk.inj hplace
      rcases hmay hnode with ⟨-, rfl⟩ | hnode
      · exact .inr hself.symm
      · rcases h.metadata hnode with rfl | rfl
        · exact .inl rfl
        · exact .inl hnew
    · rw [hlook hplace]
      rcases hmay hnode with ⟨heq, -⟩ | hnode
      · exact absurd heq hplace
      · exact h.metadata hnode
  · intro m t hm ht
    obtain ⟨hm, ht, hsame⟩ := hdata hm ht
    obtain ⟨t', ht', hwithin⟩ := h.database hm ht
    exact ⟨t', tableAt_eq_some.2 (hsame.trans (tableAt_eq_some.1 ht')), hwithin⟩
  · intro t a row hledger hrow hpend s b node hs hb hnode
    obtain ⟨m, hm, ht⟩ := ledger_eq_some.1 hledger
    obtain ⟨hm, -, hsame⟩ := hdata hm (ht ▸ may_lookup _ _)
    have hledger : fs.ledger = some t := ledger_eq_some.2 ⟨m, hm, hsame ▸ ht⟩
    rcases hmay hs with ⟨-, heq⟩ | hs
    · cases heq
      cases hinside hb
    rcases hmay hb with ⟨-, heq⟩ | hb
    · cases heq
      exact hinside hnode
    rcases hmay hnode with ⟨heq, -⟩ | hnode
    · exact absurd heq (hapart hb a.filename_ne_blobs)
    · exact h.gone hledger hrow hpend s b node hs hb hnode

theorem may_of_powerLoss {choice : Ino × String → ℕ} {d : Ino}
    (hnode : (fs.powerLoss choice).May d n node) : fs.May d n node :=
  Disk.may_of_lose hnode

theorem lookup_of_may_powerLoss {choice : Ino × String → ℕ} {d : Ino}
    (hnode : (fs.powerLoss choice).May d n node) : (fs.powerLoss choice).lookup d n = node :=
  Disk.now_of_may_lose hnode

/-- What a power loss leaves is sound. -/
theorem Sound.powerLoss (h : fs.Sound) (choice : Ino × String → ℕ) :
    (fs.powerLoss choice).Sound := by
  refine ⟨h.used, fun ino name hino node hnode =>
    h.fresh ino name hino node (may_of_powerLoss hnode),
    fun hnode => h.child (may_of_powerLoss hnode),
    fun hnode hnode' => h.parent (may_of_powerLoss hnode) (may_of_powerLoss hnode'),
    fun hnode => Or.inr (lookup_of_may_powerLoss hnode).symm, ?_, ?_⟩
  · intro dir t _ ht
    exact ⟨t, tableAt_eq_some.2 (lookup_of_may_powerLoss ht), .refl t⟩
  · -- the ledger that is found is an older version of the lost one
    intro t a row hledger hrow hpend s b node hs hb hnode
    obtain ⟨m, hm, ht⟩ := ledger_eq_some.1 hledger
    have hm := h.lookup_of_may (may_of_powerLoss (hm ▸ may_lookup _ _))
    obtain ⟨t', ht', hwithin⟩ := h.database hm (may_of_powerLoss (ht ▸ may_lookup _ _))
    obtain ⟨row', hrow', -, hpend'⟩ := hwithin a row hrow
    exact h.gone (ledger_eq_some.2 ⟨m, hm, tableAt_eq_some.1 ht'⟩) hrow' (hpend' hpend) s b node
      (may_of_powerLoss hs) (may_of_powerLoss hb) (may_of_powerLoss hnode)

theorem may_of_store {dir d : Ino} {table : Table}
    (hnode : (fs.perform (.store dir table)).May d n node) :
    (d, n) = (dir, DATABASE) ∧ node = some (.ledger table) ∨ fs.May d n node :=
  Disk.may_put.1 hnode

theorem may_dir_of_store {dir d i : Ino} {table : Table}
    (hnode : (fs.perform (.store dir table)).May d n (some (.dir i))) :
    fs.May d n (some (.dir i)) := by
  rcases may_of_store hnode with ⟨-, heq⟩ | hnode
  · cases heq
  · exact hnode

theorem Gone.store {a : Address} (hgone : fs.Gone a) (dir : Ino) (table : Table) :
    (fs.perform (.store dir table)).Gone a := by
  intro s b node hs hb hnode
  rcases may_of_store hnode with ⟨heq, -⟩ | hnode
  · exact absurd (Prod.mk.inj heq).2 a.filename_ne_database
  · exact hgone s b node (may_dir_of_store hs) (may_dir_of_store hb) hnode

theorem lookup_store_metadata (h : fs.Sound) (table : Table)
    (hdir : fs.lookup root METADATA = some (.dir dir)) :
    (fs.perform (.store dir table)).lookup root METADATA = fs.lookup root METADATA := by
  refine congrArg Cell.now (Disk.put_of_ne _ _ fun heq => ?_)
  have := (h.child (may_openDir hdir)).1
  rw [← (Prod.mk.inj heq).1] at this
  exact absurd this (by decide)

theorem lookup_store_self (dir : Ino) (table : Table) :
    (fs.perform (.store dir table)).lookup dir DATABASE = some (.ledger table) :=
  Disk.now_put_self _ _ _

theorem Sound.store (h : fs.Sound) {dir : Ino} {table : Table}
    (hdir : fs.lookup root METADATA = some (.dir dir))
    (hwithin : ∀ t, fs.tableAt dir = some t → t.Within table)
    (hgone : ∀ a row, table.row a = some row → row.pending = false → fs.Gone a) :
    (fs.perform (.store dir table)).Sound := by
  have hmeta := lookup_store_metadata h table hdir
  refine ⟨h.used, ?_, fun hnode => h.child (may_dir_of_store hnode),
    fun hnode hnode' => h.parent (may_dir_of_store hnode) (may_dir_of_store hnode'), ?_, ?_, ?_⟩
  · intro ino name hino node hnode
    rcases may_of_store hnode with ⟨heq, -⟩ | hnode
    · have := (h.child (may_openDir hdir)).2
      rw [← (Prod.mk.inj heq).1] at this
      exact absurd hino (Nat.not_le.2 this)
    · exact h.fresh ino name hino node hnode
  · intro node hnode
    rw [hmeta]
    rcases may_of_store hnode with ⟨heq, -⟩ | hnode
    · exact absurd (Prod.mk.inj heq).2 (by decide)
    · exact h.metadata hnode
  · intro m t hm ht
    rw [hmeta, hdir] at hm
    cases hm
    refine ⟨table, tableAt_eq_some.2 (lookup_store_self dir table), ?_⟩
    -- what a power loss may bring back is within the table before, and that within the new one
    rcases may_of_store ht with ⟨-, heq⟩ | ht
    · cases heq
      exact .refl _
    · obtain ⟨t', ht', hle⟩ := h.database hdir ht
      exact hle.trans (hwithin t' ht')
  · intro t a row hledger hrow hpend
    obtain ⟨m, hm, ht⟩ := ledger_eq_some.1 hledger
    rw [hmeta, hdir] at hm
    cases hm
    rw [lookup_store_self] at ht
    cases ht
    exact (hgone a row hrow hpend).store dir table

/-- Every call of an operation keeps the disk sound. -/
theorem Sound.change (h : fs.Sound) (hchange : fs.Change fs') : fs'.Sound := by
  cases hchange with
  | mkdir hnew hdir hplace => exact h.mkdir hnew hdir hplace
  | replace hdir hfree => exact h.replace hdir hfree
  | remove hentries => exact h.remove hentries
  | fsync dir => exact h.fsync dir
  | powerLoss choice => exact h.powerLoss choice
  | store hdir hwithin hgone => exact h.store hdir hwithin hgone

/-! ## A durable row stays -/

theorem Recorded.contains {a : Address} (hrec : fs.Recorded a) : fs.contains a = true := by
  obtain ⟨dir, hdir, hrows⟩ := hrec
  obtain ⟨t, row, ht, hrow⟩ := hrows _ (may_lookup dir DATABASE)
  have hledger : fs.ledger = some t := ledger_eq_some.2 ⟨dir, hdir.lookup, ht⟩
  simp [FileSystem.contains, hledger, hrow]

theorem Recorded.of_reserved {a : Address} (hrec : fs.Recorded a)
    (hold : ∀ {dir name node}, fs.Reserved (dir, name) → fs'.May dir name node →
      fs.May dir name node) :
    fs'.Recorded a := by
  obtain ⟨dir, hdir, hrows⟩ := hrec
  have hmay : fs.May root METADATA (some (.dir dir)) := hdir.lookup ▸ may_lookup _ _
  exact ⟨dir, fun node hnode => hdir node (hold (.inl rfl) hnode),
    fun node hnode => hrows node (hold (.inr ⟨dir, hmay, rfl⟩) hnode)⟩

/-- A durable row stays durable. -/
theorem Recorded.change (h : fs.Sound) {a : Address} (hrec : fs.Recorded a)
    (hchange : fs.Change fs') : fs'.Recorded a := by
  cases hchange with
  | @mkdir dir name hnew hdir hplace =>
    refine hrec.of_reserved fun hres hnode => ?_
    rcases Disk.may_put.1 hnode with ⟨heq, -⟩ | hnode
    · -- the metadata directory exists, and its inode is neither the root nor a session's
      rcases hres with hres | ⟨m, hm, hres⟩
      · obtain ⟨m, hm, -⟩ := hrec
        have := hm.lookup
        obtain ⟨rfl, rfl⟩ := Prod.mk.inj (heq.symm.trans hres)
        rw [hnew] at this
        cases this
      · obtain ⟨rfl, rfl⟩ := Prod.mk.inj (heq.symm.trans hres)
        rcases hplace with rfl | hname
        · exact absurd (h.child hm).1 (by decide)
        · exact absurd hname (by decide)
    · exact hnode
  | replace hdir hfree =>
    obtain ⟨session, hsess, hblobs⟩ := blobs_eq_some.1 hdir
    refine hrec.of_reserved fun hres hnode => ?_
    rcases Disk.may_put.1 hnode with ⟨heq, -⟩ | hnode
    · rw [heq] at hres
      exact absurd hres (h.not_reserved (may_openDir hblobs) (by decide) _)
    · exact hnode
  | @remove entries hentries =>
    refine hrec.of_reserved fun {d n node} hres hnode => ?_
    have hnode : (entries (d, n)).May node := hnode
    rcases hentries (d, n) with heq | ⟨-, hno⟩
    · rwa [heq] at hnode
    · exact absurd hres hno
  | fsync dir => exact hrec.of_reserved fun _ => may_of_fsync
  | powerLoss choice => exact hrec.of_reserved fun _ => may_of_powerLoss
  | @store dir table hdir hwithin hgone =>
    obtain ⟨m, hm, hrows⟩ := hrec
    obtain rfl : m = dir := by
      rw [hm.lookup] at hdir
      cases hdir
      rfl
    refine ⟨m, fun node hnode => ?_, fun node hnode => ?_⟩
    · rcases may_of_store hnode with ⟨heq, -⟩ | hnode
      · exact absurd (Prod.mk.inj heq).2 (by decide)
      · exact hm node hnode
    · rcases may_of_store hnode with ⟨-, rfl⟩ | hnode
      · -- the new table has the rows of the old one
        obtain ⟨t, row, ht, hrow⟩ := hrows _ (may_lookup m DATABASE)
        obtain ⟨row', hrow', -⟩ := hwithin t (tableAt_eq_some.2 ht) a row hrow
        exact ⟨table, row', rfl, hrow'⟩
      · exact hrows node hnode

end FileSystem

end ContextIntelligence.Blobs
