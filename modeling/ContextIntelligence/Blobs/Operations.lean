import ContextIntelligence.Blobs.Disk

/-!
# Writes and session deletes

`Write.Inv` and `Delete.Inv` say what an operation relies on in each phase; every step makes a
`Change` of the disk and leads to a phase whose assertion holds. An exclusive lease is the only
lease, so only concurrent writes have to respect each other's assertions.
-/

namespace ContextIntelligence.Blobs

open Lib.Durable

namespace FileSystem

variable {fs fs' : FileSystem}

/-! ## What the disk shows -/

def Records (fs : FileSystem) (a : Address) (fp : Fingerprint) : Prop :=
  ∃ t row, fs.ledger = some t ∧ t.row a = some row ∧ row.fp = fp

def Settled (fs : FileSystem) (a : Address) : Prop :=
  ∃ t row, fs.ledger = some t ∧ t.row a = some row ∧ row.pending = false

/-- The metadata directory is the one that a power loss leaves. -/
def Opened (fs : FileSystem) (dir : Ino) : Prop := fs.Sure root METADATA (some (.dir dir))

def Ready (fs : FileSystem) (dir : Ino) : Prop :=
  fs.Opened dir ∧ ∃ t, fs.Sure dir DATABASE (some (.ledger t))

def onlyDir (c : Cell (Option Node)) : Bool :=
  c.kept.all fun node => match node with
    | some (.dir _) => node == c.now
    | _ => true

/-- The path of a session leads to no other directory after a power loss. -/
def sole (fs : FileSystem) (session : String) : Bool :=
  onlyDir (fs.entries (root, session)) &&
    match fs.openDir root session with
    | none => true
    | some dir => onlyDir (fs.entries (dir, "blobs"))

/-- The payload is missing in the one directory it can be in, and that directory is still to be
synced or has been. -/
def Missing (fs : FileSystem) (unsynced : List Ino) (a : Address) : Prop :=
  ∃ dir blobs, (∀ i, fs.May root a.session (some (.dir i)) → i = dir) ∧
    (∀ i, fs.May dir "blobs" (some (.dir i)) → i = blobs) ∧
    fs.lookup blobs a.filename = none ∧ (blobs ∈ unsynced ∨ fs.Sure blobs a.filename none)

theorem eq_now_of_onlyDir {c : Cell (Option Node)} {i : Ino} (h : onlyDir c = true)
    (hmay : c.May (some (.dir i))) : c.now = some (.dir i) := by
  rcases List.mem_cons.1 hmay with heq | hkept
  · exact heq.symm
  · have := List.all_eq_true.1 h _ hkept
    exact (beq_iff_eq.1 this).symm

variable {a : Address} {dir : Ino}

theorem survives_records {t : Table} {row : Row} (hopen : fs.Opened dir)
    (ht : fs.Sure dir DATABASE (some (.ledger t))) (hrow : t.row a = some row) :
    fs.Survives fun fs => fs.Records a row.fp :=
  Disk.survives_of fun _ hmay =>
    ⟨t, row, ledger_eq_some.2 ⟨dir, hopen _ (hmay _), ht _ (hmay _)⟩, hrow, rfl⟩

theorem Gone.survives (hgone : fs.Gone a) : fs.Survives fun fs => fs.payload a = none := by
  refine Disk.survives_of fun entries hmay => ?_
  cases hpath : FileSystem.blobs ⟨entries, fs.next⟩ a.session with
  | none => simp [payload, hpath]
  | some blobs =>
    obtain ⟨dir, hdir, hblobs⟩ := blobs_eq_some.1 hpath
    have hnone := hgone dir blobs _ (hdir ▸ hmay (root, a.session)) (hblobs ▸ hmay (dir, "blobs"))
      (hmay (blobs, a.filename))
    simp only [payload, hpath, Option.bind_some]
    exact hnone

theorem recorded_of_survives (h : fs.Sound)
    (hrow : fs.Survives fun fs => fs.contains a = true) : fs.Recorded a := by
  have hpick : ∀ f : Ino × String → Option Node, (∀ q, (fs.entries q).May (f q)) →
      ∃ m t row, f (root, METADATA) = some (.dir m) ∧ f (m, DATABASE) = some (.ledger t) ∧
        t.row a = some row := by
    intro f hf
    obtain ⟨entries, hcont, hnow⟩ := Disk.Survives.elim hrow f hf
    obtain ⟨row, hrow⟩ := Option.isSome_iff_exists.1 hcont
    obtain ⟨t, ht, hrow⟩ := Option.bind_eq_some_iff.1 hrow
    obtain ⟨m, hm, htable⟩ := ledger_eq_some.1 ht
    exact ⟨m, t, row, (hnow _).symm.trans hm, (hnow _).symm.trans htable, hrow⟩
  -- the present disk, with another value that may come back in one place
  have hchange : ∀ {place node}, (fs.entries place).May node →
      ∀ q, (fs.entries q).May (Function.update (fun q => (fs.entries q).now) place node q) := by
    intro place node hnode q
    by_cases hq : q = place
    · subst hq
      simpa using hnode
    · simpa [hq] using Cell.may_now _
  obtain ⟨m, -, -, hm, -⟩ := hpick (fun q => (fs.entries q).now) fun q => Cell.may_now _
  refine ⟨m, fun node hnode => ?_, fun node hnode => ?_⟩
  · obtain ⟨m', -, -, hm', -⟩ := hpick _ (hchange hnode)
    rw [Function.update_self] at hm'
    rw [hm'] at hnode ⊢
    exact (h.lookup_of_may hnode).symm.trans hm
  · obtain ⟨m', t, row, hm', ht, hrow⟩ := hpick _ (hchange hnode)
    rw [Function.update_of_ne (by simp [METADATA, DATABASE]), hm] at hm'
    cases hm'
    rw [Function.update_self] at ht
    exact ⟨t, row, ht, hrow⟩

/-! ## What the calls keep -/

/-- The ledger is what it was and no directory is gone. -/
structure Adds (fs fs' : FileSystem) : Prop where
  ledger : fs'.ledger = fs.ledger
  dirs : ∀ {dir name i}, fs.lookup dir name = some (.dir i) → fs'.lookup dir name = some (.dir i)

theorem Adds.contains (h : fs.Adds fs') (a : Address) : fs'.contains a = fs.contains a := by
  unfold FileSystem.contains
  rw [h.ledger]

theorem ledger_congr (h : ∀ {dir name}, fs.Reserved (dir, name) →
    fs'.lookup dir name = fs.lookup dir name) : fs'.ledger = fs.ledger := by
  have hopen : fs'.openDir root METADATA = fs.openDir root METADATA := by
    unfold openDir
    rw [h (.inl rfl)]
  unfold FileSystem.ledger
  rw [hopen]
  cases hm : fs.openDir root METADATA with
  | none => rfl
  | some m =>
    have hmay := may_openDir (openDir_eq_some.1 hm)
    simp only [Option.bind_some, tableAt]
    rw [h (.inr ⟨m, hmay, rfl⟩)]

theorem adds_put {place : Ino × String} {node : Option Node} {next : Ino}
    (hno : ¬ fs.Reserved place) (hdir : ∀ i, (fs.entries place).now ≠ some (.dir i)) :
    fs.Adds ⟨fs.entries.put place node, next⟩ := by
  refine ⟨ledger_congr fun {dir name} hres => ?_, fun {dir name i} hi => ?_⟩
  · exact congrArg Cell.now (Disk.put_of_ne _ _ fun heq => hno (heq ▸ hres))
  · refine (congrArg Cell.now (Disk.put_of_ne _ _ fun heq => ?_)).trans hi
    exact hdir i (heq ▸ hi)

theorem Change.unlink {dir : Ino} {name : String} (hno : ¬ fs.Reserved (dir, name)) :
    fs.Change (fs.perform (.unlink dir name)) := by
  refine .remove fun place => ?_
  by_cases hplace : place = (dir, name)
  · subst hplace
    exact .inr ⟨Function.update_self _ _ _, hno⟩
  · exact .inl (Disk.put_of_ne _ _ hplace)

theorem Change.clear (hno : ∀ name, ¬ fs.Reserved (dir, name)) :
    fs.Change (fs.perform (.clear dir)) := by
  refine .remove fun place => ?_
  by_cases hplace : place.1 = dir
  · subst hplace
    exact .inr ⟨if_pos rfl, hno place.2⟩
  · exact .inl (if_neg hplace)

theorem Sure.fsync {dir d : Ino} {n : String} {node : Option Node} (h : fs.Sure d n node) :
    (fs.perform (.fsync dir)).Sure d n node :=
  fun _ hnode => h _ (may_of_fsync hnode)

theorem sure_fsync_self (dir : Ino) (n : String) :
    (fs.perform (.fsync dir)).Sure dir n (fs.lookup dir n) :=
  Disk.sure_sync _ (by simp)

theorem Ready.fsync {dir : Ino} (h : fs.Ready dir) (d : Ino) :
    (fs.perform (.fsync d)).Ready dir := by
  obtain ⟨hopen, t, ht⟩ := h
  exact ⟨hopen.fsync, t, ht.fsync⟩

theorem ready_of_fsync (hopen : fs.Opened dir) {t : Table}
    (ht : fs.tableAt dir = some t) : (fs.perform (.fsync dir)).Ready dir :=
  ⟨Sure.fsync hopen, t, tableAt_eq_some.1 ht ▸ sure_fsync_self dir DATABASE⟩

theorem Opened.store {dir : Ino} (hopen : fs.Opened dir) (table : Table) :
    (fs.perform (.store dir table)).Opened dir := by
  intro node hnode
  rcases may_of_store hnode with ⟨heq, -⟩ | hnode
  · exact absurd (Prod.mk.inj heq).2 (by decide)
  · exact hopen node hnode

theorem Sure.unlink {dir d : Ino} {name n : String} {node : Option Node} (h : fs.Sure d n node)
    (hne : (d, n) ≠ (dir, name)) : (fs.perform (.unlink dir name)).Sure d n node := by
  intro node' hnode
  rcases Disk.may_put.1 hnode with ⟨heq, -⟩ | hnode
  · exact absurd heq hne
  · exact h node' hnode

theorem Ready.unlink {dir d : Ino} {name : String} (h : fs.Ready dir)
    (hno : ¬ fs.Reserved (d, name)) : (fs.perform (.unlink d name)).Ready dir := by
  obtain ⟨hopen, t, ht⟩ := h
  have hmay : fs.May root METADATA (some (.dir dir)) := hopen.lookup ▸ may_lookup _ _
  exact ⟨Sure.unlink hopen fun heq => hno (heq ▸ Or.inl rfl), t,
    ht.unlink fun heq => hno (heq ▸ Or.inr ⟨dir, hmay, rfl⟩)⟩

/-! ## Missing payloads -/

theorem Missing.mono {unsynced unsynced' : List Ino} (h : fs.Missing unsynced a)
    (hsub : ∀ i ∈ unsynced, i ∈ unsynced') : fs.Missing unsynced' a := by
  obtain ⟨dir, blobs, hdir, hblobs, hnone, hsync⟩ := h
  exact ⟨dir, blobs, hdir, hblobs, hnone, hsync.imp_left (hsub blobs)⟩

theorem may_dir_of_unlink {d d' i : Ino} {name n : String}
    (h : (fs.perform (.unlink d name)).May d' n (some (.dir i))) : fs.May d' n (some (.dir i)) := by
  rcases Disk.may_put.1 h with ⟨-, heq⟩ | h
  · cases heq
  · exact h

theorem Missing.unlink {unsynced : List Ino} {a : Address} (h : fs.Missing unsynced a) (d : Ino)
    (name : String) : (fs.perform (.unlink d name)).Missing unsynced a := by
  obtain ⟨dir, blobs, hdir, hblobs, hnone, hsync⟩ := h
  refine ⟨dir, blobs, fun i hi => hdir i (may_dir_of_unlink hi),
    fun i hi => hblobs i (may_dir_of_unlink hi), ?_, hsync.imp_right fun hsure node hnode => ?_⟩
  · by_cases heq : (blobs, a.filename) = (d, name)
    · obtain ⟨rfl, rfl⟩ := Prod.mk.inj heq
      exact Disk.now_put_self _ _ _
    · exact (congrArg Cell.now (Disk.put_of_ne _ _ heq)).trans hnone
  · rcases Disk.may_put.1 hnode with ⟨-, heq⟩ | hnode
    · exact heq
    · exact hsure node hnode

theorem Missing.fsync {blobs : Ino} {unsynced : List Ino} {a : Address}
    (h : fs.Missing (blobs :: unsynced) a) : (fs.perform (.fsync blobs)).Missing unsynced a := by
  obtain ⟨dir, blobs', hdir, hblobs, hnone, hsync⟩ := h
  refine ⟨dir, blobs', fun i hi => hdir i (may_of_fsync hi), fun i hi => hblobs i (may_of_fsync hi),
    (lookup_fsync _ _ _).trans hnone, ?_⟩
  rcases hsync with hmem | hsure
  · rcases List.mem_cons.1 hmem with rfl | hmem
    · exact .inr (hnone ▸ sure_fsync_self blobs' a.filename)
    · exact .inl hmem
  · exact .inr hsure.fsync

theorem Missing.gone {a : Address} (h : fs.Missing [] a) : fs.Gone a := by
  obtain ⟨dir, blobs, hdir, hblobs, -, hsync⟩ := h
  intro dir' blobs' node hd hb hnode
  obtain rfl := hdir dir' hd
  obtain rfl := hblobs blobs' hb
  rcases hsync with hmem | hsure
  · cases hmem
  · exact hsure node hnode

theorem sole_path {session : String} {blobs : Ino} (hsole : fs.sole session = true)
    (hpath : fs.blobs session = some blobs) :
    ∃ dir, (∀ i, fs.May root session (some (.dir i)) → i = dir) ∧
      ∀ i, fs.May dir "blobs" (some (.dir i)) → i = blobs := by
  obtain ⟨dir, hdir, hblobs⟩ := blobs_eq_some.1 hpath
  simp only [sole, openDir_eq_some.2 hdir, Bool.and_eq_true] at hsole
  refine ⟨dir, fun i hi => ?_, fun i hi => ?_⟩
  · cases (eq_now_of_onlyDir hsole.1 hi).symm.trans hdir
    rfl
  · cases (eq_now_of_onlyDir hsole.2 hi).symm.trans hblobs
    rfl

theorem missing_of_sole {blobs : Ino} {unsynced : List Ino}
    (hsole : fs.sole a.session = true) (hpath : fs.blobs a.session = some blobs)
    (hnone : fs.lookup blobs a.filename = none) (hmem : blobs ∈ unsynced) :
    fs.Missing unsynced a := by
  obtain ⟨dir, hdir, hblobs⟩ := sole_path hsole hpath
  exact ⟨dir, blobs, hdir, hblobs, hnone, Or.inl hmem⟩

theorem missing_unlink_of_sole {blobs : Ino} {unsynced : List Ino}
    (hsole : fs.sole a.session = true) (hpath : fs.blobs a.session = some blobs)
    (hmem : blobs ∈ unsynced) : (fs.perform (.unlink blobs a.filename)).Missing unsynced a := by
  obtain ⟨dir, hdir, hblobs⟩ := sole_path hsole hpath
  exact ⟨dir, blobs, fun i hi => hdir i (may_dir_of_unlink hi),
    fun i hi => hblobs i (may_dir_of_unlink hi), Disk.now_put_self _ _ _, Or.inl hmem⟩

end FileSystem

open FileSystem

/-! ## What an operation relies on -/

/-- A step whose call is a change of the disk, and which leads to a phase whose assertion holds. -/
structure Keeps {τ : Type} (fs : FileSystem) (I : FileSystem → τ → Prop) (p : Progress τ) :
    Prop where
  change : ∀ call, p.1 = some call → fs.Change (fs.perform call)
  inv : ∀ task, p.2 = some task → I (p.1.elim fs fs.perform) task

section Keeps

variable {τ : Type} {fs : FileSystem} {I : FileSystem → τ → Prop} {task : τ} {call : Call}

theorem keeps_stop : Keeps fs I (stop : Progress τ) where
  change := by rintro _ ⟨⟩
  inv := by rintro _ ⟨⟩

theorem keeps_quiet (h : I fs task) : Keeps fs I (none, some task) where
  change := by rintro _ ⟨⟩
  inv := by rintro _ ⟨⟩; exact h

theorem keeps_call (hcall : fs.Change (fs.perform call)) (h : I (fs.perform call) task) :
    Keeps fs I (some call, some task) where
  change := by rintro _ ⟨⟩; exact hcall
  inv := by rintro _ ⟨⟩; exact h

theorem keeps_last (hcall : fs.Change (fs.perform call)) :
    Keeps fs I ((some call, none) : Progress τ) where
  change := by rintro _ ⟨⟩; exact hcall
  inv := by rintro _ ⟨⟩

end Keeps

/-! ## Writes -/

namespace Write

variable {fs fs' : FileSystem} {w : Write}

/-- Until the canonical address has been looked up nothing is known; afterwards it has no row. -/
def Inv (fs : FileSystem) (w : Write) : Prop :=
  match w.phase with
  | .expiry rest => w.canonical ∈ rest ∨ fs.contains w.canonical = false
  | .session => fs.contains w.canonical = false
  | .blobs dir =>
    fs.contains w.canonical = false ∧ fs.lookup root w.canonical.session = some (.dir dir)
  | .payload dir => fs.contains w.canonical = false ∧ fs.blobs w.canonical.session = some dir

theorem Inv.mono (h : w.Inv fs) (hadds : fs.Adds fs') : w.Inv fs' := by
  obtain ⟨canonical, fp, phase⟩ := w
  cases phase with
  | expiry rest => exact h.imp_right (hadds.contains _).trans
  | session => exact (hadds.contains _).trans h
  | blobs dir => exact ⟨(hadds.contains _).trans h.1, hadds.dirs h.2⟩
  | payload dir =>
    obtain ⟨session, hsess, hblobs⟩ := blobs_eq_some.1 h.2
    exact ⟨(hadds.contains _).trans h.1,
      blobs_eq_some.2 ⟨session, hadds.dirs hsess, hadds.dirs hblobs⟩⟩

/-- A write makes directories and files; what other writes rely on stays. -/
structure Writes (fs : FileSystem) (p : Progress Write) : Prop where
  keeps : Keeps fs Inv p
  adds : ∀ call, p.1 = some call → fs.Adds (fs.perform call)

theorem writes_stop : Writes fs stop := ⟨keeps_stop, fun _ h => by cases h⟩

theorem writes_quiet (h : w.Inv fs) : Writes fs (none, some w) :=
  ⟨keeps_quiet h, fun _ h => by cases h⟩

/-- A step of a write keeps its invariant and that of the disk. -/
theorem writes_step (h : fs.Sound) (hw : w.Inv fs) (answer : Answer) :
    Writes fs (w.step fs answer) := by
  obtain ⟨canonical, fp, phase⟩ := w
  unfold Write.step
  split
  · exact writes_stop
  cases phase with
  | expiry rest =>
    cases rest with
    | nil => exact writes_quiet (hw.resolve_left (List.not_mem_nil))
    | cons a rest =>
      dsimp only
      split
      · exact writes_stop
      · next hno =>
          -- the canonical address is still to be checked, or has just been found free
          refine writes_quiet ?_
          rcases hw with hmem | hfree
          · rcases List.mem_cons.1 hmem with heq | hmem
            · exact .inr (heq ▸ Bool.eq_false_iff.2 hno)
            · exact .inl hmem
          · exact .inr hfree
  | session =>
    dsimp only
    split
    · next hnone =>
        have hadds : fs.Adds (fs.perform (.mkdir root canonical.session)) :=
          adds_put (h.not_reserved_root canonical.session_ne_metadata) fun i hi => by
            rw [show (fs.entries (root, canonical.session)).now = none from hnone] at hi
            cases hi
        refine ⟨keeps_call (.mkdir hnone h.used (.inl rfl)) ⟨?_, Disk.now_put_self _ _ _⟩,
          fun _ heq => by cases heq; exact hadds⟩
        exact (hadds.contains _).trans hw
    · next dir hdir => exact writes_quiet ⟨hw, hdir⟩
    · exact writes_stop
  | blobs dir =>
    dsimp only
    obtain ⟨hfree, hdir⟩ := hw
    split
    · next hnone =>
        have hadds : fs.Adds (fs.perform (.mkdir dir "blobs")) :=
          adds_put (h.not_reserved (may_openDir hdir) canonical.session_ne_metadata _)
            fun i hi => by
            rw [show (fs.entries (dir, "blobs")).now = none from hnone] at hi
            cases hi
        refine ⟨keeps_call (.mkdir hnone (h.child (may_openDir hdir)).2 (.inr rfl))
          ⟨(hadds.contains _).trans hfree, ?_⟩, fun _ heq => by cases heq; exact hadds⟩
        exact blobs_eq_some.2 ⟨dir, hadds.dirs hdir, Disk.now_put_self _ _ _⟩
    · next blobs hblobs => exact writes_quiet ⟨hfree, blobs_eq_some.2 ⟨dir, hdir, hblobs⟩⟩
    · exact writes_stop
  | payload dir =>
    dsimp only
    obtain ⟨hfree, hpath⟩ := hw
    obtain ⟨session, hsess, hblobs⟩ := blobs_eq_some.1 hpath
    split
    · exact writes_stop
    · next hunder =>
        refine ⟨keeps_last (.replace hpath hfree), fun _ heq => by
          cases heq
          exact adds_put (h.not_reserved (may_openDir hblobs) (by decide) _) fun i hi =>
            hunder i hi⟩

end Write

/-! ## Session deletes -/

namespace Delete

variable {fs : FileSystem} {d : Delete}

def Inv (fs : FileSystem) (d : Delete) : Prop :=
  match d.phase with
  | .opening => True
  | .emptying dir blobs =>
    fs.May root d.session (some (.dir dir)) ∧ fs.May dir "blobs" (some (.dir blobs))
  | .removingBlobs dir => fs.May root d.session (some (.dir dir))
  | .removing => True

/-- So does a step of a session delete. -/
theorem keeps_step (h : fs.Sound) (hd : d.Inv fs) (answer : Answer) :
    Keeps fs Inv (d.step fs answer) := by
  obtain ⟨session, hsess, phase⟩ := d
  have hname := ne_metadata_of_isComponent hsess
  cases phase with
  | opening =>
    simp only [Delete.step]
    split
    · exact keeps_stop
    split
    · exact keeps_stop
    · next dir hdir =>
        split
        · exact keeps_stop
        · next blobs hblobs =>
            exact keeps_quiet ⟨may_openDir (openDir_eq_some.1 hdir),
              may_openDir (openDir_eq_some.1 hblobs)⟩
  | emptying dir blobs =>
    obtain ⟨hdir, hblobs⟩ := hd
    simp only [Delete.step]
    split
    · next name =>
        refine keeps_call (.unlink (h.not_reserved hblobs (by decide) name)) ⟨?_, ?_⟩
        · exact Disk.may_put.2 (.inr hdir)
        · exact Disk.may_put.2 (.inr hblobs)
    · -- the directory itself is left, only its entries are cleared
      refine keeps_call (.clear (h.not_reserved hblobs (by decide))) ?_
      show Cell.May (if _ then _ else _) _
      split
      · exact Cell.may_set.2 (.inr hdir)
      · exact hdir
    · exact keeps_stop
  | removingBlobs dir =>
    simp only [Delete.step]
    split
    · exact keeps_stop
    · exact keeps_call (Change.unlink (h.not_reserved hd hname _)) trivial
  | removing =>
    simp only [Delete.step]
    split
    · exact keeps_stop
    · exact keeps_last (Change.unlink (h.not_reserved_root hname))

end Delete

end ContextIntelligence.Blobs
