import ContextIntelligence.Blobs.Operations

/-!
# Retention runs

`Run.Inv` says for each phase of a retention run which of its changes are durable by then. A run
relies on what an earlier process left: a metadata directory or a ledger it finds in place is not
synced again, and the session directory it finds is taken for the only one. `Run.Careful` says when
it may.
-/

namespace ContextIntelligence.Blobs

open Lib.Durable FileSystem

namespace Run

variable {fs : FileSystem} {r : Run}

def Old (cutoff : ℤ) (items : List Candidate) : Prop := ∀ item ∈ items, item.fp.mtimeNs < cutoff

def Inv (fs : FileSystem) (r : Run) : Prop :=
  match r.phase with
  | .confirm => True
  | .metadata => True
  | .syncRoot dir => fs.lookup root METADATA = some (.dir dir)
  | .database dir => fs.Opened dir
  | .publish dir => fs.Opened dir ∧ fs.lookup dir DATABASE = none
  | .syncPublished dir => fs.Opened dir ∧ ∃ t, fs.tableAt dir = some t
  | .recover dir _ => fs.Ready dir
  | .scan dir batch => fs.Ready dir ∧ Old r.cutoff batch
  | .select dir todo ready =>
    fs.Ready dir ∧ Old r.cutoff ready ∧ ∀ item ∈ todo, r.refuses item = false →
      item.fp.mtimeNs < r.cutoff
  | .journal dir ready => fs.Ready dir ∧ Old r.cutoff ready
  | .syncJournal dir ready => fs.Opened dir ∧ (∃ t, fs.tableAt dir = some t) ∧ Old r.cutoff ready
  | .unlinking dir todo pinned marked =>
    fs.Ready dir ∧ Old r.cutoff todo ∧ ∀ a ∈ marked, fs.Missing pinned a
  | .syncing dir todo marked failed =>
    fs.Ready dir ∧ (failed = false → ∀ a ∈ marked, fs.Missing todo a)
  | .commit dir marked => fs.Ready dir ∧ ∀ a ∈ marked, fs.Gone a
  | .syncCommit dir => fs.Opened dir ∧ ∃ t, fs.tableAt dir = some t

/-- The run finds a metadata directory whose entry has been synced, a ledger whose last commit has
been synced, and for the payload it is about to unlink a directory that is the only one its path can
lead to. -/
def Careful (fs : FileSystem) (r : Run) : Prop :=
  match r.phase with
  | .metadata => (fs.entries (root, METADATA)).Sure (fs.lookup root METADATA)
  | .database dir => (fs.entries (dir, DATABASE)).Sure (fs.lookup dir DATABASE)
  | .unlinking _ (item :: _) _ _ => fs.sole item.address.session = true
  | _ => True

instance (fs : FileSystem) (r : Run) : Decidable (r.Careful fs) := by
  unfold Careful
  split <;> infer_instance

variable {dir : Ino}

theorem ready_tableAt (h : fs.Ready dir) : ∃ t, fs.tableAt dir = some t := by
  obtain ⟨-, t, ht⟩ := h
  exact ⟨t, tableAt_eq_some.2 ht.lookup⟩

variable {item : Candidate}

theorem lt_of_refuses {items : List Candidate} {recovery : Bool}
    (hsource : r.source = .batch items recovery) (h : r.refuses item = false) :
    item.fp.mtimeNs < r.cutoff := by
  simp only [refuses, hsource, decide_eq_false_iff_not] at h
  exact Int.not_le.1 h

theorem inv_opened (hready : fs.Ready dir) : Inv fs { r with phase := r.opened dir } := by
  obtain ⟨cutoff, source, resume, phase⟩ := r
  cases source with
  | prune => exact hready
  | batch items recovery =>
    exact ⟨hready, by rintro _ ⟨⟩, fun item _ hno => lt_of_refuses rfl hno⟩

theorem Old.append {cutoff : ℤ} {items : List Candidate} (h : Old cutoff items) {item : Candidate}
    (hitem : item.fp.mtimeNs < cutoff) : Old cutoff (items ++ [item]) := by
  intro other hmem
  rcases List.mem_append.1 hmem with hmem | hmem
  · exact h other hmem
  · rw [List.mem_singleton.1 hmem]
    exact hitem

theorem keeps_select {todo ready : List Candidate} (hready : fs.Ready dir)
    (hold : Old r.cutoff ready)
    (htodo : ∀ item ∈ todo, r.refuses item = false → item.fp.mtimeNs < r.cutoff) :
    Keeps fs Inv (r.selectStep fs dir ready todo) := by
  cases todo with
  | nil =>
    refine keeps_quiet ?_
    cases hrec : r.recovery
    · exact ⟨hready, hold⟩
    · exact ⟨hready, hold, by rintro _ ⟨⟩⟩
  | cons item todo =>
    have hrest : ∀ other ∈ todo, r.refuses other = false → other.fp.mtimeNs < r.cutoff :=
      fun other hmem => htodo other (List.mem_cons_of_mem _ hmem)
    simp only [selectStep]
    split
    · exact keeps_stop
    · next hno =>
        have hitem := htodo item List.mem_cons_self (Bool.eq_false_iff.2 hno)
        split
        · exact keeps_quiet ⟨hready, hold.append hitem, hrest⟩
        split
        · exact keeps_quiet ⟨hready, hold, hrest⟩
        split
        · exact keeps_quiet ⟨hready, hold.append hitem, hrest⟩
        · exact keeps_quiet ⟨hready, hold, hrest⟩

theorem keeps_scan {batch : List Candidate} (hready : fs.Ready dir)
    (hold : Old r.cutoff batch) (answer : Answer) :
    Keeps fs Inv (r.scanStep fs dir batch answer) := by
  have hstay : Keeps fs Inv (r.goes none (.scan dir batch)) := keeps_quiet ⟨hready, hold⟩
  have hnone : Old r.cutoff [] := by rintro _ ⟨⟩
  cases answer with
  | entry a =>
    simp only [scanStep]
    split
    · split
      · next hstat =>
          simp only [Bool.and_eq_true, decide_eq_true_eq] at hstat
          have hgrow : Old r.cutoff (batch ++ [⟨a, _⟩]) := hold.append hstat.2
          -- a full batch is selected, another one grows
          split
          · exact keeps_quiet ⟨hready, hnone, fun item hmem _ => hgrow item hmem⟩
          · exact keeps_quiet ⟨hready, hgrow⟩
      · exact hstay
    · exact hstay
  | exhausted =>
    simp only [scanStep]
    split
    · exact keeps_stop
    · exact keeps_quiet ⟨hready, hnone, fun item hmem _ => hold item hmem⟩
  | raises => exact keeps_stop
  | ok => exact hstay
  | fails => exact hstay
  | late => exact hstay
  | name _ => exact hstay

theorem mem_page {t : Table} {cutoff : ℤ} {after : String} {size : ℕ} {row : Row}
    (h : row ∈ t.page cutoff after size) : row.fp.mtimeNs < cutoff := by
  have hmem := List.mem_mergeSort.1 (List.mem_of_mem_take h)
  have hkeep := (List.mem_filter.1 hmem).2
  simp only [Bool.and_eq_true, decide_eq_true_eq] at hkeep
  exact hkeep.1.2

theorem gone_of_row (h : fs.Sound) {t : Table} (hopen : fs.Opened dir)
    (ht : fs.tableAt dir = some t) {a : Address} {row : Row} (hrow : t.row a = some row)
    (hpend : row.pending = false) : fs.Gone a :=
  h.gone (ledger_eq_some.2 ⟨dir, hopen.lookup, tableAt_eq_some.1 ht⟩) hrow hpend

theorem tableAt_store (dir : Ino) (table : Table) :
    (fs.perform (.store dir table)).tableAt dir = some table :=
  tableAt_eq_some.2 (lookup_store_self dir table)

theorem keeps_calm (h : fs.Sound) (hr : r.Inv fs) (hc : r.Careful fs) :
    Keeps fs Inv (r.calmStep fs) := by
  obtain ⟨cutoff, source, resume, phase⟩ := r
  cases phase with
  | confirm => exact keeps_quiet trivial
  | metadata =>
    simp only [calmStep]
    split
    · next hnone =>
        exact keeps_call (.mkdir hnone h.used (.inl rfl)) (Disk.now_put_self _ _ _)
    · next dir hdir =>
        -- the entry is found in place and not synced, so it must have been before
        exact keeps_quiet (show fs.Sure root METADATA _ from hdir ▸ hc)
    · exact keeps_stop
  | syncRoot dir =>
    exact keeps_call (.fsync root)
      (show Sure _ _ _ _ from (show fs.lookup root METADATA = _ from hr)
        ▸ sure_fsync_self root METADATA)
  | database dir =>
    simp only [calmStep]
    split
    · next hnone => exact keeps_quiet ⟨hr, hnone⟩
    · next t ht => exact keeps_quiet (inv_opened ⟨hr, t, ht ▸ hc⟩)
    · exact keeps_stop
  | publish dir =>
    obtain ⟨hopen, hnone⟩ := hr
    refine keeps_call (.store hopen.lookup ?_ ?_) ⟨hopen.store [], [], tableAt_store dir []⟩
    · intro t ht
      rw [tableAt_eq_some, hnone] at ht
      cases ht
    · rintro a row ⟨⟩
  | syncPublished dir =>
    obtain ⟨hopen, t, ht⟩ := hr
    exact keeps_call (.fsync dir) (inv_opened (ready_of_fsync hopen ht))
  | recover dir after =>
    have hready : fs.Ready dir := hr
    obtain ⟨t, ht⟩ := ready_tableAt hready
    simp only [calmStep, ht]
    split
    · exact keeps_quiet ⟨hready, by rintro _ ⟨⟩⟩
    · refine keeps_quiet ⟨hready, ?_, by rintro _ ⟨⟩⟩
      intro item hitem
      obtain ⟨row, hrow, rfl⟩ := List.mem_map.1 hitem
      exact mem_page hrow
  | select dir todo ready => exact keeps_select hr.1 hr.2.1 hr.2.2
  | journal dir ready =>
    obtain ⟨hready, hold⟩ := hr
    obtain ⟨t, ht⟩ := ready_tableAt hready
    simp only [calmStep, ht]
    refine keeps_call (.store hready.1.lookup ?_ ?_)
      ⟨hready.1.store _, ⟨_, tableAt_store dir _⟩, hold⟩
    · intro t' ht'
      cases ht.symm.trans ht'
      exact t.within_insertAll ready
    · intro a row hrow hpend
      exact gone_of_row h hready.1 ht (Table.row_of_insertAll hrow hpend) hpend
  | syncJournal dir ready =>
    obtain ⟨hopen, ⟨t, ht⟩, hold⟩ := hr
    exact keeps_call (.fsync dir) ⟨ready_of_fsync hopen ht, hold, by rintro _ ⟨⟩⟩
  | commit dir marked =>
    obtain ⟨hready, hgone⟩ := hr
    obtain ⟨t, ht⟩ := ready_tableAt hready
    simp only [calmStep, ht]
    refine keeps_call (.store hready.1.lookup ?_ ?_) ⟨hready.1.store _, _, tableAt_store dir _⟩
    · intro t' ht'
      cases ht.symm.trans ht'
      exact t.within_settle marked
    · intro a row hrow hpend
      rcases Table.row_of_settle hrow hpend with hmem | ⟨row', hrow', hpend'⟩
      · exact hgone a hmem
      · exact gone_of_row h hready.1 ht hrow' hpend'
  | syncCommit dir =>
    obtain ⟨hopen, t, ht⟩ := hr
    have hready := ready_of_fsync hopen ht
    cases resume with
    | finish => exact keeps_last (.fsync dir)
    | page after => exact keeps_call (.fsync dir) hready
    | scan => exact keeps_call (.fsync dir) ⟨hready, by rintro _ ⟨⟩⟩
  | scan dir batch => exact keeps_stop
  | unlinking dir todo pinned marked => exact keeps_stop
  | syncing dir todo marked failed => exact keeps_stop

variable {pinned : List Ino}

theorem mem_pin {dir i : Ino} : i ∈ pin dir pinned ↔ i = dir ∨ i ∈ pinned := by
  unfold pin
  split
  · next hmem =>
      constructor
      · exact Or.inr
      · rintro (rfl | h)
        · exact hmem
        · exact h
  · simp [or_comm]

variable {marked : List Address}

/-- `_unlink` keeps the assertion: what it marks is missing in a directory it has pinned. -/
theorem keeps_unlink (h : fs.Sound) {todo : List Candidate}
    (hready : fs.Ready dir) (hold : Old r.cutoff todo)
    (hmark : ∀ a ∈ marked, fs.Missing pinned a) (hsole : fs.sole item.address.session = true)
    (answer : Answer) : Keeps fs Inv (r.unlinkStep fs dir item todo pinned marked answer) := by
  unfold unlinkStep
  split
  · exact keeps_quiet ⟨hready, hold, hmark⟩
  split
  · exact keeps_quiet ⟨hready, hold, hmark⟩
  · next blobs hpath =>
      have hmono : ∀ a ∈ marked, fs.Missing (pin blobs pinned) a :=
        fun a ha => (hmark a ha).mono fun i hi => mem_pin.2 (.inr hi)
      obtain ⟨session, hsess, hblobs⟩ := blobs_eq_some.1 hpath
      have hfree := h.not_reserved (may_openDir hblobs) (by decide) item.address.filename
      dsimp only
      split
      · next hnone =>
          -- the payload is gone already
          refine keeps_quiet ⟨hready, hold, fun a ha => ?_⟩
          split at ha
          · rcases List.mem_cons.1 ha with rfl | ha
            · exact missing_of_sole hsole hpath hnone (mem_pin.2 (.inl rfl))
            · exact hmono a ha
          · exact hmono a ha
      · split
        · refine keeps_call (.unlink hfree) ⟨hready.unlink hfree, hold, fun a ha => ?_⟩
          have hstay : ∀ a ∈ marked, (fs.perform _).Missing (pin blobs pinned) a :=
            fun a ha => (hmono a ha).unlink blobs item.address.filename
          split at ha
          · rcases List.mem_cons.1 ha with rfl | ha
            · exact missing_unlink_of_sole hsole hpath (mem_pin.2 (.inl rfl))
            · exact hstay a ha
          · exact hstay a ha
        · exact keeps_quiet ⟨hready, hold, hmark⟩

theorem keeps_step (h : fs.Sound) (hr : r.Inv fs) (hc : r.Careful fs) (answer : Answer) :
    Keeps fs Inv (r.step fs answer) := by
  -- the phases that end at any failure share one lemma; three look at the answer themselves
  have hcalm : Keeps fs Inv (if answer ≠ .ok then stop else r.calmStep fs) := by
    split
    · exact keeps_stop
    · exact keeps_calm h hr hc
  obtain ⟨cutoff, source, resume, phase⟩ := r
  cases phase with
  | scan dir batch => exact keeps_scan hr.1 hr.2 answer
  | unlinking dir todo pinned marked =>
    obtain ⟨hready, hold, hmark⟩ := hr
    cases todo with
    | nil => exact keeps_quiet ⟨hready, fun _ => hmark⟩
    | cons item todo =>
      simp only [Run.step]
      split
      · exact keeps_quiet ⟨hready, by rintro ⟨⟩⟩
      · exact keeps_unlink h hready (fun other hmem => hold other (List.mem_cons_of_mem _ hmem))
          hmark hc answer
  | syncing dir todo marked failed =>
    obtain ⟨hready, hmark⟩ := hr
    cases todo with
    | nil =>
      simp only [Run.step]
      split
      · exact keeps_stop
      · next hgood =>
          simp only [Bool.or_eq_true, not_or, Bool.not_eq_true] at hgood
          exact keeps_quiet ⟨hready, fun a ha => (hmark hgood.1 a ha).gone⟩
    | cons blobs todo =>
      simp only [Run.step]
      split
      · exact keeps_call (.fsync blobs)
          ⟨hready.fsync blobs, fun hgood a ha => (hmark hgood a ha).fsync⟩
      · exact keeps_quiet ⟨hready, by rintro ⟨⟩⟩
  | confirm => exact hcalm
  | metadata => exact hcalm
  | syncRoot dir => exact hcalm
  | database dir => exact hcalm
  | publish dir => exact hcalm
  | syncPublished dir => exact hcalm
  | recover dir after => exact hcalm
  | select dir todo ready => exact hcalm
  | journal dir ready => exact hcalm
  | syncJournal dir ready => exact hcalm
  | commit dir marked => exact hcalm
  | syncCommit dir => exact hcalm

theorem row_of_wanted {t : Table}
    (ht : fs.tableAt dir = some t) (h : wanted fs dir marked item = true) :
    ∃ row, t.row item.address = some row ∧ row.fp = item.fp := by
  simp only [wanted, ht, Table.row_settle] at h
  cases hrow : t.row item.address with
  | none => simp [hrow] at h
  | some row =>
    refine ⟨row, rfl, ?_⟩
    simp only [hrow, Option.map_some, Bool.and_eq_true, decide_eq_true_eq] at h
    have hfp := h.1
    split at hfp <;> exact hfp

/-- An unlink is licensed by a row: it removes the payload of an address whose row has the
fingerprint of the file and survives a power loss, and the file is older than the cutoff. -/
def Licensed (fs : FileSystem) (r : Run) (dir : Ino) (name : String) : Prop :=
  ∃ a stat, fs.blobs a.session = some dir ∧ name = a.filename ∧
    fs.lookup dir name = some (.file stat) ∧ (fs.Survives fun fs => fs.Records a stat.fp) ∧
    stat.fp.mtimeNs < r.cutoff

variable {answer : Answer} {name : String}

theorem licensed_of_unlinkStep {todo : List Candidate} (hready : fs.Ready dir)
    (hold : item.fp.mtimeNs < r.cutoff) {blobs : Ino}
    (hcall : (r.unlinkStep fs dir item todo pinned marked answer).1 = some (.unlink blobs name)) :
    r.Licensed fs blobs name := by
  unfold unlinkStep at hcall
  split at hcall
  · cases hcall
  next hgo =>
    simp only [not_or, Bool.not_eq_false] at hgo
    split at hcall
    · cases hcall
    · next dir' hpath =>
        dsimp only at hcall
        split at hcall
        · cases hcall
        · next node hnode =>
            split at hcall
            · next heq =>
                cases hcall
                subst heq
                obtain ⟨hopen, t, ht⟩ := hready
                obtain ⟨row, hrow, hfp⟩ := row_of_wanted (tableAt_eq_some.2 ht.lookup) hgo.1
                exact ⟨item.address, ⟨item.fp, true⟩, hpath, rfl, hnode,
                  hfp ▸ survives_records hopen ht hrow, hold⟩
            · cases hcall

theorem calmStep_ne_unlink : (r.calmStep fs).1 ≠ some (.unlink dir name) := by
  obtain ⟨cutoff, source, resume, phase⟩ := r
  cases phase with
  | metadata => simp only [calmStep]; split <;> rintro ⟨⟩
  | database dir => simp only [calmStep]; split <;> rintro ⟨⟩
  | recover dir after =>
    simp only [calmStep]
    split
    · rintro ⟨⟩
    · split <;> rintro ⟨⟩
  | select dir todo ready =>
    cases todo with
    | nil => rintro ⟨⟩
    | cons item todo =>
      simp only [calmStep, selectStep]
      split
      · rintro ⟨⟩
      split
      · rintro ⟨⟩
      split
      · rintro ⟨⟩
      split <;> rintro ⟨⟩
  | journal dir ready => simp only [calmStep]; split <;> rintro ⟨⟩
  | commit dir marked => simp only [calmStep]; split <;> rintro ⟨⟩
  | syncCommit dir => cases resume <;> rintro ⟨⟩
  | _ => rintro ⟨⟩

theorem scanStep_quiet {batch : List Candidate} : (r.scanStep fs dir batch answer).1 = none := by
  cases answer with
  | entry a =>
    simp only [scanStep]
    split
    · split
      · split <;> rfl
      · rfl
    · rfl
  | exhausted =>
    simp only [scanStep]
    split <;> rfl
  | _ => rfl

theorem licensed_of_step (hr : r.Inv fs)
    (hcall : (r.step fs answer).1 = some (.unlink dir name)) : r.Licensed fs dir name := by
  have hcalm : (if answer ≠ .ok then stop else r.calmStep fs).1 ≠ some (.unlink dir name) := by
    split
    · rintro ⟨⟩
    · exact calmStep_ne_unlink
  obtain ⟨cutoff, source, resume, phase⟩ := r
  cases phase with
  | scan m batch => exact absurd (scanStep_quiet.symm.trans hcall) (by simp)
  | unlinking m todo pinned marked =>
    cases todo with
    | nil => cases hcall
    | cons item todo =>
      simp only [Run.step] at hcall
      split at hcall
      · cases hcall
      · exact licensed_of_unlinkStep hr.1 (hr.2.1 item List.mem_cons_self) hcall
  | syncing m todo marked failed =>
    cases todo with
    | nil =>
      simp only [Run.step] at hcall
      split at hcall <;> cases hcall
    | cons blobs todo =>
      simp only [Run.step] at hcall
      split at hcall <;> cases hcall
  | _ => exact absurd hcall hcalm

end Run

end ContextIntelligence.Blobs
