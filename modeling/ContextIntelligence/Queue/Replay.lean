import ContextIntelligence.Queue.Spool
import ContextIntelligence.Lib.Runs

/-!
# Replaying dead letters beside the drainer

`replay_dead_letters` reads the dead-letter file, appends every payload to the log again and then
removes the whole file, while the drainer of the key runs. A step is one operation of one of the
two, or an append of a client, each of which may also fail.
-/

namespace ContextIntelligence.Queue

open Lib.Lines Lib.Runs

/-! ## The system -/

/-- Where a replay stands: not running, or with the payloads it read and the records it has still
to append; with none left it purges. -/
inductive ReplayPc where
  | idle
  | replaying (loaded : List Bytes) (rest : List (Option Bytes))
  deriving DecidableEq, Repr

/-- A key with its drainer and a replay. `handled` counts the leading uncommitted records the
drainer has settled since its last commit, `written` holds the payloads in the graph, and `owed`
every payload that was ever in the dead-letter file. -/
structure ReplaySys where
  spool : Spool
  handled : Nat
  written : List Bytes
  owed : List Bytes
  replay : ReplayPc
  deriving DecidableEq, Repr

/-- One operation. The drainer flushes the next `count` records, dead-letters one or fails to,
commits what it settled, is started anew, or trims a drained log. A client appends, or fails with
some bytes written. The replay reads the file, appends the next payload or fails to, purges, or is
cancelled. -/
inductive ReplayAction where
  | flush (count : Nat)
  | deadLetter
  | deadLetterFails (done : Nat)
  | commit
  | respawn
  | trim
  | append (raw : Bytes)
  | appendFails (written : Bytes)
  | read
  | reappend
  | reappendFails (written : Bytes)
  | purge
  | cancel
  deriving DecidableEq, Repr

namespace ReplaySys

def unsettled (s : ReplaySys) : List Record := s.spool.uncommitted.drop s.handled

def pending (s : ReplaySys) : List Bytes := s.spool.uncommitted.map Record.raw

def flush (count : Nat) (s : ReplaySys) : ReplaySys :=
  let next := s.unsettled.take count
  { s with handled := s.handled + next.length, written := s.written ++ next.map Record.raw }

def deadLetter (s : ReplaySys) : ReplaySys :=
  match s.unsettled with
  | [] => s
  | r :: _ => { s with
      spool := s.spool.deadLetter r.raw
      handled := s.handled + 1
      owed := s.owed ++ [r.raw] }

def commit (s : ReplaySys) : ReplaySys :=
  if s.handled = 0 then s
  else { s with
    spool := s.spool.commit (endOf s.spool.committedOffset (s.spool.uncommitted.take s.handled))
    handled := 0 }

/-- `read_dead_letters`; without records the replay returns at once. -/
def read (s : ReplaySys) : ReplaySys :=
  match s.replay with
  | .replaying _ _ => s
  | .idle =>
    let records := s.spool.deadLines.filterMap DeadLine.replayed?
    { s with replay :=
        if records = [] then .idle else .replaying s.spool.deadPayloadSet records }

/-- The next append of the replay; a record without a payload raises before it. -/
def reappend (s : ReplaySys) : ReplaySys :=
  match s.replay with
  | .replaying loaded (some payload :: rest) =>
    { s with spool := s.spool.append payload, replay := .replaying loaded rest }
  | .replaying _ (none :: _) => { s with replay := .idle }
  | _ => s

/-- The next append of the replay fails, and the replay with it. -/
def reappendFails (written : Bytes) (s : ReplaySys) : ReplaySys :=
  match s.replay with
  | .replaying _ (some _ :: _) => { s with spool := s.spool.writeLog written, replay := .idle }
  | _ => s

/-- `purge_dead_letters`, once every record is appended. -/
def purge (s : ReplaySys) : ReplaySys :=
  match s.replay with
  | .replaying _ [] => { s with spool := { s.spool with dead := none }, replay := .idle }
  | _ => s

end ReplaySys

def replayStep (s : ReplaySys) : ReplayAction → ReplaySys
  | .flush count => s.flush count
  | .deadLetter => s.deadLetter
  | .deadLetterFails done => { s with spool := s.spool.deadLetterPartial done }
  | .commit => s.commit
  | .respawn => { s with handled := 0 }
  | .trim => { s with spool := s.spool.deleteDrained.2 }
  | .append raw => { s with spool := s.spool.append raw }
  | .appendFails written => { s with spool := s.spool.writeLog written }
  | .read => s.read
  | .reappend => s.reappend
  | .reappendFails written => s.reappendFails written
  | .purge => s.purge
  | .cancel => { s with replay := .idle }

/-- A drainer that settled nothing and no replay, beside any dead-letter file. -/
def ReplaySys.start (k : Settled) : ReplaySys :=
  ⟨k.spool, 0, [], k.spool.deadPayloads, .idle⟩

/-! ## The property and its condition -/

/-- Every payload that was in the dead-letter file is in the graph, pending in the log, or in the
file. -/
def PayloadsKept (s : ReplaySys) : Prop :=
  ∀ payload ∈ s.owed,
    payload ∈ s.written ∨ payload ∈ s.pending ∨ payload ∈ s.spool.deadPayloads

/-- The condition on one step. A payload is appended behind a complete line and is itself one
line. The file that is purged holds the payloads the replay read and no others: nothing was
dead-lettered since, and no line with a payload in it was rejected by `json.loads`. -/
def Unraced (s : ReplaySys) : ReplayAction → Prop
  | .reappend => match s.replay with
      | .replaying _ (some payload :: _) =>
        torn newline [] s.spool.content = [] ∧ newline ∉ payload
      | _ => True
  | .purge => match s.replay with
      | .replaying loaded [] => s.spool.deadPayloads = loaded
      | _ => True
  | _ => True

/-! ## The invariant -/

/-- The payload is in the graph, or in a record the drainer has still to settle. -/
def Alive (s : ReplaySys) (payload : Bytes) : Prop :=
  payload ∈ s.written ∨ payload ∈ s.unsettled.map Record.raw

/-- As long as nothing was dead-lettered since the replay read the file, each payload it read is
still to be appended or alive. -/
def ReplayOk (s : ReplaySys) : ReplayPc → Prop
  | .idle => True
  | .replaying loaded rest => loaded.length ≤ s.spool.deadPayloads.length
      ∧ (s.spool.deadPayloads.length = loaded.length →
          ∀ payload ∈ loaded, some payload ∈ rest ∨ Alive s payload)

structure ReplayInv (s : ReplaySys) : Prop where
  boundary : Boundary newline s.spool.content s.spool.committedOffset
  handled_le : s.handled ≤ s.spool.uncommitted.length
  fate : ∀ payload ∈ s.owed, Alive s payload ∨ payload ∈ s.spool.deadPayloads
  replay : ReplayOk s s.replay

theorem ReplayInv.kept {s : ReplaySys} (h : ReplayInv s) : PayloadsKept s := by
  intro payload howed
  rcases h.fate payload howed with (hwrite | hunsettled) | hdead
  · exact .inl hwrite
  · right
    left
    obtain ⟨r, hr, hraw⟩ := List.mem_map.1 hunsettled
    exact List.mem_map.2 ⟨r, List.mem_of_mem_drop hr, hraw⟩
  · exact .inr (.inr hdead)

theorem replayInv_start (k : Settled) : ReplayInv (ReplaySys.start k) where
  boundary := k.boundary
  handled_le := Nat.zero_le _
  fate := fun _ hpay => Or.inr hpay
  replay := trivial

/-- A step that keeps what is alive and does not touch the dead letters. -/
structure Undead (s s' : ReplaySys) : Prop where
  boundary : Boundary newline s'.spool.content s'.spool.committedOffset
  handled_le : s'.handled ≤ s'.spool.uncommitted.length
  alive : ∀ payload, Alive s payload → Alive s' payload
  dead : s'.spool.deadPayloads = s.spool.deadPayloads
  owed : s'.owed = s.owed

theorem Undead.replayOk {s s' : ReplaySys} (h : Undead s s') {pc : ReplayPc}
    (hpc : ReplayOk s pc) : ReplayOk s' pc := by
  cases pc with
  | idle => trivial
  | replaying loaded rest =>
    obtain ⟨hle, hload⟩ := hpc
    refine ⟨by rw [h.dead]; exact hle, ?_⟩
    intro hsame payload hpay
    rw [h.dead] at hsame
    exact (hload hsame payload hpay).imp_right (h.alive payload)

theorem Undead.inv {s s' : ReplaySys} (h : Undead s s') (hs : ReplayInv s)
    (hpc : ReplayOk s' s'.replay) : ReplayInv s' where
  boundary := h.boundary
  handled_le := h.handled_le
  fate := by
    intro payload hpay
    rw [h.owed] at hpay
    rw [h.dead]
    exact (hs.fate payload hpay).imp_left (h.alive payload)
  replay := hpc

/-! ## The steps of the drainer and the clients -/

variable {s : ReplaySys}

section

variable (h : ReplayInv s)
include h

theorem undead_flush (count : Nat) : Undead s (s.flush count) := by
  have hunsettled : (s.flush count).unsettled = s.unsettled.drop
      (s.unsettled.take count).length := by
    simp only [ReplaySys.flush, ReplaySys.unsettled, List.drop_drop]
  refine ⟨h.boundary, ?_, ?_, rfl, rfl⟩
  · have hlen : (s.unsettled.take count).length ≤ s.spool.uncommitted.length - s.handled := by
      rw [List.length_take, ReplaySys.unsettled, List.length_drop]
      exact Nat.min_le_right _ _
    have hle := h.handled_le
    show s.handled + (s.unsettled.take count).length ≤ s.spool.uncommitted.length
    omega
  · rintro payload (hwrite | hmem)
    · exact .inl (List.mem_append_left _ hwrite)
    · obtain ⟨r, hr, rfl⟩ := List.mem_map.1 hmem
      rw [← List.take_append_drop (s.unsettled.take count).length s.unsettled,
        List.mem_append] at hr
      rcases hr with hnow | hlater
      · -- the records of this flush are the first unsettled ones
        left
        apply List.mem_append_right
        have htake : s.unsettled.take (s.unsettled.take count).length = s.unsettled.take count := by
          rw [List.length_take, List.take_eq_take_iff]
          omega
        rw [htake] at hnow
        exact List.mem_map_of_mem hnow
      · right
        rw [hunsettled]
        exact List.mem_map_of_mem hlater

theorem undead_commit : Undead s s.commit := by
  unfold ReplaySys.commit
  split
  · exact ⟨h.boundary, h.handled_le, fun _ ha => ha, rfl, rfl⟩
  · have hsplit : s.spool.uncommitted
        = s.spool.uncommitted.take s.handled ++ s.spool.uncommitted.drop s.handled :=
      (List.take_append_drop _ _).symm
    refine ⟨boundary_endOf h.boundary hsplit, Nat.zero_le _, ?_, rfl, rfl⟩
    rintro payload (hwrite | hmem)
    · exact .inl hwrite
    · right
      show payload ∈ ((recordsFrom newline s.spool.content
        (endOf s.spool.committedOffset (s.spool.uncommitted.take s.handled))).drop 0).map Record.raw
      rw [recordsFrom_endOf hsplit, List.drop_zero]
      exact hmem

theorem undead_respawn : Undead s { s with handled := 0 } := by
  refine ⟨h.boundary, Nat.zero_le _, ?_, rfl, rfl⟩
  rintro payload (hwrite | hmem)
  · exact .inl hwrite
  · right
    obtain ⟨r, hr, hraw⟩ := List.mem_map.1 hmem
    exact List.mem_map.2 ⟨r, List.mem_of_mem_drop hr, hraw⟩

theorem undead_trim : Undead s { s with spool := s.spool.deleteDrained.2 } := by
  rcases s.spool.deleteDrained_cases with ⟨_, heq⟩ | ⟨hle, heq⟩
  · rw [heq]
    exact ⟨h.boundary, h.handled_le, fun _ ha => ha, rfl, rfl⟩
  · -- a drained log holds no uncommitted record, so none is lost
    have hnil := Spool.uncommitted_eq_nil_of_le hle
    rw [heq]
    refine ⟨boundary_zero _ _, ?_, ?_, rfl, rfl⟩
    · have hhand := h.handled_le
      rw [hnil] at hhand
      exact Nat.le_trans hhand (Nat.zero_le _)
    · rintro payload (hwrite | hmem)
      · exact .inl hwrite
      · rw [ReplaySys.unsettled, hnil, List.drop_nil] at hmem
        cases hmem

theorem undead_writeLog (bytes : Bytes) (pc : ReplayPc) :
    Undead s { s with spool := s.spool.writeLog bytes, replay := pc } := by
  have hgrow : s.spool.uncommitted <+: (s.spool.writeLog bytes).uncommitted :=
    recordsFrom_append bytes
  refine ⟨h.boundary.append bytes, Nat.le_trans h.handled_le hgrow.length_le, ?_, rfl, rfl⟩
  rintro payload (hwrite | hmem)
  · exact .inl hwrite
  · right
    obtain ⟨more, hmore⟩ := hgrow
    obtain ⟨r, hr, hraw⟩ := List.mem_map.1 hmem
    refine List.mem_map.2 ⟨r, ?_, hraw⟩
    show r ∈ (s.spool.writeLog bytes).uncommitted.drop s.handled
    rw [← hmore, List.drop_append_of_le_length h.handled_le]
    exact List.mem_append_left _ hr

theorem undead_deadLetterFails (done : Nat) :
    Undead s { s with spool := s.spool.deadLetterPartial done } := by
  have hcont : (s.spool.deadLetterPartial done).content = s.spool.content := by
    rw [Spool.content, Spool.log_deadLetterPartial, Spool.content]
  have hoffset : (s.spool.deadLetterPartial done).committedOffset = s.spool.committedOffset := by
    rw [Spool.committedOffset, Spool.offset_deadLetterPartial, Spool.committedOffset]
  have huncommitted : (s.spool.deadLetterPartial done).uncommitted = s.spool.uncommitted := by
    rw [Spool.uncommitted, hcont, hoffset, Spool.uncommitted]
  refine ⟨?_, ?_, ?_, Spool.deadPayloads_deadLetterPartial done s.spool, rfl⟩
  · show Boundary newline (s.spool.deadLetterPartial done).content
      (s.spool.deadLetterPartial done).committedOffset
    rw [hcont, hoffset]
    exact h.boundary
  · show s.handled ≤ (s.spool.deadLetterPartial done).uncommitted.length
    rw [huncommitted]
    exact h.handled_le
  · intro payload halive
    unfold Alive ReplaySys.unsettled at halive ⊢
    rwa [huncommitted]

theorem ReplayInv.deadLetter : ReplayInv s.deadLetter := by
  unfold ReplaySys.deadLetter
  cases hunsettled : s.unsettled with
  | nil => exact h
  | cons r rs =>
    have hlength : s.handled < s.spool.uncommitted.length := by
      have hlen := congrArg List.length hunsettled
      rw [ReplaySys.unsettled, List.length_drop, List.length_cons] at hlen
      omega
    have hrest : s.spool.uncommitted.drop (s.handled + 1) = rs := by
      rw [← List.drop_drop, ← ReplaySys.unsettled, hunsettled, List.drop_one, List.tail_cons]
    have hpays := Spool.deadPayloads_deadLetter r.raw s.spool
    refine ⟨h.boundary, hlength, ?_, ?_⟩
    · intro payload hpay
      show Alive _ payload ∨ payload ∈ (s.spool.deadLetter r.raw).deadPayloads
      rw [hpays]
      rcases List.mem_append.1 hpay with hold | hnew
      · rcases h.fate payload hold with (hwrite | hmem) | hdead
        · exact .inl (.inl hwrite)
        · rw [hunsettled, List.map_cons, List.mem_cons] at hmem
          rcases hmem with rfl | hmem
          · exact .inr (List.mem_append_right _ (List.mem_singleton.2 rfl))
          · left
            right
            show payload ∈ (s.spool.uncommitted.drop (s.handled + 1)).map Record.raw
            rw [hrest]
            exact hmem
        · exact .inr (List.mem_append_left _ hdead)
      · exact .inr (List.mem_append_right _ hnew)
    · show ReplayOk _ s.replay
      have hpc := h.replay
      cases hrep : s.replay with
      | idle => trivial
      | replaying loaded rest =>
        rw [hrep] at hpc
        have hmore : (s.spool.deadLetter r.raw).deadPayloads.length
            = s.spool.deadPayloads.length + 1 := by
          rw [hpays, List.length_append, List.length_singleton]
        have hle := hpc.1
        refine ⟨?_, ?_⟩
        · show loaded.length ≤ (s.spool.deadLetter r.raw).deadPayloads.length
          omega
        · intro hsame
          replace hsame : (s.spool.deadLetter r.raw).deadPayloads.length = loaded.length := hsame
          omega

/-! ## The steps of the replay -/

omit h in
/-- What `read_dead_letters` hands to the replay covers every payload that can be loaded. -/
theorem mem_replayed_of_mem_deadPayloadSet {s : Spool} {payload : Bytes}
    (h : payload ∈ s.deadPayloadSet) : some payload ∈ s.deadLines.filterMap DeadLine.replayed? := by
  obtain ⟨line, hline, hload⟩ := List.mem_filterMap.1 h
  apply List.mem_filterMap.2
  refine ⟨line, hline, ?_⟩
  cases line with
  | record p =>
    cases hload
    rfl
  | merged p => cases hload
  | other loads => cases hload

omit h in
theorem length_deadPayloadSet_le (s : Spool) : s.deadPayloadSet.length ≤ s.deadPayloads.length := by
  unfold Spool.deadPayloadSet Spool.deadPayloads
  induction s.deadLines with
  | nil => exact Nat.le_refl _
  | cons line lines ih =>
    cases line with
    | record p => exact Nat.succ_le_succ ih
    | merged p => exact Nat.le_succ_of_le ih
    | other loads => exact ih

theorem ReplayInv.read : ReplayInv s.read := by
  unfold ReplaySys.read
  split
  · exact h
  · refine ⟨h.boundary, h.handled_le, h.fate, ?_⟩
    dsimp only
    split
    · trivial
    · refine ⟨length_deadPayloadSet_le s.spool, ?_⟩
      intro _ payload hpay
      exact .inl (mem_replayed_of_mem_deadPayloadSet hpay)

theorem alive_append {payload : Bytes}
    (hwhole : torn newline [] s.spool.content = []) (hline : newline ∉ payload) (pc : ReplayPc) :
    Alive { s with spool := s.spool.append payload, replay := pc } payload := by
  have hgrow : (s.spool.append payload).uncommitted
      = s.spool.uncommitted ++ scan newline s.spool.content.length [] (Spool.frame payload) :=
    recordsFrom_append_of_whole h.boundary hwhole (Spool.frame payload)
  rw [Spool.scan_frame hline] at hgrow
  right
  apply List.mem_map.2
  refine ⟨⟨payload, s.spool.content.length, s.spool.content.length + payload.length + 1⟩, ?_, rfl⟩
  show _ ∈ (s.spool.append payload).uncommitted.drop s.handled
  rw [hgrow, List.drop_append_of_le_length h.handled_le]
  exact List.mem_append_right _ (List.mem_singleton.2 rfl)

theorem ReplayInv.reappend (hclean : Unraced s .reappend) : ReplayInv s.reappend := by
  have hpc := h.replay
  unfold ReplaySys.reappend
  split
  · rename_i loaded payload rest hrep
    simp only [Unraced, hrep] at hclean
    rw [hrep] at hpc
    have hundead := undead_writeLog h (Spool.frame payload) (.replaying loaded rest)
    refine hundead.inv h ⟨hpc.1, ?_⟩
    intro hsame p hp
    rcases hpc.2 hsame p hp with hrest | halive
    · -- the head of the list is the payload that is appended now
      rcases List.mem_cons.1 hrest with hhead | hrest
      · cases hhead
        exact .inr (alive_append h hclean.1 hclean.2 _)
      · exact .inl hrest
    · exact .inr (hundead.alive p halive)
  · exact ⟨h.boundary, h.handled_le, h.fate, trivial⟩
  · exact h

theorem ReplayInv.reappendFails (written : Bytes) : ReplayInv (s.reappendFails written) := by
  unfold ReplaySys.reappendFails
  split
  · exact (undead_writeLog h written .idle).inv h trivial
  · exact h

theorem ReplayInv.purge (hclean : Unraced s .purge) : ReplayInv s.purge := by
  have hpc := h.replay
  unfold ReplaySys.purge
  split
  · rename_i loaded hrep
    simp only [Unraced, hrep] at hclean
    rw [hrep] at hpc
    refine ⟨h.boundary, h.handled_le, ?_, trivial⟩
    intro payload hpay
    left
    rcases h.fate payload hpay with halive | hdead
    · exact halive
    · rw [hclean] at hdead
      rcases hpc.2 (by rw [hclean]) payload hdead with hrest | halive
      · cases hrest
      · exact halive
  · exact h

end

/-! ## Whole runs -/

theorem replayStep_inv (s : ReplaySys) (a : ReplayAction) (h : ReplayInv s)
    (hclean : Unraced s a) : ReplayInv (replayStep s a) := by
  -- the steps that leave the dead letters alone
  have hundead : ∀ {s'}, Undead s s' → s'.replay = s.replay → ReplayInv s' := by
    intro s' hs' hrep
    apply hs'.inv h
    rw [hrep]
    exact hs'.replayOk h.replay
  cases a with
  | flush count => exact hundead (undead_flush h count) rfl
  | deadLetter => exact h.deadLetter
  | deadLetterFails done => exact hundead (undead_deadLetterFails h done) rfl
  | commit =>
    apply hundead (undead_commit h)
    simp only [ReplaySys.commit]
    split <;> rfl
  | respawn => exact hundead (undead_respawn h) rfl
  | trim => exact hundead (undead_trim h) rfl
  | append raw => exact hundead (undead_writeLog h (Spool.frame raw) s.replay) rfl
  | appendFails written => exact hundead (undead_writeLog h written s.replay) rfl
  | read => exact h.read
  | reappend => exact h.reappend hclean
  | reappendFails written => exact h.reappendFails written
  | purge => exact h.purge hclean
  | cancel => exact ⟨h.boundary, h.handled_le, h.fate, trivial⟩

/-- **Replay loses nothing.** In every interleaving in which each payload is appended as a line of
its own and the file purged holds just the payloads the replay read, every payload that was ever
dead-lettered is in the graph, pending in the log or in the dead-letter file. -/
theorem payloadsKept_of_unraced (k : Settled) (actions : List ReplayAction)
    (h : Along replayStep Unraced (ReplaySys.start k) actions) :
    PayloadsKept (run replayStep (ReplaySys.start k) actions) :=
  (h.invariant replayStep_inv (replayInv_start k)).kept

def oneDeadLetter : Settled := ⟨⟨none, none, some ⟨[.record [97]], false⟩⟩, boundary_zero _ _⟩

/-- The replay appends the payload; the drainer dead-letters it again and commits; then the replay
purges the file. -/
def deadLetteredAgain : List ReplayAction := [.read, .reappend, .deadLetter, .commit, .purge]

/-- The payload is then nowhere. -/
theorem deadLetteredAgain_not_payloadsKept :
    ¬ PayloadsKept (run replayStep (ReplaySys.start oneDeadLetter) deadLetteredAgain) := by
  intro h
  have hlost : [97] ∈ (run replayStep (ReplaySys.start oneDeadLetter) deadLetteredAgain).owed := by
    decide
  rcases h _ hlost with hwrite | hpend | hdead
  · exact absurd hwrite (by decide)
  · exact absurd hpend (by decide)
  · exact absurd hdead (by decide)

/-- The drainer writes the payload before the purge, and another one is dead-lettered after it. -/
theorem payloadsKept_of_unraced_written :
    PayloadsKept (run replayStep (ReplaySys.start oneDeadLetter)
      [.read, .reappend, .flush 1, .purge, .commit, .append [98], .deadLetter, .commit]) :=
  payloadsKept_of_unraced oneDeadLetter _
    ⟨trivial, ⟨rfl, by decide⟩, trivial, rfl, trivial, trivial, trivial, trivial, trivial⟩

end ContextIntelligence.Queue
