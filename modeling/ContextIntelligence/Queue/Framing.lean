import ContextIntelligence.Lib.Mutex
import ContextIntelligence.Queue.Enumeration

/-!
# Append framing

The `append` call that holds the `admission` lock writes in a worker thread, in as many `os.write`
calls as the file system asks for; after a failed one it writes a newline, which may fail too. A
cancelled caller waits until the thread has settled. The process may die between any two writes. The
records that appends confirmed are all in the log if and only if every confirmed append started at
the end of a line (`append_framed_iff`).
-/

namespace ContextIntelligence.Queue.Framing

open Lib.Lines Lib.Runs Lib.Mutex

/-! ## The model -/

abbrev Raw := {raw : Bytes // newline ∉ raw}

/-- The log of the key, and the records whose append returned, each with the range it was written
to. -/
structure Log where
  bytes : Bytes
  confirmed : List Record
  deriving DecidableEq, Repr

/-- Where `append` stands while it holds the lock: before the file is open; with `written` bytes of
the line behind the size `start` found at the beginning; with the line written; or before the
newline that ends a failed write. -/
inductive Phase where
  | opening (raw : Raw)
  | writing (raw : Raw) (start written : Nat)
  | settled (raw : Raw) (start : Nat)
  | terminating

/-- What the operation of a phase does: `os.write` takes `n` bytes, an `OSError` or the caller's
cancellation is raised, or the call returns. -/
inductive Answer where
  | wrote (n : Nat)
  | raises
  | returns
  deriving DecidableEq, Repr

/-- `os.write` of what is left of the line, of which at most `n` bytes are taken. -/
def writeSome (raw : Raw) (start written n : Nat) (s : Log) : Phase × Log :=
  let chunk := ((Spool.frame raw.1).drop written).take n
  let after := { s with bytes := s.bytes ++ chunk }
  if written + chunk.length < (Spool.frame raw.1).length then
    (.writing raw start (written + chunk.length), after)
  else (.settled raw start, after)

/-- `_write_record` and `_discard_partial`, one operation after the other. A write of 0 bytes is
raised as an error. -/
def advance : Phase → Answer → Log → Option Phase × Log
  | .opening raw, answer, s =>
    if answer = .raises then (none, s) else (some (.writing raw s.bytes.length 0), s)
  | .writing raw start written, answer, s =>
    match answer with
    | .wrote (n + 1) =>
      (some (writeSome raw start written (n + 1) s).1, (writeSome raw start written (n + 1) s).2)
    | _ => (some .terminating, s)
  | .settled raw start, answer, s =>
    if answer = .raises then (none, s)
    else (none, { s with confirmed := s.confirmed ++ [⟨raw.1, start, s.bytes.length⟩] })
  | .terminating, answer, s =>
    match answer with
    | .wrote (_ + 1) => (none, { s with bytes := s.bytes ++ [newline] })
    | _ => (none, s)

/-- The appends to one key. Nothing else writes to its log, the thread cannot be interrupted, and
a new process finds the log as the old one left it. -/
def protocol : Protocol Log Raw Phase Answer Empty where
  enter := fun raw s => (.opening raw, s)
  advance := advance
  yields := fun _ => false
  outside := nofun
  restart := id

abbrev Server := System Log Raw Phase

def start (bytes : Bytes) : Server := System.start ⟨bytes, []⟩

/-! ## The property and the condition -/

/-- Every confirmed record is a complete line of the log, in the order of the confirmations, and
reading the log batch by batch from its start returns it as such. -/
structure Framed (s : Log) : Prop where
  lines : s.confirmed.Sublist (records newline s.bytes)
  read : ∀ sizes : List BatchSize, (records newline s.bytes).length ≤ sizes.length →
    s.confirmed.Sublist
      (run Reader.step (Reader.begin ⟨some s.bytes, none, none⟩) (Reader.rounds sizes)).returned

/-- An append that is confirmed has started at the end of a line, or of an empty log. -/
def StartedOnLine (s : Log) : Phase → Answer → Prop
  | .settled _ start, answer => answer ≠ .raises → torn newline [] (s.bytes.take start) = []
  | _, _ => True

theorem framed_iff (s : Log) : Framed s ↔ s.confirmed.Sublist (records newline s.bytes) := by
  refine ⟨Framed.lines, fun h => ⟨h, fun sizes hsizes => ?_⟩⟩
  have hbegin := Reader.inv_begin ⟨⟨some s.bytes, none, none⟩, boundary_zero _ _⟩
  rw [Reader.returned_rounds hbegin hsizes]
  exact h

/-! ## One operation -/

/-- What a phase knows: the bytes above the size it started from are the part of its line that is
written, and the confirmed records lie below. -/
def Knows : Phase → Log → Prop
  | .opening _, _ => True
  | .writing raw start written, s =>
    start ≤ s.bytes.length ∧ s.bytes.drop start = (Spool.frame raw.1).take written
      ∧ s.confirmed.Sublist (records newline (s.bytes.take start))
  | .settled raw start, s =>
    start ≤ s.bytes.length ∧ s.bytes.drop start = Spool.frame raw.1
      ∧ s.confirmed.Sublist (records newline (s.bytes.take start))
  | .terminating, _ => True

variable {s : Log}

theorem sublist_append (h : s.confirmed.Sublist (records newline s.bytes))
    (more : Bytes) : s.confirmed.Sublist (records newline (s.bytes ++ more)) := by
  rw [records, scan_append]
  exact h.trans (List.sublist_append_left _ _)

theorem knows_writeSome {raw : Raw} {start written : Nat}
    (h : Knows (.writing raw start written) s) (n : Nat) :
    Knows (writeSome raw start written n s).1 (writeSome raw start written n s).2 := by
  obtain ⟨hle, hdrop, hconf⟩ := h
  have hlen : start ≤ (s.bytes ++ ((Spool.frame raw.1).drop written).take n).length := by
    rw [List.length_append]
    omega
  have htake : (s.bytes ++ ((Spool.frame raw.1).drop written).take n).take start
      = s.bytes.take start := List.take_append_of_le_length hle
  -- above the start stands the part written before, and the new chunk
  have hwrite : (s.bytes ++ ((Spool.frame raw.1).drop written).take n).drop start
      = (Spool.frame raw.1).take
          (written + (((Spool.frame raw.1).drop written).take n).length) := by
    rw [List.drop_append_of_le_length hle, hdrop, List.take_add]
    congr 1
    rw [List.length_take, ← List.take_eq_take_min]
  simp only [writeSome]
  split
  · exact ⟨hlen, hwrite, htake ▸ hconf⟩
  · rename_i hdone
    refine ⟨hlen, ?_, htake ▸ hconf⟩
    rw [hwrite]
    exact List.take_of_length_le (Nat.le_of_not_lt hdone)

theorem confirmed_writeSome {raw : Raw} {start written : Nat} (n : Nat)
    (h : s.confirmed.Sublist (records newline s.bytes)) :
    (writeSome raw start written n s).2.confirmed.Sublist
      (records newline (writeSome raw start written n s).2.bytes) := by
  simp only [writeSome]
  split
  · exact sublist_append h _
  · exact sublist_append h _

theorem records_settled {raw : Raw} {start : Nat} (hle : start ≤ s.bytes.length)
    (hdrop : s.bytes.drop start = Spool.frame raw.1)
    (htorn : torn newline [] (s.bytes.take start) = []) :
    records newline s.bytes
      = records newline (s.bytes.take start) ++ [⟨raw.1, start, s.bytes.length⟩] := by
  have hsplit : s.bytes = s.bytes.take start ++ Spool.frame raw.1 := by
    rw [← hdrop, List.take_append_drop]
  have hend : completeEnd newline 0 [] (s.bytes.take start) = start := by
    have hlen := completeEnd_add_torn_length newline 0 [] (s.bytes.take start)
    rw [htorn, List.length_take, Nat.min_eq_left hle] at hlen
    simpa using hlen
  have hstop : s.bytes.length = start + raw.1.length + 1 := by
    have hlen := congrArg List.length hdrop
    have hlast : raw.1.getLast? ≠ some newline := fun hlast => raw.2 (List.mem_of_getLast? hlast)
    rw [List.length_drop, Spool.frame, if_neg hlast, List.length_append, List.length_singleton]
      at hlen
    omega
  have hrecs : records newline (s.bytes.take start ++ Spool.frame raw.1)
      = records newline (s.bytes.take start) ++ [⟨raw.1, start, start + raw.1.length + 1⟩] := by
    rw [records, scan_append, htorn, hend, Spool.scan_frame raw.2]
    rfl
  rw [← hsplit] at hrecs
  rw [hrecs, hstop]

theorem torn_of_mem_records {r : Record} {bytes : Bytes} (h : r ∈ records newline bytes) :
    torn newline [] (bytes.take r.start) = [] :=
  (boundary_start_of_mem_records h).take.1

/-- An operation keeps the confirmed records in the log, and what its phase knows, when a
confirmed append has started at the end of a line. -/
theorem keeps_advance (phase : Phase) (answer : Answer) (s : Log)
    (hline : StartedOnLine s phase answer) (h : Framed s) (hphase : Knows phase s) :
    Framed (advance phase answer s).2
      ∧ ∀ next, (advance phase answer s).1 = some next → Knows next (advance phase answer s).2 := by
  rw [framed_iff] at h ⊢
  cases phase with
  | opening raw =>
    simp only [advance]
    split
    · exact ⟨h, nofun⟩
    · refine ⟨h, ?_⟩
      rintro _ ⟨⟩
      exact ⟨Nat.le_refl _, by simp, by simpa using h⟩
  | writing raw start written =>
    simp only [advance]
    split
    · rename_i n
      refine ⟨confirmed_writeSome (n + 1) h, ?_⟩
      intro next hnext
      obtain rfl := Option.some.inj hnext
      exact knows_writeSome hphase (n + 1)
    · refine ⟨h, ?_⟩
      rintro _ ⟨⟩
      trivial
  | settled raw start =>
    simp only [advance]
    split
    · exact ⟨h, nofun⟩
    · rename_i hrets
      obtain ⟨hle, hdrop, hbelow⟩ := hphase
      refine ⟨?_, nofun⟩
      rw [records_settled hle hdrop (hline hrets)]
      exact hbelow.append (List.Sublist.refl _)
  | terminating =>
    simp only [advance]
    split
    · exact ⟨sublist_append h _, nofun⟩
    · exact ⟨h, nofun⟩

/-! ## Every run -/

/-- The condition on the steps of a run: every append that is confirmed in it has started at the
end of a line. -/
abbrev Careful : Server → Action Raw Answer Empty → Prop :=
  Protocol.Meets (fun _ _ => True) StartedOnLine

theorem keeps : Keeps protocol (fun _ _ => True) StartedOnLine Framed Knows where
  enter := fun _ _ h => ⟨h, trivial⟩
  advance := keeps_advance
  outside := nofun
  restart := fun _ h => h

/-- A step after which the confirmed records are all in the log has confirmed none that did not
start at the end of a line. -/
theorem careful_of_framed {s : Server} {a : Action Raw Answer Empty}
    (h : Framed (protocol.step s a).shared) : Careful s a := by
  cases a with
  | resume task answer =>
    simp only [Careful, Protocol.Meets]
    cases htask : s.tasks task with
    | idle => trivial
    | waiting request => trivial
    | inside phase =>
      have hshare : (protocol.step s (.resume task answer)).shared
          = (advance phase answer s.shared).2 := by
        simp only [Protocol.step, Protocol.resume, htask, protocol]
        rcases advance phase answer s.shared with ⟨_ | next, shared⟩ <;> rfl
      have hlines := h.lines
      rw [hshare] at hlines
      cases phase with
      | settled raw start =>
        intro hrets
        simp only [advance, if_neg hrets] at hlines
        exact torn_of_mem_records (hlines.subset (List.mem_append_right _
          (List.mem_singleton_self _)))
      | opening raw => trivial
      | writing raw start written => trivial
      | terminating => trivial
  | _ => trivial

/-- The records that appends confirmed are lines of the log in every state of a run, exactly when
every append confirmed in the run started at the end of a line. -/
theorem append_framed_iff (bytes : Bytes) (actions : List (Action Raw Answer Empty)) :
    Always protocol.step (fun s => Framed s.shared) (start bytes) actions
      ↔ Along protocol.step Careful (start bytes) actions := by
  have hstart : Held Framed Knows (start bytes) :=
    Held.start ((framed_iff _).2 (List.nil_sublist _))
  exact always_iff_along (fun s a (hs : Held Framed Knows s) ha => hs.step keeps a ha)
    (fun s hs => hs.shared) (fun s a _ h => careful_of_framed h) hstart actions

/-- The process dies when `a` is written and its newline is not; the next process appends `b`, and
the append returns. -/
def diesInTheMiddle : List (Action Raw Answer Empty) :=
  [.call 0 ⟨[97], by decide⟩, .resume 0 .returns, .resume 0 .returns, .resume 0 (.wrote 1),
    .restart, .call 0 ⟨[98], by decide⟩, .resume 0 .returns, .resume 0 .returns,
    .resume 0 (.wrote 2), .resume 0 .returns]

/-- The confirmed record `b` is joined with the torn `a` in one line. -/
theorem diesInTheMiddle_not_framed :
    (run protocol.step (start []) diesInTheMiddle).shared
        = ⟨[97, 98, newline], [⟨[98], 1, 3⟩]⟩
      ∧ ¬ Framed (run protocol.step (start []) diesInTheMiddle).shared := by
  have hlog : (run protocol.step (start []) diesInTheMiddle).shared
      = ⟨[97, 98, newline], [⟨[98], 1, 3⟩]⟩ := by decide +kernel
  refine ⟨hlog, fun h => ?_⟩
  have hlines := h.lines
  rw [hlog] at hlines
  revert hlines
  decide

end ContextIntelligence.Queue.Framing
