import ContextIntelligence.Recovery.Tasks

/-!
# Written receipts and deliverable records

In a run whose steps are framed, a receipt marked written was flushed, and one marked enqueued has a
record that a later `read_batch` returns. A process that dies inside an append leaves bytes that the
next append continues: the record cannot be read. One that dies between the two unlinks of a drained
log leaves the offset: a record of the new log lies below it and is marked written.
-/

namespace ContextIntelligence.Recovery.Outbox

open Lib Lib.Lines Lib.Mutex Lib.Runs ContextIntelligence.Graph Queue

/-! ## In every framed run -/

section Framed

variable (c : Codec) (env : Surroundings)

def ServerSystem.start (permitRequired : Bool) : ServerSystem env :=
  System.start (State.boot permitRequired)

/-- The steps inside the lock are framed; nothing is asked of the surroundings. -/
def FramedRun (permitRequired : Bool) (actions : List (ServerAction env)) : Prop :=
  Along (server c env).step (Protocol.Meets (fun _ _ => True) (Framed c))
    (ServerSystem.start env permitRequired) actions

instance FramedRun.decidable (permitRequired : Bool) (actions : List (ServerAction env)) :
    Decidable (FramedRun c env permitRequired actions) :=
  inferInstanceAs (Decidable (Along _ _ _ _))

/-- Every written receipt is that of a record that was dispatched into a flush that returned. -/
def WrittenFlushed (s : State) : Prop :=
  ∀ key r, s.receipt key = some r → r.state = .written → originOf key r ∈ s.flushed

/-- Every enqueued receipt has a record that some `read_batch` returns. -/
def EnqueuedReadable (s : State) : Prop :=
  ∀ key r, s.receipt key = some r → r.state = .enqueued → ∃ name maxItems,
    ∃ record ∈ ((s.spool name).readBatch maxItems).records,
      c.decode record.raw = .recovered (originOf key r)

variable {c env}

theorem Consistent.writtenFlushed {s : State} (h : Consistent c s) : WrittenFlushed s := by
  intro key r hget hstate
  have hsane := h.sane key r hget
  rwa [hstate] at hsane

theorem Consistent.enqueuedReadable {s : State} (h : Consistent c s) : EnqueuedReadable c s := by
  intro key r hget hstate
  have hsane := h.sane key r hget
  rw [hstate] at hsane
  obtain ⟨name, record, hrec, hdec⟩ := hsane
  refine ⟨name, (s.spool name).uncommitted.length, record, ?_, hdec⟩
  rw [Spool.readBatch_records, List.take_length]
  exact hrec

theorem consistent_always {permitRequired : Bool} {actions : List (ServerAction env)}
    (h : FramedRun c env permitRequired actions) {Q : ServerSystem env → Prop}
    (hQ : ∀ s, Consistent c s.shared → Q s) :
    Always (server c env).step Q (ServerSystem.start env permitRequired) actions :=
  (Held.start (consistent_boot permitRequired)).always (server_keeps c env)
    (fun s hs => hQ s hs.shared) h

end Framed

/-- A receipt is written only after a flush with its record has returned. -/
theorem written_was_flushed (c : Codec) (env : Surroundings) (permitRequired : Bool)
    (actions : List (ServerAction env)) (h : FramedRun c env permitRequired actions) :
    Always (server c env).step (fun s => WrittenFlushed s.shared)
      (ServerSystem.start env permitRequired) actions :=
  consistent_always h fun _ hs => hs.writtenFlushed

/-- After a pass that has returned every enqueued receipt can be delivered. -/
theorem reconciled_is_readable (c : Codec) (env : Surroundings) (permitRequired : Bool)
    (actions : List (ServerAction env)) (h : FramedRun c env permitRequired actions) :
    Always (server c env).step (fun s => s.shared.reconciled = true → EnqueuedReadable c s.shared)
      (ServerSystem.start env permitRequired) actions :=
  consistent_always h fun _ hs _ => hs.enqueuedReadable

/-! ## A codec -/

section Codec

def textBytes (text : String) : Bytes := text.toList.map fun ch => UInt8.ofNat ch.toNat

def bytesText (bytes : Bytes) : String := String.ofList (bytes.map fun b => Char.ofNat b.toNat)

def plainLine (o : Origin) : Bytes :=
  textBytes o.sourceHandle ++ textBytes o.sourceLineSha256
    ++ List.replicate o.ordinal.toNat 49 ++ [0]

def plainDecode (raw : Bytes) : Envelope :=
  if raw.drop 128 = List.replicate (raw.length - 129) 49 ++ [0] then
    .recovered ⟨bytesText (raw.take 64), (raw.length - 129 : ℕ), bytesText ((raw.drop 64).take 64)⟩
  else .garbled

variable {text : String} {o : Origin} {b : UInt8}

theorem isSha256Hex_bounds {ch : Char} (h : ch.isDigit = true ∨ 'a' ≤ ch ∧ ch ≤ 'f') :
    48 ≤ ch.toNat ∧ ch.toNat ≤ 102 := by
  rcases h with hdigit | ⟨hlow, hhigh⟩
  · simp only [Char.isDigit, Bool.and_eq_true, decide_eq_true_eq] at hdigit
    have hlow : 48 ≤ ch.val.toNat := hdigit.1
    have hhigh : ch.val.toNat ≤ 57 := hdigit.2
    exact ⟨hlow, by show ch.val.toNat ≤ 102; omega⟩
  · have hlow : 97 ≤ ch.val.toNat := hlow
    have hhigh : ch.val.toNat ≤ 102 := hhigh
    exact ⟨by show 48 ≤ ch.val.toNat; omega, hhigh⟩

theorem chars_of_isSha256Hex (h : isSha256Hex text = true) :
    text.toList.length = 64 ∧ ∀ ch ∈ text.toList, 48 ≤ ch.toNat ∧ ch.toNat ≤ 102 := by
  simp only [isSha256Hex, decide_eq_true_eq, List.all_eq_true] at h
  refine ⟨?_, fun ch hch => isSha256Hex_bounds (h.2 ch hch)⟩
  rw [String.length_toList]
  exact h.1

theorem bytesText_textBytes (h : isSha256Hex text = true) : bytesText (textBytes text) = text := by
  have hsame : text.toList.map ((fun b : UInt8 => Char.ofNat b.toNat) ∘ fun ch =>
      UInt8.ofNat ch.toNat) = text.toList := by
    conv_rhs => rw [← List.map_id text.toList]
    apply List.map_congr_left
    intro ch hch
    have hbound := (chars_of_isSha256Hex h).2 ch hch
    have hbyte : (UInt8.ofNat ch.toNat).toNat = ch.toNat := by
      rw [UInt8.toNat_ofNat']
      omega
    simp only [Function.comp, hbyte, Char.ofNat_toNat, id]
  rw [bytesText, textBytes, List.map_map, hsame, String.ofList_toList]

theorem length_textBytes (h : isSha256Hex text = true) : (textBytes text).length = 64 := by
  rw [textBytes, List.length_map]
  exact (chars_of_isSha256Hex h).1

theorem le_of_mem_textBytes (h : isSha256Hex text = true) (hb : b ∈ textBytes text) :
    48 ≤ b.toNat := by
  obtain ⟨ch, hch, rfl⟩ := List.mem_map.1 hb
  have hbound := (chars_of_isSha256Hex h).2 ch hch
  rw [UInt8.toNat_ofNat']
  omega

theorem Origin.valid_parts (h : o.valid = true) : isSha256Hex o.sourceHandle = true
    ∧ isSha256Hex o.sourceLineSha256 = true ∧ 0 ≤ o.ordinal := by
  simp only [Origin.valid, Bool.and_eq_true, decide_eq_true_eq] at h
  exact ⟨h.1.1, h.1.2, h.2.1⟩

theorem le_of_mem_front (h : o.valid = true) (hb : b ∈ textBytes o.sourceHandle
    ++ textBytes o.sourceLineSha256 ++ List.replicate o.ordinal.toNat 49) : 48 ≤ b.toNat := by
  obtain ⟨hhand, hdigits, -⟩ := Origin.valid_parts h
  rcases List.mem_append.1 hb with htext | hord
  · rcases List.mem_append.1 htext with hfirst | hsec
    · exact le_of_mem_textBytes hhand hfirst
    · exact le_of_mem_textBytes hdigits hsec
  · rw [(List.mem_replicate.1 hord).2]
    decide

theorem plainDecode_line (h : o.valid = true) : plainDecode (plainLine o) = .recovered o := by
  obtain ⟨hhand, hdigits, hord⟩ := Origin.valid_parts h
  have hfirst := length_textBytes hhand
  have hsec := length_textBytes hdigits
  have htake : (plainLine o).take 64 = textBytes o.sourceHandle := by
    rw [plainLine, List.append_assoc, List.append_assoc, ← hfirst, List.take_left]
  have hdrop : (plainLine o).drop 64
      = textBytes o.sourceLineSha256 ++ (List.replicate o.ordinal.toNat 49 ++ [0]) := by
    rw [plainLine, List.append_assoc, List.append_assoc, ← hfirst, List.drop_left]
  have hmiddle : ((plainLine o).drop 64).take 64 = textBytes o.sourceLineSha256 := by
    rw [hdrop, ← hsec, List.take_left]
  have hrest : (plainLine o).drop 128 = List.replicate o.ordinal.toNat 49 ++ [0] := by
    rw [show 128 = 64 + 64 from rfl, ← List.drop_drop, hdrop, ← hsec, List.drop_left]
  have hlen : (plainLine o).length - 129 = o.ordinal.toNat := by
    simp only [plainLine, List.length_append, List.length_replicate, List.length_singleton, hfirst,
      hsec]
    omega
  rw [plainDecode, hlen, if_pos hrest, htake, hmiddle, bytesText_textBytes hhand,
    bytesText_textBytes hdigits, Int.toNat_of_nonneg hord]

theorem plainDecode_cut (h : o.valid = true) {written : Bytes} (hpart : written <+: plainLine o)
    (hne : written ≠ plainLine o) : plainDecode written = .garbled := by
  rw [plainDecode, if_neg]
  intro hrest
  have hclose : 0 ∈ written := by
    apply List.mem_of_mem_drop
    rw [hrest]
    exact List.mem_append_right _ (List.mem_singleton_self _)
  have hfront := (List.prefix_concat_iff.1 hpart).resolve_left hne
  have hle := le_of_mem_front h (hfront.subset hclose)
  exact absurd hle (by decide)

theorem newline_not_mem_plainLine (h : o.valid = true) : newline ∉ plainLine o := by
  intro hmem
  rcases List.mem_append.1 hmem with hfront | hlast
  · exact absurd (le_of_mem_front h hfront) (by decide)
  · exact absurd (List.mem_singleton.1 hlast) (by decide)

/-- Records without a payload, for which a part of a line is told from the whole. -/
def plainCodec : Codec where
  line := fun o _ _ => plainLine o
  decode := plainDecode
  foldWorkerKey := id
  newline_not_mem := fun _ _ _ h => newline_not_mem_plainLine h
  decode_line := fun _ _ _ h => plainDecode_line h
  decode_cut := fun _ _ _ _ h hpart hne => plainDecode_cut h hpart hne

end Codec

/-! ## Runs of a server -/

section Runs

def oneDigest : String := String.ofList (List.replicate 64 '1')

def sampleSubmission (handle : String) (h : isSha256Hex handle = true) :
    Submission sampleSurroundings where
  origin := ⟨handle, 0, zeroDigest⟩
  source := ⟨"native-recovery-source-v1", "s", zeroDigest, zeroDigest, 1⟩
  actor := "c"
  workspace := "w"
  request := sampleRequest
  lease := none
  valid := by
    simp only [Origin.valid, h, Bool.true_and, Bool.and_eq_true, decide_eq_true_eq]
    exact ⟨by decide +kernel, by norm_num⟩

def firstSubmission : Submission sampleSurroundings :=
  sampleSubmission zeroDigest (by decide +kernel)

def secondSubmission : Submission sampleSurroundings :=
  sampleSubmission oneDigest (by decide +kernel)

abbrev SampleAction := ServerAction sampleSurroundings

def proceeds : SampleAction := .resume 0 Answer.plain

def writes (bytes : ℕ) : SampleAction := .resume 0 { Answer.plain with written := bytes }

def admission (sub : Submission sampleSurroundings) : List SampleAction :=
  [.call 0 (.admission sub), proceeds, proceeds, proceeds, proceeds, writes 1000, proceeds]

def delivery : List SampleAction :=
  [.outside (.read "s" 10), .outside (.takeFlush "s" 1 1), .outside (.checkQueue false),
    .outside (.checkReceipt none), .outside (.flush true), .outside (.mark none),
    .outside (.commit true true), .outside (.drop "s")]

def passStart : List SampleAction :=
  [.call 0 .reconcile, proceeds, proceeds, proceeds, proceeds, proceeds, proceeds]

def runServer (actions : List SampleAction) : ServerSystem sampleSurroundings :=
  run (server plainCodec sampleSurroundings).step
    (ServerSystem.start sampleSurroundings true) actions

def admittedAndDelivered : List SampleAction := admission firstSubmission ++ delivery

theorem admittedAndDelivered_framed :
    FramedRun plainCodec sampleSurroundings true admittedAndDelivered := by decide +kernel

/-- The delivered receipt is written, and its record was flushed. -/
theorem admittedAndDelivered_flushed :
    ((runServer admittedAndDelivered).shared.receipt (zeroDigest, 0)).map
        Receipt.state = some .written
      ∧ WrittenFlushed (runServer admittedAndDelivered).shared := by
  refine ⟨by decide +kernel, ?_⟩
  exact (written_was_flushed plainCodec sampleSurroundings true admittedAndDelivered
    admittedAndDelivered_framed).run_of_ne_nil (List.cons_ne_nil _ _)

/-- The server dies before the first byte of an append; the next pass appends the record. -/
def killedBeforeAppend : List SampleAction :=
  (admission firstSubmission).take 5 ++ .restart :: passStart
    ++ [proceeds, proceeds, writes 1000, proceeds]

theorem killedBeforeAppend_framed :
    FramedRun plainCodec sampleSurroundings true killedBeforeAppend := by decide +kernel

/-- The pass has returned, the receipt is enqueued, and its record can be read. -/
theorem killedBeforeAppend_readable :
    (runServer killedBeforeAppend).shared.reconciled = true
      ∧ ((runServer killedBeforeAppend).shared.receipt (zeroDigest, 0)).map
          Receipt.state = some .enqueued
      ∧ EnqueuedReadable plainCodec (runServer killedBeforeAppend).shared := by
  have hend : (runServer killedBeforeAppend).shared.reconciled = true
      ∧ ((runServer killedBeforeAppend).shared.receipt (zeroDigest, 0)).map Receipt.state
        = some .enqueued := by decide +kernel
  obtain ⟨hret, henqueue⟩ := hend
  refine ⟨hret, henqueue, ?_⟩
  exact (reconciled_is_readable plainCodec sampleSurroundings true killedBeforeAppend
    killedBeforeAppend_framed).run_of_ne_nil (List.cons_ne_nil _ _) hret

/-- The server dies between the two unlinks of a drained log. The offset is left, the next record of
the session lies below it, and a pass takes the record for committed. -/
def staleOffset : List SampleAction :=
  admission firstSubmission ++ delivery ++ [.outside (.trim "s" (some 1)), .restart]
    ++ admission secondSubmission ++ passStart ++ [proceeds, proceeds]

theorem staleOffset_not_flushed :
    ¬ Always (server plainCodec sampleSurroundings).step (fun s => WrittenFlushed s.shared)
      (ServerSystem.start sampleSurroundings true) staleOffset := by
  intro halways
  have hflush : WrittenFlushed (runServer staleOffset).shared :=
    halways.run_of_ne_nil (List.cons_ne_nil _ _)
  have hend : ((runServer staleOffset).shared.receipt (oneDigest, 0)).map Receipt.state
        = some .written
      ∧ ∀ o ∈ (runServer staleOffset).shared.flushed, o.sourceHandle ≠ oneDigest := by
    decide +kernel
  obtain ⟨hwrite, hothers⟩ := hend
  obtain ⟨r, hget, hstate⟩ := Option.map_eq_some_iff.1 hwrite
  exact hothers _ (hflush (oneDigest, 0) r hget hstate) rfl

theorem mem_entries_of_readBatch {s : State} {name : String} {maxItems : ℕ} {record : Record}
    (h : record ∈ ((s.spool name).readBatch maxItems).records) :
    ∃ entry ∈ s.queue.entries, record ∈ entry.2.uncommitted := by
  rw [Spool.readBatch_records] at h
  have hmem := List.mem_of_mem_take h
  cases hget : s.queue.get name with
  | none =>
    rw [State.spool, hget, Option.getD_none] at hmem
    cases hmem
  | some sp =>
    rw [State.spool, hget, Option.getD_some] at hmem
    exact ⟨(name, sp), Dict.mem_entries_iff.2 hget, hmem⟩

/-- The server dies inside an append. The pass at the next start finds no record, appends one behind
the bytes that were left, and marks the receipt enqueued. -/
def tornAppend : List SampleAction :=
  (admission firstSubmission).take 5 ++ [writes 5, .restart] ++ passStart
    ++ [proceeds, proceeds, writes 1000, proceeds]

theorem tornAppend_not_readable :
    ¬ Always (server plainCodec sampleSurroundings).step
      (fun s => s.shared.reconciled = true → EnqueuedReadable plainCodec s.shared)
      (ServerSystem.start sampleSurroundings true) tornAppend := by
  intro halways
  have hend : (runServer tornAppend).shared.reconciled = true
      ∧ ((runServer tornAppend).shared.receipt (zeroDigest, 0)).map Receipt.state = some .enqueued
      ∧ ∀ entry ∈ (runServer tornAppend).shared.queue.entries,
        ∀ record ∈ entry.2.uncommitted, plainDecode record.raw = .garbled := by decide +kernel
  obtain ⟨hret, henqueue, hgarbled⟩ := hend
  have hread : EnqueuedReadable plainCodec (runServer tornAppend).shared :=
    halways.run_of_ne_nil (List.cons_ne_nil _ _) hret
  obtain ⟨r, hget, hstate⟩ := Option.map_eq_some_iff.1 henqueue
  obtain ⟨name, maxItems, record, hrec, hdec⟩ :=
    hread (zeroDigest, 0) r hget hstate
  obtain ⟨entry, hentry, hmem⟩ := mem_entries_of_readBatch hrec
  rw [show plainCodec.decode record.raw = .garbled from hgarbled entry hentry record hmem] at hdec
  cases hdec

end Runs

end ContextIntelligence.Recovery.Outbox
