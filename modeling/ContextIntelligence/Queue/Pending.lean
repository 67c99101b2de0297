import ContextIntelligence.Queue.Directory
import ContextIntelligence.Queue.Enumeration

/-!
# All notions of pending agree

Six functions decide whether a key has work left, by a search from the end, by counting newlines, or
by reading lines forward. `pending_notions_agree` relates all of them to the complete records above
the committed offset, for every directory with valid keys whose offsets are line boundaries.
-/

namespace ContextIntelligence.Queue

open Lib.Lines

/-! ## Settled keys -/

/-- The log of a key holds these bytes; a missing log holds none. -/
def KeyFiles.Holds (f : KeyFiles) (content : Bytes) : Prop :=
  f.log = .bytes content ∨ (f.log = .missing ∧ content = [])

/-- The log can be read and the committed offset is one of its line boundaries. -/
structure KeyFiles.At (f : KeyFiles) (content : Bytes) (offset : Nat) : Prop where
  log : f.Holds content
  committed : readCommittedOffset f.offset = .ok offset
  boundary : Boundary newline content offset

/-- The committed offset of the key is a line boundary of its log, and so not past its last
complete line. -/
def KeyFiles.Settled (f : KeyFiles) : Prop := ∃ content offset, f.At content offset

section Key

variable {f : KeyFiles} {content : Bytes} {offset maxSeek : Nat}

section

variable (h : f.At content offset)
include h

theorem KeyFiles.At.lastCompleteEnd :
    lastCompleteEnd f.log = .ok (completeEnd newline 0 [] content) := by
  rcases h.log with hlog | ⟨hlog, rfl⟩
  · rw [hlog, lastCompleteEnd_bytes]
  · rw [hlog]
    rfl

theorem KeyFiles.At.lt_completeEnd_iff :
    offset < completeEnd newline 0 [] content ↔ recordsFrom newline content offset ≠ [] := by
  constructor
  · intro hlt hnil
    have heq := eq_completeEnd_of_recordsFrom_eq_nil h.boundary hnil
    omega
  · intro hne
    obtain ⟨r, rs, hrecs⟩ := List.exists_cons_of_ne_nil hne
    obtain ⟨-, hlt, -⟩ := recordsFrom_eq_cons hrecs
    have hsplit : recordsFrom newline content offset = [r] ++ rs := hrecs
    have hstop : Boundary newline content r.stop := boundary_endOf h.boundary hsplit
    have hle := Reader.le_completeEnd_of_boundary hstop
    omega

theorem KeyFiles.At.pendingCount (hfits : content.length ≤ maxSeek) :
    pendingCount maxSeek f = .ok (recordsFrom newline content offset).length := by
  have hseek : offset ≤ maxSeek := Nat.le_trans h.boundary.le_length hfits
  rw [Queue.pendingCount, h.committed, h.lastCompleteEnd, ok_bind, ok_bind, recordsFrom,
    length_scan]
  rcases h.log with hlog | ⟨hlog, rfl⟩
  · rw [hlog, streamNewlines_to_completeEnd hseek]
  · rw [hlog, streamNewlines_missing, List.drop_nil]
    rfl

theorem KeyFiles.At.readBatch (hfits : content.length ≤ maxSeek)
    (size : Nat) : readBatch maxSeek size f
      = .ok ((recordsFrom newline content offset).take size,
          (endOf offset ((recordsFrom newline content offset).take size) : Nat)) := by
  have hseek : offset ≤ maxSeek := Nat.le_trans h.boundary.le_length hfits
  rw [Queue.readBatch, h.committed]
  rcases h.log with hlog | ⟨hlog, rfl⟩
  · rw [hlog]
    change (seek maxSeek (offset : ℤ) >>= _) = _
    rw [seek_natCast hseek]
    change Except.ok _ = _
    rw [readRecords_eq_take]
    rfl
  · rw [hlog]
    have hnil : recordsFrom newline [] offset = [] := by
      rw [recordsFrom, List.drop_nil]
      rfl
    rw [hnil, List.take_nil]
    rfl

theorem KeyFiles.At.commit {pre post : List Record}
    (hsplit : recordsFrom newline content offset = pre ++ post) :
    (Queue.commit (endOf offset pre : Nat) f).At content (endOf offset pre) where
  log := h.log
  committed := rfl
  boundary := boundary_endOf h.boundary hsplit

theorem KeyFiles.At.readCommitLoop (hfits : content.length ≤ maxSeek)
    {sizes : List Nat} (hpos : ∀ size ∈ sizes, 0 < size)
    (henough : (recordsFrom newline content offset).length ≤ sizes.length) :
    readCommitLoop maxSeek sizes f = .ok (recordsFrom newline content offset) := by
  induction sizes generalizing f offset with
  | nil =>
    rw [List.eq_nil_of_length_eq_zero (Nat.le_zero.1 henough)]
    rfl
  | cons size sizes ih =>
    obtain ⟨hsize, hsizes⟩ := List.forall_mem_cons.1 hpos
    have hsplit := (List.take_append_drop size (recordsFrom newline content offset)).symm
    have hrest := recordsFrom_endOf hsplit
    have hlen : (recordsFrom newline content
        (endOf offset ((recordsFrom newline content offset).take size))).length
          ≤ sizes.length := by
      rw [hrest, List.length_drop]
      rw [List.length_cons] at henough
      omega
    have hloop := ih (h.commit hsplit) hsizes hlen
    rw [Queue.readCommitLoop, h.readBatch hfits size]
    change (Queue.readCommitLoop maxSeek sizes _ >>= _) = _
    rw [hloop, hrest]
    change Except.ok _ = _
    rw [List.take_append_drop]

/-- `delete_session` refuses exactly while a complete record lies above the offset. -/
theorem KeyFiles.At.deleteSession (hfits : content.length ≤ maxSeek) :
    deleteSession maxSeek f
      = if recordsFrom newline content offset = [] then
          .ok (.deleted (f ≠ KeyFiles.absent), KeyFiles.absent)
        else .ok (.refused (recordsFrom newline content offset).length, f) := by
  have hpend := h.pendingCount hfits
  rw [Queue.pendingCount, h.committed, h.lastCompleteEnd] at hpend
  rw [Queue.deleteSession, h.committed, h.lastCompleteEnd]
  change (streamNewlines maxSeek f.log offset _ >>= _) = _
  change streamNewlines maxSeek f.log offset _ = _ at hpend
  rw [hpend]
  by_cases hnil : recordsFrom newline content offset = []
  · rw [if_pos hnil, hnil]
    rfl
  · have hlen : (recordsFrom newline content offset).length ≠ 0 := by
      simpa using hnil
    rw [if_neg hnil]
    change (if _ then _ else _) = _
    rw [if_pos hlen]
    rfl

end

end Key

/-! ## The directory -/

namespace Directory

/-- The records that are pending for a key of the directory: the notion the others are compared
with. -/
def Pending (d : Directory) (key : WorkerKey) (pending : List Record) : Prop :=
  ∃ content offset, (d.files key).At content offset
    ∧ pending = recordsFrom newline content offset

variable {d : Directory} {key : WorkerKey} {pending : List Record}

theorem at_absent : KeyFiles.absent.At [] 0 where
  log := Or.inr ⟨rfl, rfl⟩
  committed := rfl
  boundary := boundary_zero _ _

theorem exists_pending (h : ∀ key ∈ d.keys, (d.files key).Settled) (key : WorkerKey) :
    ∃ pending, d.Pending key pending := by
  by_cases hkey : key ∈ d.keys
  · obtain ⟨content, offset, hat⟩ := h key hkey
    exact ⟨_, content, offset, hat, rfl⟩
  · refine ⟨_, [], 0, ?_, rfl⟩
    rw [d.complete key hkey]
    exact at_absent

theorem length_le {content : Bytes} (h : (d.files key).Holds content) :
    content.length ≤ d.maxSeek := by
  rcases h with hlog | ⟨-, rfl⟩
  · exact d.fits key content hlog
  · exact Nat.zero_le _

theorem mem_recover_iff (hvalid : ∀ key ∈ d.keys, isSafeSessionId key = true)
    (h : d.Pending key pending) : key ∈ d.recover ↔ pending ≠ [] := by
  obtain ⟨content, offset, hat, rfl⟩ := h
  rw [← hat.lt_completeEnd_iff]
  have hbelow : d.recoverable key
      = (isSafeSessionId key && decide (offset < completeEnd newline 0 [] content)) := by
    rw [recoverable, hat.committed, hat.lastCompleteEnd]
    congr 1
    exact decide_eq_decide.2 Int.ofNat_lt
  rw [recover, List.mem_filter, hbelow, logKeys, List.mem_filter, Bool.and_eq_true,
    decide_eq_true_iff, decide_eq_true_iff]
  constructor
  · rintro ⟨-, -, hlt⟩
    exact hlt
  · intro hlt
    -- a record lies in a log, so the log is there and the key is one of the directory's
    have hlog : (d.files key).log ≠ .missing := by
      intro hmiss
      rcases hat.log with hbytes | ⟨-, rfl⟩
      · rw [hmiss] at hbytes
        cases hbytes
      · exact absurd hlt (Nat.not_lt_zero offset)
    have hkey : key ∈ d.keys := by
      by_contra hkey
      exact hlog (congrArg KeyFiles.log (d.complete key hkey))
    exact ⟨⟨hkey, hlog⟩, hvalid key hkey, hlt⟩

theorem keyHasPending_iff (h : d.Pending key pending) :
    d.keyHasPending key = true ↔ pending ≠ [] := by
  obtain ⟨content, offset, hat, rfl⟩ := h
  have hle := Reader.le_completeEnd_of_boundary hat.boundary
  rw [← hat.lt_completeEnd_iff, keyHasPending, hat.committed, hat.lastCompleteEnd]
  change (decide ((offset : ℤ) < 0)
    || decide (((completeEnd newline 0 [] content : Nat) : ℤ) < offset)
    || decide ((offset : ℤ) < (completeEnd newline 0 [] content : Nat))) = true ↔ _
  simp only [Bool.or_eq_true, decide_eq_true_iff]
  omega

/-- All notions of pending agree: on every directory with valid keys whose committed offsets are
line boundaries of their logs. -/
theorem pending_notions_agree (d : Directory) (hvalid : ∀ key ∈ d.keys, isSafeSessionId key = true)
    (hsettled : ∀ key ∈ d.keys, (d.files key).Settled) :
    (∀ key, ∃ count, pendingCount d.maxSeek (d.files key) = .ok count
      ∧ (key ∈ d.recover ↔ 0 < count)
      ∧ (∀ size, 0 < size → ∃ records endOffset,
          readBatch d.maxSeek size (d.files key) = .ok (records, endOffset)
            ∧ (key ∈ d.recover ↔ records ≠ []))
      ∧ (∃ outcome files, deleteSession d.maxSeek (d.files key) = .ok (outcome, files)
          ∧ (key ∈ d.recover ↔ outcome = .refused count)
          ∧ (key ∉ d.recover ↔ ∃ removed, outcome = .deleted removed))
      ∧ (∀ sizes : List Nat, (∀ size ∈ sizes, 0 < size) → count ≤ sizes.length →
          ∃ records, readCommitLoop d.maxSeek sizes (d.files key) = .ok records
            ∧ records.length = count))
    ∧ (d.hasPendingRecords = true ↔ d.recover ≠ []) := by
  constructor
  · intro key
    obtain ⟨pending, hpend⟩ := exists_pending hsettled key
    have hrec := mem_recover_iff hvalid hpend
    obtain ⟨content, offset, hat, rfl⟩ := hpend
    have hfits := length_le hat.log
    refine ⟨_, hat.pendingCount hfits, ?_, ?_, ?_, ?_⟩
    · rw [hrec, List.length_pos_iff]
    · intro size hsize
      refine ⟨_, _, hat.readBatch hfits size, ?_⟩
      rw [hrec, ne_eq, ne_eq, List.take_eq_nil_iff]
      simp [Nat.ne_of_gt hsize]
    · rw [hat.deleteSession hfits]
      by_cases hnil : recordsFrom newline content offset = []
      · rw [if_pos hnil]
        exact ⟨_, _, rfl, by simp [hrec, hnil], iff_of_true (by simp [hrec, hnil]) ⟨_, rfl⟩⟩
      · rw [if_neg hnil]
        exact ⟨_, _, rfl, by simp [hrec, hnil], by simp [hrec, hnil]⟩
    · intro sizes hpos henough
      exact ⟨_, hat.readCommitLoop hfits hpos henough, rfl⟩
  · rw [hasPendingRecords, List.any_eq_true]
    constructor
    · rintro ⟨key, -, hkey⟩
      obtain ⟨pending, hpend⟩ := exists_pending hsettled key
      have hmem := (mem_recover_iff hvalid hpend).2 ((keyHasPending_iff hpend).1 hkey)
      exact List.ne_nil_of_mem hmem
    · intro hne
      obtain ⟨key, hkey⟩ := List.exists_mem_of_ne_nil _ hne
      obtain ⟨pending, hpend⟩ := exists_pending hsettled key
      refine ⟨key, ?_, (keyHasPending_iff hpend).2
        ((mem_recover_iff hvalid hpend).1 hkey)⟩
      -- a key that `recover` lists has a log
      obtain ⟨hin, hlog⟩ := List.mem_filter.1 (List.mem_filter.1 hkey).1
      rw [allWorkerKeys, List.mem_filter]
      exact ⟨hin, by rw [hlog, Bool.true_or]⟩

/-- One key `s` with a committed record, a pending one and a torn tail. -/
def sampleDirectory : Directory where
  keys := [[115]]
  files := fun key =>
    if key = [115] then ⟨.bytes [97, newline, 98, newline, 99], .value 2, .missing⟩
    else KeyFiles.absent
  maxSeek := 2 ^ 40
  complete := by
    intro key hkey
    rw [List.mem_singleton] at hkey
    rw [if_neg hkey]
  fits := by
    intro key bytes hbytes
    split at hbytes
    · cases hbytes
      decide
    · cases hbytes

theorem sampleDirectory_agrees :
    sampleDirectory.hasPendingRecords = true ∧ sampleDirectory.recover ≠ [] := by
  have hvalid : ∀ key ∈ sampleDirectory.keys, isSafeSessionId key = true := by decide
  have hsettled : ∀ key ∈ sampleDirectory.keys, (sampleDirectory.files key).Settled := by
    intro key hkey
    obtain rfl := List.mem_singleton.1 hkey
    exact ⟨[97, newline, 98, newline, 99], 2, Or.inl rfl, rfl,
      Or.inr ⟨[97], [98, newline, 99], rfl, rfl⟩⟩
  have hiff := (pending_notions_agree sampleDirectory hvalid hsettled).2
  have hpend : sampleDirectory.hasPendingRecords = true := by decide +kernel
  exact ⟨hpend, hiff.1 hpend⟩

end Directory

end ContextIntelligence.Queue
