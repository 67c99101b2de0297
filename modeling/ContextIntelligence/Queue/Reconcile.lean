import ContextIntelligence.Queue.DeadLetters
import ContextIntelligence.Queue.Pending

/-!
# Reconciling the offsets with the dead letters

At start `recovery_reconcile_dead` moves the offset of a key over the leading lines that are in its
dead-letter file. `reconcile_skips_dead_prefix`: for files written by `append`, `commit` and
`dead_letter`, crashes inside the writes included, it is the longest such prefix, nothing else
changes, and a second pass has nothing to do, as long as every letter has a line of its own. A
letter behind one that a crash cut short has none, and its line is not skipped
(`tornLetter_not_skipped`).
-/

namespace ContextIntelligence.Queue

open Lib.Lines
open Lib.JsonText (Text AllPrintable allPrintable_nil allPrintable_append allPrintable_dumps dumps)

/-! ## The pass -/

/-- The loop over the lines from `pos` on: where it stops, and how many lines it passed. -/
def skipDead (dead : List Bytes) (completeEnd : Nat) : Nat → Nat → Bytes → Nat × Nat
  | 0, pos, _ => (pos, 0)
  | fuel + 1, pos, rest =>
    let raw := (readLine newline rest).1
    if pos < completeEnd ∧ raw.getLast? = some newline ∧ raw.dropLast ∈ dead then
      let (stop, skipped) := skipDead dead completeEnd fuel (pos + raw.length)
        (readLine newline rest).2
      (stop, skipped + 1)
    else (pos, 0)

/-- The pass over one key that has a log: the number of lines it skips, and the offset if it is
replaced. -/
def reconcileKey (json : JsonLoads) (maxSeek : Nat) (f : KeyFiles) :
    Except Fault (Nat × Option Nat) := do
  let dead ← deadPayloadSet json f.dead
  if dead = [] then return (0, none)
  let committed ← readCommittedOffset f.offset
  let completeEnd ← lastCompleteEnd f.log
  match f.log with
  | .bytes content =>
    let start ← seek maxSeek committed
    let (pos, skipped) := skipDead dead completeEnd content.length start (content.drop start)
    return (skipped, if start < pos then some pos else none)
  | _ => .error .osError

namespace Directory

def withOffset (d : Directory) (key : WorkerKey) (offset : Nat) : Directory where
  keys := d.keys
  files := fun k => if k = key ∧ k ∈ d.keys then commit offset (d.files k) else d.files k
  maxSeek := d.maxSeek
  complete := fun k hk => by
    rw [if_neg (fun h => hk h.2)]
    exact d.complete k hk
  fits := fun k bytes hbytes => by
    refine d.fits k bytes ?_
    split at hbytes
    · exact hbytes
    · exact hbytes

/-- One round of `_reconcile`: an unsafe key and a key without a log are passed over, and a
failure is confined to its key. -/
def reconcileOne (json : JsonLoads) (d : Directory) (key : WorkerKey) : Nat × Directory :=
  if isSafeSessionComponent key = true ∧ (d.files key).log ≠ .missing then
    match reconcileKey json d.maxSeek (d.files key) with
    | .ok (skipped, some offset) => (skipped, d.withOffset key offset)
    | .ok (skipped, none) => (skipped, d)
    | .error _ => (0, d)
  else (0, d)

def reconcileFrom (json : JsonLoads) : List WorkerKey → Directory → Nat × Directory
  | [], d => (0, d)
  | key :: keys, d =>
    let (skipped, d) := reconcileOne json d key
    let (rest, d) := reconcileFrom json keys d
    (skipped + rest, d)

/-- `recovery_reconcile_dead`. -/
def recoveryReconcileDead (json : JsonLoads) (d : Directory) : Nat × Directory :=
  reconcileFrom json d.allWorkerKeys d

end Directory

/-! ## The loop -/

theorem readLine_append (nl : UInt8) (bs : Bytes) :
    (readLine nl bs).1 ++ (readLine nl bs).2 = bs := by
  induction bs with
  | nil => rfl
  | cons b bs ih =>
    simp only [readLine]
    split
    · rfl
    · exact congrArg (b :: ·) ih

/-- The records that lead the given ones and whose bytes are among the payloads. -/
def leading (dead : List Bytes) (rs : List Record) : List Record :=
  rs.takeWhile fun r => decide (r.raw ∈ dead)

theorem skipDead_eq (dead : List Bytes) {completeEnd fuel pos : Nat} {rest : Bytes}
    (hfuel : rest.length ≤ fuel) (hend : ∀ r ∈ scan newline pos [] rest, r.stop ≤ completeEnd) :
    skipDead dead completeEnd fuel pos rest
      = (endOf pos (leading dead (scan newline pos [] rest)),
          (leading dead (scan newline pos [] rest)).length) := by
  induction fuel generalizing pos rest with
  | zero =>
    rw [List.eq_nil_of_length_eq_zero (Nat.le_zero.1 hfuel)]
    rfl
  | succ fuel ih =>
    have hscan := scan_eq_readLine newline pos [] rest
    simp only [List.nil_append, List.length_nil, Nat.add_zero] at hscan
    by_cases hline : (readLine newline rest).1.getLast? = some newline
    · rw [if_pos hline] at hscan
      have hpos : 0 < (readLine newline rest).1.length := by
        apply List.length_pos_of_ne_nil
        intro hnil
        rw [hnil] at hline
        cases hline
      have hlen := congrArg List.length (readLine_append newline rest)
      rw [List.length_append] at hlen
      rw [hscan] at hend ⊢
      have hbelow : pos < completeEnd := by
        have hstop := hend _ List.mem_cons_self
        simp only at hstop
        omega
      by_cases hdead : (readLine newline rest).1.dropLast ∈ dead
      · have hshort : (readLine newline rest).2.length ≤ fuel := by omega
        have hrest := ih hshort fun r hr => hend r (List.mem_cons_of_mem _ hr)
        simp only [skipDead, hbelow, hline, hdead, and_self, if_true, hrest, leading,
          List.takeWhile_cons, decide_true, endOf, List.length_cons]
      · simp [skipDead, hdead, leading, endOf]
    · rw [if_neg hline] at hscan
      simp [skipDead, hline, hscan, leading, endOf]

theorem stop_le_completeEnd {content : Bytes} {pos : Nat} :
    ∀ r ∈ recordsFrom newline content pos, r.stop ≤ completeEnd newline 0 [] content := by
  intro r hr
  apply Reader.le_completeEnd_of_boundary
  by_cases hpos : pos ≤ content.length
  · exact boundary_of_mem_scan_drop hpos hr
  · rw [recordsFrom, List.drop_eq_nil_of_le (by omega)] at hr
    cases hr

/-! ## Written files -/

def KeyFiles.content (f : KeyFiles) : Bytes :=
  match f.log with
  | .bytes content => content
  | _ => []

def KeyFiles.committed (f : KeyFiles) : Nat :=
  match readCommittedOffset f.offset with
  | .ok n => n.toNat
  | .error _ => 0

/-- The log behind an `append`, or behind one that was cut short. -/
def KeyFiles.appendLog (bytes : Bytes) (f : KeyFiles) : KeyFiles :=
  match f.log with
  | .missing => { f with log := .bytes bytes }
  | .bytes content => { f with log := .bytes (content ++ bytes) }
  | .unreadable => f

/-- The dead-letter file behind the write of some characters. -/
def KeyFiles.appendDead (t : Text) (f : KeyFiles) : KeyFiles :=
  match f.dead with
  | .missing => { f with dead := .bytes (t.map UInt8.ofNat) }
  | .bytes content => { f with dead := .bytes (content ++ t.map UInt8.ofNat) }
  | .unreadable => f

/-- The files of a key that were written by `append`, `commit` and `dead_letter`, what stands on the
open line at the end of the dead-letter file, and the letters. A call of `dead_letter` comes to its
end only where no open line precedes it, so that its letter has a line of its own. -/
inductive KeyFiles.Written (json : JsonLoads) : KeyFiles → Text → List Letter → Prop where
  | absent : Written json KeyFiles.absent [] []
  | append (bytes : Bytes) (h : Written json f last ls) :
      Written json (f.appendLog bytes) last ls
  | commit (offset : Nat) (h : Written json f last ls) :
      Written json (Queue.commit offset f) last ls
  | deadLetter (l : Letter) (h : Written json f [] ls)
      (hl : Queue.deadLetter l f = .ok f') : Written json f' [] (ls ++ [l])
  /-- The process dies between the object and its newline. -/
  | unended (l : Letter) (h : Written json f [] ls) :
      Written json (f.appendDead (dumps l.members)) (dumps l.members) (ls ++ [l])
  /-- The write stops inside the object: `json.loads` refuses what is then on the line. -/
  | torn (l : Letter) (n : Nat) (h : Written json f last ls)
      (hlast : lineAdds json last = none)
      (htorn : lineAdds json (last ++ (dumps l.members).take n) = none) :
      Written json (f.appendDead ((dumps l.members).take n)) (last ++ (dumps l.members).take n)
        ls
  /-- The newline that `_discard_partial` writes behind a failed write. -/
  | discarded (h : Written json f last ls) : Written json (f.appendDead [10]) [] ls

/-- A dead-letter file that gives back the letters, an open line at its end included. -/
def DeadHolds (json : JsonLoads) (file : Artifact) (last : Text) (letters : List Letter) : Prop :=
  ∃ lines : List Text,
    (file = .bytes (deadFile lines last) ∨ file = .missing ∧ lines = [] ∧ last = [])
      ∧ (∀ line ∈ lines, AllPrintable line) ∧ AllPrintable last
      ∧ (lines ++ [last]).filterMap (lineAdds json) = letters.map Letter.payload

section DeadHolds

variable {json : JsonLoads} {f : KeyFiles} {last : Text} {letters : List Letter}

theorem DeadHolds.deadPayloadSet (h : DeadHolds json f.dead last letters) :
    deadPayloadSet json f.dead = .ok (letters.map Letter.payload) := by
  obtain ⟨lines, hfile, hlines, hlast, hadds⟩ := h
  rcases hfile with hfile | ⟨hfile, rfl, rfl⟩
  · rw [hfile, deadPayloadSet_deadFile json hlines hlast, hadds]
  · rw [hfile, ← hadds]
    rfl

theorem dead_appendDead {lines : List Text} (t : Text)
    (h : f.dead = .bytes (deadFile lines last) ∨ f.dead = .missing ∧ lines = [] ∧ last = []) :
    (f.appendDead t).dead = .bytes (deadFile lines (last ++ t)) := by
  rcases h with h | ⟨h, rfl, rfl⟩
  · simp only [KeyFiles.appendDead, h, deadFile, List.map_append, List.append_assoc]
  · simp only [KeyFiles.appendDead, h]
    rfl

theorem deadFile_newline (lines : List Text) (last : Text) :
    deadFile lines (last ++ [10]) = deadFile (lines ++ [last]) [] := by
  simp only [deadFile, List.flatMap_append, List.flatMap_cons, List.flatMap_nil, List.append_nil]

/-- Characters on the open line, which was read as no letter. -/
theorem DeadHolds.append (added : List Letter) (t : Text) (h : DeadHolds json f.dead last letters)
    (hprint : AllPrintable t) (hlast : lineAdds json last = none)
    (hadds : (lineAdds json (last ++ t)).toList = added.map Letter.payload) :
    DeadHolds json (f.appendDead t).dead (last ++ t) (letters ++ added) := by
  obtain ⟨lines, hfile, hlines, hopen, hletters⟩ := h
  refine ⟨lines, .inl (dead_appendDead t hfile), hlines, allPrintable_append.2 ⟨hopen, hprint⟩, ?_⟩
  rw [List.filterMap_append, List.filterMap_cons_none hlast, List.filterMap_nil,
    List.append_nil] at hletters
  rw [List.filterMap_append, hletters, List.map_append, ← hadds]
  cases hread : lineAdds json (last ++ t) with
  | none => rw [List.filterMap_cons_none hread]; rfl
  | some raw => rw [List.filterMap_cons_some hread]; rfl

/-- A newline ends the open line, and the next one is empty. -/
theorem DeadHolds.newline (h : DeadHolds json f.dead last letters) :
    DeadHolds json (f.appendDead [10]).dead [] letters := by
  obtain ⟨lines, hfile, hlines, hopen, hletters⟩ := h
  have hdead := (dead_appendDead [10] hfile).trans
    (congrArg Artifact.bytes (deadFile_newline lines last))
  refine ⟨lines ++ [last], .inl hdead, ?_, allPrintable_nil, ?_⟩
  · intro line hline
    rcases List.mem_append.1 hline with hline | hline
    · exact hlines line hline
    · rw [List.mem_singleton.1 hline]
      exact hopen
  · rw [List.filterMap_append, hletters]
    exact List.append_nil _

theorem appendDead_append (t t' : Text) (f : KeyFiles) :
    (f.appendDead t).appendDead t' = f.appendDead (t ++ t') := by
  cases hdead : f.dead <;>
    simp only [KeyFiles.appendDead, hdead, List.map_append, List.append_assoc]

theorem deadLetter_eq (l : Letter) (h : DeadHolds json f.dead last letters) :
    deadLetter l f = .ok (f.appendDead l.text) := by
  obtain ⟨lines, hfile | ⟨hfile, -, -⟩, -⟩ := h
  · rw [deadLetter, l.encodeUtf8_text, KeyFiles.appendDead, hfile]
  · rw [deadLetter, l.encodeUtf8_text, KeyFiles.appendDead, hfile]

end DeadHolds

/-- What the pass reads of a key. -/
structure KeyFiles.Readable (json : JsonLoads) (f : KeyFiles) (letters : List Letter) : Prop where
  log : f.Holds f.content
  committed : readCommittedOffset f.offset = .ok (f.committed : ℤ)
  deadPayloadSet : deadPayloadSet json f.dead = .ok (letters.map Letter.payload)

theorem KeyFiles.Written.deadHolds {json : JsonLoads} {f : KeyFiles} {last : Text}
    {letters : List Letter} (h : f.Written json last letters) :
    DeadHolds json f.dead last letters := by
  induction h with
  | absent => exact ⟨[], .inr ⟨rfl, rfl, rfl⟩, nofun, allPrintable_nil, rfl⟩
  | @append f last letters bytes _ ih =>
    cases hlog : f.log <;> simpa only [KeyFiles.appendLog, hlog] using ih
  | commit _ _ ih => exact ih
  | @deadLetter f f' letters l _ hl ih =>
    rw [deadLetter_eq l ih] at hl
    obtain rfl := Except.ok.inj hl
    have hwhole := ih.append [l] (dumps l.members) (allPrintable_dumps _) rfl
      (by rw [List.nil_append, lineAdds_letter]; rfl)
    have hline := hwhole.newline
    rwa [appendDead_append] at hline
  | unended l _ ih =>
    exact ih.append [l] (dumps l.members) (allPrintable_dumps _) rfl
      (by rw [List.nil_append, lineAdds_letter]; rfl)
  | torn l n _ hlast htorn ih =>
    have hadds := ih.append [] ((dumps l.members).take n)
      (fun c hc => allPrintable_dumps _ c (List.mem_of_mem_take hc)) hlast (by rw [htorn]; rfl)
    rwa [List.append_nil] at hadds
  | discarded _ ih => exact ih.newline

theorem KeyFiles.appendDead_log (t : Text) (f : KeyFiles) :
    (f.appendDead t).log = f.log ∧ (f.appendDead t).offset = f.offset := by
  cases hdead : f.dead <;> simp only [KeyFiles.appendDead, hdead, and_self]

theorem KeyFiles.Written.readable {json : JsonLoads} {f : KeyFiles} {last : Text}
    {letters : List Letter} (h : f.Written json last letters) : f.Readable json letters := by
  have hset := h.deadHolds.deadPayloadSet
  suffices hlog : f.Holds f.content ∧ readCommittedOffset f.offset = .ok (f.committed : ℤ) from
    ⟨hlog.1, hlog.2, hset⟩
  clear hset
  induction h with
  | absent => exact ⟨.inr ⟨rfl, rfl⟩, rfl⟩
  | @append f _ _ bytes _ ih =>
    rcases hlog : f.log with _ | _ | content
    · simp only [KeyFiles.appendLog, hlog]
      exact ⟨.inl rfl, ih.2⟩
    · simp only [KeyFiles.appendLog, hlog]
      exact ih
    · simp only [KeyFiles.appendLog, hlog]
      exact ⟨.inl rfl, ih.2⟩
  | commit offset _ ih => exact ⟨ih.1, rfl⟩
  | @deadLetter f f' _ l hw hl ih =>
    rw [deadLetter_eq l hw.deadHolds] at hl
    obtain rfl := Except.ok.inj hl
    simpa only [KeyFiles.Holds, KeyFiles.content, KeyFiles.committed, KeyFiles.appendDead_log]
      using ih
  | unended | torn | discarded =>
    rename_i ih
    simpa only [KeyFiles.Holds, KeyFiles.content, KeyFiles.committed, KeyFiles.appendDead_log]
      using ih

/-! ## One key -/

/-- The leading pending lines of a key that were dead-lettered. -/
def KeyFiles.deadLines (f : KeyFiles) (letters : List Letter) : List Record :=
  leading (letters.map Letter.payload) (recordsFrom newline f.content f.committed)

def KeyFiles.skip (f : KeyFiles) (lines : List Record) : KeyFiles :=
  if lines = [] then f else commit (endOf f.committed lines : Nat) f

theorem le_endOf {log : Bytes} {p : Nat} {pre post : List Record}
    (h : recordsFrom newline log p = pre ++ post) : p ≤ endOf p pre := by
  induction pre generalizing p with
  | nil => exact Nat.le_refl _
  | cons r rs ih =>
    obtain ⟨-, hlt, hrest⟩ := recordsFrom_eq_cons h
    exact Nat.le_trans (Nat.le_of_lt hlt) (ih hrest)

section OneKey

variable {json : JsonLoads} {f : KeyFiles} {last : Text} {letters : List Letter}

theorem KeyFiles.deadLines_append (f : KeyFiles) (letters : List Letter) :
    recordsFrom newline f.content f.committed
      = f.deadLines letters ++ (recordsFrom newline f.content f.committed).dropWhile
          fun r => decide (r.raw ∈ letters.map Letter.payload) :=
  List.takeWhile_append_dropWhile.symm

theorem KeyFiles.lt_endOf_iff (f : KeyFiles) (letters : List Letter) :
    f.committed < endOf f.committed (f.deadLines letters) ↔ f.deadLines letters ≠ [] := by
  have hsplit := f.deadLines_append letters
  cases hlines : f.deadLines letters with
  | nil => simp [endOf]
  | cons r rs =>
    rw [hlines, List.cons_append] at hsplit
    obtain ⟨-, hlt, hrest⟩ := recordsFrom_eq_cons hsplit
    have hle := le_endOf hrest
    simp only [endOf, ne_eq, reduceCtorEq, not_false_eq_true, iff_true]
    omega

theorem KeyFiles.Readable.reconcileKey (h : f.Readable json letters) {maxSeek : Nat}
    (hlog : f.log ≠ .missing) (hfits : f.content.length ≤ maxSeek) :
    reconcileKey json maxSeek f = .ok ((f.deadLines letters).length,
        if f.deadLines letters = [] then none else some (endOf f.committed (f.deadLines letters)))
      ∨ (f.deadLines letters = [] ∧ ∃ fault, reconcileKey json maxSeek f = .error fault) := by
  have hbytes : f.log = .bytes f.content := h.log.resolve_right fun hr => hlog hr.1
  by_cases hset : letters.map Letter.payload = []
  · have hnone : f.deadLines letters = [] := by
      simp [KeyFiles.deadLines, leading, hset]
    left
    simp [Queue.reconcileKey, h.deadPayloadSet, hset, hnone]
    rfl
  · have hend : lastCompleteEnd f.log = .ok (completeEnd newline 0 [] f.content) := by
      rw [hbytes, lastCompleteEnd_bytes]
    by_cases hseek : f.committed ≤ maxSeek
    · left
      have hfuel : (f.content.drop f.committed).length ≤ f.content.length := by
        rw [List.length_drop]
        omega
      have hskip : skipDead (letters.map Letter.payload) (completeEnd newline 0 [] f.content)
          f.content.length f.committed (f.content.drop f.committed)
          = (endOf f.committed (f.deadLines letters), (f.deadLines letters).length) :=
        skipDead_eq _ hfuel stop_le_completeEnd
      have hmoved : (if f.committed < endOf f.committed (f.deadLines letters)
            then some (endOf f.committed (f.deadLines letters)) else none)
          = if f.deadLines letters = [] then none
            else some (endOf f.committed (f.deadLines letters)) := by
        by_cases hlines : f.deadLines letters = []
        · rw [if_pos hlines, if_neg fun hlt => (f.lt_endOf_iff letters).1 hlt hlines]
        · rw [if_neg hlines, if_pos ((f.lt_endOf_iff letters).2 hlines)]
      simp only [Queue.reconcileKey, h.deadPayloadSet, ok_bind, if_neg hset, h.committed, hend]
      rw [hbytes]
      simp only [seek_natCast hseek, ok_bind, hskip, hmoved]
      rfl
    · right
      have hempty : recordsFrom newline f.content f.committed = [] := by
        rw [recordsFrom, List.drop_eq_nil_of_le (by omega)]
        rfl
      have hfault : seek maxSeek (f.committed : ℤ) = .error .osError := seek_of_lt (by omega)
      refine ⟨by rw [KeyFiles.deadLines, hempty]; rfl, .osError, ?_⟩
      simp only [Queue.reconcileKey, h.deadPayloadSet, ok_bind, if_neg hset, h.committed, hend]
      rw [hbytes]
      simp only [hfault, error_bind]

theorem KeyFiles.Written.skip (h : f.Written json last letters) (lines : List Record) :
    (f.skip lines).Written json last letters := by
  rw [KeyFiles.skip]
  split
  · exact h
  · exact h.commit _

theorem KeyFiles.deadLines_skip (f : KeyFiles) (letters : List Letter) :
    (f.skip (f.deadLines letters)).deadLines letters = [] := by
  rw [KeyFiles.skip]
  split
  · assumption
  · have hrest := recordsFrom_endOf (f.deadLines_append letters)
    change leading _ (recordsFrom newline f.content (endOf f.committed (f.deadLines letters))) = []
    rw [hrest, leading, List.takeWhile_eq_nil_iff]
    intro hpos
    exact List.dropWhile_get_zero_not _ _ hpos

end OneKey

/-! ## All keys -/

namespace Directory

structure Written (json : JsonLoads) (d : Directory) (letters : WorkerKey → List Letter) :
    Prop where
  nodup : d.keys.Nodup
  safe : ∀ key ∈ d.keys, isSafeSessionId key = true
  written : ∀ key ∈ d.keys, ∃ last, (d.files key).Written json last (letters key)

/-- The directory with the offset of every listed key moved over its dead lines. -/
structure Skipped (letters : WorkerKey → List Letter) (listed : List WorkerKey)
    (d d' : Directory) : Prop where
  keys : d'.keys = d.keys
  files : ∀ key, d'.files key
    = if key ∈ listed then (d.files key).skip ((d.files key).deadLines (letters key))
      else d.files key

section Pass

variable {json : JsonLoads} {d : Directory} {letters : WorkerKey → List Letter}

theorem deadLines_of_log_missing {f : KeyFiles} (h : f.log = .missing) (ls : List Letter) :
    f.deadLines ls = [] := by
  have hcont : f.content = [] := by rw [KeyFiles.content, h]
  rw [KeyFiles.deadLines, hcont, recordsFrom, List.drop_nil]
  rfl

theorem withOffset_files (d : Directory) {key : WorkerKey} (hkey : key ∈ d.keys) (offset : Nat)
    (k : WorkerKey) : (d.withOffset key offset).files k
      = if k ∈ [key] then commit offset (d.files k) else d.files k := by
  simp only [withOffset, List.mem_singleton]
  by_cases hk : k = key
  · rw [if_pos ⟨hk, hk ▸ hkey⟩, if_pos hk]
  · rw [if_neg fun h => hk h.1, if_neg hk]

theorem reconcileOne_spec {key : WorkerKey} (hkey : key ∈ d.keys)
    (hsafe : isSafeSessionId key = true) (h : (d.files key).Readable json (letters key)) :
    (reconcileOne json d key).1 = ((d.files key).deadLines (letters key)).length
      ∧ Skipped letters [key] d (reconcileOne json d key).2 := by
  have hcomp : isSafeSessionComponent key = true := (Bool.and_eq_true _ _ ▸ hsafe).1
  have hstay : (d.files key).deadLines (letters key) = [] → Skipped letters [key] d d := by
    intro hnil
    refine ⟨rfl, fun k => ?_⟩
    split
    · rename_i hk
      rw [List.mem_singleton.1 hk, hnil]
      rfl
    · rfl
  rw [reconcileOne]
  by_cases hlog : (d.files key).log = .missing
  · have hnil := deadLines_of_log_missing hlog (letters key)
    rw [if_neg fun hc => hc.2 hlog, hnil]
    exact ⟨rfl, hstay hnil⟩
  · rw [if_pos ⟨hcomp, hlog⟩]
    have hfits : (d.files key).content.length ≤ d.maxSeek :=
      d.fits key _ (h.log.resolve_right fun hr => hlog hr.1)
    rcases h.reconcileKey hlog hfits with hok | ⟨hnil, fault, hfault⟩
    · rw [hok]
      by_cases hnil : (d.files key).deadLines (letters key) = []
      · rw [if_pos hnil]
        exact ⟨rfl, hstay hnil⟩
      · rw [if_neg hnil]
        refine ⟨rfl, rfl, fun k => ?_⟩
        rw [withOffset_files d hkey]
        split
        · rename_i hk
          rw [List.mem_singleton.1 hk, KeyFiles.skip, if_neg hnil]
        · rfl
    · rw [hfault, hnil]
      exact ⟨rfl, hstay hnil⟩

theorem reconcileFrom_spec {listed : List WorkerKey} (hnodup : listed.Nodup)
    (hlist : ∀ key ∈ listed, key ∈ d.keys ∧ isSafeSessionId key = true
      ∧ (d.files key).Readable json (letters key)) :
    (reconcileFrom json listed d).1
        = (listed.map fun key => ((d.files key).deadLines (letters key)).length).sum
      ∧ Skipped letters listed d (reconcileFrom json listed d).2 := by
  induction listed generalizing d with
  | nil => exact ⟨rfl, rfl, fun _ => rfl⟩
  | cons key listed ih =>
    obtain ⟨hkey, hsafe, hwrite⟩ := hlist key List.mem_cons_self
    obtain ⟨hcount, hskipped⟩ := reconcileOne_spec hkey hsafe hwrite
    obtain ⟨hnotin, hnodup⟩ := List.nodup_cons.1 hnodup
    -- the round leaves the files of the keys behind it alone
    have hother : ∀ k ∈ listed, (reconcileOne json d key).2.files k = d.files k := by
      intro k hk
      rw [hskipped.files, if_neg]
      rintro hmem
      exact hnotin (List.mem_singleton.1 hmem ▸ hk)
    obtain ⟨hsum, hrest⟩ := ih hnodup fun k hk => by
      obtain ⟨hin, hs, hw⟩ := hlist k (List.mem_cons_of_mem _ hk)
      rw [hskipped.keys, hother k hk]
      exact ⟨hin, hs, hw⟩
    have hsame : (listed.map fun k =>
          (((reconcileOne json d key).2.files k).deadLines (letters k)).length)
        = listed.map fun k => ((d.files k).deadLines (letters k)).length :=
      List.map_congr_left fun k hk => by rw [hother k hk]
    refine ⟨?_, hrest.keys.trans hskipped.keys, fun k => ?_⟩
    · simp only [reconcileFrom]
      rw [hcount, hsum, hsame, List.map_cons, List.sum_cons]
    · simp only [reconcileFrom]
      rw [hrest.files]
      by_cases hk : k ∈ listed
      · rw [if_pos hk, if_pos (List.mem_cons_of_mem _ hk), hother k hk]
      · rw [if_neg hk, hskipped.files]
        simp only [List.mem_cons, List.not_mem_nil, hk, or_false]

theorem sum_filter {keys : List WorkerKey} {size : WorkerKey → Nat} {p : WorkerKey → Bool}
    (h : ∀ key, p key = false → size key = 0) :
    ((keys.filter p).map size).sum = (keys.map size).sum := by
  induction keys with
  | nil => rfl
  | cons key keys ih =>
    cases hp : p key with
    | true => rw [List.filter_cons_of_pos hp, List.map_cons, List.sum_cons, List.map_cons,
        List.sum_cons, ih]
    | false => rw [List.filter_cons_of_neg (by rw [hp]; nofun), List.map_cons, List.sum_cons, ih,
        h key hp, Nat.zero_add]

theorem recoveryReconcileDead_spec (h : d.Written json letters) :
    (d.recoveryReconcileDead json).1
        = (d.keys.map fun key => ((d.files key).deadLines (letters key)).length).sum
      ∧ (d.recoveryReconcileDead json).2.keys = d.keys
      ∧ ∀ key, (d.recoveryReconcileDead json).2.files key
          = (d.files key).skip ((d.files key).deadLines (letters key)) := by
  have hlist : ∀ key ∈ d.allWorkerKeys, key ∈ d.keys ∧ isSafeSessionId key = true
      ∧ (d.files key).Readable json (letters key) := by
    intro key hkey
    have hin := (List.mem_filter.1 hkey).1
    obtain ⟨last, hwritten⟩ := h.written key hin
    exact ⟨hin, h.safe key hin, hwritten.readable⟩
  have hnodup : d.allWorkerKeys.Nodup := h.nodup.filter _
  obtain ⟨hcount, hskipped⟩ := reconcileFrom_spec hnodup hlist
  refine ⟨hcount.trans (sum_filter fun key hkey => ?_), hskipped.keys, fun key => ?_⟩
  · rw [Bool.or_eq_false_iff, decide_eq_false_iff_not, not_not] at hkey
    rw [deadLines_of_log_missing hkey.1, List.length_nil]
  · rw [recoveryReconcileDead, hskipped.files]
    split
    · rfl
    · rename_i hkey
      -- a key that is not listed has no log
      have hlog : (d.files key).log = .missing := by
        by_cases hin : key ∈ d.keys
        · have hnot : ((d.files key).log ≠ .missing || (d.files key).dead ≠ .missing) ≠ true :=
            fun hp => hkey (List.mem_filter.2 ⟨hin, hp⟩)
          simp only [ne_eq, Bool.or_eq_true, decide_eq_true_eq, not_or, not_not] at hnot
          exact hnot.1
        · rw [d.complete key hin]
          rfl
      rw [deadLines_of_log_missing hlog]
      rfl

theorem Written.reconcile (h : d.Written json letters) :
    (d.recoveryReconcileDead json).2.Written json letters := by
  obtain ⟨-, hkeys, hfiles⟩ := recoveryReconcileDead_spec h
  refine ⟨hkeys ▸ h.nodup, fun key hkey => h.safe key (hkeys ▸ hkey), fun key hkey => ?_⟩
  obtain ⟨last, hwritten⟩ := h.written key (hkeys ▸ hkey)
  rw [hfiles]
  exact ⟨last, hwritten.skip _⟩

end Pass

/-- The pass counts the leading dead lines of all keys, moves the offset of every key over its
own, and leaves all other files as they are; a second pass counts nothing and changes nothing. -/
theorem reconcile_skips_dead_prefix (json : JsonLoads) (d : Directory)
    (letters : WorkerKey → List Letter) (h : d.Written json letters) :
    (d.recoveryReconcileDead json).1
        = (d.keys.map fun key => ((d.files key).deadLines (letters key)).length).sum
      ∧ (d.recoveryReconcileDead json).2.keys = d.keys
      ∧ (∀ key, ((d.recoveryReconcileDead json).2.files key).log = (d.files key).log
          ∧ ((d.recoveryReconcileDead json).2.files key).dead = (d.files key).dead
          ∧ ((d.recoveryReconcileDead json).2.files key).offset
              = if (d.files key).deadLines (letters key) = [] then (d.files key).offset
                else .value (endOf (d.files key).committed
                  ((d.files key).deadLines (letters key)) : Nat))
      ∧ ((d.recoveryReconcileDead json).2.recoveryReconcileDead json).1 = 0
      ∧ ((d.recoveryReconcileDead json).2.recoveryReconcileDead json).2.keys = d.keys
      ∧ ∀ key, ((d.recoveryReconcileDead json).2.recoveryReconcileDead json).2.files key
          = (d.recoveryReconcileDead json).2.files key := by
  obtain ⟨hcount, hkeys, hfiles⟩ := recoveryReconcileDead_spec h
  obtain ⟨hagain, hkeysAgain, hfile⟩ := recoveryReconcileDead_spec h.reconcile
  have hnone : ∀ key,
      ((d.recoveryReconcileDead json).2.files key).deadLines (letters key) = [] := by
    intro key
    rw [hfiles]
    exact KeyFiles.deadLines_skip _ _
  refine ⟨hcount, hkeys, fun key => ?_, ?_, hkeysAgain.trans hkeys, fun key => ?_⟩
  · rw [hfiles, KeyFiles.skip]
    split
    · exact ⟨rfl, rfl, rfl⟩
    · exact ⟨rfl, rfl, rfl⟩
  · rw [hagain]
    simp only [hnone, List.length_nil]
    exact List.sum_eq_zero fun n hn => by
      obtain ⟨key, -, rfl⟩ := List.mem_map.1 hn
      rfl
  · rw [hfile, hnone]
    rfl

/-- A dead letter for the line `a`. -/
def sampleLetter : Letter where
  ts := ⟨49, [], 48, [], by decide, by decide, by decide, by decide, by decide⟩
  error := []
  raw := [97, newline]
  error_valid := nofun

/-- One key `s` with two pending lines and a given dead-letter file. -/
def crashedDirectory (dead : Artifact) : Directory where
  keys := [[115]]
  files := fun key =>
    if key = [115] then ⟨.bytes [97, newline, 98, newline], .value 0, dead⟩ else KeyFiles.absent
  maxSeek := 2 ^ 40
  complete := by
    intro key hkey
    rw [List.mem_singleton] at hkey
    rw [if_neg hkey]
  fits := by
    intro key bytes hbytes
    split at hbytes
    · cases hbytes
      decide
    · cases hbytes

/-- A `json.loads` that reads flat objects only. -/
def flatJson : JsonLoads := ⟨Lib.JsonText.scanFlat, id⟩

/-- The first characters of the letter, which a crash left in the file. -/
def tornLetter : Text := (dumps sampleLetter.members).take 8

/-- A letter, and behind it one that the crash cut short: the line `a` is skipped. -/
theorem crashedDirectory_reconciled :
    ∃ dead, ((crashedDirectory dead).recoveryReconcileDead flatJson).1 = 1
      ∧ (((crashedDirectory dead).recoveryReconcileDead flatJson).2.files [115]).offset
          = .value 2 := by
  let dead := deadFile [dumps sampleLetter.members] tornLetter
  have hlog : (KeyFiles.absent.appendLog [97, newline, 98, newline]).Written flatJson [] [] :=
    .append _ .absent
  have hletter := (hlog.commit 0).deadLetter sampleLetter (deadLetter_missing sampleLetter rfl)
  have htorn := hletter.torn sampleLetter 8 rfl (by decide)
  have hwritten : (crashedDirectory (.bytes dead)).Written flatJson fun _ => [sampleLetter] := by
    refine ⟨by decide, by decide, fun key hkey => ⟨tornLetter, ?_⟩⟩
    obtain rfl := List.mem_singleton.1 hkey
    exact htorn
  obtain ⟨hcount, -, hfiles, -⟩ := reconcile_skips_dead_prefix flatJson
    (crashedDirectory (.bytes dead))
    (fun _ => [sampleLetter]) hwritten
  exact ⟨_, hcount, (hfiles [115]).2.2⟩

/-- A letter that a crash cut short, and behind it on the same line a call for the line `a` that
comes to its end: the line is pending and dead-lettered, and the pass skips nothing. -/
theorem tornLetter_not_skipped :
    ∃ dead, deadLetter sampleLetter
          (((crashedDirectory .missing).files [115]).appendDead tornLetter)
        = .ok ((crashedDirectory dead).files [115])
      ∧ ((crashedDirectory dead).files [115]).deadLines [sampleLetter] ≠ []
      ∧ ((crashedDirectory dead).recoveryReconcileDead flatJson).1 = 0
      ∧ (((crashedDirectory dead).recoveryReconcileDead flatJson).2.files [115]).offset
          = .value 0 := by
  let line := tornLetter ++ dumps sampleLetter.members
  have hset : deadPayloadSet flatJson (.bytes (deadFile [line] [])) = .ok [] := by
    rw [deadPayloadSet_deadFile flatJson _ allPrintable_nil]
    · decide
    · intro l hl c hc
      rw [List.mem_singleton.1 hl] at hc
      rcases List.mem_append.1 hc with hc | hc
      · exact allPrintable_dumps _ c (List.mem_of_mem_take hc)
      · exact allPrintable_dumps _ c hc
  let d := crashedDirectory (.bytes (deadFile [line] []))
  have hkey : reconcileKey flatJson d.maxSeek (d.files [115]) = .ok (0, none) := by
    have hdead : (d.files [115]).dead = .bytes (deadFile [line] []) := rfl
    rw [reconcileKey, hdead, hset]
    rfl
  have hpass : d.recoveryReconcileDead flatJson = (0, d) := by
    have hkeys : d.allWorkerKeys = [[115]] := by decide
    rw [recoveryReconcileDead, hkeys, reconcileFrom, reconcileOne, if_pos (by decide), hkey]
    rfl
  refine ⟨.bytes (deadFile [line] []), rfl, by decide, ?_, ?_⟩
  · exact congrArg Prod.fst hpass
  · exact congrArg (fun r : Nat × Directory => (r.2.files [115]).offset) hpass

end Directory

end ContextIntelligence.Queue
