import Mathlib

/-!
# Terminator-framed logs

In a log one letter, the terminator, closes a record; what follows the last one is torn. `scan`
reads every complete record with its position, `readRecords` at most a given number of them, and
`Boundary` says that a position is the start of the log or follows a terminator.
-/

namespace ContextIntelligence.Lib.Lines

universe u

variable {α : Type u}

/-! ## Records and boundaries -/

/-- One complete record: its letters without the terminator, the position of its first letter
and the position after its terminator. -/
structure Record (α : Type u) where
  raw : List α
  start : Nat
  stop : Nat
  deriving DecidableEq, Repr

/-- A position at which a record may start: the start of the log, or right after a
terminator. -/
def Boundary (nl : α) (log : List α) (p : Nat) : Prop :=
  p = 0 ∨ ∃ xs ys, log = xs ++ nl :: ys ∧ p = xs.length + 1

variable {nl : α} {r : Record α}

theorem boundary_zero (nl : α) (log : List α) : Boundary nl log 0 := Or.inl rfl

theorem Boundary.append {log : List α} {p : Nat} (h : Boundary nl log p)
    (more : List α) : Boundary nl (log ++ more) p := by
  rcases h with h | ⟨xs, ys, rfl, hp⟩
  · exact .inl h
  · exact .inr ⟨xs, ys ++ more, by simp, hp⟩

variable {log : List α} {p : Nat}

theorem Boundary.le_length (h : Boundary nl log p) : p ≤ log.length := by
  rcases h with rfl | ⟨xs, ys, rfl, rfl⟩
  · exact Nat.zero_le _
  · simp only [List.length_append, List.length_cons]
    omega

/-! ## Reading -/

variable [DecidableEq α]

/-- All complete records of a list whose first letter stands at `pos`, when the letters `acc`
of an unfinished record were read before it. -/
def scan (nl : α) : Nat → List α → List α → List (Record α)
  | _, _, [] => []
  | pos, acc, b :: bs =>
    if b = nl then
      ⟨acc, pos, pos + acc.length + 1⟩ :: scan nl (pos + acc.length + 1) [] bs
    else scan nl pos (acc ++ [b]) bs

def torn (nl : α) : List α → List α → List α
  | acc, [] => acc
  | acc, b :: bs => if b = nl then torn nl [] bs else torn nl (acc ++ [b]) bs

def completeEnd (nl : α) : Nat → List α → List α → Nat
  | pos, _, [] => pos
  | pos, acc, b :: bs =>
    if b = nl then completeEnd nl (pos + acc.length + 1) [] bs
    else completeEnd nl pos (acc ++ [b]) bs

def records (nl : α) (log : List α) : List (Record α) := scan nl 0 [] log

theorem scan_append (nl : α) (pos : Nat) (acc xs ys : List α) :
    scan nl pos acc (xs ++ ys)
      = scan nl pos acc xs ++ scan nl (completeEnd nl pos acc xs) (torn nl acc xs) ys := by
  induction xs generalizing pos acc with
  | nil => rfl
  | cons b bs ih =>
    simp only [List.cons_append, scan, completeEnd, torn]
    split
    · rw [ih, List.cons_append]
    · exact ih pos (acc ++ [b])

theorem torn_append (nl : α) (acc xs ys : List α) :
    torn nl acc (xs ++ ys) = torn nl (torn nl acc xs) ys := by
  induction xs generalizing acc with
  | nil => rfl
  | cons b bs ih =>
    simp only [List.cons_append, torn]
    split
    · exact ih []
    · exact ih (acc ++ [b])

theorem completeEnd_append (nl : α) (pos : Nat) (acc xs ys : List α) :
    completeEnd nl pos acc (xs ++ ys)
      = completeEnd nl (completeEnd nl pos acc xs) (torn nl acc xs) ys := by
  induction xs generalizing pos acc with
  | nil => rfl
  | cons b bs ih =>
    simp only [List.cons_append, completeEnd, torn]
    split
    · exact ih _ []
    · exact ih pos (acc ++ [b])

variable {acc xs : List α}

theorem completeEnd_of_scan_eq_nil {pos : Nat}
    (h : scan nl pos acc xs = []) : completeEnd nl pos acc xs = pos := by
  induction xs generalizing acc with
  | nil => rfl
  | cons b bs ih =>
    simp only [scan] at h
    simp only [completeEnd]
    split at h
    · cases h
    · rename_i hb
      rw [if_neg hb]
      exact ih h

theorem completeEnd_add_torn_length (nl : α) (pos : Nat) (acc xs : List α) :
    completeEnd nl pos acc xs + (torn nl acc xs).length = pos + acc.length + xs.length := by
  induction xs generalizing pos acc with
  | nil => rfl
  | cons b bs ih =>
    simp only [completeEnd, torn]
    split
    · rw [ih]
      simp only [List.length_nil, List.length_cons]
      omega
    · rw [ih]
      simp only [List.length_append, List.length_cons, List.length_nil]
      omega

theorem le_completeEnd (nl : α) (pos : Nat) (acc xs : List α) :
    pos ≤ completeEnd nl pos acc xs := by
  induction xs generalizing pos acc with
  | nil => exact Nat.le_refl _
  | cons b bs ih =>
    simp only [completeEnd]
    split
    · exact Nat.le_trans (by omega) (ih (pos + acc.length + 1) [])
    · exact ih pos (acc ++ [b])

theorem torn_concat_terminator (nl : α) (acc xs : List α) : torn nl acc (xs ++ [nl]) = [] := by
  rw [torn_append]
  simp [torn]

theorem torn_suffix (nl : α) (acc xs : List α) : torn nl acc xs <:+ acc ++ xs := by
  induction xs generalizing acc with
  | nil =>
    rw [List.append_nil]
    exact List.suffix_refl acc
  | cons b bs ih =>
    simp only [torn]
    split
    · have hsuffix : bs <:+ acc ++ b :: bs := ⟨acc ++ [b], by simp⟩
      exact (ih []).trans hsuffix
    · have hrest := ih (acc ++ [b])
      rwa [List.append_assoc, List.singleton_append] at hrest

theorem drop_completeEnd (nl : α) (log : List α) :
    log.drop (completeEnd nl 0 [] log) = torn nl [] log := by
  have hlen := completeEnd_add_torn_length nl 0 [] log
  simp only [List.length_nil, Nat.zero_add] at hlen
  obtain ⟨front, hfront⟩ := torn_suffix nl [] log
  rw [List.nil_append] at hfront
  have hfrontLen : front.length = completeEnd nl 0 [] log := by
    have htotal := congrArg List.length hfront
    rw [List.length_append] at htotal
    omega
  rw [← hfrontLen]
  conv_lhs => rw [← hfront]
  exact List.drop_left

variable {line : List α}

theorem scan_of_not_mem (h : nl ∉ line) (pos : Nat) (acc : List α) : scan nl pos acc line = [] := by
  induction line generalizing acc with
  | nil => rfl
  | cons b bs ih =>
    obtain ⟨hb, hbs⟩ := List.ne_and_not_mem_of_not_mem_cons h
    rw [scan, if_neg (Ne.symm hb), ih hbs]

theorem torn_of_not_mem (h : nl ∉ line) (acc : List α) : torn nl acc line = acc ++ line := by
  induction line generalizing acc with
  | nil => rw [List.append_nil, torn]
  | cons b bs ih =>
    obtain ⟨hb, hbs⟩ := List.ne_and_not_mem_of_not_mem_cons h
    rw [torn, if_neg (Ne.symm hb), ih hbs, List.append_assoc, List.singleton_append]

theorem scan_concat (h : nl ∉ line) (pos : Nat) (acc : List α) :
    scan nl pos acc (line ++ [nl])
      = [⟨acc ++ line, pos, pos + (acc ++ line).length + 1⟩] := by
  induction line generalizing acc with
  | nil => simp [scan]
  | cons b bs ih =>
    obtain ⟨hb, hbs⟩ := List.ne_and_not_mem_of_not_mem_cons h
    rw [List.cons_append, scan, if_neg (Ne.symm hb), ih hbs]
    simp

theorem scan_concat_terminator (h : nl ∉ line) (pos : Nat) :
    scan nl pos [] (line ++ [nl]) = [⟨line, pos, pos + line.length + 1⟩] :=
  scan_concat h pos []

/-! ## Counting terminators -/

theorem length_scan (nl : α) (pos : Nat) (acc xs : List α) :
    (scan nl pos acc xs).length = xs.count nl := by
  induction xs generalizing pos acc with
  | nil => rfl
  | cons b bs ih =>
    simp only [scan]
    split
    · rename_i hb
      rw [List.length_cons, ih, hb, List.count_cons_self]
    · rename_i hb
      rw [ih, List.count_cons_of_ne (by simpa using hb)]

theorem count_torn {acc : List α} (hacc : nl ∉ acc) (xs : List α) :
    (torn nl acc xs).count nl = 0 := by
  induction xs generalizing acc with
  | nil => exact List.count_eq_zero.2 hacc
  | cons b bs ih =>
    simp only [torn]
    split
    · exact ih (by simp)
    · rename_i hb
      exact ih (by simpa [hacc] using fun h => hb h.symm)

theorem count_to_completeEnd (nl : α) (log : List α) (p : Nat) :
    ((log.take (completeEnd nl 0 [] log)).drop p).count nl = (log.drop p).count nl := by
  have hsplit : (log.drop p).count nl
      = ((log.drop p).take (completeEnd nl 0 [] log - p)).count nl
        + ((log.drop p).drop (completeEnd nl 0 [] log - p)).count nl := by
    rw [← List.count_append, List.take_append_drop]
  have htorn : ((log.drop p).drop (completeEnd nl 0 [] log - p)).count nl = 0 := by
    have hnone := count_torn (by simp : nl ∉ ([] : List α)) log
    rw [← drop_completeEnd, List.count_eq_zero] at hnone
    rw [List.drop_drop, List.count_eq_zero]
    -- what lies above both positions lies above the end of the complete part
    intro hmem
    apply hnone
    have hle : completeEnd nl 0 [] log ≤ p + (completeEnd nl 0 [] log - p) := by
      omega
    obtain ⟨d, hd⟩ := Nat.exists_eq_add_of_le hle
    rw [hd, ← List.drop_drop] at hmem
    exact List.mem_of_mem_drop hmem
  rw [List.drop_take, hsplit, htorn, Nat.add_zero]

/-! ## Where records lie -/

/-- A record read from `pos` starts at or after it and ends no later than the complete part. -/
theorem mem_scan_bounds (nl : α) {pos : Nat} (hr : r ∈ scan nl pos acc xs) :
    pos ≤ r.start ∧ r.start < r.stop ∧ r.stop ≤ completeEnd nl pos acc xs := by
  induction xs generalizing pos acc with
  | nil => cases hr
  | cons b bs ih =>
    simp only [scan] at hr
    simp only [completeEnd]
    split at hr
    · rename_i hb
      rw [if_pos hb]
      rcases List.mem_cons.1 hr with rfl | hr
      · exact ⟨Nat.le_refl _, by simp only; omega, le_completeEnd nl _ _ _⟩
      · obtain ⟨h1, h2, h3⟩ := ih hr
        exact ⟨by omega, h2, h3⟩
    · rename_i hb
      rw [if_neg hb]
      exact ih hr

/-! ## Reading from a boundary -/

theorem Boundary.take {log : List α} {p : Nat} (h : Boundary nl log p) :
    torn nl [] (log.take p) = [] ∧ completeEnd nl 0 [] (log.take p) = p := by
  have htorn : torn nl [] (log.take p) = [] := by
    rcases h with rfl | ⟨xs, ys, rfl, rfl⟩
    · rfl
    · have htake : (xs ++ nl :: ys).take (xs.length + 1) = xs ++ [nl] := by
        simp [List.take_append, List.take_of_length_le]
      rw [htake]
      exact torn_concat_terminator nl [] xs
  refine ⟨htorn, ?_⟩
  have hlen := completeEnd_add_torn_length nl 0 [] (log.take p)
  rw [htorn, List.length_take, Nat.min_eq_left h.le_length] at hlen
  simpa using hlen

theorem records_eq_below_append (h : Boundary nl log p) :
    records nl log = records nl (log.take p) ++ scan nl p [] (log.drop p) := by
  obtain ⟨htorn, hend⟩ := h.take
  have hsplit := scan_append nl 0 [] (log.take p) (log.drop p)
  rwa [List.take_append_drop, htorn, hend] at hsplit

theorem mem_records_take_iff (h : Boundary nl log p) (hr : r ∈ records nl log) :
    r ∈ records nl (log.take p) ↔ r.stop ≤ p := by
  constructor
  · intro hbelow
    have hb := (mem_scan_bounds nl hbelow).2.2
    rwa [h.take.2] at hb
  · intro hle
    rw [records_eq_below_append h, List.mem_append] at hr
    rcases hr with hr | hr
    · exact hr
    · obtain ⟨h1, h2, _⟩ := mem_scan_bounds nl hr
      omega

theorem mem_records_of_append {log more : List α}
    (h : Boundary nl log p) (hr : r ∈ records nl (log ++ more)) (hle : r.stop ≤ p) :
    r ∈ records nl log := by
  have hr' := (mem_records_take_iff (h.append more) hr).2 hle
  rw [List.take_append_of_le_length h.le_length] at hr'
  rw [records_eq_below_append h]
  exact List.mem_append_left _ hr'

/-- A record ends at a boundary, and starts at one if the first of them does. -/
theorem boundary_of_mem_scan {pre xs : List α} {acc : List α} (hr : r ∈ scan nl pre.length acc xs) :
    Boundary nl (pre ++ acc ++ xs) r.stop
      ∧ (Boundary nl (pre ++ acc ++ xs) pre.length → Boundary nl (pre ++ acc ++ xs) r.start) := by
  induction xs generalizing pre acc with
  | nil => cases hr
  | cons b bs ih =>
    simp only [scan] at hr
    split at hr
    · rename_i hb
      subst hb
      rcases List.mem_cons.1 hr with rfl | hr
      · exact ⟨.inr ⟨pre ++ acc, bs, rfl, by simp⟩, id⟩
      · have hlen : pre.length + acc.length + 1 = (pre ++ acc ++ [b]).length := by
          simp [Nat.add_assoc]
        rw [hlen] at hr
        have hnext : Boundary b (pre ++ acc ++ [b] ++ [] ++ bs) (pre ++ acc ++ [b]).length :=
          Or.inr ⟨pre ++ acc, bs, by simp, by simp [Nat.add_assoc]⟩
        obtain ⟨hstop, hstart⟩ := ih hr
        exact ⟨by simpa using hstop, fun _ => by simpa using hstart hnext⟩
    · obtain ⟨hstop, hstart⟩ := ih hr
      exact ⟨by simpa using hstop, fun hpre => by simpa using hstart (by simpa using hpre)⟩

theorem boundary_of_mem_scan_drop
    (hp : p ≤ log.length) (hr : r ∈ scan nl p [] (log.drop p)) : Boundary nl log r.stop := by
  have hlen : (log.take p).length = p := by
    rw [List.length_take, Nat.min_eq_left hp]
  have hr' : r ∈ scan nl (log.take p).length [] (log.drop p) := by
    rwa [hlen]
  have hb := (boundary_of_mem_scan hr').1
  rwa [List.append_nil, List.take_append_drop] at hb

theorem boundary_start_of_mem_records (hr : r ∈ records nl log) : Boundary nl log r.start :=
  (@boundary_of_mem_scan _ nl r _ [] log [] hr).2 (boundary_zero nl log)

/-! ## Consuming records -/

def recordsFrom (nl : α) (log : List α) (p : Nat) : List (Record α) := scan nl p [] (log.drop p)

/-- The end of the last of some records read from `p`. -/
def endOf (p : Nat) : List (Record α) → Nat
  | [] => p
  | r :: rs => endOf r.stop rs

theorem scan_eq_cons {pos : Nat} {rs : List (Record α)} (h : scan nl pos acc xs = r :: rs) :
    r.start = pos ∧ pos + acc.length < r.stop
      ∧ scan nl r.stop [] (xs.drop (r.stop - (pos + acc.length))) = rs := by
  induction xs generalizing acc with
  | nil => cases h
  | cons b bs ih =>
    simp only [scan] at h
    split at h
    · obtain ⟨rfl, rfl⟩ := List.cons.inj h
      refine ⟨rfl, Nat.lt_succ_self _, ?_⟩
      have hone : pos + acc.length + 1 - (pos + acc.length) = 1 := by omega
      simp only [hone, List.drop_one, List.tail_cons]
    · obtain ⟨hstart, hlt, hrest⟩ := ih h
      rw [List.length_append, List.length_singleton] at hlt hrest
      have hdrop : r.stop - (pos + acc.length) = r.stop - (pos + (acc.length + 1)) + 1 := by
        omega
      refine ⟨hstart, by omega, ?_⟩
      rwa [hdrop, List.drop_succ_cons]

theorem recordsFrom_eq_cons {rs : List (Record α)} (h : recordsFrom nl log p = r :: rs) :
    r.start = p ∧ p < r.stop ∧ recordsFrom nl log r.stop = rs := by
  obtain ⟨hstart, hlt, hrest⟩ := scan_eq_cons h
  simp only [List.length_nil, Nat.add_zero] at hlt hrest
  refine ⟨hstart, hlt, ?_⟩
  rw [List.drop_drop, show p + (r.stop - p) = r.stop from by omega] at hrest
  exact hrest

variable {pre post : List (Record α)}

theorem recordsFrom_endOf (h : recordsFrom nl log p = pre ++ post) :
    recordsFrom nl log (endOf p pre) = post := by
  induction pre generalizing p with
  | nil => exact h
  | cons r rs ih => exact ih (recordsFrom_eq_cons h).2.2

theorem records_eq_append_recordsFrom (h : Boundary nl log p) :
    records nl log = records nl (log.take p) ++ recordsFrom nl log p :=
  records_eq_below_append h

theorem lt_stop_of_mem_recordsFrom (hr : r ∈ recordsFrom nl log p) : p ≤ r.start ∧ p < r.stop := by
  obtain ⟨h1, h2, _⟩ := mem_scan_bounds nl hr
  exact ⟨h1, by omega⟩

section

variable (hp : Boundary nl log p)
include hp

theorem stop_le_of_start_lt (hr : r ∈ records nl log) (hlt : r.start < p) : r.stop ≤ p := by
  have hsplit := hr
  rw [records_eq_append_recordsFrom hp, List.mem_append] at hsplit
  rcases hsplit with hbelow | habove
  · exact (mem_records_take_iff hp hr).1 hbelow
  · have hle := (lt_stop_of_mem_recordsFrom habove).1
    omega

theorem boundary_endOf (h : recordsFrom nl log p = pre ++ post) :
    Boundary nl log (endOf p pre) := by
  induction pre generalizing p with
  | nil => exact hp
  | cons r rs ih =>
    have hmem : r ∈ recordsFrom nl log p := by
      rw [h]
      exact List.mem_cons_self ..
    exact ih (boundary_of_mem_scan_drop hp.le_length hmem) (recordsFrom_eq_cons h).2.2

omit hp in
theorem recordsFrom_append (more : List α) :
    recordsFrom nl log p <+: recordsFrom nl (log ++ more) p := by
  simp only [recordsFrom, List.drop_append, scan_append]
  exact List.prefix_append _ _

theorem recordsFrom_append_eq (more : List α) : recordsFrom nl (log ++ more) p
      = recordsFrom nl log p ++ scan nl (completeEnd nl 0 [] log) (torn nl [] log) more := by
  obtain ⟨htorn, hend⟩ := hp.take
  -- what is torn above the boundary is what is torn at all
  have hrest : torn nl [] (log.drop p) = torn nl [] log := by
    have happ := torn_append nl [] (log.take p) (log.drop p)
    rwa [List.take_append_drop, htorn, eq_comm] at happ
  have hstop : completeEnd nl p [] (log.drop p) = completeEnd nl 0 [] log := by
    have happ := completeEnd_append nl 0 [] (log.take p) (log.drop p)
    rwa [List.take_append_drop, htorn, hend, eq_comm] at happ
  unfold recordsFrom
  rw [List.drop_append_of_le_length hp.le_length, scan_append, hrest, hstop]

theorem recordsFrom_append_of_whole (hwhole : torn nl [] log = []) (more : List α) :
    recordsFrom nl (log ++ more) p = recordsFrom nl log p ++ scan nl log.length [] more := by
  have hlength : completeEnd nl 0 [] log = log.length := by
    have hlen := completeEnd_add_torn_length nl 0 [] log
    rw [hwhole] at hlen
    simpa using hlen
  rw [recordsFrom_append_eq hp, hwhole, hlength]

theorem mem_recordsFrom_iff : r ∈ recordsFrom nl log p ↔ r ∈ records nl log ∧ p < r.stop := by
  constructor
  · intro hr
    refine ⟨?_, (lt_stop_of_mem_recordsFrom hr).2⟩
    rw [records_eq_append_recordsFrom hp]
    exact List.mem_append_right _ hr
  · rintro ⟨hr, hlt⟩
    have hsplit := hr
    rw [records_eq_append_recordsFrom hp, List.mem_append] at hsplit
    refine hsplit.resolve_left fun hbelow => ?_
    have hle := (mem_records_take_iff hp hr).1 hbelow
    omega

theorem eq_completeEnd_of_recordsFrom_eq_nil (h : recordsFrom nl log p = []) :
    p = completeEnd nl 0 [] log := by
  obtain ⟨htorn, hend⟩ := hp.take
  have happ := completeEnd_append nl 0 [] (log.take p) (log.drop p)
  rw [List.take_append_drop, htorn, hend, completeEnd_of_scan_eq_nil h] at happ
  exact happ.symm

theorem mem_records_below_endOf (h : recordsFrom nl log p = pre ++ post)
    (hr : r ∈ records nl log) (hle : r.stop ≤ endOf p pre) : r.stop ≤ p ∨ r ∈ pre := by
  rw [records_eq_append_recordsFrom hp, h, List.mem_append, List.mem_append] at hr
  rcases hr with hr | hr | hr
  · have hmem : r ∈ records nl log := by
      rw [records_eq_append_recordsFrom hp]
      exact List.mem_append_left _ hr
    exact .inl ((mem_records_take_iff hp hmem).1 hr)
  · exact .inr hr
  · rw [← recordsFrom_endOf h] at hr
    have hlt := (lt_stop_of_mem_recordsFrom hr).2
    omega

end

/-! ## The ranges of consumed records -/

/-- The records follow one another from a position on, each as long as its letters and its
terminator. -/
def Contiguous : Nat → List (Record α) → Prop
  | _, [] => True
  | p, r :: rs => r.start = p ∧ r.stop = p + r.raw.length + 1 ∧ Contiguous r.stop rs

def letters (nl : α) (rs : List (Record α)) : List α := rs.flatMap fun r => r.raw ++ [nl]

theorem endOf_append {β : Type u} (p : Nat) (pre post : List (Record β)) :
    endOf p (pre ++ post) = endOf (endOf p pre) post := by
  induction pre generalizing p with
  | nil => rfl
  | cons r rs ih => exact ih r.stop

theorem scan_eq_cons_split {pos : Nat} {rs : List (Record α)} (h : scan nl pos acc xs = r :: rs) :
    ∃ line rest, xs = line ++ nl :: rest ∧ r.raw = acc ++ line
      ∧ r.stop = pos + (acc ++ line).length + 1 := by
  induction xs generalizing acc with
  | nil => cases h
  | cons b bs ih =>
    simp only [scan] at h
    split at h
    · rename_i hb
      obtain ⟨rfl, rfl⟩ := List.cons.inj h
      exact ⟨[], bs, by rw [hb, List.nil_append], (List.append_nil acc).symm,
        by rw [List.append_nil]⟩
    · obtain ⟨line, rest, hbs, hraw, hstop⟩ := ih h
      exact ⟨b :: line, rest, by rw [hbs, List.cons_append], by simp [hraw], by simp [hstop]⟩

theorem contiguous_of_recordsFrom (h : recordsFrom nl log p = pre ++ post) :
    Contiguous p pre ∧ log.drop p = letters nl pre ++ log.drop (endOf p pre) := by
  induction pre generalizing p with
  | nil => exact ⟨trivial, rfl⟩
  | cons r rs ih =>
    obtain ⟨hstart, -, hrest⟩ := recordsFrom_eq_cons h
    obtain ⟨line, rest, hsplit, hraw, hstop⟩ := scan_eq_cons_split h
    rw [List.nil_append] at hraw hstop
    obtain ⟨hcont, hlets⟩ := ih hrest
    have hline : r.stop = p + (line.length + 1) := by omega
    have hdrop : log.drop r.stop = rest := by
      have hlen : line.length + 1 = (line ++ [nl]).length := by simp
      rw [hline, ← List.drop_drop, hsplit, List.append_cons, hlen, List.drop_left]
    refine ⟨⟨hstart, by rw [hraw]; exact hstop, hcont⟩, ?_⟩
    rw [hsplit, endOf, letters, List.flatMap_cons, hraw, List.append_assoc, ← letters, ← hlets,
      hdrop]
    simp

/-! ## The bounded reading loop -/

/-- One `readline`: the letters up to and including the first terminator, or all of them when
there is none, and what is left. -/
def readLine (nl : α) : List α → List α × List α
  | [] => ([], [])
  | b :: bs => if b = nl then ([b], bs) else ((b :: (readLine nl bs).1), (readLine nl bs).2)

/-- Read at most `max` records, stopping at the end of the input or at a torn record. -/
def readRecords (nl : α) : Nat → Nat → List α → List (Record α)
  | 0, _, _ => []
  | max + 1, pos, bs =>
    let line := (readLine nl bs).1
    if line.getLast? = some nl then
      ⟨line.dropLast, pos, pos + line.length⟩
        :: readRecords nl max (pos + line.length) (readLine nl bs).2
    else []

theorem scan_eq_readLine (nl : α) (pos : Nat) (acc bs : List α) :
    scan nl pos acc bs
      = if (readLine nl bs).1.getLast? = some nl then
          ⟨acc ++ (readLine nl bs).1.dropLast, pos, pos + acc.length + (readLine nl bs).1.length⟩
            :: scan nl (pos + acc.length + (readLine nl bs).1.length) [] (readLine nl bs).2
        else [] := by
  induction bs generalizing acc with
  | nil => simp [scan, readLine]
  | cons b bs ih =>
    by_cases hb : b = nl
    · simp [scan, readLine, hb]
    · simp only [scan, readLine, if_neg hb]
      rw [ih (acc ++ [b])]
      cases hline : (readLine nl bs).1 with
      | nil => simp [hb]
      | cons c cs =>
        have hlen : pos + (acc ++ [b]).length + (c :: cs).length
            = pos + acc.length + (b :: c :: cs).length := by
          simp only [List.length_append, List.length_cons, List.length_nil]
          omega
        rw [hlen]
        simp [List.getLast?_cons_cons]

theorem readRecords_eq_take (nl : α) (max pos : Nat) (bs : List α) :
    readRecords nl max pos bs = (scan nl pos [] bs).take max := by
  induction max generalizing pos bs with
  | zero => rfl
  | succ max ih =>
    rw [scan_eq_readLine nl pos [] bs]
    simp only [readRecords, List.nil_append, List.length_nil, Nat.add_zero]
    split
    · rw [ih, List.take_succ_cons]
    · rfl

end ContextIntelligence.Lib.Lines
