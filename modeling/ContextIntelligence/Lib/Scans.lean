import ContextIntelligence.Lib.Lines

/-!
# Chunked scans of a terminator-framed log

A long log is read in chunks of a fixed size. `searchBack` looks for the last terminator from the
end, `countChunks` counts terminators from the start, both with the number of letters left as fuel.
-/

namespace ContextIntelligence.Lib.Lines

universe u

variable {α : Type u}

/-! ## Cutting what is read into chunks -/

/-- How many letters the next read asks for: a whole chunk, or less when only `remaining` letters
are to be read. -/
def nextRead (chunk : Nat) : Option Nat → Nat
  | none => chunk
  | some remaining => min chunk remaining

def within (remaining : Option Nat) (rest : List α) : List α :=
  match remaining with
  | none => rest
  | some n => rest.take n

theorem within_eq_append (chunk : Nat) (remaining : Option Nat) (rest : List α) :
    within remaining rest
      = rest.take (nextRead chunk remaining)
        ++ within (remaining.map (· - (rest.take (nextRead chunk remaining)).length))
            (rest.drop (nextRead chunk remaining)) := by
  cases remaining with
  | none => exact (List.take_append_drop _ _).symm
  | some n =>
    simp only [within, nextRead, Option.map_some]
    generalize hm : min chunk n = m
    have hle : m ≤ n := by omega
    have hn : n = m + (n - m) := by omega
    conv_lhs => rw [hn, List.take_add]
    rcases Nat.le_total m rest.length with hlen | hlen
    · rw [List.length_take, Nat.min_eq_left hlen]
    · rw [List.drop_eq_nil_of_le hlen, List.take_nil, List.take_nil]

theorem within_eq_nil {chunk : Nat} (hchunk : 0 < chunk) {remaining : Option Nat} {rest : List α}
    (h : rest.take (nextRead chunk remaining) = []) : within remaining rest = [] := by
  rcases List.take_eq_nil_iff.1 h with hzero | hnil
  · cases remaining with
    | none => exact absurd hzero (Nat.ne_of_gt hchunk)
    | some n =>
      have hn : n = 0 := by
        simp only [nextRead] at hzero
        omega
      simp [within, hn]
  · subst hnil
    cases remaining <;> simp [within]

variable [DecidableEq α]

/-! ## Searching backward -/

def rfind (nl : α) : List α → Option Nat
  | [] => none
  | b :: bs =>
    match rfind nl bs with
    | some i => some (i + 1)
    | none => if b = nl then some 0 else none

theorem completeEnd_eq_rfind (nl : α) (pos : Nat) (acc xs : List α) :
    completeEnd nl pos acc xs
      = match rfind nl xs with
        | some i => pos + acc.length + i + 1
        | none => pos := by
  induction xs generalizing pos acc with
  | nil => rfl
  | cons b bs ih =>
    simp only [completeEnd, rfind]
    by_cases hb : b = nl
    · rw [if_pos hb, ih]
      cases rfind nl bs with
      | none => simp [hb]
      | some i =>
        simp only [List.length_nil]
        omega
    · rw [if_neg hb, ih]
      cases rfind nl bs with
      | none => simp [hb]
      | some i =>
        simp only [List.length_append, List.length_singleton]
        omega

/-- Read the chunk below `pos`; stop behind its last terminator, or go on with the chunk below. -/
def searchBack (nl : α) (chunk : Nat) (log : List α) : Nat → Nat → Nat
  | 0, _ => 0
  | fuel + 1, pos =>
    if pos = 0 then 0
    else
      let size := min chunk pos
      match rfind nl ((log.drop (pos - size)).take size) with
      | some i => pos - size + i + 1
      | none => searchBack nl chunk log fuel (pos - size)

/-- The backward search finds the last newline. -/
theorem searchBack_eq (nl : α) {chunk : Nat} (hchunk : 0 < chunk) (log : List α) {fuel pos : Nat}
    (hfuel : pos ≤ fuel) (hpos : pos ≤ log.length) :
    searchBack nl chunk log fuel pos = completeEnd nl 0 [] (log.take pos) := by
  induction fuel generalizing pos with
  | zero =>
    obtain rfl : pos = 0 := by omega
    rfl
  | succ fuel ih =>
    rw [searchBack]
    split
    · rename_i hzero
      rw [hzero]
      rfl
    · rename_i hne
      have hsize : 0 < min chunk pos := by omega
      have hle : min chunk pos ≤ pos := Nat.min_le_right ..
      generalize min chunk pos = size at hsize hle ⊢
      have hbelow : pos - size + size = pos := by omega
      -- what lies below the position is what lies below the chunk, and the chunk
      have hsplit : log.take pos
          = log.take (pos - size) ++ (log.drop (pos - size)).take size := by
        rw [← List.take_add, hbelow]
      have hstart : completeEnd nl 0 [] (log.take (pos - size))
          + (torn nl [] (log.take (pos - size))).length = pos - size := by
        rw [completeEnd_add_torn_length, List.length_take]
        simp only [List.length_nil]
        omega
      rw [hsplit, completeEnd_append, completeEnd_eq_rfind]
      cases hfound : rfind nl ((log.drop (pos - size)).take size) with
      | none =>
        simp only [hfound]
        exact ih (by omega) (by omega)
      | some i => simp only [hfound, hstart]

/-! ## Counting in chunks -/

/-- Read chunk after chunk, at most `remaining` letters, and add up the terminators in them. -/
def countChunks (nl : α) (chunk : Nat) : Nat → Option Nat → List α → Nat
  | 0, _, _ => 0
  | fuel + 1, remaining, rest =>
    let buf := rest.take (nextRead chunk remaining)
    if buf = [] then 0
    else buf.count nl
      + countChunks nl chunk fuel (remaining.map (· - buf.length))
          (rest.drop (nextRead chunk remaining))

theorem countChunks_eq (nl : α) {chunk : Nat} (hchunk : 0 < chunk) {fuel : Nat}
    {remaining : Option Nat} {rest : List α} (hfuel : rest.length < fuel) :
    countChunks nl chunk fuel remaining rest = (within remaining rest).count nl := by
  induction fuel generalizing remaining rest with
  | zero => omega
  | succ fuel ih =>
    simp only [countChunks]
    split
    · rename_i hnil
      rw [within_eq_nil hchunk hnil]
      rfl
    · rename_i hne
      have hpos : 0 < nextRead chunk remaining ∧ rest ≠ [] := by
        constructor
        · apply Nat.pos_of_ne_zero
          intro hzero
          exact hne (by rw [hzero, List.take_zero])
        · intro hnil
          exact hne (by rw [hnil, List.take_nil])
      have hrest := List.length_pos_of_ne_nil hpos.2
      have hshort : (rest.drop (nextRead chunk remaining)).length < fuel := by
        rw [List.length_drop]
        omega
      rw [ih hshort]
      conv_rhs => rw [within_eq_append chunk, List.count_append]

end ContextIntelligence.Lib.Lines
