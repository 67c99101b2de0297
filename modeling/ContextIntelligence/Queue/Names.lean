import ContextIntelligence.Lib.Folding

/-!
# Worker keys

A worker key is the stem of the files of a session. It is a Python `str`, here the list of its
code points: a file name that is not valid UTF-8 decodes to lone surrogates. `fold_worker_key`
bounds a key so that every file name made from it fits.
-/

namespace ContextIntelligence.Queue

open Lib.Folding

abbrev WorkerKey := List Nat

def isSurrogate (c : Nat) : Bool := 0xD800 ≤ c && c ≤ 0xDFFF

/-- The control characters: below 32, 127, or of Unicode category `Cc`. -/
def isControl (c : Nat) : Bool := c < 32 || c == 127 || (128 ≤ c && c < 160)

/-- `_is_safe_session_component`: not empty, not `.` or `..`, without a path separator, encodable,
without control characters. -/
def isSafeSessionComponent (key : WorkerKey) : Bool :=
  key ≠ [] && key ≠ [46] && key ≠ [46, 46] && !key.contains 47 && !key.contains 92
    && key.all (fun c => !isSurrogate c) && !key.any isControl

def utf8Size (c : Nat) : Nat :=
  if c < 0x80 then 1 else if c < 0x800 then 2 else if c < 0x10000 then 3 else 4

def utf8Length (key : WorkerKey) : Nat := total utf8Size key

/-- `MAX_SESSION_ID_BYTES` and `_MAX_KEY_BYTES`: what the name of the temporary offset file leaves
of 255 bytes. -/
def maxKeyBytes : Nat := 255 - 44

/-- `is_safe_session_id`, which `_validate_session_id` asks for. -/
def isSafeSessionId (key : WorkerKey) : Bool :=
  isSafeSessionComponent key && utf8Length key ≤ maxKeyBytes

/-! ## Folding -/

/-- The first 16 characters of the hexadecimal sha256 of a key. -/
structure Digest where
  hex : WorkerKey → WorkerKey
  length : ∀ key, utf8Length (hex key) = 16

/-- The characters that `fold_name` replaces: the separators and the null character. -/
def cleanChar (c : Nat) : Nat := if c = 47 ∨ c = 92 ∨ c = 0 then 95 else c

/-- `fold_name`: a long value becomes `<prefix>~<digest>`. -/
def foldName (digest : Digest) (maxBytes : Nat) (value : WorkerKey) : WorkerKey :=
  fold utf8Size cleanChar (fun value => 126 :: digest.hex value) maxBytes value

/-- `fold_worker_key`. -/
def foldWorkerKey (digest : Digest) (key : WorkerKey) : WorkerKey := foldName digest maxKeyBytes key

def isOverlong (key : WorkerKey) : Bool := maxKeyBytes < utf8Length key

theorem utf8Size_cleanChar (c : Nat) : utf8Size (cleanChar c) = utf8Size c := by
  rw [cleanChar]
  split
  · rename_i h
    rcases h with rfl | rfl | rfl <;> rfl
  · rfl

/-- A folded key is never too long. -/
theorem isOverlong_foldWorkerKey (digest : Digest) (key : WorkerKey) :
    isOverlong (foldWorkerKey digest key) = false := by
  have hmark : ∀ value, total utf8Size (126 :: digest.hex value) ≤ maxKeyBytes := by
    intro value
    have hhex := digest.length value
    have hsep : utf8Size 126 = 1 := rfl
    simp only [utf8Length, total] at hhex
    simp only [total, List.map_cons, List.sum_cons, hsep, hhex]
    decide
  have hle := total_fold_le utf8Size_cleanChar hmark key
  rw [isOverlong, decide_eq_false_iff_not, Nat.not_lt]
  exact hle

end ContextIntelligence.Queue
