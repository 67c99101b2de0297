import ContextIntelligence.Lib.JsonText

/-!
# Texts in files

The strict UTF-8 codec between byte strings and texts, which may hold surrogates that it refuses;
the newline translation of a file that is read as text; and the line splitting of `str`, which
breaks at more characters than the newline.
-/

namespace ContextIntelligence.Lib.TextLines

open Lib.JsonText

/-! ## UTF-8 -/

def isScalar (c : Nat) : Bool := !isSurrogate c && decide (c < 0x110000)

/-- `text.encode("utf-8")`: a surrogate raises a `UnicodeEncodeError`. -/
def encodeUtf8 (t : Text) : Option (List UInt8) :=
  if t.all isScalar then some (t.flatMap fun c => String.utf8EncodeChar (Char.ofNat c)) else none

/-- `data.decode("utf-8")`. -/
def decodeUtf8 (bytes : List UInt8) : Option Text :=
  bytes.toByteArray.utf8Decode?.map fun chars => chars.toList.map Char.toNat

theorem isScalar_toNat (c : Char) : isScalar c.toNat = true := by
  have hvalid := c.valid
  simp only [UInt32.isValidChar, Nat.isValidChar] at hvalid
  have hval : c.toNat = c.val.toNat := rfl
  simp only [isScalar, isSurrogate, Bool.and_eq_true, Bool.not_eq_true', Bool.and_eq_false_iff,
    decide_eq_true_eq, decide_eq_false_iff_not]
  omega

theorem encodeUtf8_map_toNat (chars : List Char) :
    encodeUtf8 (chars.map Char.toNat) = some (chars.flatMap String.utf8EncodeChar) := by
  have hall : (chars.map Char.toNat).all isScalar = true := by
    rw [List.all_map, List.all_eq_true]
    exact fun c _ => isScalar_toNat c
  rw [encodeUtf8, if_pos hall, List.flatMap_map]
  simp only [Char.ofNat_toNat]

theorem decodeUtf8_flatMap (chars : List Char) :
    decodeUtf8 (chars.flatMap String.utf8EncodeChar) = some (chars.map Char.toNat) := by
  have hdec := List.utf8Decode?_utf8Encode (l := chars)
  rw [List.utf8Encode] at hdec
  rw [decodeUtf8, hdec]
  rfl

variable {t : Text}

theorem encodeUtf8_of_decodeUtf8 {bytes : List UInt8}
    (h : decodeUtf8 bytes = some t) : encodeUtf8 t = some bytes := by
  obtain ⟨chars, hchars, rfl⟩ := Option.map_eq_some_iff.1 h
  have hsome : bytes.toByteArray.utf8Decode?.isSome = true := by rw [hchars]; rfl
  have henc := ByteArray.utf8Encode_get_utf8Decode? (h := hsome)
  simp only [hchars, Option.get_some, List.utf8Encode] at henc
  rw [encodeUtf8_map_toNat]
  have hdata := congrArg (fun b : ByteArray => b.data.toList) henc
  simpa using hdata

theorem isName_of_decodeUtf8 {bytes : List UInt8} (h : decodeUtf8 bytes = some t) : IsName t := by
  obtain ⟨chars, -, rfl⟩ := Option.map_eq_some_iff.1 h
  intro c hc
  obtain ⟨char, -, rfl⟩ := List.mem_map.1 hc
  have hscalar := isScalar_toNat char
  simpa [isScalar] using hscalar

theorem toNat_ofNat_ascii : ∀ c < 128, (Char.ofNat c).toNat = c := by decide

theorem ascii_eq_flatMap (h : ∀ c ∈ t, c < 128) :
    t.map UInt8.ofNat = (t.map Char.ofNat).flatMap String.utf8EncodeChar
      ∧ (t.map Char.ofNat).map Char.toNat = t := by
  induction t with
  | nil => exact ⟨rfl, rfl⟩
  | cons c cs ih =>
    obtain ⟨hbytes, hchars⟩ := ih fun d hd => h d (List.mem_cons_of_mem _ hd)
    have hc := h c List.mem_cons_self
    have hval : (Char.ofNat c).toNat = c := toNat_ofNat_ascii c hc
    have hone : String.utf8EncodeChar (Char.ofNat c) = [UInt8.ofNat c] := by
      have hle : (Char.ofNat c).val.toNat ≤ 127 := by
        change (Char.ofNat c).toNat ≤ 127
        omega
      simp only [String.utf8EncodeChar, if_pos hle]
      change [UInt8.ofNat (Char.ofNat c).toNat] = _
      rw [hval]
    constructor
    · rw [List.map_cons, List.map_cons, List.flatMap_cons, hone, ← hbytes]
      rfl
    · rw [List.map_cons, List.map_cons, hval, hchars]

theorem encodeUtf8_ascii (h : ∀ c ∈ t, c < 128) : encodeUtf8 t = some (t.map UInt8.ofNat) := by
  obtain ⟨hbytes, hchars⟩ := ascii_eq_flatMap h
  have henc := encodeUtf8_map_toNat (t.map Char.ofNat)
  rwa [hchars, ← hbytes] at henc

theorem decodeUtf8_ascii (h : ∀ c ∈ t, c < 128) : decodeUtf8 (t.map UInt8.ofNat) = some t := by
  obtain ⟨hbytes, hchars⟩ := ascii_eq_flatMap h
  have hdec := decodeUtf8_flatMap (t.map Char.ofNat)
  rwa [hchars, ← hbytes] at hdec

/-! ## Lines -/

/-- What a file opened as text without a `newline` argument makes of its line ends. -/
def universalNewlines : Text → Text
  | [] => []
  | 13 :: 10 :: rest => 10 :: universalNewlines rest
  | 13 :: rest => 10 :: universalNewlines rest
  | c :: rest => c :: universalNewlines rest

/-- The characters at which `str.splitlines` breaks. -/
def lineBreaks : List Nat := [10, 11, 12, 13, 28, 29, 30, 0x85, 0x2028, 0x2029]

/-- The lines of a text behind the characters `acc` of the current one. -/
def splitFrom (acc : Text) : Text → List Text
  | [] => if acc = [] then [] else [acc]
  | 13 :: 10 :: rest => acc :: splitFrom [] rest
  | c :: rest => if c ∈ lineBreaks then acc :: splitFrom [] rest else splitFrom (acc ++ [c]) rest

/-- `str.splitlines`. -/
def splitlines (t : Text) : List Text := splitFrom [] t

/-- The characters that `str.strip` removes. -/
def isWhite (c : Nat) : Bool :=
  (9 ≤ c && c ≤ 13) || (28 ≤ c && c ≤ 32) || c == 0x85 || c == 0xA0 || c == 0x1680
    || (0x2000 ≤ c && c ≤ 0x200A) || c == 0x2028 || c == 0x2029 || c == 0x202F || c == 0x205F
    || c == 0x3000

def isBlank (t : Text) : Bool := t.all isWhite

theorem universalNewlines_eq (h : 13 ∉ t) : universalNewlines t = t := by
  induction t using universalNewlines.induct with
  | case1 => rfl
  | case2 rest ih => exact absurd List.mem_cons_self h
  | case3 rest hrest ih => exact absurd List.mem_cons_self h
  | case4 c rest hcrlf hcr ih =>
    have hrest : 13 ∉ rest := fun hmem => h (List.mem_cons_of_mem _ hmem)
    rw [universalNewlines, ih hrest]
    · exact hcrlf
    · exact hcr

theorem not_lineBreak_of_printable {c : Nat} (h : IsPrintable c) : c ∉ lineBreaks := by
  simp only [IsPrintable] at h
  simp only [lineBreaks, List.mem_cons, List.not_mem_nil, or_false]
  omega

/-- Printable characters join the current line. -/
theorem splitFrom_append {line : Text} (h : AllPrintable line) (acc rest : Text) :
    splitFrom acc (line ++ rest) = splitFrom (acc ++ line) rest := by
  induction line generalizing acc with
  | nil => rw [List.nil_append, List.append_nil]
  | cons c line ih =>
    have hc : IsPrintable c := h c List.mem_cons_self
    have hne : c ≠ 13 := by
      simp only [IsPrintable] at hc
      omega
    rw [List.cons_append, splitFrom, if_neg (not_lineBreak_of_printable hc),
      ih fun d hd => h d (List.mem_cons_of_mem _ hd), List.append_assoc]
    · rfl
    · exact fun _ heq => absurd heq hne

theorem splitFrom_line {line : Text} (h : AllPrintable line) (acc rest : Text) :
    splitFrom acc (line ++ 10 :: rest) = (acc ++ line) :: splitFrom [] rest := by
  rw [splitFrom_append h, splitFrom, if_pos (by decide)]
  exact nofun

theorem splitFrom_open {line : Text} (h : AllPrintable line) (acc : Text) :
    splitFrom acc line = if acc ++ line = [] then [] else [acc ++ line] := by
  have hline := splitFrom_append h acc []
  rwa [List.append_nil, splitFrom] at hline

/-- The lines of a text are its lines, and the open one behind them if it has characters. -/
theorem splitlines_flatMap {lines : List Text} {last : Text}
    (h : ∀ line ∈ lines, AllPrintable line) (hlast : AllPrintable last) :
    splitlines ((lines.flatMap fun line => line ++ [10]) ++ last)
      = lines ++ if last = [] then [] else [last] := by
  induction lines with
  | nil => exact splitFrom_open hlast []
  | cons line lines ih =>
    have hline : AllPrintable line := h line List.mem_cons_self
    rw [List.flatMap_cons, List.append_assoc, List.append_assoc, List.singleton_append, splitlines,
      splitFrom_line hline, List.nil_append]
    exact congrArg _ (ih fun l hl => h l (List.mem_cons_of_mem _ hl))

end ContextIntelligence.Lib.TextLines
