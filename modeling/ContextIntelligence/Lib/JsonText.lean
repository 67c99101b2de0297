import Mathlib

/-!
# Flat JSON objects as text

Texts are lists of code points. `dumps` prints an object of strings and numbers as `json.dumps` does
by default; `scanFlat` reads it back. A scanned string is a list of units, and two escaped units
that are a high and a low surrogate are joined: a text without surrogates is read back as it was
(`scanString_quote`).
-/

namespace ContextIntelligence.Lib.JsonText

abbrev Text := List Nat

def IsPrintable (c : Nat) : Prop := 32 ≤ c ∧ c ≤ 126

def isHighSurrogate (n : Nat) : Bool := 0xD800 ≤ n && n ≤ 0xDBFF

def isLowSurrogate (n : Nat) : Bool := 0xDC00 ≤ n && n ≤ 0xDFFF

/-! ## Printing strings -/

def hexDigit (d : Nat) : Nat := if d < 10 then 48 + d else 87 + d

def escapeUnit (n : Nat) : Text :=
  [92, 117, hexDigit (n / 4096 % 16), hexDigit (n / 256 % 16), hexDigit (n / 16 % 16),
    hexDigit (n % 16)]

/-- The characters with an escape of their own, and the letter of the escape. -/
def shortEscapes : List (Nat × Nat) :=
  [(34, 34), (92, 92), (10, 110), (13, 114), (9, 116), (12, 102), (8, 98)]

def shortEscape (c : Nat) : Option Nat := (shortEscapes.find? fun e => e.1 = c).map Prod.snd

def escapeChar (c : Nat) : Text :=
  match shortEscape c with
  | some letter => [92, letter]
  | none =>
    if 32 ≤ c ∧ c ≤ 126 then [c]
    else if c < 0x10000 then escapeUnit c
    else escapeUnit (0xD800 + (c - 0x10000) / 1024) ++ escapeUnit (0xDC00 + (c - 0x10000) % 1024)

def quote (t : Text) : Text := 34 :: t.flatMap escapeChar ++ [34]

/-! ## Scanning strings -/

def hexVal (c : Nat) : Option Nat :=
  if 48 ≤ c ∧ c ≤ 57 then some (c - 48)
  else if 97 ≤ c ∧ c ≤ 102 then some (c - 87)
  else if 65 ≤ c ∧ c ≤ 70 then some (c - 55)
  else none

def unescape (letter : Nat) : Option Nat :=
  if letter = 47 then some 47
  else (shortEscapes.find? fun e => e.2 = letter).map Prod.fst

inductive Unit16 where
  | raw (c : Nat)
  | escaped (n : Nat)
  deriving DecidableEq, Repr

/-- Where a scan stands: between characters, behind a backslash, or after some hexadecimal digits
of a unit with the value they have so far. -/
inductive Mode where
  | plain
  | backslash
  | hex (digits value : Nat)

def push (u : Unit16) (r : List Unit16 × Text) : List Unit16 × Text := (u :: r.1, r.2)

/-- Scan a string up to its closing quote: its units and what follows. -/
def scanUnits : Mode → Text → Option (List Unit16 × Text)
  | _, [] => none
  | .plain, c :: rest =>
    if c = 34 then some ([], rest)
    else if c = 92 then scanUnits .backslash rest
    else if c < 32 then none
    else (scanUnits .plain rest).map (push (.raw c))
  | .backslash, c :: rest =>
    if c = 117 then scanUnits (.hex 0 0) rest
    else match unescape c with
      | none => none
      | some d => (scanUnits .plain rest).map (push (.raw d))
  | .hex digits value, c :: rest =>
    match hexVal c with
    | none => none
    | some d =>
      if digits = 3 then (scanUnits .plain rest).map (push (.escaped (16 * value + d)))
      else scanUnits (.hex (digits + 1) (16 * value + d)) rest

def joinUnits : List Unit16 → Text
  | [] => []
  | .raw c :: rest => c :: joinUnits rest
  | [.escaped n] => [n]
  | .escaped n :: .raw c :: rest => n :: c :: joinUnits rest
  | .escaped n :: .escaped m :: rest =>
    if isHighSurrogate n && isLowSurrogate m then
      (0x10000 + (n - 0xD800) * 1024 + (m - 0xDC00)) :: joinUnits rest
    else n :: joinUnits (.escaped m :: rest)

def scanString (t : Text) : Option (Text × Text) :=
  (scanUnits .plain t).map fun r => (joinUnits r.1, r.2)

/-! ### Round trip -/

theorem hexVal_hexDigit : ∀ d < 16, hexVal (hexDigit d) = some d := by decide

theorem printable_hexDigit : ∀ d < 16, 32 ≤ hexDigit d ∧ hexDigit d ≤ 126 := by decide

theorem scanUnits_escapeUnit {n : Nat} (h : n < 0x10000) (rest : Text) :
    scanUnits .plain (escapeUnit n ++ rest) = (scanUnits .plain rest).map (push (.escaped n)) := by
  have hval : 16 * (16 * (16 * (n / 4096 % 16) + n / 256 % 16) + n / 16 % 16) + n % 16 = n := by
    omega
  simp only [escapeUnit, List.cons_append, List.nil_append, scanUnits,
    hexVal_hexDigit _ (Nat.mod_lt _ (by decide : 0 < 16))]
  simp [hval]

def unitsOf (c : Nat) : List Unit16 :=
  if (shortEscape c).isSome ∨ (32 ≤ c ∧ c ≤ 126) then [.raw c]
  else if c < 0x10000 then [.escaped c]
  else [.escaped (0xD800 + (c - 0x10000) / 1024), .escaped (0xDC00 + (c - 0x10000) % 1024)]

theorem unescape_of_shortEscape {c letter : Nat} (h : shortEscape c = some letter) :
    unescape letter = some c ∧ letter ≠ 117 ∧ IsPrintable letter := by
  have hall : ∀ e ∈ shortEscapes, unescape e.2 = some e.1 ∧ e.2 ≠ 117 ∧ 32 ≤ e.2 ∧ e.2 ≤ 126 := by
    decide
  simp only [shortEscape, Option.map_eq_some_iff] at h
  obtain ⟨e, hfound, rfl⟩ := h
  have hc : e.1 = c := by simpa using List.find?_some hfound
  have he := hall e (List.mem_of_find?_eq_some hfound)
  exact ⟨hc ▸ he.1, he.2⟩

variable {c : Nat}

theorem shortEscape_eq_none (h : shortEscape c = none) : c ≠ 34 ∧ c ≠ 92 := by
  constructor <;> rintro rfl <;> cases h

theorem map_push_map (u v : Unit16) (r : Option (List Unit16 × Text)) :
    (r.map (push v)).map (push u) = r.map fun p => ([u, v] ++ p.1, p.2) := by
  cases r <;> rfl

theorem scanUnits_escapeChar (h : c < 0x110000) (rest : Text) :
    scanUnits .plain (escapeChar c ++ rest)
      = (scanUnits .plain rest).map fun r => (unitsOf c ++ r.1, r.2) := by
  unfold escapeChar unitsOf
  cases hshort : shortEscape c with
  | some letter =>
    obtain ⟨hback, hletter, -⟩ := unescape_of_shortEscape hshort
    simp [scanUnits, hback, hletter]
    rfl
  | none =>
    obtain ⟨hquiet, hslash⟩ := shortEscape_eq_none hshort
    by_cases hprint : 32 ≤ c ∧ c ≤ 126
    · have hcont : ¬ c < 32 := by omega
      simp [hprint, scanUnits, hquiet, hslash, hcont]
      rfl
    · by_cases hplain : c < 0x10000
      · simp only [hprint, if_false, hplain, if_true, Option.isSome_none, Bool.false_eq_true,
          or_self, scanUnits_escapeUnit hplain]
        rfl
      · simp only [hprint, if_false, hplain, Option.isSome_none, Bool.false_eq_true, or_self,
          List.append_assoc]
        rw [scanUnits_escapeUnit (by omega), scanUnits_escapeUnit (by omega), map_push_map]

variable {t : Text}

theorem scanUnits_quote (h : ∀ c ∈ t, c < 0x110000) (rest : Text) :
    scanUnits .plain (t.flatMap escapeChar ++ 34 :: rest) = some (t.flatMap unitsOf, rest) := by
  induction t with
  | nil => simp [scanUnits]
  | cons c t ih =>
    obtain ⟨hc, ht⟩ := List.forall_mem_cons.1 h
    rw [List.flatMap_cons, List.append_assoc, scanUnits_escapeChar hc, ih ht]
    rfl

def isSurrogate (c : Nat) : Bool := 0xD800 ≤ c && c ≤ 0xDFFF

theorem joinUnits_unitsOf (h : isSurrogate c = false) (hmax : c < 0x110000)
    (us : List Unit16) : joinUnits (unitsOf c ++ us) = c :: joinUnits us := by
  unfold unitsOf
  split
  · rfl
  · split
    · have hhigh : isHighSurrogate c = false := by
        simp only [isSurrogate, isHighSurrogate, Bool.and_eq_false_iff, decide_eq_false_iff_not]
          at h ⊢
        omega
      rcases us with _ | ⟨_ | _, us⟩ <;> simp [joinUnits, hhigh]
    · have hpair : isHighSurrogate (0xD800 + (c - 0x10000) / 1024) = true
          ∧ isLowSurrogate (0xDC00 + (c - 0x10000) % 1024) = true := by
        simp only [isHighSurrogate, isLowSurrogate, Bool.and_eq_true, decide_eq_true_eq]
        omega
      simp only [List.cons_append, List.nil_append, joinUnits, hpair.1, hpair.2, Bool.and_self,
        if_true, List.cons.injEq, and_true]
      omega

theorem joinUnits_flatMap (h : ∀ c ∈ t, isSurrogate c = false ∧ c < 0x110000) :
    joinUnits (t.flatMap unitsOf) = t := by
  induction t with
  | nil => rfl
  | cons c t ih =>
    obtain ⟨hc, ht⟩ := List.forall_mem_cons.1 h
    rw [List.flatMap_cons, joinUnits_unitsOf hc.1 hc.2, ih ht]

/-- A quoted text is scanned back. -/
theorem scanString_quote (h : ∀ c ∈ t, c < 0x110000) (rest : Text) :
    scanString (t.flatMap escapeChar ++ 34 :: rest)
      = some (joinUnits (t.flatMap unitsOf), rest) := by
  rw [scanString, scanUnits_quote h]
  rfl

/-! ## Numbers -/

def isDigit (c : Nat) : Bool := 48 ≤ c && c ≤ 57

def scanInt : Text → Option (Text × Text)
  | [] => none
  | c :: rest =>
    if c = 48 then some ([48], rest)
    else if isDigit c then some (c :: rest.takeWhile isDigit, rest.dropWhile isDigit)
    else none

def scanDigits (mark t : Text) (body : Text) : Text × Text :=
  if body.head?.any isDigit then (mark ++ body.takeWhile isDigit, body.dropWhile isDigit)
  else ([], t)

def scanFraction (t : Text) : Text × Text :=
  match t with
  | 46 :: rest => scanDigits [46] t rest
  | _ => ([], t)

def scanExponent (t : Text) : Text × Text :=
  match t with
  | [] => ([], t)
  | e :: rest =>
    if e = 101 ∨ e = 69 then
      match rest with
      | 43 :: body => scanDigits [e, 43] t body
      | 45 :: body => scanDigits [e, 45] t body
      | body => scanDigits [e] t body
    else ([], t)

def scanNumber (t : Text) : Option (Text × Text) :=
  let signed := match t with
    | 45 :: rest => ([45], rest)
    | _ => ([], t)
  (scanInt signed.2).map fun int =>
    let fraction := scanFraction int.2
    let exponent := scanExponent fraction.2
    (signed.1 ++ int.1 ++ fraction.1 ++ exponent.1, exponent.2)

/-- A number as `float.__repr__` prints it in the range of clock times: digits, a point, digits. -/
structure Decimal where
  lead : Nat
  whole : Text
  first : Nat
  fraction : Text
  lead_digit : isDigit lead = true
  lead_ne_zero : lead ≠ 48
  first_digit : isDigit first = true
  whole_digits : ∀ c ∈ whole, isDigit c = true
  fraction_digits : ∀ c ∈ fraction, isDigit c = true

def Decimal.text (d : Decimal) : Text := d.lead :: d.whole ++ 46 :: d.first :: d.fraction

theorem takeWhile_append {p : Nat → Bool} (xs ys : Text) (hxs : ∀ c ∈ xs, p c = true)
    (hys : ∀ c ∈ ys.head?, p c = false) :
    (xs ++ ys).takeWhile p = xs ∧ (xs ++ ys).dropWhile p = ys := by
  have hrest : ys.takeWhile p = [] ∧ ys.dropWhile p = ys := by
    cases ys with
    | nil => exact ⟨rfl, rfl⟩
    | cons c ys =>
      have hc := hys c rfl
      simp [hc]
  rw [List.takeWhile_append_of_pos hxs, List.dropWhile_append_of_pos hxs, hrest.1, hrest.2,
    List.append_nil]
  exact ⟨rfl, rfl⟩

theorem scanNumber_decimal (d : Decimal) (rest : Text) :
    scanNumber (d.text ++ 44 :: rest) = some (d.text, 44 :: rest) := by
  have hlead := d.lead_digit
  have hsign : d.lead ≠ 45 := by
    intro h
    rw [h] at hlead
    cases hlead
  have hwhole := takeWhile_append d.whole (46 :: d.first :: d.fraction ++ 44 :: rest)
    d.whole_digits (by simp [isDigit])
  have hfraction := takeWhile_append (d.first :: d.fraction) (44 :: rest)
    (List.forall_mem_cons.2 ⟨d.first_digit, d.fraction_digits⟩) (by simp [isDigit])
  simp only [List.cons_append] at hwhole hfraction
  have htext : d.text ++ 44 :: rest
      = d.lead :: (d.whole ++ 46 :: (d.first :: (d.fraction ++ 44 :: rest))) := by
    simp [Decimal.text]
  rw [htext]
  simp [scanNumber, hsign, scanInt, d.lead_ne_zero, hlead, hwhole, scanFraction, scanDigits,
    d.first_digit, hfraction, scanExponent, Decimal.text]

/-! ## Objects -/

inductive Field where
  | str (t : Text)
  | num (t : Text)
  deriving DecidableEq, Repr

/-- What `json.dumps` prints a value from. -/
inductive Value where
  | str (t : Text)
  | num (d : Decimal)

def Value.text : Value → Text
  | .str t => quote t
  | .num d => d.text

def printMember (m : Text × Value) : Text := quote m.1 ++ [58, 32] ++ m.2.text

/-- The members of an object behind its opening brace, up to the closing one. -/
def printMembers : List (Text × Value) → Text
  | [] => [125]
  | [m] => printMember m ++ [125]
  | m :: ms => printMember m ++ [44, 32] ++ printMembers ms

/-- `json.dumps` of a flat object. -/
def dumps (ms : List (Text × Value)) : Text := 123 :: printMembers ms

def isSpace (c : Nat) : Bool := c = 32 || c = 9 || c = 10 || c = 13

def skipSpace (t : Text) : Text := t.dropWhile isSpace

def scanField (t : Text) : Option (Field × Text) :=
  match t with
  | 34 :: rest => (scanString rest).map fun r => (.str r.1, r.2)
  | _ => (scanNumber t).map fun r => (.num r.1, r.2)

/-- A member and what follows it, without the space between them. -/
def scanMember (t : Text) : Option ((Text × Field) × Text) :=
  match t with
  | 34 :: rest => do
      let (key, rest) ← scanString rest
      match skipSpace rest with
      | 58 :: rest => do
          let (value, rest) ← scanField (skipSpace rest)
          some ((key, value), skipSpace rest)
      | _ => none
  | _ => none

/-- The members up to the closing brace; there are no more of them than the first argument. -/
def scanMembers : Nat → Text → Option (List (Text × Field) × Text)
  | 0, _ => none
  | n + 1, t => do
      let (member, rest) ← scanMember t
      match rest with
      | 125 :: rest => some ([member], rest)
      | 44 :: rest => do
          let (members, rest) ← scanMembers n (skipSpace rest)
          some (member :: members, rest)
      | _ => none

/-- The members of the object that the text is, if its values are strings and numbers. -/
def scanFlat (t : Text) : Option (List (Text × Field)) :=
  match skipSpace t with
  | 123 :: rest =>
    match skipSpace rest with
    | 125 :: rest => if skipSpace rest = [] then some [] else none
    | body => do
        let (members, rest) ← scanMembers body.length body
        if skipSpace rest = [] then some members else none
  | _ => none

/-- The value of a key: of several members with it, the last counts. -/
def lookup (key : Text) (ms : List (Text × Field)) : Option Field :=
  (ms.reverse.find? fun m => m.1 = key).map Prod.snd

/-! ### Round trip -/

def Value.Valid : Value → Prop
  | .str t => ∀ c ∈ t, c < 0x110000
  | .num _ => True

def IsName (t : Text) : Prop := ∀ c ∈ t, isSurrogate c = false ∧ c < 0x110000

def Value.scanned : Value → Field
  | .str t => .str (joinUnits (t.flatMap unitsOf))
  | .num d => .num d.text

theorem scanned_str (h : IsName t) : (Value.str t).scanned = .str t := by
  rw [Value.scanned, joinUnits_flatMap h]

theorem scanField_text {v : Value} (hv : v.Valid) (hc : c = 44 ∨ c = 125) (rest : Text)
    (hnum : c = 44 ∨ ∃ t, v = .str t) :
    scanField (v.text ++ c :: rest) = some (v.scanned, c :: rest) := by
  cases v with
  | str t =>
    simp only [Value.text, quote, List.cons_append, List.append_assoc, List.nil_append, scanField,
      scanString_quote hv]
    rfl
  | num d =>
    obtain rfl : c = 44 := by
      rcases hnum with h | ⟨t, h⟩
      · exact h
      · cases h
    have hquiet : d.lead ≠ 34 := by
      intro h
      have hlead := d.lead_digit
      rw [h] at hlead
      cases hlead
    have hscan := scanNumber_decimal d rest
    simp only [Value.text, Decimal.text, List.cons_append, List.append_assoc] at hscan ⊢
    simp [scanField, hquiet, hscan, Value.scanned, Decimal.text]

theorem scanMember_printMember {m : Text × Value} (hkey : IsName m.1) (hv : m.2.Valid)
    (hc : c = 44 ∨ c = 125) (rest : Text) (hnum : c = 44 ∨ ∃ t, m.2 = .str t) :
    scanMember (printMember m ++ c :: rest) = some ((m.1, m.2.scanned), c :: rest) := by
  have hspace : skipSpace (m.2.text ++ c :: rest) = m.2.text ++ c :: rest := by
    cases hval : m.2 with
    | str t => rfl
    | num d =>
      have hlead := d.lead_digit
      simp only [isDigit, Bool.and_eq_true, decide_eq_true_eq] at hlead
      have hnot : isSpace d.lead = false := by
        simp only [isSpace, Bool.or_eq_false_iff, decide_eq_false_iff_not]
        omega
      simp [skipSpace, Value.text, Decimal.text, hnot]
  have hafter : skipSpace (c :: rest) = c :: rest := by
    rcases hc with rfl | rfl <;> rfl
  have hname : scanString (m.1.flatMap escapeChar ++ 34 :: 58 :: 32 :: (m.2.text ++ c :: rest))
      = some (m.1, 58 :: 32 :: (m.2.text ++ c :: rest)) := by
    rw [scanString_quote fun c hmem => (hkey c hmem).2, joinUnits_flatMap hkey]
  simp only [printMember, quote, List.cons_append, List.append_assoc, List.nil_append, scanMember,
    hname, Option.bind_eq_bind, Option.bind_some]
  have hcolon : skipSpace (58 :: 32 :: (m.2.text ++ c :: rest))
      = 58 :: 32 :: (m.2.text ++ c :: rest) := rfl
  have hblank : skipSpace (32 :: (m.2.text ++ c :: rest)) = m.2.text ++ c :: rest := hspace
  simp only [hcolon, hblank, scanField_text hv hc rest hnum, Option.bind_some, hafter]

theorem quote_printMembers (ms : List (Text × Value)) (h : ms ≠ []) :
    ∃ rest, printMembers ms = 34 :: rest := by
  match ms, h with
  | [m], _ => exact ⟨_, rfl⟩
  | m :: m' :: ms, _ => exact ⟨_, rfl⟩

theorem scanMembers_printMembers {ms : List (Text × Value)} (hne : ms ≠ [])
    (hms : ∀ m ∈ ms, IsName m.1 ∧ m.2.Valid) (hlast : ∀ m ∈ ms.getLast?, ∃ t, m.2 = .str t)
    (n : Nat) (hn : ms.length ≤ n) :
    scanMembers n (printMembers ms) = some (ms.map fun m => (m.1, m.2.scanned), []) := by
  induction ms generalizing n with
  | nil => exact absurd rfl hne
  | cons m ms ih =>
    obtain ⟨⟨hkey, hv⟩, hrest⟩ := List.forall_mem_cons.1 hms
    obtain ⟨n, rfl⟩ : ∃ k, n = k + 1 := ⟨n - 1, by simp at hn; omega⟩
    cases ms with
    | nil =>
      have hscan := scanMember_printMember hkey hv (.inr rfl) [] (.inr (hlast m rfl))
      simp [scanMembers, printMembers, hscan]
    | cons m' ms =>
      have hscan := scanMember_printMember hkey hv (.inl rfl) (32 :: printMembers (m' :: ms))
        (.inl rfl)
      have htail := ih (by simp) hrest (by simpa using hlast) n
        (by simpa using hn)
      obtain ⟨body, hbody⟩ := quote_printMembers (m' :: ms) (by simp)
      have hspace : skipSpace (32 :: printMembers (m' :: ms)) = printMembers (m' :: ms) := by
        rw [hbody]
        rfl
      simp only [printMembers, List.append_assoc, List.cons_append, List.nil_append,
        scanMembers, hscan, Option.bind_eq_bind, Option.bind_some, hspace, htail]
      rfl

theorem length_printMembers (ms : List (Text × Value)) : ms.length ≤ (printMembers ms).length := by
  induction ms with
  | nil => simp
  | cons m ms ih =>
    cases ms with
    | nil => simp [printMembers]
    | cons m' ms =>
      simp only [printMembers, List.length_append, List.length_cons] at ih ⊢
      omega

/-- The scanner reads back what `dumps` prints. -/
theorem scanFlat_dumps {ms : List (Text × Value)} (hne : ms ≠ [])
    (hms : ∀ m ∈ ms, IsName m.1 ∧ m.2.Valid) (hlast : ∀ m ∈ ms.getLast?, ∃ t, m.2 = .str t) :
    scanFlat (dumps ms) = some (ms.map fun m => (m.1, m.2.scanned)) := by
  obtain ⟨rest, hrest⟩ := quote_printMembers ms hne
  have hscan := scanMembers_printMembers hne hms hlast _ (length_printMembers ms)
  have hopen : skipSpace (dumps ms) = 123 :: printMembers ms := rfl
  have hbody : skipSpace (printMembers ms) = 34 :: rest := by
    rw [hrest]
    rfl
  rw [hrest] at hscan
  simp only [scanFlat, hopen, hbody, hscan, Option.bind_eq_bind, Option.bind_some]
  rfl

/-! ### Everything printed is printable -/

theorem printable_escapeUnit (n : Nat) : ∀ c ∈ escapeUnit n, IsPrintable c := by
  intro c hc
  simp only [escapeUnit, List.mem_cons, List.not_mem_nil, or_false] at hc
  rcases hc with rfl | rfl | rfl | rfl | rfl | rfl
  · exact ⟨by decide, by decide⟩
  · exact ⟨by decide, by decide⟩
  all_goals exact printable_hexDigit _ (Nat.mod_lt _ (by decide))

theorem printable_escapeChar (c : Nat) : ∀ d ∈ escapeChar c, IsPrintable d := by
  intro d hd
  unfold escapeChar at hd
  split at hd
  · rename_i letter hshort
    simp only [List.mem_cons, List.not_mem_nil, or_false] at hd
    rcases hd with rfl | rfl
    · exact ⟨by decide, by decide⟩
    · exact (unescape_of_shortEscape hshort).2.2
  · split at hd
    · rename_i hprint
      rw [List.mem_singleton.1 hd]
      exact hprint
    · split at hd
      · exact printable_escapeUnit _ d hd
      · rcases List.mem_append.1 hd with hd | hd
        · exact printable_escapeUnit _ d hd
        · exact printable_escapeUnit _ d hd

def AllPrintable (t : Text) : Prop := ∀ c ∈ t, IsPrintable c

@[simp] theorem allPrintable_nil : AllPrintable [] := nofun

@[simp] theorem allPrintable_cons : AllPrintable (c :: t) ↔ (32 ≤ c ∧ c ≤ 126) ∧ AllPrintable t :=
  List.forall_mem_cons

@[simp] theorem allPrintable_append {t t' : Text} :
    AllPrintable (t ++ t') ↔ AllPrintable t ∧ AllPrintable t' :=
  List.forall_mem_append

@[simp] theorem allPrintable_quote (t : Text) : AllPrintable (quote t) := by
  have hbody : AllPrintable (t.flatMap escapeChar) := by
    intro c hc
    obtain ⟨d, -, hc⟩ := List.mem_flatMap.1 hc
    exact printable_escapeChar d c hc
  simp [quote, hbody]

theorem printable_of_isDigit (h : isDigit c = true) : IsPrintable c := by
  simp only [isDigit, Bool.and_eq_true, decide_eq_true_eq] at h
  exact ⟨by omega, by omega⟩

theorem allPrintable_value (v : Value) : AllPrintable v.text := by
  cases v with
  | str t => exact allPrintable_quote t
  | num d =>
    have hwhole : AllPrintable d.whole := fun c hc => printable_of_isDigit (d.whole_digits c hc)
    have hfraction : AllPrintable d.fraction :=
      fun c hc => printable_of_isDigit (d.fraction_digits c hc)
    simp only [Value.text, Decimal.text, List.cons_append, allPrintable_cons, allPrintable_append,
      hwhole, hfraction, and_true, true_and]
    exact ⟨printable_of_isDigit d.lead_digit, by decide, printable_of_isDigit d.first_digit⟩

/-- The text has no newline: all of it is printable. -/
theorem allPrintable_dumps (ms : List (Text × Value)) : AllPrintable (dumps ms) := by
  have hmembers : AllPrintable (printMembers ms) := by
    induction ms with
    | nil => simp [printMembers]
    | cons m ms ih =>
      cases ms with
      | nil => simp [printMembers, printMember, allPrintable_value]
      | cons m' ms =>
        rw [printMembers]
        · simp [printMember, allPrintable_value, ih]
        · simp
  simp [dumps, hmembers]

end ContextIntelligence.Lib.JsonText
