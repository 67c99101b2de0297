import ContextIntelligence.Lib.Base64
import ContextIntelligence.Lib.TextLines
import ContextIntelligence.Queue.Directory

/-!
# The format of the dead-letter file

`dead_letter` writes one JSON object a line, with the given-up line as a string when it is UTF-8 and
as base64 when it is not. `deadPayloadSet_lines`: `_dead_payload_set` reads back exactly the lines
that were written, whatever their bytes.
-/

namespace ContextIntelligence.Queue

open Lib.JsonText Lib.TextLines

/-! ## Writing -/

def tsField : Text := [116, 115]

def errorField : Text := [101, 114, 114, 111, 114]

def payloadField : Text := [112, 97, 121, 108, 111, 97, 100]

def payloadB64Field : Text := [112, 97, 121, 108, 111, 97, 100, 95, 98, 54, 52]

/-- A call of `dead_letter`: the time it reads, the text of the error, and the line. -/
structure Letter where
  ts : Decimal
  error : Text
  raw : Bytes
  error_valid : ∀ c ∈ error, c < 0x110000

namespace Letter

def payload (l : Letter) : Bytes :=
  if l.raw.getLast? = some newline then l.raw.dropLast else l.raw

def members (l : Letter) : List (Text × Value) :=
  [(tsField, .num l.ts), (errorField, .str l.error),
    match decodeUtf8 l.payload with
    | some text => (payloadField, .str text)
    | none => (payloadB64Field, .str (Lib.Base64.encode l.payload))]

def text (l : Letter) : Text := dumps l.members ++ [10]

end Letter

/-- `dead_letter` behind the validation of the key. -/
def deadLetter (l : Letter) (f : KeyFiles) : Except Fault KeyFiles :=
  match encodeUtf8 l.text, f.dead with
  | none, _ => .error .valueError
  | some _, .unreadable => .error .osError
  | some line, .missing => .ok { f with dead := .bytes line }
  | some line, .bytes content => .ok { f with dead := .bytes (content ++ line) }

/-! ## Reading -/

/-- `json.loads` with a dictionary as its result; `none` is an exception or any other value. A
member that is not a string stands as a number. All that is asked of it is that it reads flat
objects. -/
structure JsonLoads where
  load : Text → Option (List (Text × Field))
  load_of_scanFlat : ∀ {t ms}, scanFlat t = some ms → load t = some ms

/-- What one line adds to the set: a line that raises is skipped. -/
def linePayload (json : JsonLoads) (line : Text) : Option Bytes :=
  match json.load line with
  | none => none
  | some record =>
    match lookup payloadField record, lookup payloadB64Field record with
    | some (.str text), _ => encodeUtf8 text
    | some (.num _), _ => none
    | none, some (.str text) => Lib.Base64.decode text
    | none, _ => none

/-- What a line of the file adds to the set, a blank one being passed over. -/
def lineAdds (json : JsonLoads) (line : Text) : Option Bytes :=
  if isBlank line then none else linePayload json line

/-- `_dead_payload_set`. -/
def deadPayloadSet (json : JsonLoads) : Artifact → Except Fault (List Bytes)
  | .missing => .ok []
  | .unreadable => .error .osError
  | .bytes content =>
    match decodeUtf8 content with
    | none => .error .valueError
    | some text => .ok ((splitlines (universalNewlines text)).filterMap (lineAdds json))

/-! ## Round trip -/

section RoundTrip

variable (json : JsonLoads) (l : Letter)

theorem isName_fields : IsName tsField ∧ IsName errorField ∧ IsName payloadField
    ∧ IsName payloadB64Field := by
  simp only [IsName]
  decide

theorem Letter.members_valid : ∀ m ∈ l.members, IsName m.1 ∧ m.2.Valid := by
  have hb64 : ∀ c ∈ Lib.Base64.encode l.payload, c < 0x110000 := by
    intro c hc
    have hprint := Lib.Base64.allPrintable_encode l.payload c hc
    simp only [IsPrintable] at hprint
    omega
  obtain ⟨htime, herr, hpay, hpayload⟩ := isName_fields
  simp only [Letter.members, List.forall_mem_cons]
  refine ⟨⟨htime, trivial⟩, ⟨herr, l.error_valid⟩, ?_, List.forall_mem_nil _⟩
  split
  · rename_i text hdec
    exact ⟨hpay, fun c hc => (isName_of_decodeUtf8 hdec c hc).2⟩
  · exact ⟨hpayload, hb64⟩

theorem Letter.scanFlat_dumps : scanFlat (dumps l.members)
    = some (l.members.map fun m => (m.1, m.2.scanned)) := by
  refine Lib.JsonText.scanFlat_dumps nofun l.members_valid ?_
  intro m hm
  simp only [Letter.members, List.getLast?_cons_cons, List.getLast?_singleton,
    Option.mem_some_iff] at hm
  subst hm
  split
  · exact ⟨_, rfl⟩
  · exact ⟨_, rfl⟩

theorem linePayload_letter : linePayload json (dumps l.members) = some l.payload := by
  rw [linePayload, json.load_of_scanFlat l.scanFlat_dumps]
  cases hdec : decodeUtf8 l.payload with
  | some text =>
    have hscan := scanned_str (isName_of_decodeUtf8 hdec)
    have hpay : lookup payloadField (l.members.map fun m => (m.1, m.2.scanned))
        = some (.str text) := by
      rw [Letter.members, hdec, ← hscan]
      rfl
    simp only [hpay]
    exact encodeUtf8_of_decodeUtf8 hdec
  | none =>
    have hname : IsName (Lib.Base64.encode l.payload) := by
      intro c hc
      have hprint := Lib.Base64.allPrintable_encode l.payload c hc
      simp only [IsPrintable] at hprint
      refine ⟨?_, by omega⟩
      simp only [Lib.JsonText.isSurrogate, Bool.and_eq_false_iff, decide_eq_false_iff_not]
      omega
    have hpay : lookup payloadField (l.members.map fun m => (m.1, m.2.scanned)) = none := by
      rw [Letter.members, hdec]
      rfl
    have hb64 : lookup payloadB64Field (l.members.map fun m => (m.1, m.2.scanned))
        = some (.str (Lib.Base64.encode l.payload)) := by
      rw [Letter.members, hdec, ← scanned_str hname]
      rfl
    simp only [hpay, hb64]
    exact Lib.Base64.decode_encode l.payload

theorem lineAdds_letter : lineAdds json (dumps l.members) = some l.payload := by
  rw [lineAdds, if_neg (by rw [show isBlank (dumps l.members) = false from rfl]; nofun),
    linePayload_letter]

end RoundTrip

theorem Letter.encodeUtf8_text (l : Letter) :
    encodeUtf8 l.text = some (l.text.map UInt8.ofNat) := by
  apply encodeUtf8_ascii
  intro c hc
  rcases List.mem_append.1 hc with hc | hc
  · have hprint := allPrintable_dumps l.members c hc
    simp only [IsPrintable] at hprint
    omega
  · rw [List.mem_singleton.1 hc]
    decide

def deadBytes (letters : List Letter) : Bytes := letters.flatMap fun l => l.text.map UInt8.ofNat

theorem deadLetter_bytes {f : KeyFiles} {letters : List Letter} (l : Letter)
    (h : f.dead = .bytes (deadBytes letters)) :
    deadLetter l f = .ok { f with dead := .bytes (deadBytes (letters ++ [l])) } := by
  rw [deadLetter, l.encodeUtf8_text, h]
  simp only [deadBytes, List.flatMap_append, List.flatMap_cons, List.flatMap_nil, List.append_nil]

theorem deadLetter_missing {f : KeyFiles} (l : Letter) (h : f.dead = .missing) :
    deadLetter l f = .ok { f with dead := .bytes (deadBytes [l]) } := by
  rw [deadLetter, l.encodeUtf8_text, h]
  simp only [deadBytes, List.flatMap_cons, List.flatMap_nil, List.append_nil]

/-- The bytes of a file with the given lines and an open one behind them. -/
def deadFile (lines : List Text) (last : Text) : Bytes :=
  ((lines.flatMap fun line => line ++ [10]) ++ last).map UInt8.ofNat

theorem deadPayloadSet_deadFile (json : JsonLoads) {lines : List Text} {last : Text}
    (hlines : ∀ line ∈ lines, AllPrintable line) (hlast : AllPrintable last) :
    deadPayloadSet json (.bytes (deadFile lines last))
      = .ok ((lines ++ [last]).filterMap (lineAdds json)) := by
  have hsmall : ∀ c ∈ (lines.flatMap fun line => line ++ [10]) ++ last, c < 128 ∧ c ≠ 13 := by
    intro c hc
    have hprint : IsPrintable c ∨ c = 10 := by
      rcases List.mem_append.1 hc with hc | hc
      · obtain ⟨line, hline, hc⟩ := List.mem_flatMap.1 hc
        rcases List.mem_append.1 hc with hc | hc
        · exact .inl (hlines line hline c hc)
        · exact .inr (List.mem_singleton.1 hc)
      · exact .inl (hlast c hc)
    simp only [IsPrintable] at hprint
    omega
  simp only [deadPayloadSet, deadFile, decodeUtf8_ascii fun c hc => (hsmall c hc).1,
    universalNewlines_eq fun hmem => (hsmall 13 hmem).2 rfl, splitlines_flatMap hlines hlast]
  rw [List.filterMap_append, List.filterMap_append]
  -- an empty open line is no line, and as a line it would be blank
  split
  · rename_i hnil
    rw [hnil]
    rfl
  · rfl

theorem deadBytes_eq (letters : List Letter) :
    deadBytes letters = deadFile (letters.map fun l => dumps l.members) [] := by
  rw [deadBytes, deadFile, List.append_nil, List.flatMap_map, List.map_flatMap]
  rfl

theorem deadPayloadSet_lines (json : JsonLoads) (letters : List Letter) :
    deadPayloadSet json (.bytes (deadBytes letters)) = .ok (letters.map Letter.payload) := by
  have hlines : ∀ line ∈ letters.map (fun l => dumps l.members), AllPrintable line := by
    intro line hline
    obtain ⟨l, -, rfl⟩ := List.mem_map.1 hline
    exact allPrintable_dumps _
  have hletter : lineAdds json ∘ (fun l : Letter => dumps l.members) = some ∘ Letter.payload :=
    funext fun l => lineAdds_letter json l
  rw [deadBytes_eq, deadPayloadSet_deadFile json hlines allPrintable_nil, List.filterMap_append,
    List.filterMap_map, hletter, List.filterMap_eq_map]
  exact congrArg Except.ok (List.append_nil _)

theorem foldlM_deadLetter (f : KeyFiles) (done letters : List Letter) :
    letters.foldlM (fun f l => deadLetter l f) { f with dead := .bytes (deadBytes done) }
      = .ok { f with dead := .bytes (deadBytes (done ++ letters)) } := by
  induction letters generalizing done with
  | nil =>
    rw [List.append_nil]
    rfl
  | cons l rest ih =>
    rw [List.foldlM_cons, deadLetter_bytes l rfl]
    exact (ih (done ++ [l])).trans (by rw [List.append_assoc, List.singleton_append])

/-- Whatever lines are given up: every write succeeds and touches the dead-letter file alone, and
the file gives back exactly these lines. -/
theorem deadLetters_read_back (json : JsonLoads) (f : KeyFiles) (letters : List Letter) :
    ∃ file, letters.foldlM (fun f l => deadLetter l f) { f with dead := .missing }
        = .ok { f with dead := file }
      ∧ deadPayloadSet json file = .ok (letters.map Letter.payload) := by
  cases letters with
  | nil => exact ⟨.missing, rfl, rfl⟩
  | cons l rest =>
    refine ⟨.bytes (deadBytes (l :: rest)), ?_, deadPayloadSet_lines json _⟩
    rw [List.foldlM_cons, deadLetter_missing l rfl]
    exact foldlM_deadLetter f [l] rest

end ContextIntelligence.Queue
