import ContextIntelligence.Blobs.Keys
import ContextIntelligence.Handlers.Payloads

/-!
# Offloaded fields

Before the handlers of an event run, each of its blob fields is written to the blob store and
replaced by the URI that `write` returns. A record may be dispatched again, and dispatches of
different sessions run at the same time, field by field.
-/

namespace ContextIntelligence.Blobs.Offload

open Lib Lib.Runs ContextIntelligence.Graph Handlers

/-! ## The store -/

/-- `json.dumps` and `json.load`. A value that is printed is read back. -/
structure JsonCodec where
  dumps : Json → Option String
  load : String → Option Json
  load_dumps : ∀ {value text}, dumps value = some text → load text = some value

/-- The payload files, by the directory of their session and their name. -/
abbrev Files := String × String → Option String

def Files.put (files : Files) (a : Address) (text : String) : Files :=
  Function.update files (a.session, a.filename) (some text)

/-- Where a write is cut short: before `os.replace` or behind it. -/
inductive WriteFault where
  | before (reason : String)
  | after (reason : String)
  deriving DecidableEq, Repr

inductive ReadError where
  | valueError
  | fileNotFound
  deriving DecidableEq, Repr

structure Server where
  digests : Digests
  codec : JsonCodec

namespace Server

variable (srv : Server)

/-- `BlobStore.write` where nothing has expired: its result and the files it leaves. -/
def write (files : Files) (fault : Option WriteFault) (sessionId key : String) (value : Json) :
    Except String String × Files :=
  match writeAddress srv.digests sessionId key, srv.codec.dumps value, fault with
  | none, _, _ => (.error "Unsafe blob component", files)
  | some _, none, _ => (.error "value cannot be dumped", files)
  | some _, some _, some (.before reason) => (.error reason, files)
  | some a, some text, some (.after reason) => (.error reason, files.put a text)
  | some a, some text, none => (.ok a.uri, files.put a text)

/-- `BlobStore.read`: the first candidate that is there, in the directory of the first one. -/
def read (files : Files) (uri : String) : Except ReadError Json :=
  match readCandidates srv.digests uri with
  | none | some [] => .error .valueError
  | some (first :: others) =>
    match (first :: others).findSome? fun a => files (first.session, a.filename) with
    | none => .error .fileNotFound
    | some text =>
      match srv.codec.load text with
      | none => .error .valueError
      | some value => .ok value

end Server

/-! ## Records -/

/-- Whether the text is the mark followed by hexadecimal digits. -/
def hasForm (mark : String) (digits : Nat) (text : String) : Bool :=
  mark.toList.isPrefixOf text.toList
    && (text.toList.drop mark.toList.length).length == digits
    && (text.toList.drop mark.toList.length).all isHexChar

/-- The identities that `_new_event_identity` and `recovery_event_identity` return. -/
def isIdentity (text : String) : Bool :=
  hasForm "key-" 64 text || hasForm "new-" 32 text || hasForm "recovery-" 64 text

/-- A queued record: what its line holds, with the time that `make_node_id` parses. -/
structure Record where
  sessionId : String
  name : String
  epoch : ℤ
  identity : String
  data : Payload

namespace Record

def nodeId (r : Record) : NodeId := makeNodeId r.sessionId r.name r.epoch none (some r.identity)

def key (r : Record) (field : String) : String := r.nodeId ++ "__" ++ field

end Record

/-- What is assumed of the records of a run: each has an identity of its own, of a form that the
server assigns, and the digests tell their keys apart. -/
structure Identified (srv : Server) (records : List Record) : Prop where
  form : ∀ r ∈ records, isIdentity r.identity = true
  distinct : ∀ r ∈ records, ∀ r' ∈ records, r.identity = r'.identity → r = r'
  short_inj : ∀ r ∈ records, ∀ r' ∈ records, ∀ field ∈ blobFields, ∀ field' ∈ blobFields,
    srv.digests.short (r.key field) = srv.digests.short (r'.key field') →
      r.key field = r'.key field'
  full_inj : ∀ r ∈ records, ∀ r' ∈ records, ∀ field ∈ blobFields, ∀ field' ∈ blobFields,
    srv.digests.full (r.key field) = srv.digests.full (r'.key field') →
      r.key field = r'.key field'

/-! ## Processing -/

/-- A dispatch of a record: the payload so far, and the fields that are still to be looked at. -/
structure Dispatch where
  record : Record
  data : Payload
  rest : List String

structure State where
  files : Files
  dispatches : List Dispatch

/-- `start` begins a dispatch, of a new record or of one dispatched before, with the blob fields in
some order; `field` lets a dispatch process its next field. -/
inductive Action where
  | start (record : Record) (order : { fields : List String // fields.Perm blobFields })
  | field (i : Nat) (fault : Option WriteFault)

/-- One round of the loop of `process_event_data`. -/
def processField (srv : Server) (files : Files) (fault : Option WriteFault) (d : Dispatch) :
    Files × Dispatch :=
  match d.rest with
  | [] => (files, d)
  | field :: rest =>
    let outcome (sessionId key : String) (value : Json) : Except String String :=
      (srv.write files fault sessionId key value).1
    let files := match d.data.get field with
      | none | some .null => files
      | some value => (srv.write files fault d.record.sessionId (d.record.key field) value).2
    (files, { d with
      data := offload outcome d.record.sessionId d.record.nodeId d.data field
      rest := rest })

def step (srv : Server) (s : State) : Action → State
  | .start record order =>
    match liftRawFields record.data with
    | .ok data => { s with dispatches := s.dispatches ++ [⟨record, data, order.val⟩] }
    | .error _ => s
  | .field i fault =>
    match s.dispatches[i]? with
    | none => s
    | some d =>
      let (files, d) := processField srv s.files fault d
      ⟨files, s.dispatches.set i d⟩

def reference (uri : String) : Json := .obj [("$blob_ref", .str uri)]

/-! ## The key determines the record and the field -/

theorem underscore_not_mem_identity {text : String} (h : isIdentity text = true) :
    '_' ∉ text.toList := by
  have hform : ∀ {mark : String} {digits : Nat}, '_' ∉ mark.toList →
      hasForm mark digits text = true → '_' ∉ text.toList := by
    intro mark digits hmark hform hmem
    simp only [hasForm, Bool.and_eq_true, List.isPrefixOf_iff_prefix, List.all_eq_true] at hform
    obtain ⟨⟨⟨tail, htail⟩, -⟩, hhex⟩ := hform
    rw [← htail] at hmem hhex
    rw [List.drop_left] at hhex
    rcases List.mem_append.1 hmem with hmem | hmem
    · exact hmark hmem
    · exact absurd (hhex '_' hmem) (by decide)
  simp only [isIdentity, Bool.or_eq_true] at h
  rcases h with (h | h) | h
  · exact hform (by decide) h
  · exact hform (by decide) h
  · exact hform (by decide) h

theorem eq_of_append_underscore {front front' tail tail' : List Char} (h : '_' ∉ tail)
    (h' : '_' ∉ tail') (heq : front ++ '_' :: tail = front' ++ '_' :: tail') :
    front = front' ∧ tail = tail' := by
  have hread : ∀ front tail : List Char, '_' ∉ tail →
      ((front ++ '_' :: tail).reverse.takeWhile (· ≠ '_')) = tail.reverse := by
    intro front tail htail
    have hall : ∀ c ∈ tail.reverse, decide (c ≠ '_') = true := by
      intro c hc
      rw [decide_eq_true_eq]
      rintro rfl
      exact htail (List.mem_reverse.1 hc)
    rw [List.reverse_append, List.reverse_cons, List.append_assoc, List.singleton_append,
      List.takeWhile_append_of_pos hall, List.takeWhile_cons]
    simp
  have htail : tail.reverse = tail'.reverse := by
    rw [← hread front tail h, heq, hread front' tail' h']
  have htail := List.reverse_inj.1 htail
  subst htail
  exact ⟨List.append_cancel_right heq, rfl⟩

theorem field_of_last_two : ∀ field ∈ blobFields, ∀ field' ∈ blobFields,
    field.toList.reverse.take 2 = field'.toList.reverse.take 2 → field = field' := by
  decide

theorem two_le_length_field : ∀ field ∈ blobFields, 2 ≤ field.toList.reverse.length := by decide

theorem Record.toList_key (r : Record) (field : String) : ∃ front : List Char,
    (r.key field).toList = (front ++ '_' :: r.identity.toList) ++ ('_' :: '_' :: field.toList) := by
  refine ⟨(makeNodeId r.sessionId r.name r.epoch none none).toList ++ ['_'], ?_⟩
  simp [Record.key, Record.nodeId, makeNodeId]

variable {field field' : String} {r r' : Record}

theorem key_inj (hr : isIdentity r.identity = true)
    (hr' : isIdentity r'.identity = true) (hfield : field ∈ blobFields)
    (hfield' : field' ∈ blobFields) (h : r.key field = r'.key field') :
    r.identity = r'.identity ∧ field = field' := by
  obtain ⟨front, hkey⟩ := r.toList_key field
  obtain ⟨front', hkey'⟩ := r'.toList_key field'
  have hlist := congrArg String.toList h
  rw [hkey, hkey'] at hlist
  have hlast := congrArg (fun chars => chars.reverse.take 2) hlist
  simp only [List.reverse_append, List.reverse_cons, List.append_assoc,
    List.take_append_of_le_length (two_le_length_field field hfield),
    List.take_append_of_le_length (two_le_length_field field' hfield')] at hlast
  obtain rfl := field_of_last_two field hfield field' hfield' hlast
  obtain ⟨-, hidentity⟩ := eq_of_append_underscore (underscore_not_mem_identity hr)
    (underscore_not_mem_identity hr') (List.append_cancel_right hlist)
  exact ⟨String.toList_inj.1 hidentity, rfl⟩

/-! ## The address determines the key -/

theorem getLast_field : ∀ field ∈ blobFields,
    field.toList.getLast?.any (fun c => !isHexChar c) = true := by
  decide

theorem getLast_key (r : Record) {field : String} (h : field ∈ blobFields) {c : Char}
    (hc : (r.key field).toList.getLast? = some c) : isHexChar c = false := by
  have hlast := getLast_field field h
  have hne : field.toList ≠ [] := by
    intro hnil
    rw [hnil] at hlast
    cases hlast
  obtain ⟨front, hkey⟩ := r.toList_key field
  have hsplit : (r.key field).toList = ((front ++ '_' :: r.identity.toList) ++ ['_', '_'])
      ++ field.toList := by
    rw [hkey]
    simp
  rw [hsplit, List.getLast?_append, List.getLast?_eq_some_getLast hne, Option.some_or] at hc
  rw [List.getLast?_eq_some_getLast hne, hc] at hlast
  simpa using hlast

theorem key_eq_of_foldName {srv : Server} {records : List Record} (h : Identified srv records)
    (hr : r ∈ records) (hr' : r' ∈ records)
    (hfield : field ∈ blobFields) (hfield' : field' ∈ blobFields) {maxBytes : Nat}
    (heq : foldName srv.digests maxBytes (r.key field)
      = foldName srv.digests maxBytes (r'.key field')) :
    r.key field = r'.key field' := by
  have hmixed : ∀ {r r' : Record} {field field' : String}, field ∈ blobFields →
      byteLength (r.key field) ≤ maxBytes → ¬ byteLength (r'.key field') ≤ maxBytes →
      foldName srv.digests maxBytes (r.key field)
        ≠ foldName srv.digests maxBytes (r'.key field') := by
    intro r r' field field' hfield hle hlt heq
    obtain ⟨c, hlast, hhex⟩ := getLast_foldName_of_lt srv.digests (Nat.lt_of_not_le hlt)
    rw [← heq, foldName_of_le _ hle] at hlast
    rw [getLast_key r hfield hlast] at hhex
    cases hhex
  by_cases hle : byteLength (r.key field) ≤ maxBytes
  · by_cases hle' : byteLength (r'.key field') ≤ maxBytes
    · rwa [foldName_of_le _ hle, foldName_of_le _ hle'] at heq
    · exact absurd heq (hmixed hfield hle hle')
  · by_cases hle' : byteLength (r'.key field') ≤ maxBytes
    · exact absurd heq.symm (hmixed hfield' hle' hle)
    · obtain ⟨kept, hlist, -⟩ := toList_foldName_of_lt srv.digests (Nat.lt_of_not_le hle)
      obtain ⟨kept', hlist', -⟩ := toList_foldName_of_lt srv.digests (Nat.lt_of_not_le hle')
      have hchars := congrArg String.toList heq
      rw [hlist, hlist'] at hchars
      have hlen : ('~' :: (srv.digests.short (r.key field)).toList).length
          = ('~' :: (srv.digests.short (r'.key field')).toList).length := by
        rw [List.length_cons, List.length_cons, srv.digests.length_short, srv.digests.length_short]
      have hshort := (List.append_inj' hchars hlen).2
      exact h.short_inj r hr r' hr' field hfield field' hfield'
        (String.toList_inj.1 (List.cons.inj hshort).2)

theorem eq_of_location {srv : Server} {records : List Record} (h : Identified srv records)
    (hr : r ∈ records) (hr' : r' ∈ records)
    (hfield : field ∈ blobFields) (hfield' : field' ∈ blobFields) {a a' : Address}
    (ha : writeAddress srv.digests r.sessionId (r.key field) = some a)
    (ha' : writeAddress srv.digests r'.sessionId (r'.key field') = some a')
    (hplace : (a.session, a.filename) = (a'.session, a'.filename)) : r = r' ∧ field = field' := by
  obtain rfl : a = a' := Address.eq_of_filename (Prod.mk.inj hplace).1 (Prod.mk.inj hplace).2
  have hkey : r.key field = r'.key field' := by
    rcases (writeAddress_eq_some ha).2 with ⟨-, hmap, hname⟩ | ⟨-, hmap, hname⟩
    · rcases (writeAddress_eq_some ha').2 with ⟨-, -, hname'⟩ | ⟨-, hmap', -⟩
      · exact key_eq_of_foldName h hr hr' hfield hfield' (hname.symm.trans hname')
      · rw [hmap] at hmap'
        cases hmap'
    · rcases (writeAddress_eq_some ha').2 with ⟨-, hmap', -⟩ | ⟨-, -, hname'⟩
      · rw [hmap] at hmap'
        cases hmap'
      · exact h.full_inj r hr r' hr' field hfield field' hfield' (hname.symm.trans hname')
  obtain ⟨hidentity, hsame⟩ := key_inj (h.form r hr) (h.form r' hr') hfield hfield' hkey
  exact ⟨h.distinct r hr r' hr' hidentity, hsame⟩

/-! ## Runs -/

/-- The URI is that of a field of the record, and its file holds the value received. -/
def Stored (srv : Server) (files : Files) (r : Record) (field uri : String) : Prop :=
  ∃ value text a, r.data.get field = some value ∧ srv.codec.dumps value = some text
    ∧ writeAddress srv.digests r.sessionId (r.key field) = some a ∧ uri = a.uri
    ∧ files (a.session, a.filename) = some text

theorem Stored.read {srv : Server} {files : Files} {r : Record} {field uri : String}
    (h : Stored srv files r field uri) :
    ∃ value, r.data.get field = some value ∧ srv.read files uri = .ok value := by
  obtain ⟨value, text, a, hval, hdump, haddr, rfl, hfile⟩ := h
  refine ⟨value, hval, ?_⟩
  simp only [Server.read, readCandidates_written haddr, List.findSome?_cons, hfile,
    srv.codec.load_dumps hdump]

section Write

variable {srv : Server} {files : Files} {fault : Option WriteFault}
  {value : Json}

theorem write_files (srv : Server) (files : Files) (fault : Option WriteFault)
    (sid key : String) (value : Json) :
    (srv.write files fault sid key value).2 = files
      ∨ ∃ a text, writeAddress srv.digests sid key = some a
        ∧ srv.codec.dumps value = some text
        ∧ (srv.write files fault sid key value).2 = files.put a text := by
  unfold Server.write
  split
  · exact .inl rfl
  · exact .inl rfl
  · exact .inl rfl
  · rename_i a text _ haddr hdump
    exact .inr ⟨a, text, haddr, hdump, rfl⟩
  · rename_i a text haddr hdump
    exact .inr ⟨a, text, haddr, hdump, rfl⟩

theorem stored_of_write {uri : String} (hval : r.data.get field = some value)
    (h : (srv.write files fault r.sessionId (r.key field) value).1 = .ok uri) :
    Stored srv (srv.write files fault r.sessionId (r.key field) value).2 r field uri := by
  unfold Server.write at h ⊢
  split at h
  · cases h
  · cases h
  · cases h
  · cases h
  · rename_i a text haddr hdump
    cases h
    exact ⟨value, text, a, hval, hdump, haddr, rfl, Function.update_self ..⟩

theorem Stored.write {records : List Record} (h : Identified srv records) (hr : r ∈ records)
    (hfield : field ∈ blobFields) (hval : r.data.get field = some value) {r' : Record}
    (hr' : r' ∈ records) {field' uri : String} (hfield' : field' ∈ blobFields)
    (hstore : Stored srv files r' field' uri) :
    Stored srv (srv.write files fault r.sessionId (r.key field) value).2 r' field' uri := by
  rcases write_files srv files fault r.sessionId (r.key field) value with hsame | hput
  · rwa [hsame]
  · obtain ⟨a, text, haddr, hdump, hput⟩ := hput
    obtain ⟨value', text', a', hval', hdump', haddr', huri, hfile⟩ := hstore
    refine ⟨value', text', a', hval', hdump', haddr', huri, ?_⟩
    rw [hput, Files.put]
    by_cases hplace : (a'.session, a'.filename) = (a.session, a.filename)
    · obtain ⟨rfl, rfl⟩ := eq_of_location h hr' hr hfield' hfield haddr' haddr hplace
      rw [hval] at hval'
      obtain rfl := Option.some.inj hval'
      rw [hplace, Function.update_self, ← hdump, hdump']
    · rw [Function.update_of_ne hplace, hfile]

end Write

/-- What holds of a dispatch: the fields still to be looked at are as received, and the references
put in place of the others are stored. -/
structure Dispatch.Inv (srv : Server) (records : List Record) (files : Files) (d : Dispatch) :
    Prop where
  mem : d.record ∈ records
  nodup : d.rest.Nodup
  fields : ∀ field ∈ d.rest, field ∈ blobFields
  pending : ∀ field ∈ d.rest, d.data.get field = d.record.data.get field
  done : ∀ field ∈ blobFields, field ∉ d.rest → ∀ uri,
    d.data.get field = some (reference uri) → Stored srv files d.record field uri

/-- The condition on the actions of a run: only the given records are dispatched. -/
def Action.Of (records : List Record) : Action → Prop
  | .start record _ => record ∈ records
  | .field _ _ => True

section Steps

variable {srv : Server} {records : List Record} {files : Files} {d : Dispatch}

theorem Dispatch.inv_start {record : Record} (hrec : record ∈ records) {data : Payload}
    (hlift : liftRawFields record.data = .ok data) {order : List String}
    (hord : order.Perm blobFields) : Dispatch.Inv srv records files ⟨record, data, order⟩ where
  mem := hrec
  nodup := hord.nodup_iff.2 (by decide)
  fields := fun field hfield => hord.mem_iff.1 hfield
  pending := fun field hfield => by
    have hblob : ∀ field ∈ blobFields, field ∉ ["stop_reason", "finish_reason", "usage"] := by
      decide
    exact get_liftRawFields (hblob field (hord.mem_iff.1 hfield)) hlift
  done := fun field hfield hdone => absurd (hord.mem_iff.2 hfield) hdone

theorem Dispatch.Inv.stored (hrecords : Identified srv records) (h : d.Inv srv records files)
    (fault : Option WriteFault) {r : Record} (hr : r ∈ records) {field uri : String}
    (hfield : field ∈ blobFields) (hstore : Stored srv files r field uri) :
    Stored srv (processField srv files fault d).1 r field uri := by
  unfold processField
  split
  · exact hstore
  · rename_i next rest hrest
    have hnext : next ∈ d.rest := hrest ▸ List.mem_cons_self
    dsimp only
    split
    · exact hstore
    · exact hstore
    · rename_i value _ hval
      rw [h.pending next hnext] at hval
      exact hstore.write hrecords h.mem (h.fields next hnext) hval hr hfield

theorem get_offload_self {outcome : String → NodeId → Json → Except String String}
    {sid nodeId : NodeId} {data : Payload} {field uri : String}
    (h : (offload outcome sid nodeId data field).get field = some (reference uri)) :
    ∃ value, data.get field = some value ∧ value ≠ .null
      ∧ outcome sid (nodeId ++ "__" ++ field) value = .ok uri := by
  unfold offload at h
  split at h
  · rename_i hnone
    rw [hnone] at h
    cases h
  · rename_i hnull
    rw [hnull] at h
    cases h
  · rename_i value hne hval
    refine ⟨value, hval, hne, ?_⟩
    dsimp only at h
    rw [Payload.get, Assoc.get_set_self] at h
    split at h
    · rename_i found hfound
      cases h
      exact hfound
    · simp [reference] at h

theorem Dispatch.Inv.processField (hrecords : Identified srv records)
    (h : d.Inv srv records files) (fault : Option WriteFault) :
    (processField srv files fault d).2.Inv srv records (processField srv files fault d).1 := by
  cases hrest : d.rest with
  | nil =>
    have hstay : Offload.processField srv files fault d = (files, d) := by
      simp only [Offload.processField, hrest]
    rw [hstay]
    exact h
  | cons field rest =>
    have hfield : field ∈ d.rest := hrest ▸ List.mem_cons_self
    have hround : (Offload.processField srv files fault d).2
        = ⟨d.record, offload (fun sid key value =>
            (srv.write files fault sid key value).1) d.record.sessionId d.record.nodeId
              d.data field, rest⟩ := by
      simp only [Offload.processField, hrest]
    obtain ⟨hnotin, hnodup⟩ := List.nodup_cons.1 (hrest ▸ h.nodup)
    have hother : ∀ f ∈ rest, f ∈ d.rest := fun f hf => hrest ▸ List.mem_cons_of_mem _ hf
    rw [hround]
    refine ⟨h.mem, hnodup, fun f hf => h.fields f (hother f hf), fun f hf => ?_,
      fun f hf hdone uri href => ?_⟩
    · have hne : field ≠ f := fun heq => hnotin (heq ▸ hf)
      dsimp only
      exact (get_offload_of_ne hne _).trans (h.pending f (hother f hf))
    · dsimp only at hdone href
      by_cases hsame : f = field
      · subst hsame
        obtain ⟨value, hval, hnull, houtcome⟩ := get_offload_self href
        have hfiles : (Offload.processField srv files fault d).1
            = (srv.write files fault d.record.sessionId (d.record.key f) value).2 := by
          simp only [Offload.processField, hrest, hval]
        rw [hfiles]
        exact stored_of_write ((h.pending f hfield).symm.trans hval) houtcome
      · have hold : f ∉ d.rest := by
          rw [hrest, List.mem_cons, not_or]
          exact ⟨hsame, hdone⟩
        rw [get_offload_of_ne (Ne.symm hsame)] at href
        exact h.stored hrecords fault h.mem hf (h.done f hf hold uri href)

theorem inv_step (hrecords : Identified srv records) (s : State) (a : Action)
    (h : ∀ d ∈ s.dispatches, d.Inv srv records s.files) (ha : a.Of records) :
    ∀ d ∈ (step srv s a).dispatches, d.Inv srv records (step srv s a).files := by
  cases a with
  | start record order =>
    simp only [step]
    split
    · rename_i data hlift
      intro d hd
      rcases List.mem_append.1 hd with hd | hd
      · exact h d hd
      · rw [List.mem_singleton.1 hd]
        exact Dispatch.inv_start ha hlift order.property
    · exact h
  | field i fault =>
    simp only [step]
    split
    · exact h
    · rename_i d hd
      have hinv := h d (List.mem_of_getElem? hd)
      intro d' hd'
      rcases List.mem_or_eq_of_mem_set hd' with hd' | rfl
      · have hinv' := h d' hd'
        exact ⟨hinv'.mem, hinv'.nodup, hinv'.fields, hinv'.pending, fun f hf hdone uri href =>
          hinv.stored hrecords fault hinv'.mem hf (hinv'.done f hf hdone uri href)⟩
      · exact hinv.processField hrecords fault

theorem inv_run (hrecords : Identified srv records) {s : State} {actions : List Action}
    (h : ∀ d ∈ s.dispatches, d.Inv srv records s.files) (hactions : ∀ a ∈ actions, a.Of records) :
    ∀ d ∈ (run (step srv) s actions).dispatches,
      d.Inv srv records (run (step srv) s actions).files := by
  induction actions generalizing s with
  | nil => exact h
  | cons a actions ih =>
    obtain ⟨ha, hrest⟩ := List.forall_mem_cons.1 hactions
    exact ih (inv_step hrecords s a h ha) hrest

end Steps

/-- In every run over records with identities of their own, from any files, each reference that
processing has put in place of a field reads back the value the field was received with. -/
theorem reference_reads_back (srv : Server) (records : List Record)
    (hrecords : Identified srv records) (files : Files) (actions : List Action)
    (hactions : ∀ a ∈ actions, a.Of records) :
    ∀ d ∈ (run (step srv) ⟨files, []⟩ actions).dispatches, ∀ field ∈ blobFields, field ∉ d.rest →
      ∀ uri, d.data.get field = some (reference uri) →
        ∃ value, d.record.data.get field = some value
          ∧ srv.read (run (step srv) ⟨files, []⟩ actions).files uri = .ok value := by
  intro d hd field hfield hdone uri href
  have hnone : ∀ d ∈ (⟨files, []⟩ : State).dispatches, d.Inv srv records files :=
    fun d hd => absurd hd List.not_mem_nil
  have hinv := inv_run hrecords hnone hactions d hd
  exact (hinv.done field hfield hdone uri href).read

/-- A number for the field of a key and the session it begins with. -/
def keyNumber (key : String) : Nat :=
  2 * blobFields.findIdx (fun field => field.toList.isSuffixOf key.toList)
    + if key.toList.head? = some 't' then 1 else 0

def digitOf (key : String) : Char := Nat.digitChar (keyNumber key % 16)

theorem isHexChar_digitOf (key : String) : isHexChar (digitOf key) = true :=
  (by decide : ∀ n < 16, isHexChar (Nat.digitChar n) = true) _ (Nat.mod_lt _ (by decide))

def sampleDigests : Digests where
  short := fun key => String.ofList (digitOf key :: List.replicate 15 '0')
  full := fun key => String.ofList (digitOf key :: List.replicate 63 '0')
  length_short := fun key => by
    rw [String.toList_ofList, List.length_cons, List.length_replicate]
  hex_short := fun key c hc => by
    rw [String.toList_ofList] at hc
    rcases List.mem_cons.1 hc with rfl | hc
    · exact isHexChar_digitOf _
    · rw [(List.mem_replicate.1 hc).2]
      rfl
  hex_full := fun key => by
    have hdigit := isHexChar_digitOf key
    simp only [isHexChar] at hdigit
    simp [isHex64, List.all_cons, hdigit, ← String.length_toList]

def sampleCodec : JsonCodec where
  dumps
    | .str text => some text
    | _ => none
  load := fun text => some (.str text)
  load_dumps := fun {value text} h => by
    cases value <;> simp_all

def sampleServer : Server := ⟨sampleDigests, sampleCodec⟩

def sampleRecord : Record where
  sessionId := "s"
  name := "tool:post"
  epoch := 0
  identity := "new-00000000000000000000000000000000"
  data := [("raw", .str "payload")]

def otherRecord : Record where
  sessionId := "t"
  name := "tool:post"
  epoch := 0
  identity := "new-00000000000000000000000000000001"
  data := [("raw", .str "other")]

/-- The record is dispatched and loses its first write; a record of another session is dispatched
and written; then the first one is dispatched again. -/
def redispatched : List Action :=
  let order := ⟨blobFields, List.Perm.refl _⟩
  [.start sampleRecord order, .field 0 (some (.after "disk")), .start otherRecord order,
    .field 1 none, .start sampleRecord order, .field 2 none]

/-- The only member of the object that a field of a dispatch holds, and the fields to come. -/
def Dispatch.member (field : String) (d : Dispatch) : Option (String × String × List String) :=
  match d.data.get field with
  | some (.obj [(name, .str text)]) => some (name, text, d.rest)
  | _ => none

theorem get_of_member {field name text : String} {d : Dispatch} {rest : List String}
    (h : d.member field = some (name, text, rest)) :
    d.data.get field = some (.obj [(name, .str text)]) ∧ d.rest = rest := by
  unfold Dispatch.member at h
  split at h
  · rename_i hget
    cases h
    exact ⟨hget, rfl⟩
  · cases h

def sampleUri : String := "ci-blob://s/s__tool_post__0__new-00000000000000000000000000000000__raw"

theorem redispatched_reads_back :
    ∃ d ∈ (run (step sampleServer) ⟨fun _ => none, []⟩ redispatched).dispatches,
      d.data.get "raw" = some (reference sampleUri)
      ∧ sampleServer.read (run (step sampleServer) ⟨fun _ => none, []⟩ redispatched).files sampleUri
          = .ok (.str "payload") := by
  have hrecords : Identified sampleServer [sampleRecord, otherRecord] := by
    refine ⟨by decide, ?_, ?_, ?_⟩
    · intro r hr r' hr' heq
      simp only [List.mem_cons, List.not_mem_nil, or_false] at hr hr'
      rcases hr with rfl | rfl <;> rcases hr' with rfl | rfl <;>
        first | rfl | exact absurd heq (by decide)
    all_goals
      simp only [List.forall_mem_cons, List.not_mem_nil, false_imp_iff, implies_true, and_true]
      decide +kernel
  have hactions : ∀ a ∈ redispatched, a.Of [sampleRecord, otherRecord] := by
    simp only [redispatched, List.forall_mem_cons]
    exact ⟨List.mem_cons_self, trivial, List.mem_cons_of_mem _ List.mem_cons_self, trivial,
      List.mem_cons_self, trivial, nofun⟩
  have hlast : (run (step sampleServer) ⟨fun _ => none, []⟩ redispatched).dispatches[2]?.bind
      (Dispatch.member "raw") = some ("$blob_ref", sampleUri, blobFields.tail) := by decide +kernel
  obtain ⟨d, hd, hmember⟩ := Option.bind_eq_some_iff.1 hlast
  have hmem := List.mem_of_getElem? hd
  obtain ⟨href, hrest⟩ := get_of_member hmember
  have hdone : "raw" ∉ d.rest := hrest ▸ (by decide)
  obtain ⟨value, hvalue, hread⟩ := reference_reads_back sampleServer _ hrecords (fun _ => none)
    redispatched hactions d hmem "raw" (by decide) hdone sampleUri href
  -- the third dispatch is one of the first record
  have hfirst : d.record.sessionId = "s" := by
    have hthird : (run (step sampleServer) ⟨fun _ => none, []⟩ redispatched).dispatches[2]?.map
        (·.record.sessionId) = some "s" := by decide +kernel
    rwa [hd, Option.map_some, Option.some.injEq] at hthird
  have hrecord := (inv_run hrecords (fun d hd => absurd hd List.not_mem_nil) hactions d hmem).mem
  simp only [List.mem_cons, List.not_mem_nil, or_false] at hrecord
  rcases hrecord with heq | heq <;> rw [heq] at hvalue hfirst
  · obtain rfl := Option.some.inj hvalue
    exact ⟨d, hmem, href, hread⟩
  · exact absurd hfirst (by decide)

end ContextIntelligence.Blobs.Offload
