import ContextIntelligence.Blobs.Disk
import ContextIntelligence.Lib.Folding

/-!
# Names of blobs

`blob_keys` maps the session and the logical name of a blob to its directory and file, prints the
address as a URI, and finds the candidate files of a URI. Names are sequences of Unicode characters:
`write_address` refuses a lone surrogate.
-/

namespace ContextIntelligence.Blobs

open Lib.Folding

/-! ## Folding -/

def isHexChar (c : Char) : Bool := c.isDigit || ('a' ≤ c && c ≤ 'f')

/-- The digests of names: the first 16 characters of the hexadecimal sha256 of a name, and the whole
digest of a name behind `_DIGEST_DOMAIN`. -/
structure Digests where
  short : String → String
  full : String → String
  length_short : ∀ value, (short value).toList.length = 16
  hex_short : ∀ value, ∀ c ∈ (short value).toList, isHexChar c = true
  hex_full : ∀ value, isHex64 (full value) = true

def byteLength (value : String) : Nat := total Char.utf8Size value.toList

/-- The characters that `fold_name` replaces. -/
def cleanChar (c : Char) : Char := if c = '/' ∨ c = '\\' ∨ c = '\x00' then '_' else c

def Digests.mark (d : Digests) (value : List Char) : List Char :=
  '~' :: (d.short (String.ofList value)).toList

/-- `fold_name`. -/
def foldName (d : Digests) (maxBytes : Nat) (value : String) : String :=
  String.ofList (fold Char.utf8Size cleanChar d.mark maxBytes value.toList)

def MAX_SESSION_BYTES : Nat := 255

def MAX_KEY_BYTES : Nat := 242

def MAX_PHYSICAL_KEY_BYTES : Nat := 250

/-! ## Addresses -/

/-- `BlobAddress(session, name, mapped)`: `none` is the `ValueError` of `__post_init__`. -/
def blobAddress (session name : String) (mapped : Bool) : Option Address :=
  if h : isComponent session = true
      ∧ (if mapped then isHex64 name else isOrdinaryStem name) = true then
    some ⟨session, name, mapped, h.1, h.2⟩
  else none

def isReserved (name : String) : Bool := ["", ".", "..", LOCK, METADATA].contains name

/-- `write_address`: `none` is a `ValueError`. -/
def writeAddress (d : Digests) (sessionId logicalName : String) : Option Address :=
  if isComponent sessionId then
    let session := foldName d MAX_SESSION_BYTES sessionId
    if isReserved logicalName then none
    else if isComponent logicalName then
      blobAddress session (foldName d MAX_KEY_BYTES logicalName) false
    else blobAddress session (d.full logicalName) true
  else none

def SCHEME : String := "ci-blob://"

/-- `exact_address`. -/
def exactAddress (uri : String) : Option Address :=
  if SCHEME.toList.isPrefixOf uri.toList then
    match (uri.toList.drop SCHEME.toList.length).splitOn '/' with
    | [session, name] => blobAddress (String.ofList session) (String.ofList name) false
    | [session, marker, digest] =>
      if String.ofList marker = MAPPED_MARKER then
        blobAddress (String.ofList session) (String.ofList digest) true
      else none
    | _ => none
  else none

/-- `address_from_filename`: `none` is a `ValueError`, `some none` a file that is no blob. -/
def addressFromFilename (session filename : String) : Option (Option Address) :=
  let chars := filename.toList
  let lead := MAPPED_MARKER.toList ++ "~".toList
  let digest := (chars.drop lead.length).take 64
  if ".json".toList.isSuffixOf chars then
    (blobAddress session (String.ofList (chars.take (chars.length - 5))) false).map some
  else if chars = lead ++ digest ++ ".blob".toList ∧ isHex64 (String.ofList digest) then
    (blobAddress session (String.ofList digest) true).map some
  else some none

/-- `parse_address`. -/
def parseAddress (d : Digests) (uri : String) : Option Address :=
  (exactAddress uri).bind fun addr =>
    let session := foldName d MAX_SESSION_BYTES addr.session
    if addr.mapped then blobAddress session addr.name true
    else blobAddress session (foldName d MAX_KEY_BYTES addr.name) false

/-- `legacy_addresses`: the exact name where it fits, then the folded one. -/
def legacyAddresses (d : Digests) (sessionId logicalName : String) : Option (List Address) :=
  if isComponent sessionId then
    let session := foldName d MAX_SESSION_BYTES sessionId
    if isReserved logicalName then some []
    else
      let stems := (if byteLength logicalName ≤ MAX_PHYSICAL_KEY_BYTES then [logicalName] else [])
        ++ [foldName d MAX_KEY_BYTES logicalName]
      some (stems.filterMap fun stem => blobAddress session stem false).eraseDups
  else none

/-- `read_candidates`. -/
def readCandidates (d : Digests) (uri : String) : Option (List Address) := do
  let addr ← exactAddress uri
  if addr.mapped then
    let address ← parseAddress d uri
    return [address]
  let canonical ← writeAddress d addr.session addr.name
  let legacy ← legacyAddresses d addr.session addr.name
  return (legacy ++ [canonical]).eraseDups

/-! ## Characters -/

/-- The test of `component` for one character. -/
def isSafeChar (c : Char) : Bool := c != '/' && c != '\\' && 32 ≤ c.toNat && c.toNat != 127

theorem isComponent_iff (value : String) : isComponent value = true
    ↔ value ≠ "" ∧ value ∉ [".", "..", LOCK, METADATA]
      ∧ ∀ c ∈ value.toList, isSafeChar c = true := by
  simp only [isComponent, isSafeChar, Bool.and_eq_true, bne_iff_ne, ne_eq, Bool.not_eq_true',
    List.contains_eq_mem, decide_eq_false_iff_not, List.all_eq_true, and_assoc]

variable {c : Char}

theorem hexChar_bounds (h : isHexChar c = true) : 48 ≤ c.toNat ∧ c.toNat ≤ 102 := by
  simp only [isHexChar, Char.isDigit, Bool.or_eq_true, Bool.and_eq_true, decide_eq_true_eq,
    ge_iff_le] at h
  simp only [UInt32.le_iff_toNat_le, Char.le_def] at h
  have hval : c.toNat = c.val.toNat := rfl
  rcases h with ⟨hlow, hhigh⟩ | ⟨hlow, hhigh⟩
  · have h0 : ('0' : Char).val.toNat = 48 := rfl
    have h9 : ('9' : Char).val.toNat = 57 := rfl
    omega
  · have ha : ('a' : Char).val.toNat = 97 := rfl
    have hf : ('f' : Char).val.toNat = 102 := rfl
    omega

theorem utf8Size_hexChar (h : isHexChar c = true) : c.utf8Size = 1 := by
  have hbound := hexChar_bounds h
  rw [Char.utf8Size_eq_one_iff]
  rw [UInt32.le_iff_toNat_le]
  exact Nat.le_trans hbound.2 (by decide)

theorem isSafeChar_hexChar (h : isHexChar c = true) : isSafeChar c = true := by
  have hbound := hexChar_bounds h
  have hslash : c ≠ '/' := by
    rintro rfl
    exact absurd h (by decide)
  have hback : c ≠ '\\' := by
    rintro rfl
    exact absurd h (by decide)
  simp only [isSafeChar, Bool.and_eq_true, bne_iff_ne, ne_eq, decide_eq_true_eq]
  refine ⟨⟨⟨hslash, hback⟩, ?_⟩, ?_⟩ <;> omega

theorem cleanChar_of_safe (h : isSafeChar c = true) : cleanChar c = c := by
  simp only [isSafeChar, Bool.and_eq_true, bne_iff_ne, ne_eq, decide_eq_true_eq] at h
  rw [cleanChar, if_neg]
  rintro (rfl | rfl | rfl)
  · exact h.1.1.1 rfl
  · exact h.1.1.2 rfl
  · exact absurd h.1.2 (by decide)

theorem utf8Size_cleanChar (c : Char) : (cleanChar c).utf8Size = c.utf8Size := by
  rw [cleanChar]
  split
  · rename_i h
    rcases h with rfl | rfl | rfl <;> rfl
  · rfl

/-! ## Folded names -/

section Fold

variable (d : Digests) {maxBytes : Nat} {value : String}

theorem total_mark (name : List Char) : total Char.utf8Size (d.mark name) = 17 := by
  have hones : ∀ chars : List Char, (∀ c ∈ chars, isHexChar c = true) →
      total Char.utf8Size chars = chars.length := by
    intro chars hchars
    induction chars with
    | nil => rfl
    | cons c chars ih =>
      have hc := utf8Size_hexChar (hchars c List.mem_cons_self)
      have hrest := ih fun c' hc' => hchars c' (List.mem_cons_of_mem _ hc')
      simp only [total, List.map_cons, List.sum_cons, List.length_cons] at hrest ⊢
      omega
  have hhex := hones _ (d.hex_short (String.ofList name))
  rw [d.length_short] at hhex
  have htilde : ('~' : Char).utf8Size = 1 := rfl
  simp only [total, Digests.mark, List.map_cons, List.sum_cons, htilde] at hhex ⊢
  omega

theorem foldName_of_le (h : byteLength value ≤ maxBytes) : foldName d maxBytes value = value := by
  rw [foldName, fold_of_le h, String.ofList_toList]

theorem byteLength_foldName_le (hmax : 17 ≤ maxBytes) (value : String) :
    byteLength (foldName d maxBytes value) ≤ maxBytes := by
  rw [byteLength, foldName, String.toList_ofList]
  exact total_fold_le utf8Size_cleanChar (fun name => by rw [total_mark]; exact hmax) _

theorem toList_foldName_of_lt (h : maxBytes < byteLength value) :
    ∃ kept : List Char, (foldName d maxBytes value).toList
        = kept.map cleanChar ++ '~' :: (d.short value).toList
      ∧ ∀ c ∈ kept, c ∈ value.toList := by
  refine ⟨takeWithin Char.utf8Size (maxBytes - 17) value.toList, ?_, ?_⟩
  · have hover : ¬ total Char.utf8Size value.toList ≤ maxBytes := Nat.not_le.2 h
    rw [foldName, String.toList_ofList, fold, if_neg hover, total_mark, Digests.mark,
      String.ofList_toList]
  · intro c hc
    exact (takeWithin_sublist _ _).subset hc

theorem getLast_foldName_of_lt (h : maxBytes < byteLength value) :
    ∃ c, (foldName d maxBytes value).toList.getLast? = some c ∧ isHexChar c = true := by
  obtain ⟨kept, hlist, -⟩ := toList_foldName_of_lt d h
  have hne : (d.short value).toList ≠ [] := by
    intro hnil
    have hlen := d.length_short value
    rw [hnil] at hlen
    cases hlen
  refine ⟨(d.short value).toList.getLast hne, ?_, d.hex_short _ _ (List.getLast_mem hne)⟩
  rw [hlist, List.getLast?_append_cons, List.getLast?_cons]
  rw [List.getLast?_eq_some_getLast hne]
  rfl

theorem isComponent_foldName (h : isComponent value = true) :
    isComponent (foldName d maxBytes value) = true := by
  by_cases hle : byteLength value ≤ maxBytes
  · rwa [foldName_of_le d hle]
  · obtain ⟨c, hlast, hhex⟩ := getLast_foldName_of_lt d (Nat.lt_of_not_le hle)
    obtain ⟨kept, hlist, hkept⟩ := toList_foldName_of_lt d (Nat.lt_of_not_le hle)
    have hsafe := ((isComponent_iff value).1 h).2.2
    have hnot : ∀ name : String, name.toList.getLast?.any isHexChar = false →
        foldName d maxBytes value ≠ name := by
      rintro name hname rfl
      rw [hlast, Option.any_some, hhex] at hname
      cases hname
    rw [isComponent_iff]
    refine ⟨hnot "" (by decide), ?_, ?_⟩
    · simp only [List.mem_cons, List.not_mem_nil, or_false, not_or]
      exact ⟨hnot _ (by decide), hnot _ (by decide), hnot _ (by decide), hnot _ (by decide)⟩
    · intro c' hc'
      rw [hlist] at hc'
      rcases List.mem_append.1 hc' with hc' | hc'
      · obtain ⟨c'', hc'', rfl⟩ := List.mem_map.1 hc'
        have hs := hsafe c'' (hkept c'' hc'')
        rw [cleanChar_of_safe hs]
        exact hs
      · rcases List.mem_cons.1 hc' with rfl | hc'
        · decide
        · exact isSafeChar_hexChar (d.hex_short _ _ hc')

end Fold

/-! ## Printed addresses -/

theorem blobAddress_self (a : Address) : blobAddress a.session a.name a.mapped = some a := by
  obtain ⟨session, name, mapped, hsess, hname⟩ := a
  rw [blobAddress, dif_pos ⟨hsess, hname⟩]

theorem blobAddress_eq_some {session name : String} {mapped : Bool} {a : Address}
    (h : blobAddress session name mapped = some a) :
    a.session = session ∧ a.name = name ∧ a.mapped = mapped := by
  by_cases hvalid : isComponent session = true
      ∧ (if mapped then isHex64 name else isOrdinaryStem name) = true
  · rw [blobAddress, dif_pos hvalid] at h
    obtain rfl := Option.some.inj h
    exact ⟨rfl, rfl, rfl⟩
  · rw [blobAddress, dif_neg hvalid] at h
    cases h

theorem not_slash_of_isSafeChar (h : isSafeChar c = true) : c ≠ '/' := by
  rintro rfl
  cases h

theorem slash_not_mem_session (a : Address) : '/' ∉ a.session.toList := fun hmem =>
  not_slash_of_isSafeChar (((isComponent_iff _).1 a.component).2.2 _ hmem) rfl

theorem slash_not_mem_name (a : Address) : '/' ∉ a.name.toList := by
  intro hmem
  have hstem := a.stem
  split at hstem
  · simp only [isHex64, Bool.and_eq_true, List.all_eq_true] at hstem
    have hslash := hstem.2 '/' hmem
    exact absurd hslash (by decide)
  · rw [isOrdinaryStem, isComponent_iff] at hstem
    have hslash := hstem.2.2 '/' (by
      rw [String.toList_map]
      exact List.mem_map.2 ⟨'/', hmem, rfl⟩)
    exact not_slash_of_isSafeChar hslash rfl

theorem exactAddress_uri (a : Address) : exactAddress a.uri = some a := by
  have hself := blobAddress_self a
  rw [exactAddress, Address.uri]
  cases hmap : a.mapped with
  | false =>
    have htext : ("ci-blob://" ++ a.session ++ "/" ++ a.name).toList
        = SCHEME.toList ++ ['/'].intercalate [a.session.toList, a.name.toList] := by
      simp [SCHEME, List.intercalate]
    have hslash : ∀ part ∈ [a.session.toList, a.name.toList], '/' ∉ part := by
      simp only [List.forall_mem_cons]
      exact ⟨slash_not_mem_session a, slash_not_mem_name a, nofun⟩
    rw [hmap] at hself
    simp only [Bool.false_eq_true, if_false]
    rw [htext, if_pos (List.isPrefixOf_iff_prefix.2 (List.prefix_append _ _)), List.drop_left,
      List.splitOn_intercalate '/' hslash nofun]
    simpa only [String.ofList_toList] using hself
  | true =>
    have htext : ("ci-blob://" ++ a.session ++ "/" ++ MAPPED_MARKER ++ "/" ++ a.name).toList
        = SCHEME.toList
          ++ ['/'].intercalate [a.session.toList, MAPPED_MARKER.toList, a.name.toList] := by
      simp [SCHEME, List.intercalate]
    have hslash : ∀ part ∈ [a.session.toList, MAPPED_MARKER.toList, a.name.toList],
        '/' ∉ part := by
      simp only [List.forall_mem_cons]
      exact ⟨slash_not_mem_session a, by decide, slash_not_mem_name a, nofun⟩
    rw [hmap] at hself
    simp only [if_true]
    rw [htext, if_pos (List.isPrefixOf_iff_prefix.2 (List.prefix_append _ _)), List.drop_left,
      List.splitOn_intercalate '/' hslash nofun]
    simpa only [String.ofList_toList, if_true] using hself

theorem addressFromFilename_filename (a : Address) :
    addressFromFilename a.session a.filename = some (some a) := by
  have hself := blobAddress_self a
  have hstem := a.stem
  rw [Address.filename]
  cases hmap : a.mapped with
  | false =>
    rw [hmap] at hself
    simp [addressFromFilename, String.toList_append, hself]
  | true =>
    rw [hmap] at hself hstem
    have hlen : a.name.toList.length = 64 := by
      simp only [isHex64, if_true, Bool.and_eq_true, beq_iff_eq] at hstem
      rw [String.length_toList]
      exact hstem.1
    have hjson : ".json".toList.isSuffixOf
        (MAPPED_MARKER ++ "~" ++ a.name ++ ".blob").toList = false := by
      rw [Bool.eq_false_iff, ne_eq, List.isSuffixOf_iff_suffix, String.toList_append]
      rintro ⟨front, hfront⟩
      exact absurd (List.append_inj_right' hfront rfl) (by decide)
    have hdigest : ((MAPPED_MARKER ++ "~" ++ a.name ++ ".blob").toList.drop
        (MAPPED_MARKER.toList ++ "~".toList).length).take 64 = a.name.toList := by
      rw [String.toList_append, String.toList_append, String.toList_append, List.append_assoc,
        List.drop_left, List.take_left' hlen]
    simp only [addressFromFilename, if_true, hjson, hdigest, String.ofList_toList]
    rw [if_neg Bool.false_ne_true, if_pos ⟨by simp [String.toList_append], hstem⟩, hself]
    rfl

/-! ## Written addresses -/

theorem isReserved_eq_false {name : String} (h : isComponent name = true) :
    isReserved name = false := by
  obtain ⟨hne, hnot, -⟩ := (isComponent_iff name).1 h
  simp only [isReserved, List.contains_eq_mem, decide_eq_false_iff_not, List.mem_cons, not_or]
  exact ⟨hne, by simpa using hnot⟩

theorem writeAddress_eq_some {d : Digests} {sid logicalName : String} {a : Address}
    (h : writeAddress d sid logicalName = some a) :
    a.session = foldName d MAX_SESSION_BYTES sid
      ∧ ((isComponent logicalName = true ∧ a.mapped = false
            ∧ a.name = foldName d MAX_KEY_BYTES logicalName)
          ∨ (isComponent logicalName = false ∧ a.mapped = true ∧ a.name = d.full logicalName)) := by
  simp only [writeAddress] at h
  split at h
  · split at h
    · cases h
    · split at h
      · rename_i hname
        obtain ⟨hsess, hstem, hmap⟩ := blobAddress_eq_some h
        exact ⟨hsess, Or.inl ⟨hname, hmap, hstem⟩⟩
      · rename_i hname
        obtain ⟨hsess, hstem, hmap⟩ := blobAddress_eq_some h
        exact ⟨hsess, Or.inr ⟨Bool.eq_false_iff.2 hname, hmap, hstem⟩⟩
  · cases h

theorem readCandidates_written {d : Digests} {sid logicalName : String} {a : Address}
    (h : writeAddress d sid logicalName = some a) : readCandidates d a.uri = some [a] := by
  obtain ⟨hsess, hname⟩ := writeAddress_eq_some h
  have hfolds : foldName d MAX_SESSION_BYTES a.session = a.session := by
    apply foldName_of_le
    rw [hsess]
    exact byteLength_foldName_le d (by decide) _
  have hself := blobAddress_self a
  rcases hname with ⟨hcomp, hmap, hname⟩ | ⟨-, hmap, -⟩
  · have hstem : isComponent a.name = true := hname ▸ isComponent_foldName d hcomp
    have hshort : byteLength a.name ≤ MAX_KEY_BYTES := by
      rw [hname]
      exact byteLength_foldName_le d (by decide) _
    have hphysical : byteLength a.name ≤ MAX_PHYSICAL_KEY_BYTES := Nat.le_trans hshort (by decide)
    have hfold := foldName_of_le d hshort
    rw [hmap] at hself
    simp only [readCandidates, exactAddress_uri, writeAddress, legacyAddresses, hmap, a.component,
      hstem, isReserved_eq_false hstem, hfolds, hfold, hphysical, hself, if_true, if_false,
      Bool.false_eq_true, Option.bind_eq_bind, Option.bind_some, List.filterMap_append,
      List.filterMap_cons, List.filterMap_nil]
    simp [List.eraseDups_cons]
  · rw [hmap] at hself
    simp only [readCandidates, parseAddress, exactAddress_uri, hmap, hfolds, hself, if_true,
      Option.bind_eq_bind, Option.bind_some]
    rfl

theorem isOrdinaryStem_of_isComponent {name : String} (h : isComponent name = true) :
    isOrdinaryStem name = true := by
  have hmap : (name.map fun c => if c = '\\' then '_' else c) = name := by
    apply String.toList_inj.1
    rw [String.toList_map, List.map_congr_left (g := id), List.map_id]
    intro c hc
    have hsafe := ((isComponent_iff name).1 h).2.2 c hc
    apply if_neg
    rintro rfl
    cases hsafe
  rw [isOrdinaryStem, hmap]
  exact h

theorem exists_writeAddress (d : Digests) {sid logicalName : String} (hsid : isComponent sid = true)
    (hname : isReserved logicalName = false) : ∃ a, writeAddress d sid logicalName = some a := by
  have hsess : isComponent (foldName d MAX_SESSION_BYTES sid) = true := isComponent_foldName d hsid
  simp only [writeAddress, hsid, hname, if_true, Bool.false_eq_true, if_false]
  split
  · rename_i hcomp
    have hkey : isComponent (foldName d MAX_KEY_BYTES logicalName) = true :=
      isComponent_foldName d hcomp
    exact ⟨_, dif_pos ⟨hsess, isOrdinaryStem_of_isComponent hkey⟩⟩
  · exact ⟨_, dif_pos ⟨hsess, d.hex_full _⟩⟩

/-- Addresses, their URIs and their files determine each other, and what was written under a name is
the only candidate of a read. -/
theorem addresses_round_trip (d : Digests) :
    (∀ a : Address, exactAddress a.uri = some a
      ∧ addressFromFilename a.session a.filename = some (some a))
    ∧ (∀ a b : Address, a.session = b.session → a.filename = b.filename → a = b)
    ∧ ∀ sid logicalName, isComponent sid = true → isReserved logicalName = false →
      ∃ a, writeAddress d sid logicalName = some a ∧ readCandidates d a.uri = some [a] := by
  refine ⟨fun a => ⟨exactAddress_uri a, addressFromFilename_filename a⟩,
    fun a b => Address.eq_of_filename, ?_⟩
  intro sid logicalName hsid hname
  obtain ⟨a, ha⟩ := exists_writeAddress d hsid hname
  exact ⟨a, ha, readCandidates_written ha⟩

end ContextIntelligence.Blobs
