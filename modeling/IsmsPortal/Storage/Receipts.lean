import IsmsPortal.Audit.Stable
import IsmsPortal.Audit.Store
import IsmsPortal.Foundation.StableSort
import IsmsPortal.Foundation.Utf8

/-! # Upload receipts

An upload may carry a request id chosen by the client. The receipt of such an
upload is the id of the version it creates, a digest of the user and the request
id, and a fingerprint of everything that was sent. The bytes under both digests
are unambiguous: they determine the user and the id, and the fields up to their
order, the name, the type and the content of the file.
-/

namespace IsmsPortal

open Foundation

/-- What the runtime provides: a digest, lower case, and the collation of keys. -/
structure Platform where
  sha256 : List UInt8 → HexDigest
  toLowerCase : String → String
  localeCompare : String → String → Ordering

/-- A file of a multipart request. -/
structure MulterFile where
  originalname : String
  mimetype : String
  buffer : List UInt8
deriving DecidableEq

/-- An upload as it arrives: the user, the entries of the body and the file. -/
structure Upload where
  identity : String
  body : List (String × String)
  keys : (body.map Prod.fst).Nodup
  file : MulterFile
deriving DecidableEq

namespace Upload

variable (upload : Upload)

/-- A field that is present and not empty. -/
def field (name : String) : Option String :=
  ((upload.body.find? fun entry => entry.1 = name).map Prod.snd).filter (· ≠ "")

def uploadRequestId : Option String := upload.field "uploadRequestId"

/-- The entries under the fingerprint. -/
def fields : List (String × String) :=
  upload.body.filter fun entry => entry.1 ≠ "uploadRequestId"

/-- Two uploads sent the same value under every key but the request id, and the same name,
type and bytes of the file. -/
structure SameContent (other : Upload) : Prop where
  values : ∀ key value, key ≠ "uploadRequestId" →
    ((key, value) ∈ upload.body ↔ (key, value) ∈ other.body)
  originalname : upload.file.originalname = other.file.originalname
  mimetype : upload.file.mimetype = other.file.mimetype
  buffer : upload.file.buffer = other.file.buffer

theorem mem_fields {key value : String} :
    (key, value) ∈ upload.fields ↔ (key, value) ∈ upload.body ∧ key ≠ "uploadRequestId" := by
  simp [fields]

theorem fields_keys : (upload.fields.map Prod.fst).Nodup :=
  upload.keys.sublist (List.filter_sublist.map Prod.fst)

/-- The fields under the fingerprint are the same up to their order. -/
theorem sameContent_iff {other : Upload} :
    upload.SameContent other ↔ upload.fields.Perm other.fields ∧ upload.file = other.file := by
  rw [List.perm_ext_iff_of_nodup upload.fields_keys.of_map other.fields_keys.of_map]
  constructor
  · rintro ⟨hvalues, horiginalname, hmimetype, hbuffer⟩
    refine ⟨fun entry => ?_, ?_⟩
    · rw [mem_fields, mem_fields]
      exact and_congr_left fun hkey => hvalues entry.1 entry.2 hkey
    · cases hfile : upload.file
      cases hother : other.file
      simp only [hfile, hother] at horiginalname hmimetype hbuffer
      rw [horiginalname, hmimetype, hbuffer]
  · rintro ⟨hfields, hfile⟩
    refine ⟨fun key value hkey => ?_, by rw [hfile], by rw [hfile], by rw [hfile]⟩
    have hentry := hfields (key, value)
    rw [mem_fields, mem_fields] at hentry
    simpa [hkey] using hentry

instance (other : Upload) : Decidable (upload.SameContent other) :=
  decidable_of_iff _ upload.sameContent_iff.symm

end Upload

/-! ## Request ids -/

def isHexDigit (c : Char) : Bool :=
  c.isDigit || ('a' ≤ c ∧ c ≤ 'f') || ('A' ≤ c ∧ c ≤ 'F')

/-- The pattern of a random UUID, a class for each character. -/
def uuidPattern : List (Char → Bool) :=
  List.replicate 8 isHexDigit ++ (· == '-') :: List.replicate 4 isHexDigit ++
    (· == '-') :: (· == '4') :: List.replicate 3 isHexDigit ++
    (· == '-') :: ['8', '9', 'a', 'b', 'A', 'B'].contains :: List.replicate 3 isHexDigit ++
    (· == '-') :: List.replicate 12 isHexDigit

/-- Each character is in the class at its place. -/
def fitsPattern : List (Char → Bool) → List Char → Bool
  | [], [] => true
  | inClass :: pattern, c :: text => inClass c && fitsPattern pattern text
  | _, _ => false

def isUuid (text : String) : Bool := fitsPattern uuidPattern text.toList

theorem length_of_fitsPattern {pattern : List (Char → Bool)} {text : List Char}
    (hfits : fitsPattern pattern text = true) : text.length = pattern.length := by
  induction pattern generalizing text with
  | nil =>
      cases text with
      | nil => rfl
      | cons c text => cases hfits
  | cons inClass pattern ih =>
      cases text with
      | nil => cases hfits
      | cons c text =>
          simp only [fitsPattern, Bool.and_eq_true] at hfits
          rw [List.length_cons, List.length_cons, ih hfits.2]

/-! ## The receipt -/

structure UploadReceipt where
  id : String
  fingerprint : HexDigest
deriving DecidableEq

section Receipt

variable (platform : Platform)

/-- The text under the digest that names the version. -/
def receiptSource (identity uploadRequestId : String) : List Char :=
  (platform.toLowerCase identity).toList ++ '\x00' :: uploadRequestId.toList

/-- `hash.slice(start, stop)`. -/
def hexSlice (hash : HexDigest) (start stop : Nat) : List Char :=
  (hash.1.toList.drop start).take (stop - start)

/-- The digest in the form of a UUID. -/
def receiptId (identity uploadRequestId : String) : String :=
  let hash := platform.sha256 (Utf8.encode (receiptSource platform identity uploadRequestId))
  String.ofList (hexSlice hash 0 8 ++ '-' :: hexSlice hash 8 12 ++ '-' :: '4' ::
    hexSlice hash 13 16 ++ '-' :: '8' :: hexSlice hash 17 20 ++ '-' :: hexSlice hash 20 32)

variable (upload : Upload)

/-- The entries in the order of their keys. -/
def sortedFields : List (String × String) :=
  upload.fields.insertionSort fun left right => platform.localeCompare left.1 right.1 ≠ .gt

/-- The JSON value under the fingerprint. -/
def fingerprintValue : List Json :=
  [.arr ((sortedFields platform upload).map fun entry => .arr [.str entry.1, .str entry.2]),
    .str upload.file.originalname, .str upload.file.mimetype]

/-- The bytes under the fingerprint. Arrays of strings have one JSON text. -/
def fingerprintSource : List UInt8 :=
  Utf8.encode (stableText (.arr (fingerprintValue platform upload))) ++ upload.file.buffer

def uploadReceipt : Except String (Option UploadReceipt) :=
  match upload.uploadRequestId with
  | none => .ok none
  | some uploadRequestId =>
      if isUuid uploadRequestId then
        .ok (some ⟨receiptId platform upload.identity uploadRequestId,
          platform.sha256 (fingerprintSource platform upload)⟩)
      else .error "Invalid upload request ID"

end Receipt

/-! ## What the digests determine -/

section Injectivity

variable {platform : Platform} {upload other : Upload}

theorem uploadReceipt_eq_some {receipt : UploadReceipt}
    (hreceipt : uploadReceipt platform upload = .ok (some receipt)) :
    ∃ uploadRequestId, upload.uploadRequestId = some uploadRequestId ∧
      isUuid uploadRequestId = true ∧
      receipt.id = receiptId platform upload.identity uploadRequestId ∧
      receipt.fingerprint = platform.sha256 (fingerprintSource platform upload) := by
  unfold uploadReceipt at hreceipt
  split at hreceipt
  · cases hreceipt
  next uploadRequestId hid =>
    split at hreceipt
    next huuid =>
      cases hreceipt
      exact ⟨uploadRequestId, hid, huuid, rfl, rfl⟩
    next => cases hreceipt

theorem uploadReceipt_of_valid {uploadRequestId : String}
    (hid : upload.uploadRequestId = some uploadRequestId) (hvalid : isUuid uploadRequestId = true) :
    uploadReceipt platform upload = .ok (some ⟨receiptId platform upload.identity uploadRequestId,
      platform.sha256 (fingerprintSource platform upload)⟩) := by
  simp only [uploadReceipt, hid, hvalid, if_true]

/-- The text under the digest determines the user and the request id. -/
theorem receiptSource_injective {identity identity' id id' : String} (hid : isUuid id = true)
    (hid' : isUuid id' = true)
    (heq : receiptSource platform identity id = receiptSource platform identity' id') :
    platform.toLowerCase identity = platform.toLowerCase identity' ∧ id = id' := by
  have hlength : id.toList.length = id'.toList.length :=
    (length_of_fitsPattern hid).trans (length_of_fitsPattern hid').symm
  obtain ⟨hname, htail⟩ := List.append_inj' heq (by simp only [List.length_cons, hlength])
  exact ⟨String.toList_inj.mp hname, String.toList_inj.mp (List.cons.inj htail).2⟩

/-- The text of an entry determines its key and its value. -/
theorem entryText_injective : Function.Injective fun entry : String × String =>
    stableText (.arr [.str entry.1, .str entry.2]) := by
  intro left right heq
  obtain ⟨hitems, -⟩ := stableItems_split (congrArg (· ++ []) heq)
  simp only [stableItems, stableText, List.cons.injEq, and_true] at hitems
  exact Prod.ext (Json.quote_split (congrArg (· ++ []) hitems.1)).1
    (Json.quote_split (congrArg (· ++ []) hitems.2)).1

/-- The JSON text determines the entries, the name and the type. -/
theorem fingerprintValue_injective
    (heq : stableItems (fingerprintValue platform upload) =
      stableItems (fingerprintValue platform other)) :
    sortedFields platform upload = sortedFields platform other ∧
      upload.file.originalname = other.file.originalname ∧
      upload.file.mimetype = other.file.mimetype := by
  simp only [fingerprintValue, stableItems, List.cons.injEq, and_true] at heq
  obtain ⟨hfields, hname, htype⟩ := heq
  refine ⟨?_, ?_, ?_⟩
  · obtain ⟨hitems, -⟩ := stableItems_split (congrArg (· ++ []) hfields)
    rw [stableItems_eq_map, stableItems_eq_map, List.map_map, List.map_map] at hitems
    exact List.map_injective_iff.mpr entryText_injective hitems
  · exact (Json.quote_split (congrArg (· ++ []) hname)).1
  · exact (Json.quote_split (congrArg (· ++ []) htype)).1

/-- The bytes under the fingerprint determine what was sent. -/
theorem sameContent_of_fingerprintSource
    (heq : fingerprintSource platform upload = fingerprintSource platform other) :
    upload.SameContent other := by
  have hsplit : stableItems (fingerprintValue platform upload) =
      stableItems (fingerprintValue platform other) ∧
      upload.file.buffer = other.file.buffer := by
    -- One JSON text starts with the other; an array ends by itself, so nothing is left over.
    rcases Utf8.encode_split heq with ⟨more, hmore, hrest⟩ | ⟨more, hmore, hrest⟩
    · rw [← List.append_nil (stableText _)] at hmore
      obtain ⟨hitems, hnil⟩ := stableItems_split hmore
      rw [← hnil] at hrest
      exact ⟨hitems.symm, hrest⟩
    · rw [← List.append_nil (stableText _)] at hmore
      obtain ⟨hitems, hnil⟩ := stableItems_split hmore
      rw [← hnil] at hrest
      exact ⟨hitems, hrest.symm⟩
  obtain ⟨hfields, hname, htype⟩ := fingerprintValue_injective hsplit.1
  refine upload.sameContent_iff.mpr ⟨?_, ?_⟩
  · have hsorted := List.perm_insertionSort
      (fun left right : String × String => platform.localeCompare left.1 right.1 ≠ .gt)
    refine (hsorted upload.fields).symm.trans ?_
    change (sortedFields platform upload).Perm _
    rw [hfields]
    exact hsorted other.fields
  · cases hfile : upload.file
    cases hother : other.file
    rw [hfile, hother] at hname htype hsplit
    rw [MulterFile.mk.injEq]
    exact ⟨hname, htype, hsplit.2⟩

/-- Under an order of the keys that tells them apart, the same content gives the same bytes. -/
theorem fingerprintSource_eq_iff [Std.TransCmp platform.localeCompare]
    [Std.LawfulEqCmp platform.localeCompare] :
    fingerprintSource platform upload = fingerprintSource platform other ↔
      upload.SameContent other := by
  refine ⟨sameContent_of_fingerprintSource, ?_⟩
  intro hsame
  obtain ⟨hfields, hfile⟩ := upload.sameContent_iff.mp hsame
  have hsorted : sortedFields platform upload = sortedFields platform other :=
    StableSort.insertionSort_eq_of_perm
      (StableSort.ordersBy_notAfter Prod.fst platform.localeCompare) hfields upload.fields_keys
  rw [fingerprintSource, fingerprintSource, fingerprintValue, fingerprintValue, hsorted, hfile]

end Injectivity

/-! ## Collisions -/

/-- The two digests tell the given uploads apart. -/
structure CollisionFree (platform : Platform) (uploads : List Upload) : Prop where
  receipts : ∀ upload ∈ uploads, ∀ other ∈ uploads, ∀ id id',
    upload.uploadRequestId = some id → other.uploadRequestId = some id' →
    receiptId platform upload.identity id = receiptId platform other.identity id' →
    receiptSource platform upload.identity id = receiptSource platform other.identity id'
  fingerprints : ∀ upload ∈ uploads, ∀ other ∈ uploads,
    platform.sha256 (fingerprintSource platform upload) =
      platform.sha256 (fingerprintSource platform other) →
    fingerprintSource platform upload = fingerprintSource platform other

/-- Two uploads of one user with one request id and the same content. -/
def Upload.Repeats (upload : Upload) (platform : Platform) (other : Upload) : Prop :=
  platform.toLowerCase upload.identity = platform.toLowerCase other.identity ∧
    upload.uploadRequestId = other.uploadRequestId ∧ upload.SameContent other

/-- Equal receipts belong to repetitions of one upload. -/
theorem CollisionFree.repeats {platform : Platform} {uploads : List Upload}
    (hfree : CollisionFree platform uploads) {upload other : Upload} (hupload : upload ∈ uploads)
    (hother : other ∈ uploads) {receipt : UploadReceipt}
    (hreceipt : uploadReceipt platform upload = .ok (some receipt))
    (hreceipt' : uploadReceipt platform other = .ok (some receipt)) :
    upload.Repeats platform other := by
  obtain ⟨id, hid, huuid, hreceiptId, hprint⟩ := uploadReceipt_eq_some hreceipt
  obtain ⟨id', hid', huuid', hreceiptId', hprint'⟩ := uploadReceipt_eq_some hreceipt'
  have hsource := hfree.receipts upload hupload other hother id id' hid hid'
    (hreceiptId.symm.trans hreceiptId')
  obtain ⟨hidentity, rfl⟩ := receiptSource_injective huuid huuid' hsource
  refine ⟨hidentity, hid.trans hid'.symm, ?_⟩
  exact sameContent_of_fingerprintSource
    (hfree.fingerprints upload hupload other hother (hprint.symm.trans hprint'))

/-! ## Sample -/

/-- A user sends a report with a request id. -/
def sampleUpload : Upload where
  identity := "alice"
  body := [("locale", "fr"), ("spaceId", "space"), ("title", "Report"),
    ("uploadRequestId", "11111111-1111-4111-8111-111111111111")]
  keys := by decide
  file := ⟨"report.txt", "text/plain", [0x68, 0x65, 0x6c, 0x6c, 0x6f]⟩

/-- The digest of the user and the request id. -/
def sampleReceiptHash : HexDigest :=
  ⟨"f7d328731f850346d367449916e6e894f8288b951605e8c35d7934ecc533644e", by decide⟩

def sampleFingerprint : HexDigest :=
  ⟨"1781559fc3693d87299e03dd4be428039afdd08eb32cd076242564a8e523a6a7", by decide⟩

/-- The runtime on the values of the sample. -/
def samplePlatform : Platform where
  sha256 bytes :=
    if bytes = Utf8.encode "alice\x0011111111-1111-4111-8111-111111111111".toList then
      sampleReceiptHash
    else sampleFingerprint
  toLowerCase text := text
  localeCompare left right := compare left right

def sampleReceipt : UploadReceipt :=
  ⟨"f7d32873-1f85-4346-8367-449916e6e894", sampleFingerprint⟩

example : uploadReceipt samplePlatform sampleUpload = .ok (some sampleReceipt) := by
  decide

end IsmsPortal
