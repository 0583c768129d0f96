import IsmsPortal.Access.Listing
import IsmsPortal.Editing.Requests
import IsmsPortal.Foundation.Checks

/-! # Saves of typed metadata

`updateMetadata` and the bulk `apply` save metadata in a transaction. `applyDocumentType` first
looks for the type that the metadata name, and gives a document without a reference the next
number of that type under its prefix, by an update of the row of the type. Administrators
create, update and delete types meanwhile. The metadata of a body, and those that a bulk edit
merges, are checked before a reference is added.
-/

namespace IsmsPortal

open Foundation

/-! ## Validators -/

/-- A first character and up to `limit` more. -/
def isText (first rest : Char → Bool) (limit : Nat) (text : String) : Bool :=
  match text.toList with
  | [] => false
  | c :: chars => first c && chars.length ≤ limit && chars.all rest

section Validators

variable (isWord : Char → Bool)

/-- The name of a field. `isWord` holds of the letters and digits of any script. -/
def isFieldName (name : String) : Bool :=
  isText isWord (fun c => isWord c || c ∈ [' ', '_', '.', '-']) 63 name

def isField (field : String × String) : Bool :=
  isFieldName isWord field.1 && field.1 ∉ ["__proto__", "constructor", "prototype"] &&
    JsString.length field.2 ≤ 1000 &&
    (field.1 ≠ "ged.documentType" ||
      field.2 ∈ ["", "policy", "procedure", "guide", "evidence", "record"]) &&
    (field.1 ≠ "ged.reviewDate" || field.2 = "" || isReviewDate field.2)

/-- The validator of `DocumentMetadataDto.metadata`. -/
def isMetadata (metadata : Metadata) : Bool :=
  metadata.length ≤ 20 && metadata.all (isField isWord)

/-- `mergeMetadata`, with the validation of its result. A patch may have values that are no
texts, and no validation accepts these. -/
def mergeChecked (previous : Option Metadata) (patch : Option (List (String × Option String))) :
    Except String Metadata :=
  let texts := (patch.getD []).mapM fun field => field.2.map fun text => (field.1, text)
  match texts.map fun texts => mergeMetadata previous (some texts) with
  | none => .error "Invalid metadata: maximum 20 optional text fields"
  | some next =>
      if isMetadata isWord next then .ok next
      else .error "Invalid metadata: maximum 20 optional text fields"

end Validators

/-- A body of `DocumentTypeDto`. -/
structure TypeBody where
  slug : String
  nameFr : String
  nameEn : String
  requiredFields : List String
  referencePrefix : Option String
deriving DecidableEq

def isReferencePrefix (text : String) : Bool :=
  isText (fun c => c.isUpper || c.isDigit) (fun c => c.isUpper || c.isDigit || c = '-') 19 text

/-- The validators of `DocumentTypeDto`. -/
def TypeBody.isValid (body : TypeBody) : Bool :=
  isText (fun c => c.isLower || c.isDigit) (fun c => c.isLower || c.isDigit || c = '-') 39
      body.slug && body.slug.length ≠ 1 &&
    [body.nameFr, body.nameEn].all (fun name =>
      1 ≤ JsString.length name && JsString.length name ≤ 120) &&
    body.requiredFields.length ≤ 20 &&
    (body.requiredFields.all fun field => isText (fun c => c.isAlphanum || c ∈ ['_', '.', '-'])
      (fun c => c.isAlphanum || c ∈ ['_', '.', '-']) 63 field) &&
    body.referencePrefix.all isReferencePrefix

/-! ## Tables -/

/-- A row of `DocumentType`. -/
structure TypeRow extends DocumentType where
  id : String
  slug : String
  nameEn : String
  nextNumber : Nat
  deletedAt : Option Int

/-- A reference as it was saved, with the type, the prefix and the number it was made of. -/
structure Assignment where
  typeId : String
  text : String
  number : Nat
  reference : String
deriving DecidableEq

/-- The tables, and the references that committed transactions have assigned. -/
structure TypedStore where
  clock : Int
  types : List TypeRow
  documents : List EditedDocument
  assigned : List Assignment

/-- A body of the bulk `apply`. A value that is `none` is no text. -/
structure BulkChanges where
  documents : List (String × Option Int)
  metadata : Option (List (String × Option String))
  categoryId : Option (Option String)
deriving DecidableEq

/-- A document to save: the row as it was read, the timestamp asked for, and the new columns. -/
structure Change where
  read : EditedDocument
  stamp : Int
  metadata : Option Metadata
  categoryId : Option (Option String)
deriving DecidableEq

/-- An open transaction: the documents it has still to save, those it has written, the next
numbers of the types it has updated, the latest first, and the references it has assigned. -/
structure SaveTransaction where
  todo : List Change
  writes : List (EditedDocument × DocumentData)
  numbers : List (String × Nat)
  assigned : List Assignment
deriving DecidableEq

/-- Where a request is, with what it has read. -/
inductive TypedProcess
  | createType (body : TypeBody)
  | createTypeWrite (body : TypeBody)
  | updateType (id : String) (body : TypeBody)
  | updateTypeWrite (id : String) (body : TypeBody)
  | deleteType (id : String)
  | updateMetadata (id : String) (body : MetadataBody)
  | bulkApply (body : BulkChanges)
  | save (transaction : SaveTransaction)
  | saveNumber (transaction : SaveTransaction) (metadata : Metadata) (type : TypeRow)
  | saveDocument (transaction : SaveTransaction) (metadata : Option Metadata)
  | addDocument (id spaceId : String)
  | editDocument (id : String) (categoryId : Option String) (deletedAt : Option Int)

/-- Whether the user may edit a document and the category is one of its space, the order of an
answer, and the id of a new row. -/
structure TypedChoice where
  permits : EditedDocument → Bool
  order : List EditedDocument
  uuid : String

/-! ## Statements -/

/-- The columns of a type that a body sets. -/
def TypeBody.columns (body : TypeBody) : DocumentType :=
  ⟨JsString.trim body.nameFr, body.requiredFields.eraseDups, body.referencePrefix⟩

/-- The type gives the metadata a number. -/
def DocumentType.givesNumber (type : DocumentType) (metadata : Metadata) : Bool :=
  (type.referencePrefix.filter (· ≠ "")).isSome && isBlank metadata "ged.reference"

namespace TypedStore

variable (store : TypedStore)

/-- `findType`. -/
def findType (metadata : Metadata) : Option TypeRow :=
  let slug := JsString.trim ((getField metadata "ged.documentType").getD "")
  if slug = "" then none
  else store.types.find? fun row => row.slug = slug && row.deletedAt.isNone

def findDocument (id : String) : Option EditedDocument :=
  store.documents.find? fun row => row.id = id && row.deletedAt.isNone

/-- The columns of a row of `DocumentType` after an update. -/
def updateType (id : String) (f : TypeRow → TypeRow) : TypedStore where
  __ := store
  types := Table.update TypeRow.id id f store.types

end TypedStore

/-- The next number of a type, as the transaction sees it. -/
def SaveTransaction.nextNumber (transaction : SaveTransaction) (row : TypeRow) : Nat :=
  (transaction.numbers.lookup row.id).getD row.nextNumber

/-- The update of the row of a type, and what becomes of its number. -/
def SaveTransaction.take (transaction : SaveTransaction) (type : TypeRow) (number : Nat)
    (metadata : Metadata) : SaveTransaction where
  __ := transaction
  numbers := (type.id, number + 1) :: transaction.numbers
  assigned := transaction.assigned ++ [⟨type.id, type.referencePrefix.getD "", number,
    (getField metadata "ged.reference").getD ""⟩]

/-- The end of a transaction. -/
def TypedStore.commit (store : TypedStore) (transaction : SaveTransaction) : TypedStore where
  __ := store
  types := store.types.map fun row => { row with nextNumber := transaction.nextNumber row }
  documents := store.documents.map (written transaction.writes)
  assigned := store.assigned ++ transaction.assigned

/-- The condition of the `updateMany` of a change. -/
def Change.selects (change : Change) (row : EditedDocument) : Bool :=
  row.id = change.read.id && row.deletedAt.isNone && row.updatedAt = change.stamp

/-- The changes of a bulk edit. -/
def bulkChanges (isWord : Char → Bool) (body : BulkChanges) (read : List EditedDocument) :
    Except String (List Change) :=
  read.mapM fun row => do
    let metadata ← mergeChecked isWord row.metadata body.metadata
    return ⟨row, row.updatedAt, some metadata, some (body.categoryId.getD row.categoryId)⟩

/-- Run the next statement of a request. -/
def typedAdvance (isWord : Char → Bool) (choice : TypedChoice) (store : TypedStore) :
    TypedProcess → Option (Option TypedProcess × TypedStore)
  | .createType body =>
      if store.types.any fun row => row.slug = body.slug then some (none, store)
      else some (some (.createTypeWrite body), store)
  | .createTypeWrite body =>
      if store.types.any fun row => row.id = choice.uuid then none
      else if store.types.any fun row => row.slug = body.slug then some (none, store)
      else some (none, { store with types := store.types ++
        [⟨body.columns, choice.uuid, body.slug, JsString.trim body.nameEn, 1, none⟩] })
  | .updateType id body =>
      match store.types.find? fun row => row.id = id && row.deletedAt.isNone with
      | none => some (none, store)
      | some existing =>
          if existing.slug = body.slug then some (some (.updateTypeWrite id body), store)
          else some (none, store)
  | .updateTypeWrite id body =>
      some (none, store.updateType id fun row => { row with
        toDocumentType := body.columns, nameEn := JsString.trim body.nameEn })
  | .deleteType id =>
      some (none, store.updateType id fun row => { row with
        deletedAt := row.deletedAt.or (some store.clock) })
  | .updateMetadata id body =>
      match store.findDocument id with
      | none => some (none, store)
      | some read =>
          if choice.permits read then
            some (some (.save ⟨[⟨read, body.expectedUpdatedAt.getD read.updatedAt, body.metadata,
              body.categoryId.filter (· ≠ read.categoryId)⟩], [], [], []⟩), store)
          else some (none, store)
  | .bulkApply body =>
      let found := store.documents.filter fun row =>
        row.id ∈ body.documents.map Prod.fst && row.deletedAt.isNone
      if ¬(body.documents.map Prod.fst).Nodup ∨
          (body.categoryId.isNone ∧ (body.metadata.getD []).isEmpty) then some (none, store)
      -- The query has no order.
      else if choice.order.Perm found then
        if found.length = body.documents.length ∧ choice.order.all fun row =>
            choice.permits row && (body.documents.find? fun entry => entry.1 = row.id).any
              fun entry => entry.2 = some row.updatedAt then
          some ((bulkChanges isWord body choice.order).toOption.map fun changes =>
            .save ⟨changes, [], [], []⟩, store)
        else some (none, store)
      else none
  | .save transaction =>
      match transaction.todo with
      | [] => some (none, store.commit transaction)
      | change :: _ =>
          some (some (match change.metadata.bind fun metadata =>
              (store.findType metadata).map fun type => (metadata, type) with
            | none => .saveDocument transaction change.metadata
            | some (metadata, type) => .saveNumber transaction metadata type), store)
  | .saveNumber transaction metadata type =>
      if type.givesNumber metadata then
        -- The update returns no row, or its number is out of range.
        match store.types.find? fun row => row.id = type.id with
        | none => some (none, store)
        | some row =>
            let number := transaction.nextNumber row
            if 2147483647 ≤ number then some (none, store)
            else some ((applyDocumentType (fun _ => some type.toDocumentType) number
              metadata).toOption.map fun result =>
                .saveDocument (transaction.take type number result) (some result), store)
      else some ((applyDocumentType (fun _ => some type.toDocumentType) 0 metadata).toOption.map
        fun result => .saveDocument transaction (some result), store)
  | .saveDocument transaction metadata =>
      match transaction.todo with
      | [] => none
      | change :: rest =>
          if store.documents.any change.selects then
            some (some (.save { transaction with
              todo := rest
              writes := transaction.writes ++ [(change.read, ⟨change.categoryId, metadata,
                max store.clock (change.read.updatedAt + 1)⟩)] }), store)
          else some (none, store)
  | .addDocument id spaceId =>
      if store.documents.any fun row => row.id = id then none
      else some (none, { store with documents := store.documents ++
        [⟨id, spaceId, none, none, store.clock, none⟩] })
  | .editDocument id categoryId deletedAt =>
      some (none, { store with documents := Table.update EditedDocument.id id (fun row =>
        { row with categoryId, deletedAt, updatedAt := store.clock }) store.documents })

/-- A body is an object, whose fields have different names. -/
def hasDistinctNames {α : Type} (fields : Option (List (String × α))) : Bool :=
  ((fields.getD []).map Prod.fst).Nodup

/-- The bodies that the validators of a request accept. -/
def TypedProcess.accepted (isWord : Char → Bool) : TypedProcess → Bool
  | .createType body | .updateType _ body => body.isValid
  | .updateMetadata _ body =>
      hasDistinctNames body.metadata && body.metadata.all (isMetadata isWord)
  | .bulkApply body =>
      hasDistinctNames body.metadata && 1 ≤ body.documents.length && body.documents.length ≤ 50
  | .deleteType _ | .addDocument .. | .editDocument .. => true
  | _ => false

def typedProgram (isWord : Char → Bool) : Concurrent TypedStore TypedProcess TypedChoice where
  drift time store := if store.clock ≤ time then some { store with clock := time } else none
  start := TypedProcess.accepted isWord
  advance _ := typedAdvance isWord

abbrev TypedConfig : Type := Concurrent.Config TypedStore TypedProcess

abbrev TypedMove : Type := Concurrent.Move TypedProcess TypedChoice

/-- There are no types and no documents. -/
def TypedStore.Initial (store : TypedStore) : Prop :=
  store.types = [] ∧ store.documents = [] ∧ store.assigned = []

abbrev typedSystem (isWord : Char → Bool) : System TypedConfig TypedMove :=
  (typedProgram isWord).system TypedStore.Initial

/-! ## Fields -/

section Fields

variable {metadata result : Metadata} {field : String × String} {type : DocumentType}

/-- The fields after one is set. -/
theorem mem_setField {other : String × String} (hmem : other ∈ setField metadata field) :
    other = field ∨ other ∈ metadata := by
  unfold setField at hmem
  split at hmem
  · obtain ⟨old, hold, rfl⟩ := List.mem_map.mp hmem
    split
    · exact .inl rfl
    · exact .inr hold
  · exact (List.mem_append.mp hmem).symm.imp List.mem_singleton.mp id

theorem getField_setField : getField (setField metadata field) field.1 = some field.2 := by
  unfold getField setField
  split
  next hany =>
    rw [List.any_eq_true] at hany
    have hsome : ((metadata.map fun other => if other.1 = field.1 then field else other).find?
        fun other => other.1 = field.1).isSome := by
      rw [List.find?_isSome]
      obtain ⟨old, hold, hname⟩ := hany
      refine ⟨field, List.mem_map.mpr ⟨old, hold, if_pos (of_decide_eq_true hname)⟩, by simp⟩
    obtain ⟨found, hfound⟩ := Option.isSome_iff_exists.mp hsome
    obtain ⟨old, -, hold⟩ := List.mem_map.mp (List.mem_of_find?_eq_some hfound)
    have hname : found.1 = field.1 := by simpa using List.find?_some hfound
    have hself : found = field := by
      by_cases hreplaced : old.1 = field.1
      · rw [← hold, if_pos hreplaced]
      · rw [← hold, if_neg hreplaced] at hname
        exact absurd hname hreplaced
    rw [hfound, hself]
    rfl
  next hany =>
    rw [List.any_eq_true] at hany
    rw [List.find?_append, List.find?_eq_none.mpr fun other hother hname =>
      hany ⟨other, hother, hname⟩]
    simp

/-- A document type that is looked up keeps the metadata, or sets the reference. -/
theorem applyDocumentType_ok {number : Nat}
    (hslug : JsString.trim ((getField metadata "ged.documentType").getD "") ≠ "")
    (hok : applyDocumentType (fun _ => some type) number metadata = .ok result) :
    result = if type.givesNumber metadata then
      setField metadata ("ged.reference", type.referencePrefix.getD "" ++ "-" ++ padNumber number)
    else metadata := by
  simp only [applyDocumentType, if_neg hslug] at hok
  unfold DocumentType.givesNumber
  cases hfront : type.referencePrefix.filter (· ≠ "") with
  | none =>
      simp only [hfront] at hok
      split at hok <;> cases hok
      rfl
  | some text =>
      simp only [hfront] at hok
      rw [(Option.filter_eq_some_iff.mp hfront).1]
      by_cases hblank : isBlank metadata "ged.reference" = true
      · simp only [hblank, if_true] at hok
        split at hok <;> cases hok
        simp [hblank]
      · simp only [hblank, Bool.false_eq_true, if_false] at hok
        split at hok <;> cases hok
        simp [hblank]

/-- Without a type that has a name, nothing is set. -/
theorem applyDocumentType_unnamed {types : String → Option DocumentType} {number : Nat}
    (hslug : JsString.trim ((getField metadata "ged.documentType").getD "") = "")
    (hok : applyDocumentType types number metadata = .ok result) : result = metadata := by
  simp only [applyDocumentType, if_pos hslug] at hok
  cases hok
  rfl

end Fields

/-! ## Transactions -/

/-- The open transaction of a request. -/
def TypedProcess.transaction : TypedProcess → Option SaveTransaction
  | .save transaction | .saveNumber transaction _ _ | .saveDocument transaction _ =>
      some transaction
  | _ => none

/-- The references that the open transaction of a request has assigned. -/
def TypedProcess.assigned (process : TypedProcess) : List Assignment :=
  process.transaction.elim [] SaveTransaction.assigned

/-- A row that a transaction locks. -/
inductive SavedRow
  | type (id : String)
  | document (id : String)
deriving DecidableEq

/-- A transaction holds the rows it has written; the next statement writes the row it
selects. -/
def saveLocks : Concurrent.Locks TypedStore TypedProcess SavedRow where
  holds process := process.transaction.elim [] fun transaction =>
    transaction.numbers.map (fun entry => .type entry.1) ++
      transaction.writes.map fun entry => .document entry.1.id
  wants store
    | .saveNumber _ metadata type =>
        if type.givesNumber metadata then [.type type.id] else []
    | .saveDocument transaction _ =>
        (store.documents.filter fun row => transaction.todo.head?.any (·.selects row)).map
          fun row => .document row.id
    | .updateTypeWrite id _ | .deleteType id => [.type id]
    | .editDocument id _ _ => [.document id]
    | _ => []

/-! ## One statement -/

section Steps

variable {isWord : Char → Bool} {choice : TypedChoice} {store after : TypedStore}
variable {process next : TypedProcess}

/-- What the last statement of a request does to the tables. -/
inductive TypedEffect (store : TypedStore) : TypedProcess → TypedStore → Prop
  | same {process : TypedProcess} : TypedEffect store process store
  | createType {body : TypeBody} {row : TypeRow} (hfresh : ∀ other ∈ store.types, other.id ≠ row.id)
      (hfront : row.referencePrefix = body.referencePrefix) :
      TypedEffect store (.createTypeWrite body) { store with types := store.types ++ [row] }
  | updateType {process : TypedProcess} {id : String} {f : TypeRow → TypeRow}
      (hkeeps : ∀ row, (f row).id = row.id ∧ (f row).nextNumber = row.nextNumber)
      (hfront : ∀ row, (f row).referencePrefix = row.referencePrefix ∨
        ∃ body, process = .updateTypeWrite id body ∧
          (f row).referencePrefix = body.referencePrefix) :
      TypedEffect store process (store.updateType id f)
  | commit {transaction : SaveTransaction} :
      TypedEffect store (.save transaction) (store.commit transaction)
  | addDocument {id spaceId : String} {row : EditedDocument} (hmetadata : row.metadata = none) :
      TypedEffect store (.addDocument id spaceId)
        { store with documents := store.documents ++ [row] }
  | editDocument {process : TypedProcess} {id : String} {f : EditedDocument → EditedDocument}
      (hkeeps : ∀ row, (f row).metadata = row.metadata) : TypedEffect store process
        { store with documents := Table.update EditedDocument.id id f store.documents }

/-- How a request goes on. -/
inductive TypedNext (isWord : Char → Bool) (store : TypedStore) : TypedProcess → TypedProcess → Prop
  | createType {body : TypeBody} :
      TypedNext isWord store (.createType body) (.createTypeWrite body)
  | updateType {id : String} {body : TypeBody} :
      TypedNext isWord store (.updateType id body) (.updateTypeWrite id body)
  | updateMetadata {id : String} {body : MetadataBody} {change : Change}
      (hmetadata : change.metadata = body.metadata) :
      TypedNext isWord store (.updateMetadata id body) (.save ⟨[change], [], [], []⟩)
  | bulkApply {body : BulkChanges} {read : List EditedDocument} {changes : List Change}
      (hread : ∀ row ∈ read, row ∈ store.documents)
      (hchanges : bulkChanges isWord body read = .ok changes) :
      TypedNext isWord store (.bulkApply body) (.save ⟨changes, [], [], []⟩)
  | untyped {transaction : SaveTransaction} {change : Change}
      (hchange : change ∈ transaction.todo) :
      TypedNext isWord store (.save transaction) (.saveDocument transaction change.metadata)
  | typed {transaction : SaveTransaction} {change : Change} {metadata : Metadata} {type : TypeRow}
      (hchange : change ∈ transaction.todo) (hmetadata : change.metadata = some metadata)
      (htype : store.findType metadata = some type) :
      TypedNext isWord store (.save transaction) (.saveNumber transaction metadata type)
  | number {transaction : SaveTransaction} {metadata result : Metadata} {type row : TypeRow}
      (hgives : type.givesNumber metadata = true) (hrow : row ∈ store.types)
      (hid : row.id = type.id) (hrange : transaction.nextNumber row < 2147483647)
      (hresult : applyDocumentType (fun _ => some type.toDocumentType)
        (transaction.nextNumber row) metadata = .ok result) :
      TypedNext isWord store (.saveNumber transaction metadata type)
        (.saveDocument (transaction.take type (transaction.nextNumber row) result) (some result))
  | unnumbered {transaction : SaveTransaction} {metadata result : Metadata} {type : TypeRow}
      (hgives : ¬type.givesNumber metadata = true)
      (hresult : applyDocumentType (fun _ => some type.toDocumentType) 0 metadata = .ok result) :
      TypedNext isWord store (.saveNumber transaction metadata type)
        (.saveDocument transaction (some result))
  | written {transaction : SaveTransaction} {metadata : Option Metadata} {change : Change}
      {rest : List Change} {data : DocumentData} (htodo : transaction.todo = change :: rest)
      (hselected : store.documents.any change.selects = true)
      (hdata : data.metadata = metadata) :
      TypedNext isWord store (.saveDocument transaction metadata) (.save { transaction with
        todo := rest, writes := transaction.writes ++ [(change.read, data)] })

/-- A statement is the last one of its request, or leaves the tables as they are. -/
inductive TypedOutcome (isWord : Char → Bool) (store : TypedStore) (process : TypedProcess) :
    Option TypedProcess → TypedStore → Prop
  | ends {after : TypedStore} (heffect : TypedEffect store process after) :
      TypedOutcome isWord store process none after
  | goesOn {next : TypedProcess} (hnext : TypedNext isWord store process next) :
      TypedOutcome isWord store process (some next) store

variable {remaining : Option TypedProcess}

theorem typedAdvance_outcome
    (hadvance : typedAdvance isWord choice store process = some (remaining, after)) :
    TypedOutcome isWord store process remaining after := by
  cases process with
  | createType =>
      simp only [typedAdvance] at hadvance
      split at hadvance <;> cases hadvance
      · exact .ends .same
      · exact .goesOn .createType
  | createTypeWrite body =>
      simp only [typedAdvance] at hadvance
      split at hadvance
      · cases hadvance
      · next hfresh =>
        split at hadvance <;> cases hadvance
        · exact .ends .same
        · refine .ends (.createType (fun other hother hid => hfresh ?_) rfl)
          exact List.any_eq_true.mpr ⟨other, hother, decide_eq_true hid⟩
  | updateType =>
      simp only [typedAdvance] at hadvance
      split at hadvance
      · cases hadvance
        exact .ends .same
      · split at hadvance <;> cases hadvance
        · exact .goesOn .updateType
        · exact .ends .same
  | updateTypeWrite id body =>
      cases hadvance
      exact .ends (.updateType (fun _ => ⟨rfl, rfl⟩) fun _ => .inr ⟨body, rfl, rfl⟩)
  | deleteType =>
      cases hadvance
      exact .ends (.updateType (fun _ => ⟨rfl, rfl⟩) fun _ => .inl rfl)
  | updateMetadata =>
      simp only [typedAdvance] at hadvance
      split at hadvance
      · cases hadvance
        exact .ends .same
      · split at hadvance <;> cases hadvance
        · exact .goesOn (.updateMetadata rfl)
        · exact .ends .same
  | bulkApply body =>
      simp only [typedAdvance] at hadvance
      split at hadvance
      · cases hadvance
        exact .ends .same
      · split at hadvance
        next hperm =>
          split at hadvance
          · cases hadvance
            cases hchanges : bulkChanges isWord body choice.order with
            | error => exact .ends .same
            | ok changes =>
                refine .goesOn (.bulkApply (fun row hrow => ?_) hchanges)
                exact (List.mem_filter.mp (hperm.mem_iff.mp hrow)).1
          · cases hadvance
            exact .ends .same
        next => cases hadvance
  | save transaction =>
      simp only [typedAdvance] at hadvance
      split at hadvance
      · cases hadvance
        exact .ends .commit
      · next change rest htodo =>
        have hchange : change ∈ transaction.todo := htodo ▸ List.mem_cons_self
        cases hadvance
        split
        next => exact .goesOn (.untyped hchange)
        next metadata type hfound =>
          obtain ⟨found, hmetadata, htype⟩ := Option.bind_eq_some_iff.mp hfound
          obtain ⟨row, hrow, hpair⟩ := Option.map_eq_some_iff.mp htype
          cases hpair
          exact .goesOn (.typed hchange hmetadata hrow)
  | saveNumber transaction metadata type =>
      simp only [typedAdvance] at hadvance
      split at hadvance
      next hgives =>
        split at hadvance
        · cases hadvance
          exact .ends .same
        · next row hrow =>
          split at hadvance <;> cases hadvance
          next => exact .ends .same
          next hrange =>
            cases hresult : applyDocumentType (fun _ => some type.toDocumentType)
              (transaction.nextNumber row) metadata with
            | error => exact .ends .same
            | ok result =>
                exact .goesOn (.number hgives (List.mem_of_find?_eq_some hrow)
                  (by simpa using List.find?_some hrow) (Nat.lt_of_not_le hrange) hresult)
      next hgives =>
        cases hadvance
        cases hresult : applyDocumentType (fun _ => some type.toDocumentType) 0 metadata with
        | error => exact .ends .same
        | ok result => exact .goesOn (.unnumbered hgives hresult)
  | saveDocument =>
      simp only [typedAdvance] at hadvance
      split at hadvance
      · cases hadvance
      · next htodo =>
        split at hadvance <;> cases hadvance
        next hselected => exact .goesOn (.written htodo hselected rfl)
        next => exact .ends .same
  | addDocument =>
      simp only [typedAdvance] at hadvance
      split at hadvance <;> cases hadvance
      exact .ends (.addDocument rfl)
  | editDocument =>
      cases hadvance
      exact .ends (.editDocument fun _ => rfl)

/-- A request that goes on has left the tables as they are. -/
theorem typedAdvance_next
    (hadvance : typedAdvance isWord choice store process = some (some next, after)) :
    TypedNext isWord store process next := by
  cases typedAdvance_outcome hadvance with
  | goesOn hnext => exact hnext

theorem typedAdvance_cases
    (hadvance : typedAdvance isWord choice store process = some (remaining, after)) :
    TypedEffect store process after ∧ (∀ next, remaining = some next →
      after = store ∧ TypedNext isWord store process next) := by
  cases typedAdvance_outcome hadvance with
  | ends heffect => exact ⟨heffect, fun next hnext => by cases hnext⟩
  | goesOn hnext =>
      refine ⟨.same, fun other hother => ⟨rfl, ?_⟩⟩
      rw [← Option.some.inj hother]
      exact hnext

end Steps

end IsmsPortal
