import IsmsPortal.Editing.Typing

/-! # Validity of saved metadata

The metadata of a body and merged metadata are validated before `applyDocumentType` sets the
reference. The reference itself is short and has a valid name, so the saved metadata are valid
unless they have one field too many. A bulk edit validates what it has read from the document,
and refuses it then.
-/

namespace IsmsPortal

open Foundation

section Fields

variable {isWord : Char → Bool} {metadata result : Metadata} {field : String × String}

/-- An object that the validator of `DocumentMetadataDto.metadata` accepts. -/
structure ValidMetadata (isWord : Char → Bool) (metadata : Metadata) : Prop where
  distinct : (metadata.map Prod.fst).Nodup
  accepted : isMetadata isWord metadata = true

theorem isMetadata_iff : isMetadata isWord metadata = true ↔
    metadata.length ≤ 20 ∧ ∀ field ∈ metadata, isField isWord field = true := by
  simp [isMetadata]

/-- Setting a field adds its name, or keeps all names. -/
theorem map_fst_setField : (setField metadata field).map Prod.fst =
    if metadata.any fun other => other.1 = field.1 then metadata.map Prod.fst
    else metadata.map Prod.fst ++ [field.1] := by
  unfold setField
  split
  · rw [List.map_map]
    refine List.map_congr_left fun other _ => ?_
    simp only [Function.comp_apply]
    split
    next hname => exact hname.symm
    next => rfl
  · rw [List.map_append, List.map_singleton]

theorem nodup_setField (hdistinct : (metadata.map Prod.fst).Nodup) :
    ((setField metadata field).map Prod.fst).Nodup := by
  rw [map_fst_setField]
  split
  next => exact hdistinct
  next hany =>
    refine hdistinct.append (List.nodup_singleton _) ?_
    rw [List.disjoint_singleton]
    intro hmem
    obtain ⟨other, hother, hname⟩ := List.mem_map.mp hmem
    exact hany (List.any_eq_true.mpr ⟨other, hother, decide_eq_true hname⟩)

theorem nodup_mergeMetadata {previous patch : Option Metadata}
    (hdistinct : ((previous.getD []).map Prod.fst).Nodup) :
    ((mergeMetadata previous patch).map Prod.fst).Nodup := by
  unfold mergeMetadata
  generalize previous.getD [] = fields at hdistinct
  induction patch.getD [] generalizing fields with
  | nil => exact hdistinct
  | cons field rest ih => exact ih _ (nodup_setField hdistinct)

theorem getField_isSome : (getField metadata field.1).isSome = true ↔
    metadata.any (fun other => other.1 = field.1) = true := by
  simp [getField, List.find?_isSome]

/-- A field is set in valid metadata that have it or have room for it. -/
theorem ValidMetadata.setField (hvalid : ValidMetadata isWord metadata)
    (hfield : isField isWord field = true)
    (hroom : (getField metadata field.1).isSome = true ∨ metadata.length < 20) :
    ValidMetadata isWord (setField metadata field) := by
  obtain ⟨hlength, hfields⟩ := isMetadata_iff.mp hvalid.accepted
  refine ⟨nodup_setField hvalid.distinct, isMetadata_iff.mpr ⟨?_, fun other hother => ?_⟩⟩
  · rw [← List.length_map Prod.fst, map_fst_setField]
    split
    next => rwa [List.length_map]
    next hany =>
      rw [List.length_append, List.length_map, List.length_singleton]
      exact hroom.resolve_left fun hsome => hany (getField_isSome.mp hsome)
  · rcases mem_setField hother with rfl | hold
    · exact hfield
    · exact hfields other hold

theorem mergeChecked_valid {previous : Option Metadata}
    {patch : Option (List (String × Option String))}
    (hprevious : ∀ metadata ∈ previous, ValidMetadata isWord metadata)
    (hmerge : mergeChecked isWord previous patch = .ok result) : ValidMetadata isWord result := by
  have hdistinct : ((previous.getD []).map Prod.fst).Nodup := by
    cases previous with
    | none => exact List.nodup_nil
    | some metadata => exact (hprevious metadata rfl).distinct
  simp only [mergeChecked] at hmerge
  split at hmerge
  next => cases hmerge
  next next hnext =>
    split at hmerge
    next haccepted =>
      cases hmerge
      obtain ⟨texts, -, rfl⟩ := Option.map_eq_some_iff.mp hnext
      exact ⟨nodup_mergeMetadata hdistinct, haccepted⟩
    next => cases hmerge

/-- Merging nothing into valid metadata succeeds. -/
theorem mergeChecked_nothing {previous : Option Metadata}
    {patch : Option (List (String × Option String))} (hpatch : patch.getD [] = [])
    (hprevious : ∀ metadata ∈ previous, ValidMetadata isWord metadata) :
    mergeChecked isWord previous patch = .ok (previous.getD []) := by
  have haccepted : isMetadata isWord (previous.getD []) = true := by
    cases previous with
    | none => rfl
    | some metadata => exact (hprevious metadata rfl).accepted
  simp only [mergeChecked, hpatch, List.mapM_nil]
  exact if_pos haccepted

end Fields

/-! ## The reference -/

section Reference

variable {isWord : Char → Bool} (hword : ∀ c : Char, c.isAlphanum = true → isWord c = true)

theorem length_padNumber {number : Nat} (hrange : number < 2147483647) :
    (padNumber number).toList.length ≤ 13 := by
  have hdigits : (Nat.toDigits 10 number).length ≤ 10 :=
    (Nat.length_toDigits_le_iff (by decide) (by decide)).mpr (hrange.trans (by decide))
  simp only [padNumber, String.toList_append, String.toList_ofList, List.length_append,
    List.length_replicate]
  rw [show (toString number).toList = Nat.toDigits 10 number from Nat.toList_repr]
  omega

/-- A character has at most two UTF-16 units. -/
theorem jsLength_le (text : String) : JsString.length text ≤ 2 * text.toList.length := by
  have hsum : ∀ chars : List Char, (chars.map JsString.units).sum ≤ 2 * chars.length := by
    intro chars
    induction chars with
    | nil => exact Nat.le_refl _
    | cons c rest ih =>
        have hunits : JsString.units c ≤ 2 := by
          unfold JsString.units
          split <;> decide
        simp only [List.map_cons, List.sum_cons, List.length_cons]
        omega
  exact hsum text.toList

theorem length_of_isReferencePrefix {text : String} (hfront : isReferencePrefix text = true) :
    text.toList.length ≤ 20 := by
  simp only [isReferencePrefix, isText] at hfront
  split at hfront
  next => cases hfront
  next c chars hchars =>
    simp only [Bool.and_eq_true, decide_eq_true_eq] at hfront
    rw [hchars, List.length_cons]
    omega

include hword in
/-- The reference of a type is a valid field. -/
theorem isField_reference {text : String} {number : Nat} (htext : text.toList.length ≤ 20)
    (hrange : number < 2147483647) :
    isField isWord ("ged.reference", text ++ "-" ++ padNumber number) = true := by
  have hname : isFieldName isWord "ged.reference" = true := by
    have hletters : ("ged.reference".toList.all fun c => c.isAlphanum || c = '.') = true := by
      decide
    have hlist : "ged.reference".toList = 'g' :: "ed.reference".toList := by decide
    have hrest : "ed.reference".toList.length ≤ 63 := by decide
    unfold isFieldName isText
    rw [hlist]
    simp only [Bool.and_eq_true, decide_eq_true_eq, List.all_eq_true, Bool.or_eq_true]
    refine ⟨⟨hword 'g' (by decide), hrest⟩, fun c hc => ?_⟩
    have hclass := List.all_eq_true.mp hletters c (hlist ▸ List.mem_cons_of_mem _ hc)
    rw [Bool.or_eq_true, decide_eq_true_eq] at hclass
    rcases hclass with hletter | rfl
    · exact .inl (hword c hletter)
    · exact .inr (by decide)
  have hlength : JsString.length (text ++ "-" ++ padNumber number) ≤ 1000 := by
    refine (jsLength_le _).trans ?_
    have hpad := length_padNumber hrange
    have hdash : "-".toList.length = 1 := by decide
    rw [String.toList_append, String.toList_append, List.length_append, List.length_append, hdash]
    omega
  unfold isField
  simp only [Bool.and_eq_true, decide_eq_true_eq, Bool.or_eq_true]
  refine ⟨⟨⟨⟨hname, by decide⟩, hlength⟩, .inl (by decide)⟩,
    .inl (.inl (by decide))⟩

end Reference

/-! ## Runs -/

section Runs

variable {isWord : Char → Bool} {store after : TypedStore} {process next : TypedProcess}

/-- A save that is given a reference has the field, or has room for it. -/
def HasRoom (_ : TypedConfig) : TypedProcess → Prop
  | .saveNumber _ metadata type => type.givesNumber metadata = true →
      (getField metadata "ged.reference").isSome = true ∨ metadata.length < 20
  | _ => True

instance (config : TypedConfig) (process : TypedProcess) : Decidable (HasRoom config process) :=
  match process with
  | .saveNumber _ metadata type => inferInstanceAs (Decidable (type.givesNumber metadata = true →
      (getField metadata "ged.reference").isSome = true ∨ metadata.length < 20))
  | .createType _ | .createTypeWrite _ | .updateType .. | .updateTypeWrite .. | .deleteType _
  | .updateMetadata .. | .bulkApply _ | .save _ | .saveDocument .. | .addDocument ..
  | .editDocument .. => .isTrue trivial

/-- What is to be saved, and what is written, is valid. -/
structure SaveTransaction.Valid (isWord : Char → Bool) (transaction : SaveTransaction) :
    Prop where
  todo : ∀ change ∈ transaction.todo, ∀ metadata ∈ change.metadata, ValidMetadata isWord metadata
  writes : ∀ entry ∈ transaction.writes, ∀ metadata ∈ entry.2.metadata,
    ValidMetadata isWord metadata

/-- The prefix of a type is one that the validator of its body accepts. -/
def ValidPrefix (text : Option String) : Prop := text.all isReferencePrefix = true

/-- What a request holds is valid. -/
def TypedProcess.Valid (isWord : Char → Bool) : TypedProcess → Prop
  | .createType body | .createTypeWrite body | .updateType _ body | .updateTypeWrite _ body =>
      ValidPrefix body.referencePrefix
  | .updateMetadata _ body => ∀ metadata ∈ body.metadata, ValidMetadata isWord metadata
  | .save transaction => transaction.Valid isWord
  | .saveNumber transaction metadata type =>
      transaction.Valid isWord ∧ ValidMetadata isWord metadata ∧ ValidPrefix type.referencePrefix
  | .saveDocument transaction metadata =>
      transaction.Valid isWord ∧ ∀ saved ∈ metadata, ValidMetadata isWord saved
  | _ => True

/-- The stored metadata and the prefixes of the types are valid. -/
structure ValidStore (isWord : Char → Bool) (store : TypedStore) : Prop where
  documents : ∀ row ∈ store.documents, ∀ metadata ∈ row.metadata, ValidMetadata isWord metadata
  types : ∀ row ∈ store.types, ValidPrefix row.referencePrefix

theorem valid_of_accepted (haccepted : process.accepted isWord = true) :
    process.Valid isWord := by
  cases process with
  | createType body | updateType _ body =>
      simp only [TypedProcess.accepted, TypeBody.isValid, Bool.and_eq_true] at haccepted
      exact haccepted.2
  | updateMetadata id body =>
      intro metadata hmetadata
      simp only [TypedProcess.accepted, hasDistinctNames, Bool.and_eq_true, decide_eq_true_eq,
        Option.mem_def.mp hmetadata, Option.getD_some, Option.all_some] at haccepted
      exact ⟨haccepted.1, haccepted.2⟩
  | deleteType | bulkApply | addDocument | editDocument => trivial
  | createTypeWrite | updateTypeWrite | save | saveNumber | saveDocument => cases haccepted

/-- The metadata of a document after the writes of a transaction. -/
theorem written_valid {writes : List (EditedDocument × DocumentData)} {row : EditedDocument}
    (hrow : ∀ metadata ∈ row.metadata, ValidMetadata isWord metadata)
    (hwrites : ∀ entry ∈ writes, ∀ metadata ∈ entry.2.metadata, ValidMetadata isWord metadata) :
    ∀ metadata ∈ (written writes row).metadata, ValidMetadata isWord metadata := by
  intro metadata hmetadata
  unfold written at hmetadata
  split at hmetadata
  next entry hentry =>
    rcases Option.or_eq_some_iff.mp hmetadata with hnew | ⟨-, hold⟩
    · exact hwrites entry (List.mem_of_find?_eq_some hentry) metadata hnew
    · exact hrow metadata hold
  next => exact hrow metadata hmetadata

theorem ValidStore.effect (hstore : ValidStore isWord store) (hvalid : process.Valid isWord)
    (heffect : TypedEffect store process after) : ValidStore isWord after := by
  cases heffect with
  | same => exact hstore
  | createType _ hfront =>
      refine { hstore with types := fun row hrow => ?_ }
      rcases List.mem_append.mp hrow with hold | hnew
      · exact hstore.types row hold
      · rw [List.mem_singleton.mp hnew, hfront]
        exact hvalid
  | updateType _ hfront =>
      refine { hstore with types := fun row hrow => ?_ }
      obtain ⟨old, hold, rfl⟩ := List.mem_map.mp hrow
      split
      · rcases hfront old with hsame | ⟨body, rfl, hbody⟩
        · rw [hsame]
          exact hstore.types old hold
        · rw [hbody]
          exact hvalid
      · exact hstore.types old hold
  | commit =>
      refine ⟨fun row hrow => ?_, fun row hrow => ?_⟩
      · obtain ⟨old, hold, rfl⟩ := List.mem_map.mp hrow
        exact written_valid (hstore.documents old hold) hvalid.writes
      · obtain ⟨old, hold, rfl⟩ := List.mem_map.mp hrow
        exact hstore.types old hold
  | addDocument hmetadata =>
      refine { hstore with documents := fun row hrow metadata hsaved => ?_ }
      rcases List.mem_append.mp hrow with hold | hnew
      · exact hstore.documents row hold metadata hsaved
      · rw [List.mem_singleton.mp hnew, hmetadata] at hsaved
        cases hsaved
  | editDocument hkeeps =>
      refine { hstore with documents := fun row hrow metadata hsaved => ?_ }
      obtain ⟨old, hold, rfl⟩ := List.mem_map.mp hrow
      refine hstore.documents old hold metadata ?_
      split at hsaved
      · exact hkeeps old ▸ hsaved
      · exact hsaved

/-- A request goes on with valid metadata, if it has room for a reference that it is given. -/
theorem typedNext_valid (hword : ∀ c : Char, c.isAlphanum = true → isWord c = true)
    (hstore : ValidStore isWord store) (hvalid : process.Valid isWord) {config : TypedConfig}
    (hroom : HasRoom config process) (hnext : TypedNext isWord store process next) :
    next.Valid isWord := by
  cases hnext with
  | createType | updateType => exact hvalid
  | @updateMetadata _ body change hmetadata =>
      refine ⟨fun other hother metadata hsaved => ?_, fun entry hentry => ?_⟩
      · rw [List.mem_singleton.mp hother, hmetadata] at hsaved
        exact hvalid metadata hsaved
      · cases hentry
  | @bulkApply body read changes hread hchanges =>
      refine ⟨fun change hchange metadata hsaved => ?_, fun entry hentry => ?_⟩
      · obtain ⟨row, hrow, hmerged⟩ := Checks.mem_of_mapM hchanges hchange
        obtain ⟨merged, hmerge, hpure⟩ := Checks.accepts_bind.mp hmerged
        rw [← Checks.accepts_pure.mp hpure] at hsaved
        cases hsaved
        exact mergeChecked_valid (hstore.documents row (hread row hrow)) hmerge
      · cases hentry
  | untyped hchange => exact ⟨hvalid, hvalid.todo _ hchange⟩
  | @typed transaction change metadata type hchange hmetadata htype =>
      refine ⟨hvalid, hvalid.todo _ hchange metadata hmetadata, hstore.types type ?_⟩
      simp only [TypedStore.findType] at htype
      split at htype
      · cases htype
      · exact List.mem_of_find?_eq_some htype
  | @number transaction metadata result type row hgives hrow hid hrange hresult =>
      obtain ⟨htransaction, hmetadata, hfront⟩ := hvalid
      refine ⟨{ htransaction with }, fun saved hsaved => ?_⟩
      cases hsaved
      by_cases hslug : JsString.trim ((getField metadata "ged.documentType").getD "") = ""
      · rw [applyDocumentType_unnamed hslug hresult]
        exact hmetadata
      · rw [applyDocumentType_ok hslug hresult, if_pos hgives]
        refine hmetadata.setField (isField_reference hword ?_ hrange) (hroom hgives)
        cases hfound : type.referencePrefix with
        | none => exact Nat.zero_le 20
        | some text =>
            rw [hfound] at hfront
            exact length_of_isReferencePrefix hfront
  | @unnumbered transaction metadata result type hgives hresult =>
      obtain ⟨htransaction, hmetadata, -⟩ := hvalid
      refine ⟨htransaction, fun saved hsaved => ?_⟩
      cases hsaved
      by_cases hslug : JsString.trim ((getField metadata "ged.documentType").getD "") = ""
      · rw [applyDocumentType_unnamed hslug hresult]
        exact hmetadata
      · rw [applyDocumentType_ok hslug hresult, if_neg hgives]
        exact hmetadata
  | @written transaction metadata change rest data htodo _ hdata =>
      obtain ⟨htransaction, hmetadata⟩ := hvalid
      refine ⟨fun other hother => ?_, fun entry hentry saved hsaved => ?_⟩
      · exact htransaction.todo other (htodo ▸ List.mem_cons_of_mem _ hother)
      · rcases List.mem_append.mp hentry with hold | hnew
        · exact htransaction.writes entry hold saved hsaved
        · rw [List.mem_singleton.mp hnew, hdata] at hsaved
          exact hmetadata saved hsaved

def validOutline (isWord : Char → Bool) : Concurrent.Outline TypedStore TypedProcess where
  invariant := ValidStore isWord
  assertion _ _ process := process.Valid isWord

theorem validOutline_valid (hword : ∀ c : Char, c.isAlphanum = true → isWord c = true) :
    (validOutline isWord).Valid (typedProgram isWord) TypedStore.Initial
      (Concurrent.Guarded HasRoom) where
  init := by
    rintro store ⟨htypes, hdocuments, -⟩
    constructor <;> simp [htypes, hdocuments]
  drift := by
    intro time store after hdrift hstore
    obtain ⟨-, rfl⟩ := Concurrent.drift_eq hdrift
    exact ⟨{ hstore with }, fun _ _ hvalid => hvalid⟩
  start := fun _ _ _ haccepted _ => valid_of_accepted haccepted
  own := by
    intro config name choice process remaining after hholds hprocess hguarded hadvance
    have hvalid := hholds.2 name process hprocess
    obtain ⟨heffect, hnext⟩ := typedAdvance_cases hadvance
    refine ⟨hholds.1.effect hvalid heffect, fun next hremaining => ?_⟩
    exact typedNext_valid hword hholds.1 hvalid (hguarded process hprocess)
      (hnext next hremaining).2
  others := fun _ _ _ _ _ _ hholds _ _ _ other process' _ hother => hholds.2 other process' hother

end Runs

/-- **Validity.** In every run in which a save that is given a reference has room for it, all
stored metadata are valid, and a bulk edit that merges no fields into them passes its
validation. -/
theorem metadata_stays_valid {isWord : Char → Bool}
    (hword : ∀ c : Char, c.isAlphanum = true → isWord c = true) {config : TypedConfig}
    (hreach : (typedSystem isWord).ReachableWhile (Concurrent.Guarded HasRoom) config) :
    ∀ row ∈ config.store.documents,
      (∀ metadata ∈ row.metadata, ValidMetadata isWord metadata) ∧
        ∀ patch : Option (List (String × Option String)), patch.getD [] = [] →
          mergeChecked isWord row.metadata patch = .ok (row.metadata.getD []) := by
  intro row hrow
  have hvalid := ((validOutline_valid hword).holds hreach).1.documents row hrow
  exact ⟨hvalid, fun patch hpatch => mergeChecked_nothing hpatch hvalid⟩

/-! ## Sample -/

/-- Metadata of a policy with more fields. -/
def policyFields (count : Nat) : Metadata :=
  ("ged.documentType", "policy") ::
    (List.range count).map fun n => (String.ofList (List.replicate (n + 1) 'f'), "")

/-- The metadata that are saved for a policy with the number of fields. -/
def numberedPolicy (count : Nat) : Metadata := policyFields count ++ [("ged.reference", "DOC-001")]

/-- An administrator creates a type with a prefix, and a policy is saved. -/
def policyMoves (count : Nat) : List TypedMove :=
  [.start 0 (.createType ⟨"policy", "Politique", "Policy", [], some "DOC"⟩),
    .advance 0 ⟨fun _ => true, [], "t1"⟩, .advance 0 ⟨fun _ => true, [], "t1"⟩,
    .start 0 (.addDocument "d1" "space"), .advance 0 ⟨fun _ => true, [], ""⟩,
    .start 0 (.updateMetadata "d1" ⟨"en", "d1", none, some (policyFields count), none, none,
      none⟩)] ++ List.replicate 5 (.advance 0 ⟨fun _ => true, [], ""⟩)

theorem reachable_policyMoves {allowed : TypedConfig → TypedMove → Prop}
    {check : TypedConfig → TypedMove → Bool} {count : Nat} {saved : Metadata}
    (hcheck : ∀ config move, Concurrent.Named [0] config → check config move = true →
      allowed config move)
    (hrun : (Concurrent.executeNamed (typedProgram Char.isAlphanum) [0] check
      (Concurrent.idle ⟨0, [], [], []⟩) (policyMoves count)).map
        (fun config => config.store.documents) =
      some [⟨"d1", "space", none, some saved, 1, none⟩]) :
    ∃ config, (typedSystem Char.isAlphanum).ReachableWhile allowed config ∧
      config.store.documents = [⟨"d1", "space", none, some saved, 1, none⟩] := by
  obtain ⟨config, hexecute, hsummary⟩ := Option.map_eq_some_iff.mp hrun
  exact ⟨config, (Concurrent.reachable_executeNamed hcheck _ (fun _ _ => rfl)
    (.init ⟨⟨rfl, rfl, rfl⟩, fun _ => rfl⟩) hexecute).1, hsummary⟩

/-- A policy with two fields is given a reference. -/
theorem metadata_stays_valid_policy :
    ∃ config, (typedSystem Char.isAlphanum).ReachableWhile (Concurrent.Guarded HasRoom) config ∧
      config.store.documents = [⟨"d1", "space", none, some (numberedPolicy 1), 1, none⟩] ∧
      ValidMetadata Char.isAlphanum (numberedPolicy 1) ∧
      mergeChecked Char.isAlphanum (some (numberedPolicy 1)) none = .ok (numberedPolicy 1) := by
  obtain ⟨config, hreach, hdocuments⟩ := reachable_policyMoves
    (fun _ _ _ hguarded => Concurrent.guarded_of_isGuarded hguarded)
    (show (Concurrent.executeNamed (typedProgram Char.isAlphanum) [0]
        (Concurrent.isGuarded HasRoom) (Concurrent.idle ⟨0, [], [], []⟩) (policyMoves 1)).map
          (fun config => config.store.documents) =
        some [⟨"d1", "space", none, some (numberedPolicy 1), 1, none⟩] by decide)
  have hrow : ⟨"d1", "space", none, some (numberedPolicy 1), 1, none⟩ ∈ config.store.documents := by
    rw [hdocuments]
    exact List.mem_singleton_self _
  obtain ⟨hvalid, hmerge⟩ := metadata_stays_valid (fun _ hletter => hletter) hreach _ hrow
  exact ⟨config, hreach, hdocuments, hvalid _ rfl, hmerge none rfl⟩

/-- A policy with twenty fields is given a reference: the saved metadata are not valid, and a
bulk edit that merges nothing into them fails. -/
theorem reference_exceeds_fields :
    ∃ config, (typedSystem Char.isAlphanum).ReachableWhile saveLocks.Free config ∧
      config.store.documents = [⟨"d1", "space", none, some (numberedPolicy 19), 1, none⟩] ∧
      isMetadata Char.isAlphanum (policyFields 19) = true ∧
      isMetadata Char.isAlphanum (numberedPolicy 19) = false ∧
      mergeChecked Char.isAlphanum (some (numberedPolicy 19)) none =
        .error "Invalid metadata: maximum 20 optional text fields" := by
  obtain ⟨config, hreach, hdocuments⟩ := reachable_policyMoves
    (fun _ _ hnamed hfree => Concurrent.Locks.free_of_isFree hnamed hfree)
    (show (Concurrent.executeNamed (typedProgram Char.isAlphanum) [0] (saveLocks.isFree [0])
        (Concurrent.idle ⟨0, [], [], []⟩) (policyMoves 19)).map
          (fun config => config.store.documents) =
        some [⟨"d1", "space", none, some (numberedPolicy 19), 1, none⟩] by decide)
  have hinvalid : isMetadata Char.isAlphanum (numberedPolicy 19) = false := by decide
  refine ⟨config, hreach, hdocuments, by decide, hinvalid, ?_⟩
  simp only [mergeChecked, Option.getD_none, List.mapM_nil]
  exact if_neg (by simp [mergeMetadata, hinvalid])

end IsmsPortal
