import IsmsPortal.Editing.Validity
import Mathlib.Data.List.Dedup
import Mathlib.Data.Finset.Card

/-! # Types that documents can have

A document has a type if its metadata name the slug, and is saved then if no required field is
blank. The validator of metadata accepts five slugs, twenty fields, and names that start with a
letter or digit and are not names of object internals. The validator of types knows none of
these limits, so some types that it accepts fit no document.
-/

namespace IsmsPortal

open Foundation

/-- The slugs that metadata may name. -/
def documentTypeSlugs : List String := ["policy", "procedure", "guide", "evidence", "record"]

/-- The names a document must have. A reference is given by a type with a prefix. -/
def TypeBody.neededFields (body : TypeBody) : List String :=
  ("ged.documentType" :: body.requiredFields.filter fun field =>
    field ≠ "ged.reference" || body.referencePrefix.isNone).dedup

/-- Metadata of a document can meet the type. -/
structure TypeBody.Fits (body : TypeBody) : Prop where
  slug : body.slug ∈ documentTypeSlugs
  names : ∀ field ∈ body.requiredFields, field.toList.head?.any Char.isAlphanum = true ∧
    field ∉ ["__proto__", "constructor", "prototype"]
  count : body.neededFields.length ≤ 20

/-! ## Fields -/

section Fields

variable {isWord : Char → Bool} {metadata : Metadata} {name : String}

theorem mem_of_getField {text : String} (hfield : getField metadata name = some text) :
    (name, text) ∈ metadata := by
  obtain ⟨field, hfound, rfl⟩ := Option.map_eq_some_iff.mp hfield
  have hname : field.1 = name := by simpa using List.find?_some hfound
  rw [← hname]
  exact List.mem_of_find?_eq_some hfound

/-- Fields that are listed with their values. -/
theorem getField_map {names : List String} {value : String → String} (hname : name ∈ names) :
    getField (names.map fun name => (name, value name)) name = some (value name) := by
  induction names with
  | nil => cases hname
  | cons first names ih =>
      by_cases hfirst : first = name
      · simp [getField, hfirst]
      · have hrest := ih ((List.mem_cons.mp hname).resolve_left (Ne.symm hfirst))
        simpa [getField, hfirst] using hrest

theorem getField_map_eq_none {names : List String} {value : String → String} (hname : name ∉ names) :
    getField (names.map fun name => (name, value name)) name = none := by
  simp only [getField, Option.map_eq_none_iff, List.find?_eq_none, List.mem_map]
  rintro _ ⟨other, hother, rfl⟩ hsame
  obtain rfl : other = name := by simpa using hsame
  exact hname hother

theorem getField_setField_of_ne {field : String × String} (hname : name ≠ field.1) :
    getField (setField metadata field) name = getField metadata name := by
  have hskip : ∀ fields : Metadata,
      (fields.map fun other => if other.1 = field.1 then field else other).find?
        (fun other => other.1 = name) = fields.find? fun other => other.1 = name := by
    intro fields
    induction fields with
    | nil => rfl
    | cons other fields ih =>
        rw [List.map_cons, List.find?_cons, List.find?_cons, ih]
        by_cases hother : other.1 = field.1
        · simp [hother, Ne.symm hname]
        · simp [hother]
  unfold getField setField
  split
  · rw [hskip]
  · simp [List.find?_append, Ne.symm hname]

/-- A text with something else than white space is not blank. -/
theorem trim_ne_empty {text : String} {c : Char} (hmem : c ∈ text.toList)
    (hc : JsString.isWhiteSpace c = false) : JsString.trim text ≠ "" := by
  intro hempty
  have hchars := congrArg String.toList hempty
  rw [JsString.toList_trim, String.toList_empty, List.rdropWhile_eq_nil_iff] at hchars
  rw [← List.takeWhile_append_dropWhile (p := JsString.isWhiteSpace) (l := text.toList),
    List.mem_append] at hmem
  rcases hmem with hstart | hrest
  · rw [List.mem_takeWhile_imp hstart] at hc
    cases hc
  · rw [hchars c hrest] at hc
    cases hc

theorem isBlank_eq_false {text : String} (hfield : getField metadata name = some text) {c : Char}
    (hmem : c ∈ text.toList) (hc : JsString.isWhiteSpace c = false) :
    isBlank metadata name = false := by
  simpa [isBlank, hfield] using trim_ne_empty hmem hc

/-- A slug that metadata may name is read as it is. -/
theorem trim_slug {slug : String} (hslug : slug ∈ documentTypeSlugs) :
    JsString.trim slug = slug ∧ slug ≠ "" := by
  have hall : ∀ slug ∈ documentTypeSlugs, JsString.trim slug = slug ∧ slug ≠ "" := by
    decide
  exact hall slug hslug

end Fields

/-! ## Saving metadata of a type -/

section Saving

variable {isWord : Char → Bool} {metadata result : Metadata} {body : TypeBody} {number : Nat}
variable {types : String → Option DocumentType} {type : DocumentType}

/-- The metadata with the reference that the type gives them. -/
def DocumentType.numbered (type : DocumentType) (number : Nat) (metadata : Metadata) : Metadata :=
  if type.givesNumber metadata then
    setField metadata ("ged.reference", type.referencePrefix.getD "" ++ "-" ++ padNumber number)
  else metadata

/-- Metadata that name a type are saved if none of its fields is blank then. -/
theorem applyDocumentType_eq_ok {slug : String} (hslug : slug ∈ documentTypeSlugs)
    (hnamed : getField metadata "ged.documentType" = some slug) (htypes : types slug = some type) :
    applyDocumentType types number metadata = .ok result ↔
      result = type.numbered number metadata ∧ missingFields type result = [] := by
  obtain ⟨htrim, hne⟩ := trim_slug hslug
  have happly : applyDocumentType types number metadata =
      if (missingFields type (type.numbered number metadata)).isEmpty then
        .ok (type.numbered number metadata)
      else .error ("Required fields for type " ++ type.nameFr ++ ": " ++
        ", ".intercalate (missingFields type (type.numbered number metadata))) := by
    unfold DocumentType.numbered DocumentType.givesNumber
    simp only [applyDocumentType, hnamed, Option.getD_some, htrim, if_neg hne, htypes]
    cases hfront : type.referencePrefix.filter (· ≠ "") with
    | none => simp
    | some text => simp [(Option.filter_eq_some_iff.mp hfront).1]
  rw [happly]
  split
  next hmissing =>
    rw [List.isEmpty_iff] at hmissing
    constructor
    · intro hok
      cases hok
      exact ⟨rfl, hmissing⟩
    · rintro ⟨rfl, -⟩
      rfl
  next hmissing =>
    rw [List.isEmpty_iff] at hmissing
    constructor
    · intro hok
      cases hok
    · rintro ⟨rfl, hnone⟩
      exact absurd hnone hmissing

theorem missingFields_eq_nil : missingFields type metadata = [] ↔
    ∀ field ∈ type.requiredFields, isBlank metadata field = false := by
  simp [missingFields, List.filter_eq_nil_iff]

/-- Only the reference may come from the type. -/
theorem getField_numbered {name : String} (hname : name ≠ "ged.reference" ∨ type.referencePrefix = none) :
    getField (type.numbered number metadata) name = getField metadata name := by
  unfold DocumentType.numbered
  split
  next hgives =>
    refine getField_setField_of_ne (hname.resolve_right fun hnone => ?_)
    simp [DocumentType.givesNumber, hnone] at hgives
  next => rfl

/-- Accepted metadata that name the type, and are saved. -/
def TypeBody.Usable (isWord : Char → Bool) (types : String → Option DocumentType) (number : Nat)
    (body : TypeBody) : Prop :=
  ∃ metadata result, ValidMetadata isWord metadata ∧
    getField metadata "ged.documentType" = some body.slug ∧
    applyDocumentType types number metadata = .ok result

theorem mem_neededFields {name : String} : name ∈ body.neededFields ↔ name = "ged.documentType" ∨
    name ∈ body.requiredFields ∧ (name ≠ "ged.reference" ∨ body.referencePrefix = none) := by
  simp [TypeBody.neededFields]

/-! ### What usable types fit -/

/-- The slug that accepted metadata name. -/
theorem slug_mem_of_valid (hbody : body.isValid = true) (hmetadata : ValidMetadata isWord metadata)
    (hnamed : getField metadata "ged.documentType" = some body.slug) :
    body.slug ∈ documentTypeSlugs := by
  have hfield := (isMetadata_iff.mp hmetadata.accepted).2 _ (mem_of_getField hnamed)
  have hnonempty : body.slug ≠ "" := by
    intro hempty
    rw [TypeBody.isValid, hempty] at hbody
    simp [isText] at hbody
  simp only [isField, Bool.and_eq_true, Bool.or_eq_true, decide_eq_true_eq] at hfield
  obtain ⟨⟨-, hslug⟩, -⟩ := hfield
  simpa [documentTypeSlugs, hnonempty] using hslug

/-- The characters of the name of a required field. -/
theorem chars_of_requiredFields (hbody : body.isValid = true) {name : String}
    (hname : name ∈ body.requiredFields) : ∃ c rest, name.toList = c :: rest ∧ rest.length ≤ 63 ∧
      ∀ other ∈ c :: rest, other.isAlphanum = true ∨ other ∈ ['_', '.', '-'] := by
  simp only [TypeBody.isValid, Bool.and_eq_true, List.all_eq_true] at hbody
  have hfield := hbody.1.2 name hname
  unfold isText at hfield
  split at hfield
  next => cases hfield
  next c rest hchars =>
    simp only [Bool.and_eq_true, Bool.or_eq_true, decide_eq_true_eq, List.all_eq_true] at hfield
    obtain ⟨⟨hfirst, hlength⟩, hrest⟩ := hfield
    refine ⟨c, rest, hchars, hlength, fun other hother => ?_⟩
    rcases List.mem_cons.mp hother with rfl | hother
    · exact hfirst
    · exact hrest other hother

variable (hword : ∀ c : Char, c.toNat < 128 → isWord c = c.isAlphanum)
include hword

/-- A usable type fits. -/
theorem fits_of_usable (hbody : body.isValid = true) (htypes : types body.slug = some body.columns)
    (husable : body.Usable isWord types number) : body.Fits := by
  obtain ⟨metadata, result, hmetadata, hnamed, hok⟩ := husable
  have hslug := slug_mem_of_valid hbody hmetadata hnamed
  obtain ⟨rfl, hmissing⟩ := (applyDocumentType_eq_ok hslug hnamed htypes).mp hok
  obtain ⟨hcount, hfields⟩ := isMetadata_iff.mp hmetadata.accepted
  have hpresent : ∀ name ∈ body.neededFields, ∃ text, (name, text) ∈ metadata := by
    intro name hname
    rcases mem_neededFields.mp hname with rfl | ⟨hrequired, hown⟩
    · exact ⟨_, mem_of_getField hnamed⟩
    · have hblank := missingFields_eq_nil.mp hmissing name (List.mem_eraseDups.mpr hrequired)
      rw [isBlank, getField_numbered hown] at hblank
      cases hfield : getField metadata name with
      | none =>
          rw [hfield] at hblank
          cases hblank
      | some text => exact ⟨text, mem_of_getField hfield⟩
  refine ⟨hslug, fun name hrequired => ?_, ?_⟩
  · by_cases hreference : name = "ged.reference"
    · subst hreference
      decide
    · obtain ⟨text, htext⟩ := hpresent name (mem_neededFields.mpr (.inr ⟨hrequired, .inl hreference⟩))
      have hfield := hfields _ htext
      obtain ⟨c, rest, hchars, -, hclass⟩ := chars_of_requiredFields hbody hrequired
      simp only [isField, isFieldName, isText, hchars, Bool.and_eq_true, decide_eq_true_eq] at hfield
      obtain ⟨⟨⟨⟨⟨⟨hfirst, -⟩, -⟩, hreserved⟩, -⟩, -⟩, -⟩ := hfield
      refine ⟨?_, hreserved⟩
      rw [hchars, List.head?_cons, Option.any_some]
      refine (hclass c List.mem_cons_self).resolve_right fun hspecial => ?_
      -- The separators are no letters or digits of any script.
      have hseparators : ∀ c ∈ ['_', '.', '-'], c.toNat < 128 ∧ c.isAlphanum = false := by simp
      obtain ⟨hascii, hplain⟩ := hseparators c hspecial
      rw [hword c hascii, hplain] at hfirst
      cases hfirst
  · have hsubset : body.neededFields ⊆ metadata.map Prod.fst := by
      intro name hname
      obtain ⟨text, htext⟩ := hpresent name hname
      exact List.mem_map_of_mem htext
    have hlength := (List.subperm_of_subset (List.nodup_dedup _) hsubset).length_le
    rw [List.length_map] at hlength
    exact hlength.trans hcount

/-! ### What types that fit are used by -/

theorem isFieldName_of_chars {name : String} {c : Char} {rest : List Char}
    (hchars : name.toList = c :: rest) (hlength : rest.length ≤ 63) (hfirst : c.isAlphanum = true)
    (hclass : ∀ other ∈ rest, other.isAlphanum = true ∨ other ∈ ['_', '.', '-']) :
    isFieldName isWord name = true := by
  have hletter : ∀ c : Char, c.isAlphanum = true → isWord c = true := by
    intro c hc
    rw [hword c (JsString.toNat_lt_of_isAlphanum hc), hc]
  simp only [isFieldName, isText, hchars, Bool.and_eq_true, decide_eq_true_eq, List.all_eq_true,
    Bool.or_eq_true]
  refine ⟨⟨hletter c hfirst, hlength⟩, fun other hother => ?_⟩
  exact (hclass other hother).imp (hletter other) fun hmem => List.mem_cons_of_mem _ hmem

/-- A value for each field. -/
def TypeBody.sampleValue (body : TypeBody) (name : String) : String :=
  if name = "ged.documentType" then body.slug
  else if name = "ged.reviewDate" then "2026-01-01"
  else "x"

omit hword in
theorem sampleValue_spec (hslug : body.slug ∈ documentTypeSlugs) (name : String) :
    JsString.length (body.sampleValue name) ≤ 1000 ∧
      ((body.sampleValue name).toList.any fun c => !JsString.isWhiteSpace c) = true := by
  have hslugs : ∀ slug ∈ documentTypeSlugs, JsString.length slug ≤ 1000 ∧
      (slug.toList.any fun c => !JsString.isWhiteSpace c) = true := by
    decide
  unfold TypeBody.sampleValue
  split
  · exact hslugs body.slug hslug
  · split <;> decide

/-- The field with its sample value is valid. -/
theorem isField_sampleValue (hbody : body.isValid = true) (hfits : body.Fits) {name : String}
    (hname : name ∈ body.neededFields) : isField isWord (name, body.sampleValue name) = true := by
  have hallowed : isFieldName isWord name = true ∧
      name ∉ ["__proto__", "constructor", "prototype"] := by
    rcases mem_neededFields.mp hname with rfl | ⟨hrequired, -⟩
    · have hchars : "ged.documentType".toList = 'g' :: "ed.documentType".toList := by decide
      refine ⟨isFieldName_of_chars hword hchars (by decide) (by decide) ?_, by decide⟩
      have hrest : "ed.documentType".toList.all (fun other => other.isAlphanum || other = '.') =
          true := by decide
      intro other hother
      have hclass := List.all_eq_true.mp hrest other hother
      simp only [Bool.or_eq_true, decide_eq_true_eq] at hclass
      exact hclass.imp_right fun hdot => by simp [hdot]
    · obtain ⟨c, rest, hchars, hlength, hclass⟩ := chars_of_requiredFields hbody hrequired
      obtain ⟨hfirst, hreserved⟩ := hfits.names name hrequired
      rw [hchars, List.head?_cons, Option.any_some] at hfirst
      exact ⟨isFieldName_of_chars hword hchars hlength hfirst fun other hother =>
        hclass other (List.mem_cons_of_mem _ hother), hreserved⟩
  simp only [isField, Bool.and_eq_true, Bool.or_eq_true, decide_eq_true_eq]
  refine ⟨⟨⟨hallowed, (sampleValue_spec hfits.slug name).1⟩, ?_⟩, ?_⟩
  · by_cases htype : name = "ged.documentType"
    · have hslug : body.sampleValue name = body.slug := if_pos htype
      exact .inr (hslug ▸ List.mem_cons_of_mem _ hfits.slug)
    · exact .inl htype
  · by_cases hdate : name = "ged.reviewDate"
    · subst hdate
      have hday : body.sampleValue "ged.reviewDate" = "2026-01-01" := by
        rw [TypeBody.sampleValue, if_neg (by decide), if_pos rfl]
      rw [hday]
      exact .inr (by decide)
    · exact .inl (.inl hdate)

/-- A type that fits is usable. -/
theorem usable_of_fits (hbody : body.isValid = true) (htypes : types body.slug = some body.columns)
    (hfits : body.Fits) (number : Nat) : body.Usable isWord types number := by
  let metadata : Metadata := body.neededFields.map fun name => (name, body.sampleValue name)
  have hvalue : ∀ name ∈ body.neededFields,
      getField metadata name = some (body.sampleValue name) := fun name => getField_map
  have hnamed : getField metadata "ged.documentType" = some body.slug :=
    hvalue _ (mem_neededFields.mpr (.inl rfl))
  have hnames : metadata.map Prod.fst = body.neededFields := by
    simp [metadata, Function.comp_def]
  refine ⟨metadata, body.columns.numbered number metadata, ⟨?_, ?_⟩, hnamed,
    (applyDocumentType_eq_ok hfits.slug hnamed htypes).mpr ⟨rfl, ?_⟩⟩
  · rw [hnames]
    exact List.nodup_dedup _
  · refine isMetadata_iff.mpr ⟨?_, fun field hfield => ?_⟩
    · rw [← List.length_map Prod.fst, hnames]
      exact hfits.count
    · obtain ⟨name, hname, rfl⟩ := List.mem_map.mp hfield
      exact isField_sampleValue hword hbody hfits hname
  · refine missingFields_eq_nil.mpr fun name hname => ?_
    have hrequired : name ∈ body.requiredFields := List.mem_eraseDups.mp hname
    by_cases hown : name ≠ "ged.reference" ∨ body.referencePrefix = none
    · have hneeded := mem_neededFields.mpr (.inr ⟨hrequired, hown⟩)
      obtain ⟨c, hmem, hc⟩ := List.any_eq_true.mp (sampleValue_spec hfits.slug name).2
      have hfield : getField (body.columns.numbered number metadata) name =
          some (body.sampleValue name) := (getField_numbered hown).trans (hvalue name hneeded)
      exact isBlank_eq_false hfield hmem (by simpa using hc)
    · -- The type gives the reference.
      obtain ⟨rfl, hsome⟩ : name = "ged.reference" ∧ body.referencePrefix ≠ none := by
        simpa using hown
      obtain ⟨front, hfront⟩ := Option.ne_none_iff_exists'.mp hsome
      have hgives : body.columns.givesNumber metadata = true := by
        have hnonempty : front ≠ "" := by
          rintro rfl
          simp only [TypeBody.isValid, Bool.and_eq_true, hfront, Option.all_some] at hbody
          exact absurd hbody.2 (by decide)
        have hnone : getField metadata "ged.reference" = none := by
          refine getField_map_eq_none fun hneeded => ?_
          rcases mem_neededFields.mp hneeded with heq | ⟨-, hown⟩
          · exact absurd heq (by decide)
          · simp [hsome] at hown
        simp [DocumentType.givesNumber, TypeBody.columns, hfront, hnonempty, isBlank, hnone]
      have hfield : getField (body.columns.numbered number metadata) "ged.reference" =
          some (body.columns.referencePrefix.getD "" ++ "-" ++ padNumber number) := by
        rw [DocumentType.numbered, if_pos hgives]
        exact getField_setField
      refine isBlank_eq_false hfield (c := '-') ?_ (by decide)
      have hdash : "-".toList = ['-'] := by decide
      simp [hdash]

end Saving

/-- Exactly the types that fit are usable: the slug is one of those that metadata may name, every
required field has a name that metadata may have, and there are at most twenty fields. -/
theorem type_usable_iff {isWord : Char → Bool}
    (hword : ∀ c : Char, c.toNat < 128 → isWord c = c.isAlphanum) {body : TypeBody}
    (hbody : body.isValid = true) {types : String → Option DocumentType}
    (htypes : types body.slug = some body.columns) (number : Nat) :
    (∃ metadata result, ValidMetadata isWord metadata ∧
      getField metadata "ged.documentType" = some body.slug ∧
      applyDocumentType types number metadata = .ok result) ↔ body.Fits :=
  ⟨fits_of_usable hword hbody htypes, fun hfits => usable_of_fits hword hbody htypes hfits number⟩

/-! ## Sample -/

/-- Procedures with an owner and a number. -/
def procedureType : TypeBody :=
  ⟨"procedure", "Procédure", "Procedure", ["owner", "ged.reference"], some "PRO"⟩

/-- A type for contracts. -/
def contractType : TypeBody := ⟨"contract", "Contrat", "Contract", [], none⟩

theorem type_usable_iff_procedure : ∃ metadata result,
    ValidMetadata Char.isAlphanum metadata ∧
      getField metadata "ged.documentType" = some "procedure" ∧
      applyDocumentType (fun _ => some procedureType.columns) 1 metadata = .ok result := by
  refine (type_usable_iff (fun _ _ => rfl) (by decide : procedureType.isValid = true) rfl
    1).mpr ⟨by decide, ?_, by decide⟩
  decide

/-- The validator of types accepts contracts, and that of metadata no document of this type. -/
theorem contract_type_unusable : contractType.isValid = true ∧
    ¬∃ metadata, ValidMetadata Char.isAlphanum metadata ∧
      getField metadata "ged.documentType" = some contractType.slug := by
  have hvalid : contractType.isValid = true := by decide
  refine ⟨hvalid, ?_⟩
  rintro ⟨metadata, hmetadata, hnamed⟩
  exact absurd (slug_mem_of_valid hvalid hmetadata hnamed) (by decide)

end IsmsPortal
