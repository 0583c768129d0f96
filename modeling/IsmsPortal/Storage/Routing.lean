import IsmsPortal.Foundation.PosixPath
import IsmsPortal.Storage.Targets

/-! # The keys of objects

The key of an object says where it is: a key under `targets/` names a storage target, any other one
lies in the primary storage. The key of a document's object and the target it was uploaded to are
found again in the object key, and a key leads below the root of its storage.
-/

namespace IsmsPortal

open Foundation PosixPath

def targetsFolder : List Char := ['t', 'a', 'r', 'g', 'e', 't', 's', '/']

/-- `key.startsWith("targets/")`. -/
def startsWithTargets (key : String) : Bool := targetsFolder.isPrefixOf key.toList

/-- The record of a target, or the error of the service. -/
def TargetStore.getTarget (store : TargetStore) (id : String) : Except String StorageTarget := do
  let id ← storageTargetId id
  match store.targets.find? fun target => target.id = id with
  | none => throw "Storage target not found"
  | some target => return target

/-- `pathFor`; the working directory is that of the process. -/
def pathFor (cwd : List Char) (objectKey : String) (root : List Char) :
    Except String (List Char) := do
  let _ ← storagePath objectKey
  let target := PosixPath.resolve cwd [root, objectKey.toList]
  if target ≠ root ∧ (root ++ ['/']).isPrefixOf target = false then
    throw "Invalid document storage key"
  return target

/-- The key of an object in a target. -/
def targetKey (id key : String) : String := "targets/" ++ id ++ "/" ++ key

/-- The target of an upload, unless it is the primary storage. -/
def uploadTarget : Option String → Option String
  | none => none
  | some id => if id = "" ∨ id = "primary" then none else some id

def uploadKey (store : TargetStore) (key : String) (targetId : Option String) :
    Except String String := do
  let _ ← storagePath key
  match uploadTarget targetId with
  | none => return key
  | some id =>
      let target ← store.getTarget id
      if target.enabled = false ∨ target.testStatus ≠ .success then
        throw "Storage target is not available for uploads"
      return targetKey target.id key

/-- `objectKey.split("/")`. -/
def keyParts (objectKey : String) : List (List Char) := objectKey.toList.splitOn '/'

def derivedKey (sourceKey key : String) : Except String String := do
  let _ ← storagePath key
  if startsWithTargets sourceKey then
    let targetId ← storageTargetId (String.ofList ((keyParts sourceKey).getD 1 []))
    return targetKey targetId key
  else return key

def destination (store : TargetStore) (objectKey : String) :
    Except String (Option StorageTarget × String) := do
  let _ ← storagePath objectKey
  if startsWithTargets objectKey then
    let target ← store.getTarget (String.ofList ((keyParts objectKey).getD 1 []))
    let key ← storagePath
      (String.ofList (List.intercalate ['/'] ((keyParts objectKey).drop 2)))
    return (some target, key)
  else return (none, objectKey)

/-! ## Accepted keys -/

/-- A key that `storagePath` accepts. -/
structure AcceptedKey (key : String) : Prop where
  nonempty : key ≠ ""
  length : JsString.length key ≤ 1024
  character : ∀ c ∈ key.toList, pathCharacter c = true
  proper : ∀ part ∈ keyParts key, Proper part

theorem storagePath_eq_ok_iff {value key : String} :
    storagePath value = .ok key ↔ value = key ∧ AcceptedKey value := by
  unfold storagePath
  rw [Checks.accepts_if, Checks.accepts_pure, and_comm]
  refine and_congr_right fun _ => ⟨fun h => ?_, fun h => ?_⟩
  · simp only [not_or, Bool.not_eq_false, List.any_eq_true, decide_eq_true_eq, not_exists,
      not_and, Nat.not_lt] at h
    obtain ⟨hne, hlength, hcharacter, hparts⟩ := h
    exact ⟨hne, hlength, List.all_eq_true.mp hcharacter, fun part hpart =>
      ⟨(hparts part hpart).1, noSlash_of_mem_splitOn hpart, (hparts part hpart).2.1,
        (hparts part hpart).2.2⟩⟩
  · rintro (hempty | hlong | hcharacter | hparts)
    · exact h.nonempty hempty
    · exact Nat.not_lt_of_le h.length hlong
    · rw [List.all_eq_true.mpr h.character] at hcharacter
      cases hcharacter
    · obtain ⟨part, hpart, hbad⟩ := List.any_eq_true.mp hparts
      have hproper := h.proper part hpart
      rcases of_decide_eq_true hbad with hempty | hdot | hdots
      · exact hproper.nonempty hempty
      · exact hproper.noDot hdot
      · exact hproper.noDots hdots

theorem AcceptedKey.storagePath {key : String} (hkey : AcceptedKey key) :
    storagePath key = .ok key :=
  storagePath_eq_ok_iff.mpr ⟨rfl, hkey⟩

/-! ## Ids of targets -/

theorem exists_class_of_fitsPattern {pattern : List (Char → Bool)} {text : List Char}
    (hfits : fitsPattern pattern text = true) {c : Char} (hc : c ∈ text) :
    ∃ inClass ∈ pattern, inClass c = true := by
  induction pattern generalizing text with
  | nil =>
      cases text with
      | nil => cases hc
      | cons first text => cases hfits
  | cons inClass pattern ih =>
      cases text with
      | nil => cases hfits
      | cons first text =>
          simp only [fitsPattern, Bool.and_eq_true] at hfits
          rcases List.mem_cons.mp hc with rfl | htail
          · exact ⟨inClass, List.mem_cons_self, hfits.1⟩
          · obtain ⟨other, hother, hin⟩ := ih hfits.2 htail
            exact ⟨other, List.mem_cons_of_mem _ hother, hin⟩

theorem fits_of_storageTargetId {id id' : String} (hid : storageTargetId id = .ok id') :
    id' = id ∧ fitsPattern targetIdPattern id.toList = true := by
  unfold storageTargetId at hid
  split at hid
  next hfits => exact ⟨(Except.ok.inj hid).symm, hfits⟩
  next => cases hid

theorem character_of_lowerHex {c : Char} (hc : lowerHex c = true) :
    pathCharacter c = true ∧ c ≠ '/' := by
  have hbounds : 48 ≤ c.toNat ∧ c.toNat ≤ 57 ∨ 97 ≤ c.toNat ∧ c.toNat ≤ 102 := by
    rcases Bool.or_eq_true_iff.mp hc with hdigit | hletter
    · have hrange : '0'.val ≤ c.val ∧ c.val ≤ '9'.val := by
        simpa [Char.isDigit] using hdigit
      exact .inl ⟨hrange.1, hrange.2⟩
    · obtain ⟨hlow, hhigh⟩ := of_decide_eq_true hletter
      exact .inr ⟨hlow, hhigh⟩
  refine ⟨?_, ?_⟩
  · rw [pathCharacter, JsString.isAlphanum_iff.mpr (by omega), Bool.true_or]
  · rintro rfl
    revert hbounds
    decide

/-- An id has characters of paths, and no slash. -/
theorem character_of_targetId {id : String}
    (hfits : fitsPattern targetIdPattern id.toList = true) :
    ∀ c ∈ id.toList, pathCharacter c = true ∧ c ≠ '/' := by
  intro c hc
  obtain ⟨inClass, hclass, hin⟩ := exists_class_of_fitsPattern hfits hc
  simp only [targetIdPattern, List.mem_append, List.mem_cons, List.mem_replicate] at hclass
  have hclasses : inClass = lowerHex ∨ inClass = (· == '-') ∨ inClass = (· == '4') ∨
      inClass = ['8', '9', 'a', 'b'].contains := by tauto
  rcases hclasses with rfl | rfl | rfl | rfl
  · exact character_of_lowerHex hin
  · obtain rfl := eq_of_beq hin
    decide
  · obtain rfl := eq_of_beq hin
    decide
  · simp only [List.contains_eq_mem, List.mem_cons, List.not_mem_nil, or_false,
      decide_eq_true_eq] at hin
    rcases hin with rfl | rfl | rfl | rfl <;> decide

theorem proper_of_targetId {id : String}
    (hfits : fitsPattern targetIdPattern id.toList = true) : Proper id.toList := by
  have hlength : id.toList.length = 36 := length_of_fitsPattern hfits
  refine ⟨?_, fun hslash => (character_of_targetId hfits '/' hslash).2 rfl, ?_, ?_⟩
  · intro h
    rw [h] at hlength
    cases hlength
  · intro h
    rw [h] at hlength
    cases hlength
  · intro h
    rw [h] at hlength
    cases hlength

theorem getTarget_eq_ok {store : TargetStore} {id : String} {target : StorageTarget}
    (hget : store.getTarget id = .ok target) : storageTargetId id = .ok id ∧ target.id = id := by
  unfold TargetStore.getTarget at hget
  obtain ⟨id', hid, hfind⟩ := Checks.accepts_bind.mp hget
  obtain ⟨rfl, -⟩ := fits_of_storageTargetId hid
  refine ⟨hid, ?_⟩
  split at hfind
  next => cases hfind
  next found hfound =>
    obtain rfl := Checks.accepts_pure.mp hfind
    simpa using List.find?_some hfound

/-! ## Keys in targets -/

theorem toList_targetKey (id key : String) :
    (targetKey id key).toList = targetsFolder ++ (id.toList ++ '/' :: key.toList) := by
  have hfolder : "targets/".toList = targetsFolder := rfl
  have hslash : "/".toList = ['/'] := rfl
  rw [targetKey, String.toList_append, String.toList_append, String.toList_append, hfolder, hslash,
    List.append_assoc, List.append_assoc]
  rfl

theorem startsWithTargets_targetKey (id key : String) :
    startsWithTargets (targetKey id key) = true := by
  rw [startsWithTargets, toList_targetKey, List.isPrefixOf_iff_prefix]
  exact List.prefix_append _ _

/-- The parts of a key that names a target. -/
theorem keyParts_targetKey {id : String} (hid : '/' ∉ id.toList) (key : String) :
    keyParts (targetKey id key) =
      ['t', 'a', 'r', 'g', 'e', 't', 's'] :: id.toList :: keyParts key := by
  have hfolder : targetsFolder ++ (id.toList ++ '/' :: key.toList) =
      ['t', 'a', 'r', 'g', 'e', 't', 's'] ++ '/' :: (id.toList ++ '/' :: key.toList) := rfl
  have hsplit : ['t', 'a', 'r', 'g', 'e', 't', 's'].splitOn '/' =
      [['t', 'a', 'r', 'g', 'e', 't', 's']] := List.splitOn_eq_singleton (by decide)
  rw [keyParts, toList_targetKey, hfolder, List.splitOn_append_cons_self,
    List.splitOn_append_cons_self, hsplit, List.splitOn_eq_singleton hid]
  rfl

theorem accepted_targetKey {id key : String}
    (hfits : fitsPattern targetIdPattern id.toList = true) (hkey : AcceptedKey key)
    (hlength : JsString.length (targetKey id key) ≤ 1024) : AcceptedKey (targetKey id key) := by
  refine ⟨?_, hlength, ?_, ?_⟩
  · intro hempty
    have hlist := congrArg String.toList hempty
    rw [toList_targetKey] at hlist
    cases hlist
  · intro c hc
    rw [toList_targetKey] at hc
    rcases List.mem_append.mp hc with hfolder | hrest
    · have hall : targetsFolder.all pathCharacter = true := by decide
      exact List.all_eq_true.mp hall c hfolder
    · rcases List.mem_append.mp hrest with hid | htail
      · exact (character_of_targetId hfits c hid).1
      · rcases List.mem_cons.mp htail with rfl | hkeyChar
        · decide
        · exact hkey.character c hkeyChar
  · intro part hpart
    rw [keyParts_targetKey (proper_of_targetId hfits).noSlash] at hpart
    rcases List.mem_cons.mp hpart with rfl | hrest
    · exact ⟨by decide, by decide, by decide, by decide⟩
    · rcases List.mem_cons.mp hrest with rfl | hparts
      · exact proper_of_targetId hfits
      · exact hkey.proper part hparts

/-- A key that names a target leads to that target and to the key in it. -/
theorem destination_targetKey {store : TargetStore} {id key : String} {target : StorageTarget}
    (hget : store.getTarget id = .ok target) (hkey : AcceptedKey key)
    (hlength : JsString.length (targetKey id key) ≤ 1024) :
    destination store (targetKey id key) = .ok (some target, key) := by
  obtain ⟨hid, -⟩ := getTarget_eq_ok hget
  obtain ⟨-, hfits⟩ := fits_of_storageTargetId hid
  have hparts := keyParts_targetKey (proper_of_targetId hfits).noSlash key
  have hfirst : String.ofList ((keyParts (targetKey id key)).getD 1 []) = id := by
    rw [hparts]
    exact String.ofList_toList
  have hrest : String.ofList (List.intercalate ['/'] ((keyParts (targetKey id key)).drop 2)) =
      key := by
    rw [hparts]
    have hjoin : List.intercalate ['/'] (key.toList.splitOn '/') = key.toList :=
      List.intercalate_splitOn '/'
    exact (congrArg String.ofList hjoin).trans String.ofList_toList
  rw [destination, (accepted_targetKey hfits hkey hlength).storagePath]
  simp only [startsWithTargets_targetKey, if_true, hfirst, hrest, hget, hkey.storagePath]
  rfl

theorem destination_primary (store : TargetStore) {key : String} (hkey : AcceptedKey key)
    (hprimary : startsWithTargets key = false) : destination store key = .ok (none, key) := by
  rw [destination, hkey.storagePath]
  simp only [hprimary, Bool.false_eq_true, if_false]
  rfl

/-- Where a key leads to, the target is named by the key or is the primary storage. -/
theorem of_destination {store : TargetStore} {objectKey key : String}
    {target : Option StorageTarget} (h : destination store objectKey = .ok (target, key)) :
    (startsWithTargets objectKey = false ∧ target = none) ∨
      startsWithTargets objectKey = true ∧ ∃ record, target = some record ∧
        store.getTarget (String.ofList ((keyParts objectKey).getD 1 [])) = .ok record := by
  unfold destination at h
  obtain ⟨_, -, h⟩ := Checks.accepts_bind.mp h
  split at h
  next hstarts =>
    obtain ⟨record, hrecord, h⟩ := Checks.accepts_bind.mp h
    obtain ⟨key', -, h⟩ := Checks.accepts_bind.mp h
    obtain ⟨rfl, rfl⟩ := Prod.mk.inj (Checks.accepts_pure.mp h)
    exact .inr ⟨hstarts, record, rfl, hrecord⟩
  next hstarts =>
    obtain ⟨rfl, rfl⟩ := Prod.mk.inj (Checks.accepts_pure.mp h)
    exact .inl ⟨Bool.eq_false_iff.mpr hstarts, rfl⟩

/-- A derived object goes where its source is. -/
theorem destination_derivedKey {store : TargetStore} {source sourceKey key : String}
    {target : Option StorageTarget} (hsource : destination store source = .ok (target, sourceKey))
    (hkey : AcceptedKey key) (hprimary : startsWithTargets key = false) :
    ∃ derived, derivedKey source key = .ok derived ∧
      (JsString.length derived ≤ 1024 → destination store derived = .ok (target, key)) := by
  rw [derivedKey, hkey.storagePath]
  rcases of_destination hsource with ⟨hstarts, rfl⟩ | ⟨hstarts, record, rfl, hrecord⟩
  · refine ⟨key, ?_, fun _ => destination_primary store hkey hprimary⟩
    simp only [hstarts, Bool.false_eq_true, if_false]
    rfl
  · obtain ⟨hid, -⟩ := getTarget_eq_ok hrecord
    refine ⟨targetKey (String.ofList ((keyParts source).getD 1 [])) key, ?_,
      destination_targetKey hrecord hkey⟩
    simp only [hstarts, if_true, hid]
    rfl

/-- What the key of an upload says. -/
theorem of_uploadKey {store : TargetStore} {key objectKey : String} {targetId : Option String}
    (h : uploadKey store key targetId = .ok objectKey) :
    AcceptedKey key ∧ ((uploadTarget targetId = none ∧ objectKey = key) ∨
      ∃ id target, uploadTarget targetId = some id ∧ store.getTarget id = .ok target ∧
        objectKey = targetKey id key) := by
  unfold uploadKey at h
  obtain ⟨_, hkey, h⟩ := Checks.accepts_bind.mp h
  obtain ⟨rfl, haccepted⟩ := storagePath_eq_ok_iff.mp hkey
  refine ⟨haccepted, ?_⟩
  split at h
  next hnone => exact .inl ⟨hnone, (Checks.accepts_pure.mp h).symm⟩
  next id hid =>
    obtain ⟨target, htarget, h⟩ := Checks.accepts_bind.mp h
    obtain ⟨-, hpure⟩ := Checks.accepts_if.mp h
    obtain ⟨-, hsame⟩ := getTarget_eq_ok htarget
    refine .inr ⟨id, target, hid, htarget, ?_⟩
    rw [← Checks.accepts_pure.mp hpure, hsame]

/-- The id of a target does not stand for the primary storage. -/
theorem uploadTarget_of_getTarget {store : TargetStore} {id : String} {target : StorageTarget}
    (hget : store.getTarget id = .ok target) : uploadTarget (some id) = some id := by
  obtain ⟨hid, -⟩ := getTarget_eq_ok hget
  have hlength : id.toList.length = 36 :=
    length_of_fitsPattern (fits_of_storageTargetId hid).2
  rw [uploadTarget, if_neg]
  rintro (rfl | rfl) <;> simp at hlength

theorem uploadKey_available {store : TargetStore} {key id : String} {target : StorageTarget}
    (hkey : AcceptedKey key) (hget : store.getTarget id = .ok target)
    (henabled : target.enabled = true) (htested : target.testStatus = .success) :
    uploadKey store key (some id) = .ok (targetKey id key) := by
  have havailable : ¬ (target.enabled = false ∨ target.testStatus ≠ .success) := by
    simp [henabled, htested]
  rw [uploadKey, hkey.storagePath, uploadTarget_of_getTarget hget]
  refine Checks.accepts_bind.mpr ⟨key, rfl, Checks.accepts_bind.mpr ⟨target, hget, ?_⟩⟩
  refine Checks.accepts_if.mpr ⟨havailable, ?_⟩
  rw [(getTarget_eq_ok hget).2]
  rfl

/-- Keys of uploads are equal only for one key in one target. -/
theorem uploadKey_injective {store : TargetStore} {key key' objectKey : String}
    {targetId targetId' : Option String} (hprimary : startsWithTargets key = false)
    (hprimary' : startsWithTargets key' = false)
    (h : uploadKey store key targetId = .ok objectKey)
    (h' : uploadKey store key' targetId' = .ok objectKey) :
    uploadTarget targetId = uploadTarget targetId' ∧ key = key' := by
  obtain ⟨-, hform⟩ := of_uploadKey h
  obtain ⟨-, hform'⟩ := of_uploadKey h'
  rcases hform with ⟨hnone, rfl⟩ | ⟨id, target, hsome, hget, rfl⟩
  · rcases hform' with ⟨hnone', rfl⟩ | ⟨id', target', -, -, rfl⟩
    · exact ⟨hnone.trans hnone'.symm, rfl⟩
    · rw [startsWithTargets_targetKey] at hprimary
      cases hprimary
  · rcases hform' with ⟨-, rfl⟩ | ⟨id', target', hsome', hget', hequal⟩
    · rw [startsWithTargets_targetKey] at hprimary'
      cases hprimary'
    · have hparts := congrArg keyParts hequal
      have hid := (proper_of_targetId (fits_of_storageTargetId (getTarget_eq_ok hget).1).2).noSlash
      have hid' :=
        (proper_of_targetId (fits_of_storageTargetId (getTarget_eq_ok hget').1).2).noSlash
      rw [keyParts_targetKey hid, keyParts_targetKey hid'] at hparts
      obtain ⟨hids, hkeys⟩ := List.cons.inj (List.cons.inj hparts).2
      obtain rfl := String.toList_injective hids
      refine ⟨hsome.trans hsome'.symm, ?_⟩
      have hjoined := congrArg (List.intercalate ['/']) hkeys
      rw [keyParts, keyParts, List.intercalate_splitOn, List.intercalate_splitOn] at hjoined
      exact String.toList_injective hjoined

theorem pathFor_below (cwd : List Char) {key : String} {root : List Char}
    {paths : List (List Char)} (hkey : AcceptedKey key) (hroot : root = PosixPath.resolve cwd paths)
    (hne : root ≠ ['/']) : ∃ path, pathFor cwd key root = .ok path ∧ Below root path := by
  obtain ⟨hpath, hbelow⟩ := below_resolve cwd hroot hne hkey.proper
  refine ⟨_, ?_, hbelow⟩
  have hinside : (root ++ ['/']).isPrefixOf (PosixPath.resolve cwd [root, key.toList]) = true := by
    rw [hpath, List.isPrefixOf_iff_prefix]
    exact ⟨key.toList, by rw [List.append_assoc]; rfl⟩
  rw [pathFor, hkey.storagePath]
  exact if_neg fun h => by simp [hinside] at h

/-- Every accepted key leads below the root of its storage, which is resolved. A key that is not
under `targets/` is found again in the key of its upload, in the primary storage or in the target;
an object that is derived from another one goes to the target of that one; and two uploads have one
object key only if they have one key and one target. -/
theorem storage_keys (store : TargetStore) (cwd : List Char) :
    (∀ key root paths, AcceptedKey key → root = PosixPath.resolve cwd paths → root ≠ ['/'] →
      ∃ path, pathFor cwd key root = .ok path ∧ Below root path) ∧
    (∀ key, AcceptedKey key → startsWithTargets key = false →
      (∀ targetId, uploadTarget targetId = none → uploadKey store key targetId = .ok key) ∧
      destination store key = .ok (none, key) ∧
      (∀ id target, store.getTarget id = .ok target → target.id = id ∧
        (target.enabled = true → target.testStatus = .success →
          ∃ objectKey, uploadKey store key (some id) = .ok objectKey) ∧
        ∀ objectKey, uploadKey store key (some id) = .ok objectKey →
          JsString.length objectKey ≤ 1024 →
          destination store objectKey = .ok (some target, key)) ∧
      ∀ source sourceKey target, destination store source = .ok (target, sourceKey) →
        ∃ derived, derivedKey source key = .ok derived ∧
          (JsString.length derived ≤ 1024 → destination store derived = .ok (target, key))) ∧
    ∀ key key' targetId targetId' objectKey, startsWithTargets key = false →
      startsWithTargets key' = false → uploadKey store key targetId = .ok objectKey →
      uploadKey store key' targetId' = .ok objectKey →
      uploadTarget targetId = uploadTarget targetId' ∧ key = key' := by
  refine ⟨fun key root paths hkey hroot hne => pathFor_below cwd hkey hroot hne,
    fun key hkey hprimary => ⟨?_, destination_primary store hkey hprimary, ?_,
      fun _ _ _ hsource => destination_derivedKey hsource hkey hprimary⟩,
    fun _ _ _ _ _ hprimary hprimary' => uploadKey_injective hprimary hprimary'⟩
  · intro targetId hnone
    rw [uploadKey, hkey.storagePath, hnone]
    rfl
  · intro id target hget
    refine ⟨(getTarget_eq_ok hget).2,
      fun henabled htested => ⟨_, uploadKey_available hkey hget henabled htested⟩, ?_⟩
    intro objectKey hupload hlength
    obtain ⟨-, hform⟩ := of_uploadKey hupload
    rw [uploadTarget_of_getTarget hget] at hform
    rcases hform with ⟨hnone, -⟩ | ⟨id', target', hsome, -, rfl⟩
    · cases hnone
    · obtain rfl := Option.some.inj hsome
      exact destination_targetKey hget hkey hlength

end IsmsPortal
