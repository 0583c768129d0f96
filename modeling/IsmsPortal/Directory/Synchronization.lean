import IsmsPortal.Foundation.Interleaving
import IsmsPortal.Foundation.JsString
import IsmsPortal.Foundation.Table
import Mathlib.Data.List.Sort

/-! # Synchronisation of directory groups

`synchronize` reads the groups of a connection, looks each of them up in the directory and
updates those that are found. A second query then selects the groups of the connection whose
names are not among those found, and these are deleted with their access rules. Imports and
other runs write groups meanwhile.
-/

namespace IsmsPortal

open Foundation

/-- A row of `DirectoryGroup`. -/
structure SyncGroup where
  id : String
  name : String
  distinguishedName : String
  description : Option String
  memberCount : Nat
  active : Bool
  lastSyncedAt : Option Int
  directoryConnectionId : Option String
deriving DecidableEq

/-- The columns of an `AccessRule` that matter here. -/
structure GroupRule where
  id : String
  groupId : String
deriving DecidableEq

structure DirectoryConnection where
  id : String
  enabled : Bool
  baseDn : String
  groupBaseDn : Option String
deriving DecidableEq

/-- An attribute of an entry of the directory. -/
inductive AttributeValue
  | absent
  | text (value : String)
  | many (values : List String)
deriving DecidableEq

structure SearchEntry where
  dn : String
  groupAttribute : AttributeValue
  description : Option String
  member : AttributeValue
deriving DecidableEq

/-- A search in the directory throws, or gives at most one entry. -/
inductive SearchResult
  | failed
  | entries (entry : Option SearchEntry)
deriving DecidableEq

/-- A group as it is in the directory. -/
structure EntryGroup where
  name : String
  distinguishedName : String
  description : Option String
  memberCount : Nat
deriving DecidableEq

/-- A run of `synchronize`: the rows it has still to look up, the number of rows it has
selected, and the names it has found. The last two fields are no variables of the source: the
rows that it looked up without finding them, and the number of writes before its selection. -/
structure SyncRun where
  connection : String
  todo : List (String × String)
  selected : Nat
  synchronizedAt : Int
  synchronizedDns : List String
  missing : List String
  mark : Nat
deriving DecidableEq

/-- The tables, the ids of all groups ever created, and the ids of the groups that were
imported or created, one for each write, the latest last. -/
structure DirectoryStore where
  clock : Int
  connections : List DirectoryConnection
  groups : List SyncGroup
  rules : List GroupRule
  issued : List String
  written : List String
deriving DecidableEq

inductive DirectoryProcess
  | synchronize (connection : String)
  | syncLookup (run : SyncRun)
  | syncUpdate (run : SyncRun) (id : String) (group : EntryGroup)
  | syncDelete (run : SyncRun) (ids : List String)
  | importGroup (connection distinguishedName : String)
  | importSearch (connection : String)
  | importFind (connection : String) (group : EntryGroup)
  | importWrite (connection : String) (group : EntryGroup) (existing : Option String)
  | createGroup (name distinguishedName : String) (description : Option String)
  | createRule (id groupId : String)
deriving DecidableEq

/-- The answer of a search, the id of a new row, whether a transaction fails. -/
structure DirectoryChoice where
  search : SearchResult
  uuid : String
  fails : Bool

/-! ## Statements -/

/-- `String(values[0])` or the text of the attribute. -/
def AttributeValue.first : AttributeValue → String
  | .absent => ""
  | .text value => value
  | .many [] => "undefined"
  | .many (value :: _) => value

def AttributeValue.count : AttributeValue → Nat
  | .absent => 0
  | .text value => if value = "" then 0 else 1
  | .many values => values.length

def groupFromEntry (entry : SearchEntry) : EntryGroup :=
  ⟨entry.groupAttribute.first, entry.dn, entry.description.filter (· ≠ ""), entry.member.count⟩

/-- The checks of `importGroup` on its connection. -/
def checkImport (toLowerCase : String → String) (connection : Option DirectoryConnection)
    (distinguishedName : String) : Except String DirectoryConnection := do
  let some connection := connection | throw "LDAP/LDAPS connector is not active"
  unless connection.enabled do throw "LDAP/LDAPS connector is not active"
  let groupBase := (connection.groupBaseDn.filter (· ≠ "")).getD connection.baseDn
  unless (toLowerCase groupBase).toList.isSuffixOf
      (toLowerCase (JsString.trim distinguishedName)).toList do
    throw "AD group is outside the configured Group Base DN"
  return connection

/-- The check of `importGroup` on the answer of the directory. -/
def checkEntry (entry : Option SearchEntry) : Except String EntryGroup := do
  let some entry := entry | throw "AD group not found"
  if (groupFromEntry entry).name = "" then throw "AD group has no name"
  return groupFromEntry entry

namespace DirectoryStore

variable (store : DirectoryStore)

/-- The groups of a connection. -/
def ofConnection (connection : String) : List SyncGroup :=
  store.groups.filter fun group => group.directoryConnectionId = some connection

/-- Name and distinguished name are unique. -/
def isFree (id name distinguishedName : String) : Bool :=
  store.groups.all fun other =>
    other.id = id || (other.name ≠ name && other.distinguishedName ≠ distinguishedName)

/-- The row with what was found. -/
def updateGroup (id : String) (group : EntryGroup) (now : Int) (connection : Option String) :
    DirectoryStore where
  __ := store
  groups := Table.update SyncGroup.id id (fun row => { row with
    name := group.name, distinguishedName := group.distinguishedName
    description := group.description, memberCount := group.memberCount, active := true
    lastSyncedAt := some now
    directoryConnectionId := connection.or row.directoryConnectionId }) store.groups

/-- A new row. -/
def addGroup (row : SyncGroup) : DirectoryStore where
  __ := store
  groups := store.groups ++ [row]
  issued := row.id :: store.issued

/-- An import or a manual creation has written the row. -/
def wrote (id : String) : DirectoryStore := { store with written := store.written ++ [id] }

/-- Delete groups and their access rules. -/
def deleteGroups (ids : List String) : DirectoryStore where
  __ := store
  groups := store.groups.filter fun group => group.id ∉ ids
  rules := store.rules.filter fun rule => rule.groupId ∉ ids

end DirectoryStore

section Program

variable (toLowerCase : String → String) (nameOrder : String → String → Bool)

/-- Run the next statement. -/
def directoryAdvance (choice : DirectoryChoice) (store : DirectoryStore) :
    DirectoryProcess → Option (Option DirectoryProcess × DirectoryStore)
  | .synchronize connection =>
      if store.connections.any fun row => row.id = connection then
        let selected := (store.ofConnection connection).insertionSort fun left right =>
          nameOrder left.name right.name = true
        some (some (.syncLookup ⟨connection,
          selected.map fun group => (group.id, group.distinguishedName), selected.length,
          store.clock, [], [], store.written.length⟩), store)
      else some (none, store)
  | .syncLookup run =>
      match run.todo with
      | [] =>
          let stale := (store.ofConnection run.connection).filter fun group =>
            group.distinguishedName ∉ run.synchronizedDns
          some (if run.selected = 0 ∨ stale = [] then none
            else some (.syncDelete run (stale.map SyncGroup.id)), store)
      | (id, _) :: todo =>
          match choice.search with
          | .failed => some (none, store)
          | .entries none =>
              some (some (.syncLookup { run with todo, missing := run.missing ++ [id] }), store)
          | .entries (some entry) =>
              if (groupFromEntry entry).name = "" then
                some (some (.syncLookup { run with todo }), store)
              else some (some (.syncUpdate { run with todo } id (groupFromEntry entry)), store)
  | .syncUpdate run id group =>
      if (store.groups.any fun row => row.id = id) &&
          store.isFree id group.name group.distinguishedName then
        some (some (.syncLookup { run with
            synchronizedDns := run.synchronizedDns ++ [group.distinguishedName] }),
          store.updateGroup id group run.synchronizedAt none)
      else some (none, store)
  | .syncDelete _ ids => some (none, if choice.fails then store else store.deleteGroups ids)
  | .importGroup connection distinguishedName =>
      some ((checkImport toLowerCase (store.connections.find? fun row => row.id = connection)
        distinguishedName).toOption.map fun row => .importSearch row.id, store)
  | .importSearch connection =>
      match choice.search with
      | .failed => some (none, store)
      | .entries entry =>
          some ((checkEntry entry).toOption.map (.importFind connection), store)
  | .importFind connection group =>
      some (some (.importWrite connection group ((store.groups.find? fun row =>
        row.distinguishedName = group.distinguishedName ∨ row.name = group.name).map
          SyncGroup.id)), store)
  | .importWrite connection group (some id) =>
      if (store.groups.any fun row => row.id = id) &&
          store.isFree id group.name group.distinguishedName then
        some (none, (store.updateGroup id group store.clock (some connection)).wrote id)
      else some (none, store)
  | .importWrite connection group none =>
      if choice.uuid ∈ store.issued then none
      else if store.isFree choice.uuid group.name group.distinguishedName then
        some (none, (store.addGroup ⟨choice.uuid, group.name, group.distinguishedName,
          group.description, group.memberCount, true, some store.clock, some connection⟩).wrote
            choice.uuid)
      else some (none, store)
  | .createGroup name distinguishedName description =>
      if choice.uuid ∈ store.issued then none
      else if store.isFree choice.uuid (JsString.trim name) (JsString.trim distinguishedName) then
        some (none, (store.addGroup ⟨choice.uuid, JsString.trim name,
          JsString.trim distinguishedName,
          (description.map JsString.trim).filter (· ≠ ""), 0, true, none, none⟩).wrote choice.uuid)
      else some (none, store)
  | .createRule id groupId =>
      some (none, if store.groups.any fun row => row.id = groupId && row.active then
        { store with rules := store.rules ++ [⟨id, groupId⟩] } else store)

def DirectoryProcess.initial : DirectoryProcess → Bool
  | .synchronize _ | .importGroup .. | .createGroup .. | .createRule .. => true
  | _ => false

def directoryProgram : Concurrent DirectoryStore DirectoryProcess DirectoryChoice where
  drift time store := if store.clock ≤ time then some { store with clock := time } else none
  start := DirectoryProcess.initial
  advance _ := directoryAdvance toLowerCase nameOrder

abbrev DirectoryConfig : Type := Concurrent.Config DirectoryStore DirectoryProcess

abbrev DirectoryMove : Type := Concurrent.Move DirectoryProcess DirectoryChoice

/-- No group has been created. -/
def DirectoryStore.Initial (store : DirectoryStore) : Prop :=
  store.groups = [] ∧ store.rules = [] ∧ store.issued = [] ∧ store.written = []

abbrev directorySystem : System DirectoryConfig DirectoryMove :=
  (directoryProgram toLowerCase nameOrder).system DirectoryStore.Initial

end Program

/-! ## The condition -/

/-- A run before its second query, with the rows it has still to look up or to write. -/
def DirectoryProcess.pending : DirectoryProcess → List (SyncRun × List String)
  | .syncLookup run => [(run, run.todo.map Prod.fst)]
  | .syncUpdate run id _ => [(run, id :: run.todo.map Prod.fst)]
  | _ => []

/-- The rows that a run is about to delete. -/
def DirectoryProcess.listed : DirectoryProcess → List String
  | .syncDelete _ ids => ids
  | _ => []

/-- The run will look the row up, or has found its name, or has looked it up without finding
it, and the row was not written since the selection. -/
def SyncRun.Settles (run : SyncRun) (pending written : List String) (id name : String) : Prop :=
  id ∈ pending ∨ name ∈ run.synchronizedDns ∨ id ∈ run.missing ∧ id ∉ written.drop run.mark

instance (run : SyncRun) (pending written : List String) (id name : String) :
    Decidable (run.Settles pending written id name) :=
  inferInstanceAs (Decidable (_ ∨ _ ∨ _ ∧ _))

/-- A write beside a run in flight. An import to its connection writes a row that the run has
still to look up, or a name that it has found, and no row that it is about to delete; an
update of another run leaves the row settled. -/
def WritesBeside (store : DirectoryStore) : DirectoryProcess → DirectoryProcess → Prop
  | .importWrite connection group existing, other =>
      (∀ entry ∈ other.pending, entry.1.connection = connection →
        (∃ id ∈ existing, id ∈ entry.2) ∨ group.distinguishedName ∈ entry.1.synchronizedDns) ∧
      ∀ id ∈ existing, id ∉ other.listed
  | .syncUpdate _ id group, other =>
      ∀ entry ∈ other.pending, (∃ row ∈ store.ofConnection entry.1.connection, row.id = id) →
        entry.1.Settles entry.2 store.written id group.distinguishedName
  | _, _ => True

/-- An entry that is found has a name. -/
def SearchResult.named : SearchResult → Bool
  | .entries (some entry) => (groupFromEntry entry).name ≠ ""
  | _ => true

/-- An entry that is found has a name, and a row that was written since the selection is
found. -/
def LooksUp (store : DirectoryStore) (choice : DirectoryChoice) : DirectoryProcess → Prop
  | .syncLookup run => ∀ row ∈ run.todo.head?, choice.search.named = true ∧
      (choice.search = .entries none → row.1 ∉ store.written.drop run.mark)
  | _ => True

/-- The condition on a move, over all processes in flight. -/
def Careful (config : DirectoryConfig) : DirectoryMove → Prop
  | .advance name choice => ∀ process, config.processes name = some process →
      LooksUp config.store choice process ∧ ∀ other process',
        config.processes other = some process' → WritesBeside config.store process process'
  | _ => True

/-! ## One statement -/

section Steps

variable {toLowerCase : String → String} {nameOrder : String → String → Bool}
variable {choice : DirectoryChoice} {store after : DirectoryStore}
variable {process next : DirectoryProcess} {remaining : Option DirectoryProcess}

/-- What a statement does to the groups. -/
inductive DirectoryEffect (store : DirectoryStore) : DirectoryProcess → DirectoryStore → Prop
  | same {process : DirectoryProcess} : DirectoryEffect store process store
  | rule {id groupId : String} : DirectoryEffect store (.createRule id groupId)
      { store with rules := store.rules ++ [⟨id, groupId⟩] }
  | update {run : SyncRun} {id : String} {group : EntryGroup} :
      DirectoryEffect store (.syncUpdate run id group)
        (store.updateGroup id group run.synchronizedAt none)
  | delete {run : SyncRun} {ids : List String} :
      DirectoryEffect store (.syncDelete run ids) (store.deleteGroups ids)
  | reimport {connection id : String} {group : EntryGroup} :
      DirectoryEffect store (.importWrite connection group (some id))
        ((store.updateGroup id group store.clock (some connection)).wrote id)
  | importNew {connection : String} {group : EntryGroup} {row : SyncGroup}
      (hfresh : row.id ∉ store.issued) (hname : row.distinguishedName = group.distinguishedName)
      (hconnection : row.directoryConnectionId = some connection) :
      DirectoryEffect store (.importWrite connection group none)
        ((store.addGroup row).wrote row.id)
  | create {name distinguishedName : String} {description : Option String} {row : SyncGroup}
      (hfresh : row.id ∉ store.issued) (hconnection : row.directoryConnectionId = none) :
      DirectoryEffect store (.createGroup name distinguishedName description)
        ((store.addGroup row).wrote row.id)

theorem directoryAdvance_effect
    (hadvance : directoryAdvance toLowerCase nameOrder choice store process =
      some (remaining, after)) : DirectoryEffect store process after := by
  cases process with
  | synchronize connection =>
      simp only [directoryAdvance] at hadvance
      split at hadvance <;> cases hadvance <;> exact .same
  | syncLookup run =>
      simp only [directoryAdvance] at hadvance
      split at hadvance
      next =>
        cases hadvance
        exact .same
      next =>
        split at hadvance
        next =>
          cases hadvance
          exact .same
        next =>
          cases hadvance
          exact .same
        next => split at hadvance <;> cases hadvance <;> exact .same
  | syncUpdate run id group =>
      simp only [directoryAdvance] at hadvance
      split at hadvance <;> cases hadvance
      · exact .update
      · exact .same
  | syncDelete run ids =>
      simp only [directoryAdvance, Option.some.injEq, Prod.mk.injEq] at hadvance
      obtain ⟨-, rfl⟩ := hadvance
      split
      · exact .same
      · exact .delete
  | importGroup | importFind =>
      cases hadvance
      exact .same
  | importSearch connection =>
      simp only [directoryAdvance] at hadvance
      split at hadvance <;> cases hadvance <;> exact .same
  | importWrite connection group existing =>
      cases existing with
      | some id =>
          simp only [directoryAdvance] at hadvance
          split at hadvance <;> cases hadvance
          · exact .reimport
          · exact .same
      | none =>
          simp only [directoryAdvance] at hadvance
          split at hadvance
          · cases hadvance
          · next hfresh =>
            split at hadvance <;> cases hadvance
            · exact .importNew hfresh rfl rfl
            · exact .same
  | createGroup name distinguishedName description =>
      simp only [directoryAdvance] at hadvance
      split at hadvance
      · cases hadvance
      · next hfresh =>
        split at hadvance <;> cases hadvance
        · exact .create hfresh rfl
        · exact .same
  | createRule id groupId =>
      simp only [directoryAdvance, Option.some.injEq, Prod.mk.injEq] at hadvance
      obtain ⟨-, rfl⟩ := hadvance
      split
      · exact .rule
      · exact .same

theorem mem_ofConnection {connection : String} {group : SyncGroup} :
    group ∈ store.ofConnection connection ↔
      group ∈ store.groups ∧ group.directoryConnectionId = some connection := by
  simp [DirectoryStore.ofConnection]

/-- The rows after an update. -/
theorem mem_updateGroup {id : String} {found : EntryGroup} {now : Int} {connection : Option String}
    {row : SyncGroup} (hrow : row ∈ (store.updateGroup id found now connection).groups) :
    row ∈ store.groups ∧ row.id ≠ id ∨
      row.id = id ∧ row.distinguishedName = found.distinguishedName ∧ ∃ old ∈ store.groups,
        old.id = id ∧ row.directoryConnectionId = connection.or old.directoryConnectionId := by
  obtain ⟨old, hold, rfl⟩ := List.mem_map.mp hrow
  split
  next hid => exact .inr ⟨hid, rfl, old, hold, hid, rfl⟩
  next hid => exact .inl ⟨hold, hid⟩

theorem mem_drop_append {written : List String} {mark : Nat} {id other : String}
    (hmem : id ∈ (written ++ [other]).drop mark) : id ∈ written.drop mark ∨ id = other := by
  rw [List.drop_append] at hmem
  refine (List.mem_append.mp hmem).imp_right fun hlast => ?_
  exact List.mem_singleton.mp (List.mem_of_mem_drop hlast)

theorem SyncRun.Settles.wrote {run : SyncRun} {pending written : List String}
    {id other name : String} (hsettles : run.Settles pending written id name) (hne : id ≠ other) :
    run.Settles pending (written ++ [other]) id name := by
  refine hsettles.imp_right (Or.imp_right fun hmissing => ⟨hmissing.1, fun hmem => ?_⟩)
  exact (mem_drop_append hmem).elim hmissing.2 hne

/-- Every group of the connection of a run is settled. -/
def Covered (store : DirectoryStore) (entry : SyncRun × List String) : Prop :=
  ∀ group ∈ store.ofConnection entry.1.connection,
    entry.1.Settles entry.2 store.written group.id group.distinguishedName

/-- What a run in flight may rely on. -/
def DirectoryProcess.Ready (store : DirectoryStore) : DirectoryProcess → Prop
  | .syncDelete run ids => ∀ id ∈ ids,
      id ∈ store.issued ∧ id ∈ run.missing ∧ id ∉ store.written.drop run.mark
  | process => ∀ entry ∈ process.pending, Covered store entry

/-- A new row beside a run. -/
theorem Covered.addGroup {entry : SyncRun × List String} {row : SyncGroup}
    (hcovered : Covered store entry) (hissued : ∀ group ∈ store.groups, group.id ∈ store.issued)
    (hfresh : row.id ∉ store.issued)
    (hname : row.directoryConnectionId = some entry.1.connection →
      row.distinguishedName ∈ entry.1.synchronizedDns) :
    Covered ((store.addGroup row).wrote row.id) entry := by
  intro group hgroup
  obtain ⟨hmem, hconnection⟩ := mem_ofConnection.mp hgroup
  rcases List.mem_append.mp hmem with hold | hnew
  · refine (hcovered group (mem_ofConnection.mpr ⟨hold, hconnection⟩)).wrote fun hid => ?_
    exact hfresh (hid ▸ hissued group hold)
  · rw [List.mem_singleton.mp hnew] at hconnection ⊢
    exact .inr (.inl (hname hconnection))

/-- A write that meets the condition leaves the rows of another run covered. -/
theorem Covered.beside {other : DirectoryProcess} {entry : SyncRun × List String}
    (hissued : ∀ group ∈ store.groups, group.id ∈ store.issued)
    (hentry : entry ∈ other.pending) (hcovered : Covered store entry)
    (hbeside : WritesBeside store process other) (heffect : DirectoryEffect store process after) :
    Covered after entry := by
  cases heffect with
  | same | rule => exact hcovered
  | @update run id found =>
      intro group hgroup
      obtain ⟨hmem, hconnection⟩ := mem_ofConnection.mp hgroup
      rcases mem_updateGroup hmem with ⟨hold, -⟩ | ⟨hid, hname, old, hold, holdId, hsame⟩
      · exact hcovered group (mem_ofConnection.mpr ⟨hold, hconnection⟩)
      · rw [hsame] at hconnection
        rw [hid, hname]
        exact hbeside entry hentry ⟨old, mem_ofConnection.mpr ⟨hold, hconnection⟩, holdId⟩
  | delete =>
      intro group hgroup
      obtain ⟨hmem, hconnection⟩ := mem_ofConnection.mp hgroup
      exact hcovered group (mem_ofConnection.mpr ⟨List.mem_of_mem_filter hmem, hconnection⟩)
  | @reimport connection id found =>
      intro group hgroup
      obtain ⟨hmem, hconnection⟩ := mem_ofConnection.mp hgroup
      rcases mem_updateGroup hmem with ⟨hold, hne⟩ | ⟨hid, hname, _, _, _, hthis⟩
      · exact (hcovered group (mem_ofConnection.mpr ⟨hold, hconnection⟩)).wrote hne
      · rw [hthis] at hconnection
        rcases hbeside.1 entry hentry (Option.some.inj hconnection).symm with
          ⟨existing, hexisting, hpending⟩ | hfound
        · rw [Option.mem_some_iff.mp hexisting] at hid
          exact .inl (hid ▸ hpending)
        · exact .inr (.inl (hname ▸ hfound))
  | @importNew connection found row hfresh hname hconnection =>
      refine hcovered.addGroup hissued hfresh fun hthis => ?_
      rw [hconnection, Option.some.injEq] at hthis
      rcases hbeside.1 entry hentry hthis.symm with ⟨existing, hexisting, -⟩ | hfound
      · cases hexisting
      · exact hname ▸ hfound
  | @create name distinguishedName description row hfresh hconnection =>
      refine hcovered.addGroup hissued hfresh fun hthis => ?_
      rw [hconnection] at hthis
      cases hthis

/-- Ids of groups stay issued. -/
theorem issued_effect (hissued : ∀ group ∈ store.groups, group.id ∈ store.issued)
    (heffect : DirectoryEffect store process after) :
    (∀ group ∈ after.groups, group.id ∈ after.issued) ∧ ∀ id ∈ store.issued, id ∈ after.issued := by
  have hupdate : ∀ id found now connection,
      ∀ group ∈ (store.updateGroup id found now connection).groups, group.id ∈ store.issued := by
    intro id found now connection group hgroup
    rcases mem_updateGroup hgroup with ⟨hold, -⟩ | ⟨hid, -, old, hold, holdId, -⟩
    · exact hissued group hold
    · rw [hid, ← holdId]
      exact hissued old hold
  have hadd : ∀ row : SyncGroup, ∀ group ∈ store.groups ++ [row],
      group.id ∈ row.id :: store.issued := by
    intro row group hgroup
    rcases List.mem_append.mp hgroup with hold | hnew
    · exact List.mem_cons_of_mem _ (hissued group hold)
    · rw [List.mem_singleton.mp hnew]
      exact List.mem_cons_self
  cases heffect with
  | same | rule => exact ⟨hissued, fun _ hid => hid⟩
  | update => exact ⟨hupdate _ _ _ _, fun _ hid => hid⟩
  | reimport => exact ⟨hupdate _ _ _ _, fun _ hid => hid⟩
  | delete =>
      exact ⟨fun group hgroup => hissued group (List.mem_of_mem_filter hgroup), fun _ hid => hid⟩
  | importNew | create => exact ⟨hadd _, fun _ hid => List.mem_cons_of_mem _ hid⟩

/-- What an effect writes to the list of writes. -/
theorem written_effect (heffect : DirectoryEffect store process after) :
    after.written = store.written ∨ ∃ id, after.written = store.written ++ [id] ∧
      (id ∉ store.issued ∨
        ∃ connection found, process = .importWrite connection found (some id)) := by
  cases heffect with
  | same | rule | update | delete => exact .inl rfl
  | reimport => exact .inr ⟨_, rfl, .inr ⟨_, _, rfl⟩⟩
  | importNew hfresh | create hfresh => exact .inr ⟨_, rfl, .inl hfresh⟩

/-- A statement that meets the condition leaves other calls ready. -/
theorem DirectoryProcess.Ready.beside {other : DirectoryProcess}
    (hissued : ∀ group ∈ store.groups, group.id ∈ store.issued) (hready : other.Ready store)
    (hbeside : WritesBeside store process other) (heffect : DirectoryEffect store process after) :
    other.Ready after := by
  cases other with
  | syncDelete run ids =>
      intro id hid
      obtain ⟨hknown, hmissing, hunwritten⟩ := hready id hid
      refine ⟨(issued_effect hissued heffect).2 id hknown, hmissing, ?_⟩
      rcases written_effect heffect with hsame | ⟨written, hlast, hwritten⟩
      · rw [hsame]
        exact hunwritten
      · rw [hlast]
        intro hmem
        rcases mem_drop_append hmem with hold | rfl
        · exact hunwritten hold
        · rcases hwritten with hfresh | ⟨connection, found, rfl⟩
          · exact hfresh hknown
          · exact hbeside.2 id rfl hid
  | _ =>
      intro entry hentry
      exact (hready entry hentry).beside hissued hentry hbeside heffect

/-- A run goes on with its rows covered. -/
theorem directoryAdvance_ready (hready : process.Ready store)
    (hissued : ∀ group ∈ store.groups, group.id ∈ store.issued)
    (hlooksUp : LooksUp store choice process)
    (hadvance : directoryAdvance toLowerCase nameOrder choice store process =
      some (some next, after)) : next.Ready after := by
  cases process with
  | synchronize connection =>
      simp only [directoryAdvance] at hadvance
      split at hadvance <;> cases hadvance
      intro entry hentry group hgroup
      rw [List.mem_singleton.mp hentry] at hgroup ⊢
      refine .inl ?_
      rw [List.map_map, List.mem_map]
      exact ⟨group, (List.mem_insertionSort _).mpr hgroup, rfl⟩
  | syncLookup run =>
      have hcovered : Covered store (run, run.todo.map Prod.fst) :=
        hready _ (List.mem_singleton_self _)
      simp only [directoryAdvance] at hadvance
      split at hadvance
      next htodo =>
        simp only [Option.some.injEq, Prod.mk.injEq] at hadvance
        obtain ⟨hnext, rfl⟩ := hadvance
        split at hnext <;> cases hnext
        -- Nothing is left to look up, so a row that is not found is missing.
        intro id hid
        obtain ⟨group, hgroup, rfl⟩ := List.mem_map.mp hid
        obtain ⟨hmem, hstale⟩ := List.mem_filter.mp hgroup
        refine ⟨hissued group (mem_ofConnection.mp hmem).1, ?_⟩
        rcases hcovered group hmem with hpending | hfound | hmissing
        · rw [htodo] at hpending
          cases hpending
        · exact absurd hfound (of_decide_eq_true hstale)
        · exact hmissing
      next id name todo htodo =>
        rw [htodo] at hcovered
        split at hadvance
        next => cases hadvance
        next hsearch =>
          cases hadvance
          have hunwritten : id ∉ store.written.drop run.mark := by
            refine (hlooksUp (id, name) ?_).2 hsearch
            rw [htodo]
            rfl
          intro entry hentry group hgroup
          rw [List.mem_singleton.mp hentry] at hgroup ⊢
          rcases hcovered group hgroup with hpending | hfound | ⟨hmissing, hnot⟩
          · rcases List.mem_cons.mp hpending with heq | hrest
            · refine .inr (.inr ⟨List.mem_append_right _ ?_, ?_⟩)
              · rw [heq]
                exact List.mem_singleton_self _
              · rw [heq]
                exact hunwritten
            · exact .inl hrest
          · exact .inr (.inl hfound)
          · exact .inr (.inr ⟨List.mem_append_left _ hmissing, hnot⟩)
        next searched hsearch =>
          have hnamed : (groupFromEntry searched).name ≠ "" := by
            have hfound := (hlooksUp (id, name) (by rw [htodo]; rfl)).1
            rw [hsearch] at hfound
            exact of_decide_eq_true hfound
          rw [if_neg hnamed] at hadvance
          cases hadvance
          intro entry hentry
          rw [List.mem_singleton.mp hentry]
          exact hcovered
  | syncUpdate run id found =>
      have hcovered : Covered store (run, id :: run.todo.map Prod.fst) :=
        hready _ (List.mem_singleton_self _)
      simp only [directoryAdvance] at hadvance
      split at hadvance <;> cases hadvance
      intro entry hentry group hgroup
      rw [List.mem_singleton.mp hentry] at hgroup ⊢
      obtain ⟨hmem, hconnection⟩ := mem_ofConnection.mp hgroup
      rcases mem_updateGroup hmem with ⟨hold, hne⟩ | ⟨-, hname, -⟩
      · rcases hcovered group (mem_ofConnection.mpr ⟨hold, hconnection⟩) with
          hpending | hfound | hmissing
        · exact .inl ((List.mem_cons.mp hpending).resolve_left hne)
        · exact .inr (.inl (List.mem_append_left _ hfound))
        · exact .inr (.inr hmissing)
      · refine .inr (.inl (List.mem_append_right _ ?_))
        rw [hname]
        exact List.mem_singleton_self _
  | syncDelete => cases hadvance
  | importGroup connection name =>
      simp only [directoryAdvance, Option.some.injEq, Prod.mk.injEq] at hadvance
      obtain ⟨hnext, rfl⟩ := hadvance
      obtain ⟨row, -, rfl⟩ := Option.map_eq_some_iff.mp hnext
      intro entry hentry
      cases hentry
  | importSearch connection =>
      simp only [directoryAdvance] at hadvance
      split at hadvance
      · cases hadvance
      · simp only [Option.some.injEq, Prod.mk.injEq] at hadvance
        obtain ⟨hnext, rfl⟩ := hadvance
        obtain ⟨found, -, rfl⟩ := Option.map_eq_some_iff.mp hnext
        intro entry hentry
        cases hentry
  | importFind connection found =>
      cases hadvance
      intro entry hentry
      cases hentry
  | importWrite connection found existing =>
      cases existing with
      | some id =>
          simp only [directoryAdvance] at hadvance
          split at hadvance <;> cases hadvance
      | none =>
          simp only [directoryAdvance] at hadvance
          split at hadvance
          · cases hadvance
          · split at hadvance <;> cases hadvance
  | createGroup =>
      simp only [directoryAdvance] at hadvance
      split at hadvance
      · cases hadvance
      · split at hadvance <;> cases hadvance
  | createRule => cases hadvance

end Steps

/-! ## Runs -/

def directoryOutline : Concurrent.Outline DirectoryStore DirectoryProcess where
  invariant store := ∀ group ∈ store.groups, group.id ∈ store.issued
  assertion _ store process := process.Ready store

section Runs

variable {toLowerCase : String → String} {nameOrder : String → String → Bool}

theorem directoryOutline_valid :
    directoryOutline.Valid (directoryProgram toLowerCase nameOrder) DirectoryStore.Initial
      Careful where
  init := by
    rintro store ⟨hgroups, -⟩
    simp [directoryOutline, hgroups]
  drift := by
    intro time store after hdrift hissued
    obtain ⟨-, rfl⟩ := Concurrent.drift_eq hdrift
    refine ⟨hissued, fun name process hready => ?_⟩
    cases process <;> exact hready
  start := by
    intro name store process hstart _
    cases process with
    | syncLookup | syncUpdate | syncDelete => cases hstart
    | _ =>
        intro entry hentry
        cases hentry
  own := by
    intro config name choice process remaining after hholds hprocess hcareful hadvance
    have hready := hholds.2 name process hprocess
    refine ⟨(issued_effect hholds.1 (directoryAdvance_effect hadvance)).1, ?_⟩
    rintro next rfl
    exact directoryAdvance_ready hready hholds.1 (hcareful process hprocess).1 hadvance
  others := by
    intro config name choice process remaining after hholds hprocess hcareful hadvance other
      process' _ hother
    exact (hholds.2 other process' hother).beside hholds.1
      ((hcareful process hprocess).2 other process' hother) (directoryAdvance_effect hadvance)

/-- The move is the deletion of a run that has looked the group up and not found it, and the
group was not written since the selection of the run. -/
def DeletesMissing (config : DirectoryConfig) (move : DirectoryMove) (id : String) : Prop :=
  ∃ name choice run ids, move = .advance name choice ∧
    config.processes name = some (.syncDelete run ids) ∧
    id ∈ run.missing ∧ id ∉ config.store.written.drop run.mark

/-- A statement that removes a group or a rule is a deletion of a run. -/
theorem effect_removes {store after : DirectoryStore} {process : DirectoryProcess}
    (heffect : DirectoryEffect store process after) :
    (∀ group ∈ store.groups, (∀ kept ∈ after.groups, kept.id ≠ group.id) →
        ∃ run ids, process = .syncDelete run ids ∧ group.id ∈ ids) ∧
      ∀ rule ∈ store.rules, rule ∉ after.rules →
        ∃ run ids, process = .syncDelete run ids ∧ rule.groupId ∈ ids := by
  have hupdate : ∀ id found now connection, ∀ group ∈ store.groups,
      ∃ kept ∈ (store.updateGroup id found now connection).groups, kept.id = group.id := by
    intro id found now connection group hgroup
    refine ⟨_, List.mem_map_of_mem hgroup, ?_⟩
    split <;> rfl
  cases heffect with
  | same =>
      exact ⟨fun group hgroup hgone => absurd rfl (hgone group hgroup),
        fun rule hrule hgone => absurd hrule hgone⟩
  | rule =>
      exact ⟨fun group hgroup hgone => absurd rfl (hgone group hgroup),
        fun rule hrule hgone => absurd (List.mem_append_left _ hrule) hgone⟩
  | update | reimport =>
      refine ⟨fun group hgroup hgone => ?_, fun rule hrule hgone => absurd hrule hgone⟩
      obtain ⟨kept, hkept, hid⟩ := hupdate _ _ _ _ group hgroup
      exact absurd hid (hgone kept hkept)
  | importNew | create =>
      exact ⟨fun group hgroup hgone => absurd rfl (hgone group (List.mem_append_left _ hgroup)),
        fun rule hrule hgone => absurd hrule hgone⟩
  | @delete run ids =>
      refine ⟨fun group hgroup hgone => ⟨run, ids, rfl, ?_⟩, fun rule hrule hgone =>
        ⟨run, ids, rfl, ?_⟩⟩
      · by_contra hnot
        exact hgone group (List.mem_filter.mpr ⟨hgroup, decide_eq_true hnot⟩) rfl
      · by_contra hnot
        exact hgone (List.mem_filter.mpr ⟨hrule, decide_eq_true hnot⟩)

end Runs

/-- **Synchronisation.** In every run that meets the condition, a step that removes a group, or
an access rule, is the deletion of a run that has looked the group up and not found it, and
the group was neither created nor imported since the selection of that run. -/
theorem synchronize_deletes_missing (toLowerCase : String → String)
    (nameOrder : String → String → Bool) {config : DirectoryConfig}
    (hreach : (directorySystem toLowerCase nameOrder).ReachableWhile Careful config) :
    ∀ move after, (directoryProgram toLowerCase nameOrder).next config move = some after →
      (∀ group ∈ config.store.groups, (∀ kept ∈ after.store.groups, kept.id ≠ group.id) →
        DeletesMissing config move group.id) ∧
      ∀ rule ∈ config.store.rules, rule ∉ after.store.rules →
        DeletesMissing config move rule.groupId := by
  have hholds := directoryOutline_valid.holds hreach
  intro move after hnext
  rcases Concurrent.next_store hnext with ⟨time, -, hdrift⟩ |
    ⟨name, choice, process, remaining, rfl, hprocess, hadvance⟩ | hsame
  · have hstore : after.store = { config.store with clock := time } := by
      exact (Concurrent.drift_eq hdrift).2
    rw [hstore]
    exact ⟨fun group hgroup hgone => absurd rfl (hgone group hgroup),
      fun rule hrule hgone => absurd hrule hgone⟩
  · obtain ⟨hgroups, hrules⟩ := effect_removes (directoryAdvance_effect hadvance)
    have hdeletes : ∀ id, (∃ run ids, process = .syncDelete run ids ∧ id ∈ ids) →
        DeletesMissing config (.advance name choice) id := by
      rintro id ⟨run, ids, rfl, hid⟩
      obtain ⟨-, hmissing, hunwritten⟩ := hholds.2 name _ hprocess id hid
      exact ⟨name, choice, run, ids, rfl, hprocess, hmissing, hunwritten⟩
    exact ⟨fun group hgroup hgone => hdeletes _ (hgroups group hgroup hgone),
      fun rule hrule hgone => hdeletes _ (hrules rule hrule hgone)⟩
  · rw [hsame]
    exact ⟨fun group hgroup hgone => absurd rfl (hgone group hgroup),
      fun rule hrule hgone => absurd hrule hgone⟩

/-! ## Computing the condition -/

instance (store : DirectoryStore) (process other : DirectoryProcess) :
    Decidable (WritesBeside store process other) :=
  match process with
  | .importWrite connection group existing =>
      inferInstanceAs (Decidable ((∀ entry ∈ other.pending, entry.1.connection = connection →
        (∃ id ∈ existing, id ∈ entry.2) ∨
          group.distinguishedName ∈ entry.1.synchronizedDns) ∧
        ∀ id ∈ existing, id ∉ other.listed))
  | .syncUpdate _ id group =>
      inferInstanceAs (Decidable (∀ entry ∈ other.pending,
        (∃ row ∈ store.ofConnection entry.1.connection, row.id = id) →
          entry.1.Settles entry.2 store.written id group.distinguishedName))
  | .synchronize _ | .syncLookup _ | .syncDelete .. | .importGroup .. | .importSearch _
  | .importFind .. | .createGroup .. | .createRule .. => .isTrue trivial

instance (store : DirectoryStore) (choice : DirectoryChoice) (process : DirectoryProcess) :
    Decidable (LooksUp store choice process) :=
  match process with
  | .syncLookup run =>
      inferInstanceAs (Decidable (∀ row ∈ run.todo.head?, choice.search.named = true ∧
        (choice.search = .entries none → row.1 ∉ store.written.drop run.mark)))
  | .synchronize _ | .syncUpdate .. | .syncDelete .. | .importGroup .. | .importSearch _
  | .importFind .. | .importWrite .. | .createGroup .. | .createRule .. => .isTrue trivial

/-- `Careful`, computed over the processes with known names. -/
def isCareful (names : List Nat) (config : DirectoryConfig) : DirectoryMove → Bool
  | .advance name choice => (config.processes name).all fun process =>
      LooksUp config.store choice process && names.all fun other =>
        (config.processes other).all fun process' => WritesBeside config.store process process'
  | _ => true

theorem careful_of_isCareful {names : List Nat} {config : DirectoryConfig} {move : DirectoryMove}
    (hnamed : Concurrent.Named names config) (hcareful : isCareful names config move = true) :
    Careful config move := by
  cases move with
  | advance name choice =>
      intro process hprocess
      simp only [isCareful, hprocess, Option.all_some, Bool.and_eq_true, decide_eq_true_eq,
        List.all_eq_true] at hcareful
      refine ⟨hcareful.1, fun other process' hother => ?_⟩
      have hmem := hnamed.mem hother
      simpa [hother] using hcareful.2 other hmem
  | _ => trivial

/-! ## Sample -/

/-- One connection, and no groups. -/
def noGroups : DirectoryStore :=
  ⟨0, [⟨"ldap", true, "dc=x", none⟩], [], [], [], []⟩

theorem reachable_noGroups {toLowerCase : String → String} {nameOrder : String → String → Bool}
    {allowed : DirectoryConfig → DirectoryMove → Prop} :
    (directorySystem toLowerCase nameOrder).ReachableWhile allowed (Concurrent.idle noGroups) :=
  .init ⟨⟨rfl, rfl, rfl, rfl⟩, fun _ => rfl⟩

/-- The directory gives a group of this name, or nothing; a new row has the id of the group. -/
def findsGroup (name : String) : DirectoryChoice :=
  ⟨.entries (some ⟨"cn=" ++ name ++ ",dc=x", .text name, none, .absent⟩), name, false⟩

def findsNothing : DirectoryChoice := ⟨.entries none, "", false⟩

/-- An administrator imports a group and gives it an access rule. -/
def importMoves (process : Nat) (name : String) : List DirectoryMove :=
  [.start process (.importGroup "ldap" ("cn=" ++ name ++ ",dc=x")),
    .advance process (findsGroup name), .advance process (findsGroup name),
    .advance process (findsGroup name), .advance process (findsGroup name),
    .start process (.createRule ("rule-" ++ name) name), .advance process findsNothing]

/-- A group as the import writes it. -/
def importedGroup (name : String) : SyncGroup :=
  ⟨name, name, "cn=" ++ name ++ ",dc=x", none, 0, true, some 0, some "ldap"⟩

/-- Both groups with their rules, after two writes. -/
def staffAndBoard : DirectoryStore where
  clock := 0
  connections := noGroups.connections
  groups := [importedGroup "staff", importedGroup "board"]
  rules := [⟨"rule-staff", "staff"⟩, ⟨"rule-board", "board"⟩]
  issued := ["board", "staff"]
  written := ["staff", "board"]

/-- A run that has found the group of the staff. -/
def sampleRun (selected : Nat) (missing : List String) (mark : Nat) : SyncRun :=
  ⟨"ldap", [], selected, 0, ["cn=staff,dc=x"], missing, mark⟩

/-- The deletion of the group of the board. -/
theorem next_sampleRun {config : DirectoryConfig} {run : SyncRun}
    (hstore : config.store = staffAndBoard)
    (hprocess : config.processes 0 = some (.syncDelete run ["board"])) :
    ∃ after, (directoryProgram id fun _ _ => true).next config (.advance 0 findsNothing) =
        some after ∧ after.store.groups = [importedGroup "staff"] ∧
      after.store.rules = [⟨"rule-staff", "staff"⟩] := by
  refine ⟨⟨staffAndBoard.deleteGroups ["board"], Function.update config.processes 0 none⟩,
    ?_, ?_, ?_⟩
  · simp [Concurrent.next, hprocess, hstore, directoryProgram, directoryAdvance, findsNothing]
  · have hgroups : (staffAndBoard.deleteGroups ["board"]).groups = [importedGroup "staff"] := by
      decide
    exact hgroups
  · have hrules : (staffAndBoard.deleteGroups ["board"]).rules = [⟨"rule-staff", "staff"⟩] := by
      decide
    exact hrules

/-- The group of the board is no longer in the directory, and is deleted. -/
theorem synchronize_deletes_missing_board :
    ∃ config, (directorySystem id fun _ _ => true).ReachableWhile Careful config ∧
      config.store = staffAndBoard ∧ DeletesMissing config (.advance 0 findsNothing) "board" := by
  have hrun : (Concurrent.executeNamed (directoryProgram id fun _ _ => true) [0, 1]
      (isCareful [0, 1]) (Concurrent.idle noGroups)
      (importMoves 0 "staff" ++ importMoves 0 "board" ++ [.start 0 (.synchronize "ldap"),
        .advance 0 findsNothing, .advance 0 (findsGroup "staff"), .advance 0 findsNothing,
        .advance 0 findsNothing, .advance 0 findsNothing])).map
          (fun config => (config.store, config.processes 0)) =
      some (staffAndBoard, some (.syncDelete (sampleRun 2 ["board"] 2) ["board"])) := by
    decide
  obtain ⟨config, hexecute, hsummary⟩ := Option.map_eq_some_iff.mp hrun
  obtain ⟨hstore, hprocess⟩ := Prod.mk.inj hsummary
  have hreach := (Concurrent.reachable_executeNamed
    (fun _ _ hnamed hcareful => careful_of_isCareful hnamed hcareful) _ (fun _ _ => rfl)
    reachable_noGroups hexecute).1
  obtain ⟨after, hnext, hgroups, -⟩ := next_sampleRun hstore hprocess
  refine ⟨config, hreach, hstore, ?_⟩
  have hboard : importedGroup "board" ∈ config.store.groups := by simp [hstore, staffAndBoard]
  refine (synchronize_deletes_missing id (fun _ _ => true) hreach _ after hnext).1 _ hboard ?_
  rw [hgroups]
  decide

/-- A run has looked up the only group it has selected, and found it. The group of the board
is imported before the second query, and deleted with its access rule. -/
theorem imported_group_deleted :
    ∃ config run after, (directorySystem id fun _ _ => true).Reachable config ∧
      config.processes 0 = some (.syncDelete run ["board"]) ∧
      run.missing = [] ∧ "board" ∈ config.store.written.drop run.mark ∧
      (directoryProgram id fun _ _ => true).next config (.advance 0 findsNothing) = some after ∧
      importedGroup "board" ∈ config.store.groups ∧
      after.store.groups = [importedGroup "staff"] ∧
      ⟨"rule-board", "board"⟩ ∈ config.store.rules ∧
      after.store.rules = [⟨"rule-staff", "staff"⟩] := by
  have hrun : (Concurrent.executeNamed (directoryProgram id fun _ _ => true) [0, 1]
      (fun _ _ => true) (Concurrent.idle noGroups)
      (importMoves 0 "staff" ++ [.start 0 (.synchronize "ldap"), .advance 0 findsNothing,
        .advance 0 (findsGroup "staff"), .advance 0 findsNothing] ++ importMoves 1 "board" ++
        [.advance 0 findsNothing])).map (fun config => (config.store, config.processes 0)) =
      some (staffAndBoard, some (.syncDelete (sampleRun 1 [] 1) ["board"])) := by
    decide
  obtain ⟨config, hexecute, hsummary⟩ := Option.map_eq_some_iff.mp hrun
  obtain ⟨hstore, hprocess⟩ := Prod.mk.inj hsummary
  have hreach := (Concurrent.reachable_executeNamed (fun _ _ _ _ => trivial) _ (fun _ _ => rfl)
    reachable_noGroups hexecute).1
  obtain ⟨after, hnext, hgroups, hrules⟩ := next_sampleRun hstore hprocess
  refine ⟨config, _, after, hreach, hprocess, rfl, ?_, hnext, ?_, hgroups, ?_, hrules⟩ <;>
    rw [hstore]
  · decide
  · simp [staffAndBoard]
  · simp [staffAndBoard]

end IsmsPortal
