import IsmsPortal.Foundation.Interleaving
import Mathlib.Data.List.Basic

/-! # Objects in files

An object on the local disk is written to a temporary file of its own, which is forced out to the
disk and then renamed to the object. So an object is there as a whole or not at all: no interleaving
of requests, failure of a call, crash of the process or loss of power leaves one half written, and a
reader gets the object as it was when it was opened.
-/

namespace Storage.LocalFiles

open Foundation Concurrent

universe u

abbrev Content := List UInt8

/-- A file, with whether its content was forced out, and the request that writes it. -/
structure Inode where
  content : Content
  durable : Bool
  writer : Nat

/-- Names in the directory of the objects. Those of temporary files end in a random number. -/
inductive Path (Key : Type u)
  | object (key : Key)
  | temporary (key : Key) (uuid : Nat)
deriving DecidableEq

/-- The disk. A change of an entry may be lost with the power: `earlier` are the entries that may
come back. -/
structure Disk (Key : Type u) where
  inodes : Nat → Option Inode
  entries : Path Key → Option Nat
  earlier : Path Key → List (Option Nat)
  /-- Objects that requests were given to put. -/
  puts : List (Key × Content)
  /-- What readers got, each with the object as it was when it was opened. -/
  reads : List (Content × Content)

namespace Disk

variable {Key : Type u} (disk : Disk Key)

def setInode (number : Nat) (inode : Inode) : Disk Key :=
  { disk with inodes := Function.update disk.inodes number (some inode) }

def setEntry [DecidableEq Key] (path : Path Key) (entry : Option Nat) : Disk Key :=
  { disk with
    entries := Function.update disk.entries path entry
    earlier := Function.update disk.earlier path (disk.entries path :: disk.earlier path) }

/-- The object that a reader finds. -/
def object (key : Key) : Option Content :=
  ((disk.entries (.object key)).bind disk.inodes).map Inode.content

def empty : Disk Key := ⟨fun _ => none, fun _ => none, fun _ => [], [], []⟩

section Inodes

variable (number : Nat) (inode : Inode)

@[simp]
theorem setInode_self : (disk.setInode number inode).inodes number = some inode :=
  Function.update_self ..

theorem setInode_of_ne {other : Nat} (hother : other ≠ number) :
    (disk.setInode number inode).inodes other = disk.inodes other :=
  Function.update_of_ne hother ..

end Inodes

section Entries

variable [DecidableEq Key] (path : Path Key) (entry : Option Nat)

@[simp]
theorem setEntry_self : (disk.setEntry path entry).entries path = entry :=
  Function.update_self ..

theorem setEntry_of_ne {other : Path Key} (hother : other ≠ path) :
    (disk.setEntry path entry).entries other = disk.entries other :=
  Function.update_of_ne hother ..

theorem setEntry_earlier_of_ne {other : Path Key} (hother : other ≠ path) :
    (disk.setEntry path entry).earlier other = disk.earlier other :=
  Function.update_of_ne hother ..

/-- Temporary files are no objects. -/
theorem setEntry_temporary (key : Key) (uuid : Nat) (other : Key) :
    (disk.setEntry (.temporary key uuid) entry).entries (.object other) =
        disk.entries (.object other) ∧
      (disk.setEntry (.temporary key uuid) entry).earlier (.object other) =
        disk.earlier (.object other) := by
  have hne : Path.object other ≠ .temporary key uuid := nofun
  exact ⟨setEntry_of_ne _ _ _ hne, setEntry_earlier_of_ne _ _ _ hne⟩

/-- The entries of a path, of now and of before. -/
theorem setEntry_known {other : Path Key} {known : Option Nat}
    (hknown : known = (disk.setEntry path entry).entries other ∨
      known ∈ (disk.setEntry path entry).earlier other) :
    (other = path ∧ known = entry) ∨ known = disk.entries other ∨ known ∈ disk.earlier other := by
  by_cases hother : other = path
  · subst hother
    simp only [setEntry, Function.update_self, List.mem_cons] at hknown
    grind
  · rw [setEntry_of_ne disk path entry hother, setEntry_earlier_of_ne disk path entry hother]
      at hknown
    exact .inr hknown

end Entries

end Disk

/-- Requests, with the statement that runs next. -/
inductive Request (Key : Type u)
  /-- `open(temporary, "wx", 0o640)` -/
  | opening (key : Key) (uuid : Nat) (content : Content)
  /-- `file.writeFile(content)`, after some bytes -/
  | writing (key : Key) (uuid : Nat) (content : Content) (number written : Nat)
  /-- `file.sync()` -/
  | syncing (key : Key) (uuid : Nat) (content : Content) (number : Nat)
  /-- `file.close()` -/
  | closing (key : Key) (uuid : Nat) (content : Content) (number : Nat)
  /-- `rename(temporary, target)` -/
  | replacing (key : Key) (uuid : Nat) (content : Content) (number : Nat)
  /-- `rm(temporary, { force: true })` after a failure -/
  | cleaning (key : Key) (uuid : Nat)
  /-- `rm(target, { force: true })` -/
  | removing (key : Key)
  /-- `createReadStream(target)` -/
  | openingRead (key : Key)
  /-- A stream that has been read in part. -/
  | reading (number : Nat) (opened got : Content)

/-- How the call of the operating system ends. -/
inductive Outcome
  | created (number : Nat)
  | transferred (count : Nat)
  | succeeded
  | failed

section Program

variable {Key : Type u} [DecidableEq Key]

/-- One call of a request. -/
def advance (name : Nat) (outcome : Outcome) (disk : Disk Key) :
    Request Key → Option (Option (Request Key) × Disk Key)
  | .opening key uuid content =>
      match outcome with
      | .created number =>
          if disk.inodes number = none ∧ disk.entries (.temporary key uuid) = none then
            some (some (.writing key uuid content number 0),
              { (disk.setInode number ⟨[], false, name⟩).setEntry (.temporary key uuid)
                  (some number) with puts := (key, content) :: disk.puts })
          else none
      | .failed => some (none, disk)
      | _ => none
  | .writing key uuid content number written =>
      match outcome with
      | .transferred count =>
          if written + count ≤ content.length then
            some (some (.writing key uuid content number (written + count)),
              disk.setInode number ⟨content.take (written + count), false, name⟩)
          else none
      | .succeeded =>
          if written = content.length then some (some (.syncing key uuid content number), disk)
          else none
      | .failed => some (some (.cleaning key uuid), disk)
      | _ => none
  | .syncing key uuid content number =>
      match outcome with
      | .succeeded =>
          some (some (.closing key uuid content number),
            disk.setInode number ⟨content, true, name⟩)
      | .failed => some (some (.cleaning key uuid), disk)
      | _ => none
  | .closing key uuid content number =>
      match outcome with
      | .succeeded => some (some (.replacing key uuid content number), disk)
      | .failed => some (some (.cleaning key uuid), disk)
      | _ => none
  | .replacing key uuid _ number =>
      match outcome with
      | .succeeded =>
          some (none, (disk.setEntry (.object key) (some number)).setEntry (.temporary key uuid) none)
      | .failed => some (some (.cleaning key uuid), disk)
      | _ => none
  | .cleaning key uuid =>
      match outcome with
      | .succeeded => some (none, disk.setEntry (.temporary key uuid) none)
      | .failed => some (none, disk)
      | _ => none
  | .removing key =>
      match outcome with
      | .succeeded => some (none, disk.setEntry (.object key) none)
      | .failed => some (none, disk)
      | _ => none
  | .openingRead key =>
      match outcome with
      | .succeeded =>
          (disk.entries (.object key)).bind fun number => (disk.inodes number).map fun inode =>
            (some (.reading number inode.content []), disk)
      | .failed => some (none, disk)
      | _ => none
  | .reading number opened got =>
      match outcome with
      | .transferred count =>
          (disk.inodes number).map fun inode =>
            (some (.reading number opened (got ++ (inode.content.drop got.length).take count)),
              disk)
      | .succeeded =>
          -- A stream ends at the end of its file.
          (disk.inodes number).bind fun inode =>
            if got.length = inode.content.length then
              some (none, { disk with reads := (opened, got) :: disk.reads })
            else none
      | .failed => some (none, disk)
      | _ => none

def isStart : Request Key → Bool
  | .opening _ _ _ | .removing _ | .openingRead _ => true
  | _ => false

variable (Key) in
/-- Requests on one disk; no call takes the time of the clock. -/
def program : Concurrent (Disk Key) (Request Key) Outcome where
  drift _ _ := none
  start := isStart
  advance := advance

/-- The power is lost: content that was not forced out is replaced by any other, entries may be
those of before, and no request goes on. -/
structure PowerLost (config after : Config (Disk Key) (Request Key)) : Prop where
  stopped : ∀ name, after.processes name = none
  absent : ∀ number, config.store.inodes number = none → after.store.inodes number = none
  inodes : ∀ number inode, config.store.inodes number = some inode →
    ∃ content, after.store.inodes number = some ⟨content, inode.durable, inode.writer⟩ ∧
      (inode.durable = true → content = inode.content)
  entries : ∀ path, after.store.entries path = config.store.entries path ∨
    after.store.entries path ∈ config.store.earlier path
  earlier : after.store.earlier = config.store.earlier
  puts : after.store.puts = config.store.puts
  reads : after.store.reads = config.store.reads

variable (Key) in
/-- Runs from an empty disk: calls of requests in any order, crashes of requests, losses of power. -/
def system : System (Config (Disk Key) (Request Key)) (Option (Move (Request Key) Outcome)) where
  init config := config.store = Disk.empty ∧ ∀ name, config.processes name = none
  step config move after :=
    match move with
    | some move => (program Key).next config move = some after
    | none => PowerLost config after

end Program

/-! ## What requests rely on -/

section Invariant

variable {Key : Type u}

/-- The file is an object that a request was given, as a whole and forced out. -/
def Disk.Stored (disk : Disk Key) (key : Key) (number : Nat) : Prop :=
  ∃ content writer, disk.inodes number = some ⟨content, true, writer⟩ ∧ (key, content) ∈ disk.puts

structure Disk.Sound (disk : Disk Key) : Prop where
  stored : ∀ key number,
    some number = disk.entries (.object key) ∨ some number ∈ disk.earlier (.object key) →
      disk.Stored key number
  reads : ∀ entry ∈ disk.reads, entry.1 = entry.2

/-- What is true of the file that a request has open. -/
def Request.Holds (name : Nat) (disk : Disk Key) : Request Key → Prop
  | .writing key _ content number written =>
      disk.inodes number = some ⟨content.take written, false, name⟩ ∧ written ≤ content.length ∧
        (key, content) ∈ disk.puts
  | .syncing key _ content number =>
      disk.inodes number = some ⟨content, false, name⟩ ∧ (key, content) ∈ disk.puts
  | .closing key _ content number | .replacing key _ content number =>
      disk.inodes number = some ⟨content, true, name⟩ ∧ (key, content) ∈ disk.puts
  | .reading number opened got =>
      (∃ writer, disk.inodes number = some ⟨opened, true, writer⟩) ∧ got <+: opened
  | _ => True

def outline : Outline (Disk Key) (Request Key) := ⟨Disk.Sound, Request.Holds⟩

/-- Files that are forced out, or that others write, stay as they are. -/
structure Frame (name : Nat) (disk after : Disk Key) : Prop where
  inodes : ∀ number inode, disk.inodes number = some inode →
    inode.durable = true ∨ inode.writer ≠ name → after.inodes number = some inode
  puts : disk.puts ⊆ after.puts

theorem Frame.of_eq {name : Nat} {disk after : Disk Key} (hinodes : after.inodes = disk.inodes)
    (hputs : after.puts = disk.puts) : Frame name disk after :=
  ⟨fun number inode hinode _ => by rw [hinodes, hinode], fun _ h => hputs ▸ h⟩

/-- A request writes a file of its own. -/
theorem Frame.setInode {name : Nat} {disk after : Disk Key} {number : Nat} {inode : Inode}
    (hown : ∀ old, disk.inodes number = some old → old.durable = false ∧ old.writer = name)
    (hinodes : after.inodes = (disk.setInode number inode).inodes) (hputs : disk.puts ⊆ after.puts) :
    Frame name disk after := by
  refine ⟨fun other old hold hkept => ?_, hputs⟩
  by_cases hother : other = number
  · subst hother
    obtain ⟨hdurable, hwriter⟩ := hown old hold
    rcases hkept with h | h
    · rw [hdurable] at h
      cases h
    · exact absurd hwriter h
  · rw [hinodes, Disk.setInode_of_ne disk number inode hother, hold]

theorem Frame.stored {name : Nat} {disk after : Disk Key} (hframe : Frame name disk after)
    {key : Key} {number : Nat} (h : disk.Stored key number) : after.Stored key number := by
  obtain ⟨content, writer, hinode, hput⟩ := h
  exact ⟨content, writer, hframe.inodes _ _ hinode (.inl rfl), hframe.puts hput⟩

theorem Frame.holds {name other : Nat} {disk after : Disk Key} (hframe : Frame name disk after)
    (hother : other ≠ name) {request : Request Key} (h : request.Holds other disk) :
    request.Holds other after := by
  cases request with
  | writing key uuid content number written =>
      exact ⟨hframe.inodes _ _ h.1 (.inr hother), h.2.1, hframe.puts h.2.2⟩
  | syncing key uuid content number =>
      exact ⟨hframe.inodes _ _ h.1 (.inr hother), hframe.puts h.2⟩
  | closing key uuid content number =>
      exact ⟨hframe.inodes _ _ h.1 (.inl rfl), hframe.puts h.2⟩
  | replacing key uuid content number =>
      exact ⟨hframe.inodes _ _ h.1 (.inl rfl), hframe.puts h.2⟩
  | reading number opened got =>
      obtain ⟨⟨writer, hinode⟩, hgot⟩ := h
      exact ⟨⟨writer, hframe.inodes _ _ hinode (.inl rfl)⟩, hgot⟩
  | opening | cleaning | removing | openingRead => trivial

/-! ## One call -/

/-- What a call does to the objects. -/
inductive Effect [DecidableEq Key] (disk after : Disk Key) : Request Key → Prop
  | kept {request : Request Key}
      (hentries : ∀ key, after.entries (.object key) = disk.entries (.object key))
      (hearlier : ∀ key, after.earlier (.object key) = disk.earlier (.object key)) :
      Effect disk after request
  | renamed {key : Key} {uuid : Nat} {content : Content} {number : Nat}
      (hafter : after =
        (disk.setEntry (.object key) (some number)).setEntry (.temporary key uuid) none) :
      Effect disk after (.replacing key uuid content number)
  | removed {key : Key} (hafter : after = disk.setEntry (.object key) none) :
      Effect disk after (.removing key)

/-- All that a call can do. -/
structure Call [DecidableEq Key] (name : Nat) (disk : Disk Key) (request : Request Key)
    (remaining : Option (Request Key)) (after : Disk Key) : Prop where
  frame : Frame name disk after
  effect : Effect disk after request
  own : ∀ next, remaining = some next → next.Holds name after
  reads : ∀ entry ∈ after.reads, entry ∈ disk.reads ∨ entry.1 = entry.2

/-- A call that leaves the files and the objects. -/
theorem Call.of_eq [DecidableEq Key] {name : Nat} {disk after : Disk Key} {request : Request Key}
    {remaining : Option (Request Key)} (hinodes : after.inodes = disk.inodes)
    (hputs : after.puts = disk.puts)
    (hentries : ∀ key, after.entries (.object key) = disk.entries (.object key))
    (hearlier : ∀ key, after.earlier (.object key) = disk.earlier (.object key))
    (hown : ∀ next, remaining = some next → next.Holds name after)
    (hreads : ∀ entry ∈ after.reads, entry ∈ disk.reads ∨ entry.1 = entry.2) :
    Call name disk request remaining after :=
  ⟨.of_eq hinodes hputs, .kept hentries hearlier, hown, hreads⟩

/-- A call that changes nothing on the disk. -/
theorem Call.of_same [DecidableEq Key] {name : Nat} {disk : Disk Key} {request : Request Key}
    {remaining : Option (Request Key)}
    (hown : ∀ next, remaining = some next → next.Holds name disk) :
    Call name disk request remaining disk :=
  .of_eq rfl rfl (fun _ => rfl) (fun _ => rfl) hown fun _ h => .inl h

/-- A call that ends a request and changes nothing. -/
theorem Call.of_ended [DecidableEq Key] {name : Nat} {disk : Disk Key} {request : Request Key} :
    Call name disk request none disk := .of_same fun _ h => nomatch h

section Calls

variable [DecidableEq Key] {name : Nat} {outcome : Outcome} {disk after : Disk Key}
variable {remaining : Option (Request Key)}

/-- The temporary file is new. -/
theorem call_of_opening (key : Key) (uuid : Nat) (content : Content)
    (hadvance : advance name outcome disk (.opening key uuid content) = some (remaining, after)) :
    Call name disk (.opening key uuid content) remaining after := by
  cases outcome with
  | created number =>
      obtain ⟨⟨hfree, -⟩, heq⟩ := Option.ite_none_right_eq_some.mp hadvance
      cases heq
      refine ⟨Frame.setInode (fun old hold => ?_)
        (rfl : _ = (disk.setInode number ⟨[], false, name⟩).inodes) ?_, ?_, ?_, ?_⟩
      · rw [hfree] at hold
        cases hold
      · exact fun put hput => List.mem_cons_of_mem _ hput
      · have hother := Disk.setEntry_temporary (disk.setInode number ⟨[], false, name⟩)
          (some number) key uuid
        exact .kept (fun other => (hother other).1) fun other => (hother other).2
      · rintro next ⟨⟩
        exact ⟨Disk.setInode_self disk number _, Nat.zero_le _, List.mem_cons_self⟩
      · exact fun entry h => .inl h
  | failed => cases hadvance; exact .of_ended
  | transferred | succeeded => cases hadvance

/-- A write goes on where the last one ended. -/
theorem call_of_writing (key : Key) (uuid : Nat) (content : Content) (number written : Nat)
    (hholds : (Request.writing key uuid content number written).Holds name disk)
    (hadvance : advance name outcome disk (.writing key uuid content number written) =
      some (remaining, after)) :
    Call name disk (.writing key uuid content number written) remaining after := by
  obtain ⟨hinode, hle, hput⟩ := hholds
  cases outcome with
  | transferred count =>
      obtain ⟨hcount, heq⟩ := Option.ite_none_right_eq_some.mp hadvance
      cases heq
      refine ⟨.setInode (fun old hold => ?_) rfl (fun _ h => h),
        .kept (fun _ => rfl) (fun _ => rfl), ?_, fun _ h => .inl h⟩
      · cases hinode.symm.trans hold
        exact ⟨rfl, rfl⟩
      · rintro next ⟨⟩
        exact ⟨Disk.setInode_self .., hcount, hput⟩
  | succeeded =>
      obtain ⟨hall, heq⟩ := Option.ite_none_right_eq_some.mp hadvance
      cases heq
      rw [hall, List.take_length] at hinode
      exact .of_same (by rintro next ⟨⟩; exact ⟨hinode, hput⟩)
  | failed => cases hadvance; exact .of_same (by rintro next ⟨⟩; trivial)
  | created => cases hadvance

/-- What is opened is the object. -/
theorem call_of_openingRead (key : Key) (hsound : disk.Sound)
    (hadvance : advance name outcome disk (.openingRead key) = some (remaining, after)) :
    Call name disk (.openingRead key) remaining after := by
  cases outcome with
  | succeeded =>
      obtain ⟨number, hentry, hadvance⟩ := Option.bind_eq_some_iff.mp hadvance
      obtain ⟨inode, hinode, heq⟩ := Option.map_eq_some_iff.mp hadvance
      cases heq
      obtain ⟨content, writer, hstored, -⟩ := hsound.stored key number (.inl hentry.symm)
      cases hstored.symm.trans hinode
      exact .of_same (by rintro next ⟨⟩; exact ⟨⟨writer, hstored⟩, List.nil_prefix⟩)
  | failed => cases hadvance; exact .of_ended
  | created | transferred => cases hadvance

/-- What is read goes on in the file that was opened. -/
theorem call_of_reading (number : Nat) (opened got : Content)
    (hholds : (Request.reading number opened got).Holds name disk)
    (hadvance : advance name outcome disk (.reading number opened got) = some (remaining, after)) :
    Call name disk (.reading number opened got) remaining after := by
  obtain ⟨⟨writer, hopened⟩, more, hmore⟩ := hholds
  cases outcome with
  | transferred count =>
      obtain ⟨inode, hinode, heq⟩ := Option.map_eq_some_iff.mp hadvance
      cases hopened.symm.trans hinode
      cases heq
      refine .of_same ?_
      rintro next ⟨⟩
      refine ⟨⟨writer, hopened⟩, ?_⟩
      rw [← hmore, List.drop_left, List.prefix_append_right_inj]
      exact List.take_prefix count more
  | succeeded =>
      obtain ⟨inode, hinode, hadvance⟩ := Option.bind_eq_some_iff.mp hadvance
      cases hopened.symm.trans hinode
      obtain ⟨hlength, heq⟩ := Option.ite_none_right_eq_some.mp hadvance
      cases heq
      -- All bytes were read, so what was read is the whole file.
      have hall : opened = got := by
        rw [← hmore, List.length_append] at hlength
        rw [← hmore, List.length_eq_zero_iff.mp (by omega : more.length = 0), List.append_nil]
      refine .of_eq rfl rfl (fun _ => rfl) (fun _ => rfl) (fun _ h => nomatch h) ?_
      intro entry hentry
      rcases List.mem_cons.mp hentry with rfl | hold
      · exact .inr hall
      · exact .inl hold
  | failed => cases hadvance; exact .of_ended
  | created => cases hadvance

theorem call_of_advance {request : Request Key} (hsound : disk.Sound)
    (hholds : request.Holds name disk)
    (hadvance : advance name outcome disk request = some (remaining, after)) :
    Call name disk request remaining after := by
  cases request with
  | opening key uuid content => exact call_of_opening key uuid content hadvance
  | writing key uuid content number written =>
      exact call_of_writing key uuid content number written hholds hadvance
  | syncing key uuid content number =>
      obtain ⟨hinode, hput⟩ := hholds
      cases outcome with
      | succeeded =>
          cases hadvance
          refine ⟨.setInode (fun old hold => ?_) rfl (fun _ h => h),
            .kept (fun _ => rfl) (fun _ => rfl), ?_, fun _ h => .inl h⟩
          · cases hinode.symm.trans hold
            exact ⟨rfl, rfl⟩
          · rintro next ⟨⟩
            exact ⟨Disk.setInode_self .., hput⟩
      | failed => cases hadvance; exact .of_same (by rintro next ⟨⟩; trivial)
      | created | transferred => cases hadvance
  | closing key uuid content number =>
      cases outcome with
      | succeeded => cases hadvance; exact .of_same (by rintro next ⟨⟩; exact hholds)
      | failed => cases hadvance; exact .of_same (by rintro next ⟨⟩; trivial)
      | created | transferred => cases hadvance
  | replacing key uuid content number =>
      cases outcome with
      | succeeded =>
          cases hadvance
          exact ⟨.of_eq rfl rfl, .renamed rfl, (fun _ h => nomatch h), fun _ h => .inl h⟩
      | failed => cases hadvance; exact .of_same (by rintro next ⟨⟩; trivial)
      | created | transferred => cases hadvance
  | cleaning key uuid =>
      cases outcome with
      | succeeded =>
          cases hadvance
          exact .of_eq rfl rfl (fun other => (Disk.setEntry_temporary disk none key uuid other).1)
            (fun other => (Disk.setEntry_temporary disk none key uuid other).2)
            (fun _ h => nomatch h) fun _ h => .inl h
      | failed => cases hadvance; exact .of_ended
      | created | transferred => cases hadvance
  | removing key =>
      cases outcome with
      | succeeded =>
          cases hadvance
          exact ⟨.of_eq rfl rfl, .removed rfl, (fun _ h => nomatch h), fun _ h => .inl h⟩
      | failed => cases hadvance; exact .of_ended
      | created | transferred => cases hadvance
  | openingRead key => exact call_of_openingRead key hsound hadvance
  | reading number opened got => exact call_of_reading number opened got hholds hadvance

end Calls

/-! ## Runs -/

theorem sound_empty : (Disk.empty : Disk Key).Sound where
  stored key number h := by
    rcases h with h | h
    · cases h
    · cases h
  reads := nofun

/-- A call leaves whole objects. -/
theorem Call.sound [DecidableEq Key] {name : Nat} {disk after : Disk Key} {request : Request Key}
    {remaining : Option (Request Key)} (hcall : Call name disk request remaining after)
    (hsound : disk.Sound) (hholds : request.Holds name disk) : after.Sound := by
  refine ⟨?_, fun entry hentry => (hcall.reads entry hentry).elim (hsound.reads entry) id⟩
  intro key number hknown
  cases hcall.effect with
  | kept hentries hearlier =>
      rw [hentries, hearlier] at hknown
      exact hcall.frame.stored (hsound.stored key number hknown)
  | renamed hafter =>
      rw [hafter] at hknown
      rcases Disk.setEntry_known _ _ _ hknown with ⟨hpath, -⟩ | hknown
      · cases hpath
      · rcases Disk.setEntry_known _ _ _ hknown with ⟨hpath, hnumber⟩ | hold
        · cases hpath
          cases hnumber
          exact hcall.frame.stored ⟨_, name, hholds⟩
        · exact hcall.frame.stored (hsound.stored key number hold)
  | removed hafter =>
      rw [hafter] at hknown
      rcases Disk.setEntry_known _ _ _ hknown with ⟨-, hnumber⟩ | hold
      · cases hnumber
      · exact hcall.frame.stored (hsound.stored key number hold)

theorem outline_valid [DecidableEq Key] :
    outline.Valid (program Key) (· = Disk.empty) fun _ _ => True where
  init _ hempty := hempty ▸ sound_empty
  drift _ _ _ h := by cases h
  start _ _ request hstart _ := by
    cases request with
    | opening | removing | openingRead => trivial
    | writing | syncing | closing | replacing | cleaning | reading => cases hstart
  own _ name _ request _ _ hholds hrequest _ hadvance := by
    have hcall := call_of_advance hholds.1 (hholds.2 name request hrequest) hadvance
    exact ⟨hcall.sound hholds.1 (hholds.2 name request hrequest), hcall.own⟩
  others _ name _ request _ _ hholds hrequest _ hadvance other next hother hnext :=
    (call_of_advance hholds.1 (hholds.2 name request hrequest) hadvance).frame.holds hother
      (hholds.2 other next hnext)

theorem PowerLost.stored {config after : Config (Disk Key) (Request Key)}
    (hlost : PowerLost config after) {key : Key} {number : Nat}
    (h : config.store.Stored key number) : after.store.Stored key number := by
  obtain ⟨content, writer, hinode, hput⟩ := h
  obtain ⟨kept, hkept, hsame⟩ := hlost.inodes _ _ hinode
  obtain rfl : kept = content := hsame rfl
  exact ⟨kept, writer, hkept, hlost.puts ▸ hput⟩

theorem PowerLost.holds {config after : Config (Disk Key) (Request Key)}
    (hlost : PowerLost config after) (hholds : outline.Holds config) : outline.Holds after := by
  refine ⟨⟨fun key number hknown => ?_, fun entry h => hholds.1.reads entry (hlost.reads ▸ h)⟩,
    fun name request hrequest => ?_⟩
  · refine hlost.stored (hholds.1.stored key number ?_)
    rcases hknown with hnow | hbefore
    · rcases hlost.entries (.object key) with hsame | hback
      · exact .inl (hsame ▸ hnow)
      · exact .inr (hnow ▸ hback)
    · exact .inr (hlost.earlier ▸ hbefore)
  · rw [hlost.stopped name] at hrequest
    cases hrequest

theorem holds_of_reachable [DecidableEq Key] {config : Config (Disk Key) (Request Key)}
    (hreach : (system Key).Reachable config) : outline.Holds config := by
  refine hreach.invariant ?_ ?_
  · rintro config ⟨hempty, hnone⟩
    refine ⟨hempty ▸ sound_empty, fun name request hrequest => ?_⟩
    rw [hnone name] at hrequest
    cases hrequest
  · intro config move after hholds _ hstep
    cases move with
    | some move => exact outline_valid.step hholds trivial hstep
    | none => exact PowerLost.holds hstep hholds

/-! ## Objects -/

theorem object_of_entry {disk : Disk Key} {key : Key} {number : Nat} {inode : Inode}
    (hentry : disk.entries (.object key) = some number) (hinode : disk.inodes number = some inode) :
    disk.object key = some inode.content := by
  rw [Disk.object, hentry, Option.bind_some, hinode, Option.map_some]

/-- An object is one that a request was given. -/
theorem put_of_object {disk : Disk Key} (hsound : disk.Sound) {key : Key} {content : Content}
    (h : disk.object key = some content) : (key, content) ∈ disk.puts := by
  cases hentry : disk.entries (.object key) with
  | none =>
      rw [Disk.object, hentry] at h
      cases h
  | some number =>
      obtain ⟨stored, writer, hinode, hput⟩ := hsound.stored key number (.inl hentry.symm)
      rw [object_of_entry hentry hinode] at h
      cases h
      exact hput

/-- Where the entry of an object stays, so does the object. -/
theorem Frame.object {name : Nat} {disk after : Disk Key} (hframe : Frame name disk after)
    (hsound : disk.Sound) {key : Key}
    (hentry : after.entries (.object key) = disk.entries (.object key)) :
    after.object key = disk.object key := by
  cases hnumber : disk.entries (.object key) with
  | none => rw [Disk.object, Disk.object, hentry, hnumber, Option.bind_none, Option.bind_none]
  | some number =>
      obtain ⟨content, writer, hinode, -⟩ := hsound.stored key number (.inl hnumber.symm)
      rw [object_of_entry hnumber hinode, object_of_entry (hentry.trans hnumber)
        (hframe.inodes _ _ hinode (.inl rfl))]

/-- A call keeps the objects, puts one as a whole or removes one. -/
theorem Call.object [DecidableEq Key] {name : Nat} {disk after : Disk Key} {request : Request Key}
    {remaining : Option (Request Key)} (hcall : Call name disk request remaining after)
    (hsound : disk.Sound) (hholds : request.Holds name disk) :
    after.object = disk.object ∨
      (∃ key uuid content number, request = .replacing key uuid content number ∧
        after.object = Function.update disk.object key (some content)) ∨
      ∃ key, request = .removing key ∧ after.object = Function.update disk.object key none := by
  cases hcall.effect with
  | kept hentries => exact .inl (funext fun key => hcall.frame.object hsound (hentries key))
  | @renamed key uuid content number hafter =>
      refine .inr (.inl ⟨key, uuid, content, number, rfl, funext fun other => ?_⟩)
      have hentry : after.entries (.object other) =
          (disk.setEntry (.object key) (some number)).entries (.object other) := by
        rw [hafter]
        exact (Disk.setEntry_temporary _ _ key uuid other).1
      by_cases hother : other = key
      · subst hother
        rw [Function.update_self, object_of_entry (hentry.trans (Disk.setEntry_self ..))
          (hcall.frame.inodes _ _ hholds.1 (.inl rfl))]
      · rw [Function.update_of_ne hother]
        exact hcall.frame.object hsound
          (hentry.trans (Disk.setEntry_of_ne _ _ _ (by simpa using hother)))
  | @removed key hafter =>
      refine .inr (.inr ⟨key, rfl, funext fun other => ?_⟩)
      by_cases hother : other = key
      · subst hother
        rw [Function.update_self, hafter, Disk.object, Disk.setEntry_self, Option.bind_none,
          Option.map_none]
      · rw [Function.update_of_ne hother]
        exact hcall.frame.object hsound
          (by rw [hafter, Disk.setEntry_of_ne _ _ _ (by simpa using hother)])

/-- In every run an object is one that a request was given, as a whole; what a reader got is the
object as it was opened. Each move leaves all objects as they are, but for the renaming of a request
that puts an object and the removal of one: these change one object at once. After a loss of power
every object is still one that was given. -/
theorem objects_are_atomic [DecidableEq Key] {config : Config (Disk Key) (Request Key)}
    (hreach : (system Key).Reachable config) :
    (∀ key content, config.store.object key = some content → (key, content) ∈ config.store.puts) ∧
    (∀ entry ∈ config.store.reads, entry.1 = entry.2) ∧
    (∀ move after, (program Key).next config move = some after →
      after.store.object = config.store.object ∨
      (∃ name outcome key uuid content number, move = .advance name outcome ∧
        config.processes name = some (.replacing key uuid content number) ∧
        after.store.object = Function.update config.store.object key (some content)) ∨
      ∃ name outcome key, move = .advance name outcome ∧
        config.processes name = some (.removing key) ∧
        after.store.object = Function.update config.store.object key none) ∧
    ∀ after, PowerLost config after → ∀ key content, after.store.object key = some content →
      (key, content) ∈ config.store.puts := by
  have hholds := holds_of_reachable hreach
  refine ⟨fun key content => put_of_object hholds.1, hholds.1.reads, ?_, ?_⟩
  · intro move after hnext
    rcases next_store hnext with ⟨time, -, hdrift⟩ | ⟨name, outcome, request, remaining, rfl,
      hrequest, hadvance⟩ | hsame
    · cases hdrift
    · have hrequestHolds := hholds.2 name request hrequest
      have hcall := call_of_advance hholds.1 hrequestHolds hadvance
      rcases hcall.object hholds.1 hrequestHolds with hkept | ⟨key, uuid, content, number, rfl,
        hput⟩ | ⟨key, rfl, hremoved⟩
      · exact .inl hkept
      · exact .inr (.inl ⟨name, outcome, key, uuid, content, number, rfl, hrequest, hput⟩)
      · exact .inr (.inr ⟨name, outcome, key, rfl, hrequest, hremoved⟩)
    · exact .inl (congrArg Disk.object hsame)
  · intro after hlost key content hobject
    rw [← hlost.puts]
    exact put_of_object (hlost.holds hholds).1 hobject

end Invariant

/-! ## A run -/

/-- An object is put, and replaced while a reader has it open. -/
def replacedWhileRead : List (Option (Move (Request Unit) Outcome)) :=
  [some (.start 0 (.opening () 7 [1, 2])), some (.advance 0 (.created 0)),
    some (.advance 0 (.transferred 2)), some (.advance 0 .succeeded),
    some (.advance 0 .succeeded), some (.advance 0 .succeeded), some (.advance 0 .succeeded),
    some (.start 1 (.openingRead ())), some (.advance 1 .succeeded),
    some (.advance 1 (.transferred 1)), some (.start 2 (.opening () 8 [3])),
    some (.advance 2 (.created 1)), some (.advance 2 (.transferred 1)),
    some (.advance 2 .succeeded), some (.advance 2 .succeeded), some (.advance 2 .succeeded),
    some (.advance 2 .succeeded), some (.advance 1 (.transferred 5)),
    some (.advance 1 .succeeded)]

theorem objects_are_atomic_replaced :
    ∃ config, (system Unit).Reachable config ∧ config.store.object () = some [3] ∧
      config.store.reads = [([1, 2], [1, 2])] ∧ ((), [3]) ∈ config.store.puts := by
  have hsome : (System.execute (fun config move => move.bind ((program Unit).next config))
      (idle Disk.empty) replacedWhileRead).isSome = true := rfl
  obtain ⟨config, hrun⟩ := Option.isSome_iff_exists.mp hsome
  have hreach : (system Unit).Reachable config := by
    refine System.ReachableWhile.execute ?_ hrun (.init ⟨rfl, fun _ => rfl⟩)
    intro config move after hnext
    cases move with
    | none => cases hnext
    | some move => exact ⟨trivial, hnext⟩
  have hobject : config.store.object () = some [3] := by
    cases hrun
    rfl
  refine ⟨config, hreach, hobject, ?_, (objects_are_atomic hreach).1 () [3] hobject⟩
  cases hrun
  rfl

end Storage.LocalFiles
