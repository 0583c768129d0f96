import Mathlib.Data.List.Basic

/-! # Paths

Paths are parts between slashes. Resolving a path drops empty parts and single dots, and two dots
drop the part before them. A relative path whose parts are all proper names leads below the
directory that it starts in.
-/

namespace Foundation.PosixPath

/-- A part that names something in the directory before it. -/
structure Proper (part : List Char) : Prop where
  nonempty : part ≠ []
  noSlash : '/' ∉ part
  noDot : part ≠ ['.']
  noDots : part ≠ ['.', '.']

/-- One more part of an absolute path. -/
def enter (parts : List (List Char)) (part : List Char) : List (List Char) :=
  if part = [] ∨ part = ['.'] then parts
  else if part = ['.', '.'] then parts.dropLast
  else parts ++ [part]

/-- The absolute path with the parts. -/
def absolute (parts : List (List Char)) : List Char := '/' :: List.intercalate ['/'] parts

/-- `resolve(...paths)`, in a working directory; an absolute path replaces what is before it. -/
def resolve (cwd : List Char) (paths : List (List Char)) : List Char :=
  let path := paths.foldl (fun resolved path =>
    if path.head? = some '/' then path else resolved ++ '/' :: path) cwd
  absolute ((path.splitOn '/').foldl enter [])

/-- A path below another one: proper names follow. -/
def Below (root path : List Char) : Prop :=
  ∃ parts, parts ≠ [] ∧ (∀ part ∈ parts, Proper part) ∧
    path = root ++ '/' :: List.intercalate ['/'] parts

theorem noSlash_of_mem_splitOn {part text : List Char} (hpart : part ∈ text.splitOn '/') :
    '/' ∉ part := by
  induction text generalizing part with
  | nil =>
      rw [List.splitOn_nil, List.mem_singleton] at hpart
      rw [hpart]
      exact List.not_mem_nil
  | cons c text ih =>
      rw [List.splitOn_cons_eq_if_modifyHead] at hpart
      split at hpart
      next =>
        rcases List.mem_cons.mp hpart with rfl | hrest
        · exact List.not_mem_nil
        · exact ih hrest
      next hc =>
        obtain ⟨first, rest, hsplit⟩ := List.exists_cons_of_ne_nil (List.splitOn_ne_nil '/' text)
        rw [hsplit, List.modifyHead_cons] at hpart
        rw [hsplit] at ih
        rcases List.mem_cons.mp hpart with rfl | hrest
        · have hfirst := ih List.mem_cons_self
          have hdiffer : '/' ≠ c := fun h => hc (by rw [← h]; rfl)
          simpa using ⟨hdiffer, hfirst⟩
        · exact ih (List.mem_cons_of_mem _ hrest)

theorem enter_proper {parts : List (List Char)} {part : List Char} (hpart : Proper part) :
    enter parts part = parts ++ [part] := by
  rw [enter, if_neg, if_neg hpart.noDots]
  rintro (h | h)
  · exact hpart.nonempty h
  · exact hpart.noDot h

theorem foldl_enter_proper {parts names : List (List Char)} (hnames : ∀ part ∈ names, Proper part) :
    names.foldl enter parts = parts ++ names := by
  induction names generalizing parts with
  | nil => rw [List.foldl_nil, List.append_nil]
  | cons name names ih =>
      rw [List.foldl_cons, enter_proper (hnames name List.mem_cons_self),
        ih fun part hpart => hnames part (List.mem_cons_of_mem _ hpart), List.append_assoc]
      rfl

/-- What is resolved has proper names only. -/
theorem proper_foldl_enter {parts names : List (List Char)} (hparts : ∀ part ∈ parts, Proper part)
    (hnames : ∀ part ∈ names, '/' ∉ part) : ∀ part ∈ names.foldl enter parts, Proper part := by
  induction names generalizing parts with
  | nil => exact hparts
  | cons name names ih =>
      refine ih ?_ fun part hpart => hnames part (List.mem_cons_of_mem _ hpart)
      intro part hpart
      unfold enter at hpart
      split at hpart
      next => exact hparts part hpart
      next hkept =>
        split at hpart
        next => exact hparts part (List.dropLast_subset _ hpart)
        next hdots =>
          rcases List.mem_append.mp hpart with hold | hnew
          · exact hparts part hold
          · obtain rfl := List.mem_singleton.mp hnew
            exact ⟨fun h => hkept (.inl h), hnames part List.mem_cons_self,
              fun h => hkept (.inr h), hdots⟩

/-- A resolved path is made of proper names. -/
theorem exists_parts (cwd : List Char) (paths : List (List Char)) :
    ∃ parts, (∀ part ∈ parts, Proper part) ∧ resolve cwd paths = absolute parts := by
  refine ⟨_, proper_foldl_enter (by simp) fun part hpart => noSlash_of_mem_splitOn hpart, rfl⟩

theorem splitOn_slash (text : List Char) :
    ('/' :: text).splitOn '/' = [] :: text.splitOn '/' := by
  rw [List.splitOn_cons_eq_if_modifyHead, if_pos (beq_self_eq_true '/')]

theorem splitOn_absolute {parts : List (List Char)} (hparts : ∀ part ∈ parts, Proper part) :
    ((absolute parts).splitOn '/').foldl enter [] = parts := by
  have henter : ∀ names, enter names [] = names := fun names => by rw [enter, if_pos (.inl rfl)]
  rw [absolute, splitOn_slash, List.foldl_cons, henter]
  cases parts with
  | nil => exact henter []
  | cons part parts =>
      rw [List.splitOn_intercalate '/' (fun name hname => (hparts name hname).noSlash)
        (List.cons_ne_nil _ _), foldl_enter_proper hparts]
      rfl

theorem head_ne_slash {path : List Char} (hpath : ∀ part ∈ path.splitOn '/', Proper part) :
    path.head? ≠ some '/' := by
  cases path with
  | nil => simp
  | cons c path =>
      intro hslash
      obtain rfl := Option.some.inj hslash
      rw [splitOn_slash] at hpath
      exact (hpath [] List.mem_cons_self).nonempty rfl

/-- A relative path of proper names, in a directory that is resolved. -/
theorem resolve_relative (cwd : List Char) {parts : List (List Char)}
    (hparts : ∀ part ∈ parts, Proper part) {path : List Char}
    (hpath : ∀ part ∈ path.splitOn '/', Proper part) :
    resolve cwd [absolute parts, path] = absolute (parts ++ path.splitOn '/') := by
  have habsolute : (absolute parts).head? = some '/' := rfl
  rw [resolve, List.foldl_cons, List.foldl_cons, List.foldl_nil, if_pos habsolute,
    if_neg (head_ne_slash hpath), List.splitOn_append_cons_self, List.foldl_append,
    splitOn_absolute hparts, foldl_enter_proper hpath]

theorem absolute_append {parts names : List (List Char)} (hparts : parts ≠ [])
    (hnames : names ≠ []) :
    absolute (parts ++ names) = absolute parts ++ '/' :: List.intercalate ['/'] names := by
  rw [absolute, absolute, List.cons_append]
  congr 1
  induction parts with
  | nil => exact absurd rfl hparts
  | cons part parts ih =>
      cases parts with
      | nil =>
          obtain ⟨name, rest, rfl⟩ := List.exists_cons_of_ne_nil hnames
          rw [List.cons_append, List.nil_append, List.intercalate_cons_cons,
            List.intercalate_singleton, List.append_assoc]
          rfl
      | cons next parts =>
          have hrest := ih (List.cons_ne_nil _ _)
          rw [List.cons_append, List.cons_append, List.intercalate_cons_cons, ← List.cons_append,
            hrest, List.intercalate_cons_cons, List.append_assoc, List.append_assoc,
            List.append_assoc]

/-- In every directory but the first one, the path leads below it. -/
theorem below_resolve (cwd : List Char) {root path : List Char} {paths : List (List Char)}
    (hroot : root = resolve cwd paths) (hne : root ≠ ['/'])
    (hpath : ∀ part ∈ path.splitOn '/', Proper part) :
    resolve cwd [root, path] = root ++ '/' :: path ∧ Below root (resolve cwd [root, path]) := by
  obtain ⟨parts, hparts, hresolve⟩ := exists_parts cwd paths
  rw [hresolve] at hroot
  subst hroot
  have hnonempty : parts ≠ [] := by
    rintro rfl
    exact hne rfl
  rw [resolve_relative cwd hparts hpath,
    absolute_append hnonempty (List.splitOn_ne_nil '/' path)]
  exact ⟨by rw [List.intercalate_splitOn], path.splitOn '/', List.splitOn_ne_nil _ _, hpath, rfl⟩

end Foundation.PosixPath
