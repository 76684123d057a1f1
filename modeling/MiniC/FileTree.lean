/-!
# Files by path

What a command finds at a path: a tree of files and directories with a current directory.  A path
names its way by parts between slashes: an empty part and `.` stay, `..` goes one level up, and
every other part is the name of an entry.  A path that begins with a slash begins at the root, any
other in the current directory.  Every part of a path needs a directory to start from, the empty one
behind a final slash included.

Main definitions:

* `MiniC.FileError`: why a path leads to no file;
* `MiniC.OpenFile`: a file that has been opened;
* `MiniC.FileTree`, `MiniC.FileTree.walk`: trees of files, and where the parts of a path lead;
* `MiniC.FileTree.file`: what opening a path yields.

Main results:

* `MiniC.FileTree.partsOf_inj`: no two paths have the same parts;
* `MiniC.FileTree.walk_of_lookup`: names can be followed to the file that they lead to;
* `MiniC.FileTree.file_ofFiles`: a file of the current directory is opened by its name.
-/

set_option autoImplicit false

namespace MiniC

/-- Why a path leads to no file. -/
inductive FileError where
  | missing
  /-- A part of the path needs a directory and finds a file. -/
  | notDirectory
  /-- The path leads to a directory, which has no bytes to read. -/
  | directory
  /-- A name takes more bytes than a name can have, or so does the whole path. -/
  | longName
deriving DecidableEq, Repr, Inhabited

/-- The text of an error, with its number. -/
def FileError.message : FileError → String
  | missing => "No such file or directory (os error 2)"
  | notDirectory => "Not a directory (os error 20)"
  | directory => "Is a directory (os error 21)"
  | longName => "File name too long (os error 36)"

/-- A file that has been opened: its bytes, or why they cannot be read. -/
inductive OpenFile where
  | bytes (bytes : List UInt8)
  | unreadable (reason : String)
deriving DecidableEq, Repr, Inhabited

/-- A tree of files, each at the names that lead to it from the root, and the current directory.
The directories are those on the way to a file or to the current directory. -/
structure FileTree where
  files : List (List String × List UInt8)
  current : List String
deriving Repr, Inhabited

namespace FileTree

/-- The parts of a text between its slashes. -/
def parts : List Char → List (List Char)
  | [] => [[]]
  | c :: cs =>
    if c = '/' then [] :: parts cs
    else
      match parts cs with
      | p :: ps => (c :: p) :: ps
      | [] => [[c]]

/-- The parts of a path. -/
def partsOf (path : String) : List String := (parts path.toList).map String.ofList

/-- A tree whose current directory holds some files, beside a file without bytes at
`/dev/null`. -/
def ofFiles (files : List (String × List UInt8)) : FileTree where
  files := (["dev", "null"], []) :: files.map fun f => (["tmp", "work"] ++ partsOf f.1, f.2)
  current := ["tmp", "work"]

/-- Some names lead to a directory. -/
def isDirectory (t : FileTree) (place : List String) : Bool :=
  place.isPrefixOf t.current || t.files.any fun f => place.isPrefixOf f.1 && place != f.1

/-- Some names lead to a directory or to a file. -/
def has (t : FileTree) (place : List String) : Bool :=
  t.isDirectory place || (t.files.lookup place).isSome

/-- The most bytes that a name can have. -/
def maxName : Nat := 255

/-- The most bytes that a path can have. -/
def maxPath : Nat := 4095

/-- Where one part of a path leads from a place. -/
def step (t : FileTree) (place : List String) (part : String) : Except FileError (List String) :=
  if !t.isDirectory place then .error .notDirectory
  else if part = "" ∨ part = "." then .ok place
  else if part = ".." then .ok place.dropLast
  else if maxName < part.utf8ByteSize then .error .longName
  else if t.has (place ++ [part]) then .ok (place ++ [part])
  else .error .missing

/-- Where the parts of a path lead from a place. -/
def walk (t : FileTree) (place : List String) : List String → Except FileError (List String)
  | [] => .ok place
  | part :: rest =>
    match t.step place part with
    | .error e => .error e
    | .ok place => t.walk place rest

/-- The place that a path begins at: the root if it begins with a slash. -/
def origin (t : FileTree) (path : String) : List String :=
  if path.toList.head? = some '/' then [] else t.current

/-- What opening a path yields.  A directory can be opened, and only reading it fails. -/
def file (t : FileTree) (path : String) : Except FileError OpenFile :=
  if path = "" then .error .missing
  else if maxPath < path.utf8ByteSize then .error .longName
  else
    match t.walk (t.origin path) (partsOf path) with
    | .error e => .error e
    | .ok place =>
      match t.files.lookup place with
      | some bytes => .ok (.bytes bytes)
      | none => .ok (.unreadable FileError.directory.message)

/-! ### Parts -/

theorem parts_ne_nil (cs : List Char) : parts cs ≠ [] := by
  cases cs with
  | nil => exact List.cons_ne_nil _ _
  | cons c cs =>
    unfold parts
    split
    · exact List.cons_ne_nil _ _
    · split <;> exact List.cons_ne_nil _ _

/-- The parts of a text, with slashes between them again, are the text. -/
theorem intercalate_parts (cs : List Char) : ['/'].intercalate (parts cs) = cs := by
  induction cs with
  | nil => rfl
  | cons c cs ih =>
    unfold parts
    -- The rest of the text has a first part, which the character joins unless it is a slash.
    cases hp : parts cs with
    | nil => exact absurd hp (parts_ne_nil cs)
    | cons p ps =>
      rw [hp] at ih
      split
      · next hc => rw [List.intercalate_cons_cons, ih, hc]; rfl
      · cases ps with
        | nil =>
          rw [List.intercalate_singleton] at ih
          rw [← ih]
          exact List.intercalate_singleton
        | cons q qs =>
          rw [List.intercalate_cons_cons] at ih
          rw [← ih]
          exact List.intercalate_cons_cons

/-- No two paths have the same parts. -/
theorem partsOf_inj {path other : String} : partsOf path = partsOf other ↔ path = other := by
  refine ⟨fun h => ?_, congrArg partsOf⟩
  have hparts : parts path.toList = parts other.toList :=
    (List.map_inj_right fun _ _ => String.ofList_inj.1).1 h
  rw [← String.toList_inj, ← intercalate_parts path.toList, hparts, intercalate_parts]

/-! ### The way to a file -/

/-- A part of a path that is the name of an entry, and no longer than a name can be. -/
structure IsName (part : String) : Prop where
  ne_empty : part ≠ ""
  ne_dot : part ≠ "."
  ne_dots : part ≠ ".."
  size_le : part.utf8ByteSize ≤ maxName

variable {t : FileTree} {bytes : List UInt8}

/-- A file lies in a directory. -/
theorem isDirectory_of_lookup {place names : List String} (hnames : names ≠ [])
    (h : t.files.lookup (place ++ names) = some bytes) : t.isDirectory place = true := by
  obtain ⟨before, behind, hfiles, -⟩ := List.lookup_eq_some_iff.1 h
  have hmem : (place ++ names, bytes) ∈ t.files := by rw [hfiles]; simp
  have hbegins : place.isPrefixOf (place ++ names) = true :=
    List.isPrefixOf_iff_prefix.2 (List.prefix_append _ _)
  have hne : (place != place ++ names) = true := by simpa using hnames
  refine Bool.or_eq_true_iff.2 (.inr (List.any_eq_true.2 ⟨_, hmem, ?_⟩))
  rw [hbegins, hne]
  rfl

/-- The names that lead from a place to a file can be followed. -/
theorem walk_of_lookup {place names : List String} (hnames : ∀ name ∈ names, IsName name)
    (h : t.files.lookup (place ++ names) = some bytes) :
    t.walk place names = .ok (place ++ names) := by
  induction names generalizing place with
  | nil => rw [List.append_nil]; rfl
  | cons name rest ih =>
    obtain ⟨hname, hrest⟩ := List.forall_mem_cons.1 hnames
    have hsplit : place ++ name :: rest = place ++ [name] ++ rest := by simp
    have hbelow : t.files.lookup (place ++ [name] ++ rest) = some bytes := hsplit ▸ h
    -- Behind the name is a directory, or if it is the last one, the file.
    have hthere : t.has (place ++ [name]) = true := by
      unfold has
      cases rest with
      | nil => rw [h]; exact Bool.or_true _
      | cons next more =>
        rw [isDirectory_of_lookup (List.cons_ne_nil _ _) hbelow]
        exact Bool.true_or _
    have hstep : t.step place name = .ok (place ++ [name]) := by
      simp [step, isDirectory_of_lookup (List.cons_ne_nil _ _) h, hname.ne_empty, hname.ne_dot,
        hname.ne_dots, Nat.not_lt.2 hname.size_le, hthere]
    rw [walk, hstep, hsplit]
    exact ih hrest hbelow

section

variable {path : String} (hnames : ∀ name ∈ partsOf path, IsName name)

include hnames

/-- The empty path has an empty part, which is no name. -/
theorem ne_empty_of_names : path ≠ "" := by
  rintro rfl
  exact (hnames "" (List.mem_singleton.2 rfl)).ne_empty rfl

/-- A file is opened by the names that lead to it. -/
theorem file_of_lookup (hlength : path.utf8ByteSize ≤ maxPath)
    (h : t.files.lookup (t.origin path ++ partsOf path) = some bytes) :
    t.file path = .ok (.bytes bytes) := by
  rw [file, if_neg (ne_empty_of_names hnames), if_neg (Nat.not_lt.2 hlength),
    walk_of_lookup hnames h]
  dsimp only
  rw [h]

/-- A path whose parts are names begins in the current directory. -/
theorem origin_of_names : t.origin path = t.current := by
  unfold origin
  rw [if_neg]
  intro hhead
  unfold partsOf at hnames
  cases hcs : path.toList with
  | nil => rw [hcs] at hhead; cases hhead
  | cons c cs =>
    rw [hcs] at hhead hnames
    obtain rfl : c = '/' := Option.some.inj hhead
    -- The part in front of the slash is empty.
    exact (hnames "" (by simp [parts])).ne_empty rfl

end

/-- Files of the current directory are found in its tree as they are found in the list. -/
theorem lookup_ofFiles (files : List (String × List UInt8)) (path : String) :
    (ofFiles files).files.lookup ((ofFiles files).current ++ partsOf path) = files.lookup path := by
  have hlist : ∀ fs : List (String × List UInt8),
      (fs.map fun f => (["tmp", "work"] ++ partsOf f.1, f.2)).lookup
        (["tmp", "work"] ++ partsOf path) = fs.lookup path := by
    intro fs
    induction fs with
    | nil => rfl
    | cons f fs ih =>
      have hsame : (["tmp", "work"] ++ partsOf path == ["tmp", "work"] ++ partsOf f.1) =
          (path == f.1) := by
        rw [Bool.eq_iff_iff, beq_iff_eq, beq_iff_eq, List.append_cancel_left_eq, partsOf_inj]
      rw [List.map_cons, List.lookup_cons, List.lookup_cons, hsame, ih]
  exact hlist files

/-- A file of the current directory is opened by its name. -/
theorem file_ofFiles {files : List (String × List UInt8)} {path : String}
    (hnames : ∀ name ∈ partsOf path, IsName name) (hlength : path.utf8ByteSize ≤ maxPath)
    (h : files.lookup path = some bytes) : (ofFiles files).file path = .ok (.bytes bytes) := by
  refine file_of_lookup hnames hlength ?_
  rw [origin_of_names hnames, lookup_ofFiles]
  exact h

end FileTree

end MiniC
