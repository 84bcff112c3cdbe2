import Mathlib

/-!
# Trees of directories and files

A path is a list of names. A directory cannot be read or written as a file, and a file has no
entries.
-/

namespace DeepProve

inductive FileNode (Content : Type) where
  | dir
  | file (content : Content)

/-- What a path leads to; what is in the tree is in a directory. -/
structure FileTree (Name Content : Type) where
  node : List Name → Option (FileNode Content)
  root : node [] = some .dir
  parent : ∀ path name, (node (path ++ [name])).isSome → node path = some .dir

namespace FileTree

variable {Name Content : Type}

/-- A tree with nothing in it. -/
def empty : FileTree Name Content where
  node path := match path with
    | [] => some .dir
    | _ :: _ => none
  root := rfl
  parent path name h := by
    cases path <;> exact nomatch h

variable (tree : FileTree Name Content)

def isDir (path : List Name) : Bool :=
  match tree.node path with
  | some .dir => true
  | _ => false

def isFile (path : List Name) : Bool :=
  match tree.node path with
  | some (.file _) => true
  | _ => false

variable {tree} in
theorem isDir_eq_true {path : List Name} : tree.isDir path = true ↔ tree.node path = some .dir := by
  unfold isDir
  split
  · next h => simp [h]
  · next h => exact iff_of_false Bool.false_ne_true h

/-- Whether there is something; looking below a file fails. -/
def tryExists (path : List Name) : Option Bool :=
  if path.dropLast.inits.any tree.isFile then none else some (tree.node path).isSome

/-- The bytes of a file; reading a directory fails. -/
def read (path : List Name) : Option Content :=
  match tree.node path with
  | some (.file content) => some content
  | _ => none

variable [DecidableEq Name]

/-- Make a directory and all those above it; a file in the way fails. -/
def createDirAll (path : List Name) : Option (FileTree Name Content) :=
  if path.inits.any tree.isFile then none
  else some
    { node := fun path' => if path' <+: path then some .dir else tree.node path'
      root := by rw [if_pos List.nil_prefix]
      parent := by
        intro path' name h
        split at h
        · next hprefix => rw [if_pos ((List.prefix_append path' [name]).trans hprefix)]
        · rw [tree.parent path' name h, ite_self] }

/-- Write a file in a directory that is there; writing a directory fails. -/
def write (path : List Name) (content : Content) : Option (FileTree Name Content) :=
  if h : tree.isDir path.dropLast = true ∧ ¬ tree.isDir path = true then some
    { node := Function.update tree.node path (some (.file content))
      root := by
        have hne : ([] : List Name) ≠ path := by
          intro heq
          exact h.2 (isDir_eq_true.mpr (heq ▸ tree.root))
        rw [Function.update_of_ne hne, tree.root]
      parent := by
        intro path' name hsome
        have hne : path' ≠ path := by
          intro heq
          rw [heq, Function.update_of_ne (by simp)] at hsome
          exact h.2 (isDir_eq_true.mpr (tree.parent path name hsome))
        rw [Function.update_of_ne hne]
        by_cases heq : path' ++ [name] = path
        · rw [← isDir_eq_true, ← h.1, ← heq, List.dropLast_concat]
        · rw [Function.update_of_ne heq] at hsome
          exact tree.parent path' name hsome }
  else none

variable {tree} {path : List Name} {content : Content}

/-- A directory stays one. -/
theorem write_eq_none (h : tree.node path = some .dir) : tree.write path content = none := by
  rw [write, dif_neg]
  exact fun hwrite => hwrite.2 (isDir_eq_true.mpr h)

/-- A path at which a directory has been made cannot be written. -/
theorem write_createDirAll {tree' : FileTree Name Content} (h : tree.createDirAll path = some tree') :
    tree'.write path content = none := by
  unfold createDirAll at h
  split at h
  · exact nomatch h
  · obtain rfl := Option.some.inj h
    exact write_eq_none (if_pos (List.prefix_refl path))

end FileTree

end DeepProve

/-!
## Files with advisory locks

The entries of a directory point to inodes, and a lock belongs to an inode, not to a path: a file
that has been removed is still locked as long as it is open.
-/

namespace DeepProve

/-- Directory entries, and who holds the lock of an inode. -/
structure LockedFiles (Path Owner : Type) where
  entries : Path → Option Nat
  locks : Nat → Option Owner
  /-- No inode from here on has been used. -/
  nextInode : Nat

namespace LockedFiles

variable {Path Owner : Type} [DecidableEq Path] [DecidableEq Owner]
  (files : LockedFiles Path Owner)

/-- Open a file to write; if there is none, make one. -/
def create (path : Path) : LockedFiles Path Owner × Nat :=
  match files.entries path with
  | some inode => (files, inode)
  | none =>
    ({ files with
        entries := Function.update files.entries path (some files.nextInode)
        nextInode := files.nextInode + 1 }, files.nextInode)

/-- Take the exclusive lock without waiting for it. -/
def flock (inode : Nat) (owner : Owner) : Option (LockedFiles Path Owner) :=
  match files.locks inode with
  | some _ => none
  | none => some { files with locks := Function.update files.locks inode (some owner) }

/-- Remove the entry; whoever has the file open keeps it. -/
def removeFile (path : Path) : LockedFiles Path Owner :=
  { files with entries := Function.update files.entries path none }

/-- Close a file: its lock is given back. -/
def close (inode : Nat) (owner : Owner) : LockedFiles Path Owner :=
  if files.locks inode = some owner then
    { files with locks := Function.update files.locks inode none }
  else files

variable {files} {path path' : Path} {inode inode' : Nat} {owner owner' : Owner}

omit [DecidableEq Owner] in
@[simp] theorem locks_create : (files.create path).1.locks = files.locks := by
  unfold create
  split <;> rfl

omit [DecidableEq Owner] in
/-- What a path leads to stays. -/
theorem entries_create_of_eq_some (h : files.entries path' = some inode) :
    (files.create path).1.entries path' = some inode := by
  unfold create
  split
  · exact h
  · next hnone =>
    have hne : path' ≠ path := by
      intro heq
      rw [heq, hnone] at h
      exact nomatch h
    simp [hne, h]

omit [DecidableEq Path] [DecidableEq Owner] in
theorem flock_eq_some {files' : LockedFiles Path Owner} :
    files.flock inode owner = some files' ↔ files.locks inode = none ∧
      files' = { files with locks := Function.update files.locks inode (some owner) } := by
  unfold flock
  split
  · simp_all
  · simp_all [eq_comm]

omit [DecidableEq Path] in
@[simp] theorem entries_close : (files.close inode owner).entries = files.entries := by
  unfold close
  split <;> rfl

omit [DecidableEq Path] in
/-- Nobody else loses a lock. -/
theorem locks_close_eq_some : (files.close inode owner).locks inode' = some owner' ↔
    files.locks inode' = some owner' ∧ ¬ (inode' = inode ∧ owner' = owner) := by
  unfold close
  split
  · next hlock =>
    by_cases h : inode' = inode
    · subst h
      simp [hlock, eq_comm]
    · simp [h]
  · next hlock =>
    constructor
    · intro h
      refine ⟨h, fun ⟨heq, howner⟩ => hlock ?_⟩
      rw [← heq, ← howner, h]
    · exact And.left

end LockedFiles

end DeepProve
