import LosslessUtf8.Scalar.Spelling

/-!
# Files

Paths, and trees of files to look them up in without a file system. A path is a root, which relative
paths lack, and the names of its steps. Empty steps and steps that stay where they are do not count;
a step to the parent does. A tree is a directory and all that is in it. What lies around it is not
known, except that its parents are directories.
-/

namespace LosslessUtf8

/-! ## Paths -/

/-- The way to a file. -/
structure Path where
  /-- No slash for a relative path; one or two for an absolute one. -/
  root : String
  steps : List String
  deriving DecidableEq, Repr

namespace Path

/-- The step to the parent. -/
def parent : String := ".."

/-- The root of a path that starts with a number of slashes. Two are kept; more count as one. -/
def rootOf : Nat → String
  | 0 => ""
  | 2 => "//"
  | _ => "/"

/-- Reads a path. -/
def ofString (string : String) : Path where
  root := rootOf (string.toList.takeWhile (· == '/')).length
  steps := (string.splitOn "/").filter fun step => step != "" && step != "."

/-- A path in writing. A relative path without steps is written as a dot. -/
def toString (path : Path) : String :=
  let written := path.root ++ "/".intercalate path.steps
  if written.isEmpty then "." else written

/-- The name of what a path leads to: its last step, or nothing if it has none. -/
def name (path : Path) : String :=
  path.steps.getLast?.getD ""

end Path

/-! ## Trees -/

/-- What a path leads to. -/
inductive Entry where
  | absent
  | directory
  | file (content : Bytes)
  deriving DecidableEq, Repr

/-- The files and directories below a directory, under the steps that lead to them. Every step on
the way to one of them is a directory. -/
structure FileTree where
  files : List (List String × Bytes)
  directories : List (List String)
  deriving DecidableEq, Repr

namespace FileTree

/-- What lies behind steps that all lead downwards. -/
def entryAt (tree : FileTree) (steps : List String) : Entry :=
  match tree.files.lookup steps with
  | some content => .file content
  | none =>
    let known := tree.directories ++ tree.files.map Prod.fst
    if steps.isEmpty || known.any steps.isPrefixOf then .directory else .absent

/-- What lies outside of the tree behind further steps: a directory, as long as they lead upwards.
-/
def outside (steps : List String) : Entry :=
  if steps.all (· == Path.parent) then .directory else .absent

/-- What lies behind further steps from a place in the tree. A step can be taken from directories
only. -/
def walk (tree : FileTree) (place : List String) : List String → Entry
  | [] => tree.entryAt place
  | step :: steps =>
    if tree.entryAt place ≠ .directory then .absent
    else if step ≠ Path.parent then walk tree (place ++ [step]) steps
    else if place.isEmpty then outside steps
    else walk tree place.dropLast steps

/-- What a path leads to from the top of the tree. -/
def find (tree : FileTree) (path : Path) : Entry :=
  if path.root.isEmpty then tree.walk [] path.steps else outside path.steps

end FileTree

end LosslessUtf8
