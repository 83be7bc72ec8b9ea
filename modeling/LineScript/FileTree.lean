import LineScript.Fault
import LineScript.Text.Utf8

/-!
# File trees

A file tree is a directory with what lies below it, and `read?` finds the text of a file in it by
a path. A path is walked from left to right and the first obstacle is the answer. What lies
outside the tree is unknown, and nothing is found there.
-/

namespace LineScript

open Text

/-- Why a file could not be read as text. -/
inductive ReadFault where
  | notFound
  | permissionDenied
  | invalidUtf8
  | io (cause : IoFault)
  deriving DecidableEq, Repr, Inhabited

def decodeText (bytes : ByteArray) : Except ReadFault String :=
  match String.fromUTF8? bytes with
  | some text => .ok text
  | none => .error .invalidUtf8

/-- A file, or a directory of named files and directories. -/
inductive FileTree where
  | file (content : ByteArray)
  | directory (entries : List (String × FileTree))
  deriving Inhabited

namespace FileTree

def empty : FileTree :=
  directory []

/-- The entries of a directory; a file has none. -/
def entries : FileTree → List (String × FileTree)
  | file _ => []
  | directory entries => entries

/-- The names of a path, without those that lead nowhere else. -/
def names (path : String) : List String :=
  (path.splitOn "/").filter fun name => name ≠ "" ∧ name ≠ "."

/-- Changes what a list of names leads to; directories that are missing on the way are made. -/
def modify (change : FileTree → FileTree) : List String → FileTree → FileTree
  | [], tree => change tree
  | name :: rest, tree =>
    let child := (tree.entries.lookup name).getD empty
    directory ((name, modify change rest child) ::
      tree.entries.filter fun entry => entry.1 ≠ name)

def addDirectory (tree : FileTree) (path : String) : FileTree :=
  modify (fun old => directory old.entries) (names path) tree

def addFile (tree : FileTree) (path : String) (content : ByteArray) : FileTree :=
  modify (fun _ => file content) (names path) tree

/-- The greatest number of bytes in a name. -/
def nameLimit : Nat := 255

/-- The greatest number of bytes in a path. -/
def pathLimit : Nat := 4095

/-- What a list of names leads to from a place in the tree, where `above` are the directories
that it lies in, innermost first. -/
def walk : List String → FileTree → (above : List FileTree) → Except ReadFault FileTree
  | [], tree, _ => .ok tree
  | _ :: _, file _, _ => .error (.io .notDirectory)
  | name :: rest, directory entries, above =>
    if name = "" ∨ name = "." then walk rest (directory entries) above
    else if name = ".." then
      match above with
      | [] => walk rest empty []
      | parent :: above => walk rest parent above
    else if nameLimit < (utf8 name).length then .error (.io .nameTooLong)
    else
      match entries.lookup name with
      | some child => walk rest child (directory entries :: above)
      | none => .error .notFound

def find? (tree : FileTree) (path : String) : Except ReadFault FileTree :=
  if path.contains '\x00' then .error (.io .nulInPath)
  else if path.isEmpty then .error .notFound
  else if pathLimit < (utf8 path).length then .error (.io .nameTooLong)
  else walk (path.splitOn "/") (if path.startsWith "/" then empty else tree) []

/-- The text of the file that a path leads to. -/
def read? (tree : FileTree) (path : String) : Except ReadFault String := do
  match ← tree.find? path with
  | file content => decodeText content
  | directory _ => .error (.io .isDirectory)

end FileTree

end LineScript
