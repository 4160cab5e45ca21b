/-
# Files by path

Texts kept under paths, and what reading at a path finds there. A path is cut at
its slashes and followed name by name from the folder one stands in, or from the
root if it begins with a slash. An empty name and `.` stay where they are, `..`
goes back to the folder above, of which the root has none but itself. Whatever
follows a slash has to be asked of a folder, even if nothing follows, so
`after.json/` is no way to name a file.

Key definitions: `FileTree`, `FileTree.read`, `ReadFault`.
-/
import RecordRules.Text.Pieces

namespace RecordRules

/-- Why no text is read at a path. -/
inductive ReadFault where
  /-- Nothing is there. -/
  | absent
  /-- Reading is not allowed. -/
  | denied
  /-- The path leads through a file as if it were a folder. -/
  | notFolder
  /-- A folder is there. -/
  | isFolder
  /-- The path or a name in it is longer than a system takes. -/
  | nameTooLong
  /-- The file holds bytes that are no text. -/
  | notText
  /-- Another fault, in the words of the system. -/
  | other (words : String)

/-- What is said about a fault. -/
def ReadFault.message : ReadFault → String
  | absent => "No such file or directory (os error 2)"
  | denied => "Permission denied (os error 13)"
  | notFolder => "Not a directory (os error 20)"
  | isFolder => "Is a directory (os error 21)"
  | nameTooLong => "File name too long (os error 36)"
  | notText => "stream did not contain valid UTF-8"
  | other words => words

/-- Files with the names that lead to each from the root, and the folder one stands in. -/
structure FileTree where
  files : List (List String × String)
  current : List String

namespace FileTree

/-- What stands at a place. -/
inductive Entry where
  | file (text : String)
  | folder

/-- What stands behind those names from the root. There is a folder wherever more names lead on. -/
def entry? (tree : FileTree) (names : List String) : Option Entry :=
  match tree.files.lookup names with
  | some text => some (.file text)
  | none =>
    if names.isPrefixOf tree.current || tree.files.any fun file => names.isPrefixOf file.1 then
      some .folder
    else
      none

/-- The most bytes of a name. -/
def longestName : Nat := 255

/-- The most bytes of a path. -/
def longestPath : Nat := 4095

/-- The place that one name leads to from a folder. -/
def step (place : List String) (name : String) : List String :=
  if name = "" ∨ name = "." then place
  else if name = ".." then place.dropLast
  else place ++ [name]

/-- The entry that names lead to from a place. -/
def follow (tree : FileTree) (place : List String) : List String → Except ReadFault Entry
  | [] =>
    match tree.entry? place with
    | some entry => .ok entry
    | none => .error .absent
  | name :: rest =>
    match tree.entry? place with
    | some .folder =>
      if longestName < name.utf8ByteSize then .error .nameTooLong
      else tree.follow (step place name) rest
    | some (.file _) => .error .notFolder
    | none => .error .absent

/-- The names in a path. -/
def namesOf (path : String) : List String :=
  let (first, rest) := Text.cut '/' path.toList
  (first :: rest).map String.ofList

/-- The text of the file at a path. -/
def read (tree : FileTree) (path : String) : Except ReadFault String :=
  if path = "" then .error .absent
  else if longestPath < path.utf8ByteSize then .error .nameTooLong
  else
    match tree.follow (if path.front = '/' then [] else tree.current) (namesOf path) with
    | .ok (.file text) => .ok text
    | .ok .folder => .error .isFolder
    | .error fault => .error fault

end FileTree
end RecordRules
