import PluralForms.Locale.Error

/-!
# Folders in memory

A folder given by its files, for loading tables without a file system. Paths are followed step by
step from the folder itself, as a file system would: `.` and empty steps stay, `..` goes up, and
every step has to start in a folder.

A path can leave the folder, upwards or by starting at the root. The folders above it exist and
count as empty, so no path comes back: a name is still measured there, and then it is missing.
-/

namespace PluralForms

/-- What a path can lead to. -/
inductive FolderNode where
  | file (content : ByteArray)
  | folder

/-- The files and folders in a folder, each by the names on the way to it. The folders on the way
exist without being listed. -/
structure Folder where
  /-- The listed files and folders. -/
  nodes : List (List String × FolderNode)

namespace Folder

/-- The steps of a path. -/
def steps (path : String) : List String :=
  (path.toList.splitOn '/').map String.ofList

/-- A step that leads nowhere else. -/
def isIdle (step : String) : Bool :=
  step == "" || step == "."

/-- The folder with these files and folders, given by their paths. -/
def ofList (nodes : List (String × FolderNode)) : Folder :=
  ⟨nodes.map fun (path, node) ↦ ((steps path).filter (!isIdle ·), node)⟩

/-- What is at the end of the given names. -/
def node? (f : Folder) (names : List String) : Option FolderNode :=
  match f.nodes.lookup names with
  | some node => some node
  | none =>
    if names.isEmpty || f.nodes.any (fun (way, _) ↦ names.isPrefixOf way) then some .folder
    else none

/-- The longest name of a file or folder, in bytes. -/
def nameLimit : Nat := 255

/-- The longest path, in bytes. -/
def pathLimit : Nat := 4095

/-- Where a path has led so far. -/
inductive Place where
  /-- In the folder, at the end of these names. -/
  | inside (names : List String)
  /-- One of the folders above. -/
  | above

/-- The place one step up. There is nothing above the root but the root itself. -/
def Place.parent : Place → Place
  | inside [] => above
  | inside names => inside names.dropLast
  | above => above

/-- What is at a place. -/
def at? (f : Folder) : Place → Option FolderNode
  | .inside names => f.node? names
  | .above => some .folder

/-- The place of a name in the folder at a place. A name is measured before it is looked for. -/
def Place.enter (place : Place) (name : String) : Except ReadFailure Place :=
  if nameLimit < name.utf8ByteSize then .error .nameTooLong
  else
    match place with
    | inside names => .ok (inside (names ++ [name]))
    | above => .error .missing

/-- Follow the steps of a path from a place. -/
def walk (f : Folder) : (place : Place) → List String → Except ReadFailure Place
  | place, [] => .ok place
  | place, step :: rest =>
    match f.at? place with
    | none => .error .missing
    | some (.file _) => .error .notADirectory
    | some .folder =>
      if isIdle step then f.walk place rest
      else if step == ".." then f.walk place.parent rest
      else
        match place.enter step with
        | .ok next => f.walk next rest
        | .error failure => .error failure

/-- Where a path starts: at the root if it begins with a slash, else in the folder. -/
def start (path : String) : Place :=
  if path.startsWith "/" then .above else .inside []

/-- The text of the file at a path. -/
def readText (f : Folder) (path : String) : Except ReadFailure String := do
  if path.toList.contains '\x00' then throw .nulInName
  if pathLimit < path.utf8ByteSize then throw .nameTooLong
  match f.at? (← f.walk (start path) (steps path)) with
  | none => throw .missing
  | some .folder => throw .isADirectory
  | some (.file content) =>
    match String.fromUTF8? content with
    | some text => return text
    | none => throw .notUtf8

end Folder

end PluralForms
