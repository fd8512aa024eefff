import ChipAsm.Path
import ChipAsm.Text.Quoted

/-!
# Directories

A directory holds files and folders by their names from the top.  A path is followed part by part:
every part but the last has to lead to a folder.

The folders above the directory and the root are there too, and files can be written into them; they
are known to hold nothing else.  The names of what lies above start with double dots, one pair for
each level, and the names of what lies below the root start with a slash.
-/

namespace ChipAsm

open ChipAsm.Text

/-- What a directory holds under a name. -/
inductive Entry where
  /-- A file with its bytes. -/
  | file (bytes : List UInt8)
  /-- A folder. -/
  | folder
deriving Repr, DecidableEq

/-- A directory: names from the top, with what they lead to. -/
structure Directory where
  /-- The entries. -/
  entries : List (List String × Entry) := []
deriving Repr, DecidableEq

/-- Why a file cannot be opened. -/
inductive FileCause where
  /-- There is nothing at the path. -/
  | notFound
  /-- There is a folder at the path. -/
  | isFolder
  /-- The path leads through something that is no folder. -/
  | notFolder
  /-- The path, or a part of it, is too long. -/
  | nameTooLong
  /-- The path holds a null character. -/
  | nullCharacter
deriving Repr, DecidableEq

/-- A file that cannot be opened. -/
structure FileFault where
  /-- Why it cannot. -/
  cause : FileCause
  /-- The path. -/
  path : String
deriving Repr, DecidableEq

/-- The message of a fault. -/
def FileFault.message (fault : FileFault) : String :=
  match fault.cause with
  | .notFound => s!"[Errno 2] No such file or directory: {quoted fault.path}"
  | .isFolder => s!"[Errno 21] Is a directory: {quoted fault.path}"
  | .notFolder => s!"[Errno 20] Not a directory: {quoted fault.path}"
  | .nameTooLong => s!"[Errno 36] File name too long: {quoted fault.path}"
  | .nullCharacter => "embedded null byte"

/-- Where a path leads. -/
inductive Spot where
  /-- To a folder. -/
  | folder
  /-- To a file. -/
  | file (names : List String) (bytes : List UInt8)
  /-- To nothing, in a folder that exists. -/
  | free (names : List String)
deriving Repr, DecidableEq

namespace Directory

/-- The names of the root. -/
def root : List String := ["/"]

/-- The names of the directory itself, of a folder above it, or of the root. -/
def isGround (names : List String) : Bool := names.all (· = "..") || names = root

/-- The names of something inside the directory. -/
def isInside (names : List String) : Bool :=
  names.head? != some ".." && names.head? != some "/"

/-- The names of the folder that holds what has the given names; the root holds itself. -/
def parent (names : List String) : List String :=
  if names = root then root
  else if names.all (· = "..") then names ++ [".."]
  else names.dropLast

/-- What the directory holds under names from the top. -/
def get? (d : Directory) (names : List String) : Option Entry :=
  if isGround names then some .folder else (d.entries.find? fun e => e.1 = names).map Prod.snd

/-- The directory with an entry under the names. -/
def put (d : Directory) (names : List String) (entry : Entry) : Directory :=
  if d.entries.any fun e => e.1 = names then
    ⟨d.entries.map fun e => if e.1 = names then (names, entry) else e⟩
  else ⟨d.entries ++ [(names, entry)]⟩

/-- The directory with all folders that lead to the names. -/
def putFolders (d : Directory) (names : List String) : Directory :=
  (List.range names.length).foldl (fun d n =>
    if n = 0 ∨ (d.get? (names.take n)).isSome then d else d.put (names.take n) .folder) d

/-- The longest name in bytes. -/
def longestName : Nat := 255

/-- The longest path in bytes. -/
def longestPath : Nat := 4095

/-- Follows parts of a path from what has the given names. -/
def follow (d : Directory) : List String → List String → Except FileCause Spot
  | names, [] =>
    match d.get? names with
    | some (.file bytes) => .ok (.file names bytes)
    | some .folder => .ok .folder
    | none => .ok (.free names)
  | names, part :: parts =>
    match d.get? names with
    | some (.file _) => .error .notFolder
    | _ =>
      if part = "" ∨ part = "." then d.follow names parts
      else if part = ".." then d.follow (parent names) parts
      else if longestName < part.utf8ByteSize then .error .nameTooLong
      else
        match d.get? (names ++ [part]), parts with
        | none, [] => .ok (.free (names ++ [part]))
        | none, _ => .error .notFound
        | some _, _ => d.follow (names ++ [part]) parts

/-- Where the text of a path leads. -/
def locate (d : Directory) (path : String) : Except FileCause Spot :=
  let cs := path.toList
  if cs.contains (Char.ofNat 0) then .error .nullCharacter
  else if longestPath < path.utf8ByteSize then .error .nameTooLong
  else
    let parts := (splitAtSep '/' cs).map String.ofList
    match cs with
    | [] => .error .notFound
    | '/' :: _ => d.follow root parts
    | _ => d.follow [] parts

/-- The bytes of the file at a path. -/
def readBytes (d : Directory) (path : Path) : Except FileFault (List UInt8) :=
  match d.locate path.text with
  | .ok (.file _ bytes) => .ok bytes
  | .ok .folder => .error ⟨.isFolder, path.text⟩
  | .ok (.free _) => .error ⟨.notFound, path.text⟩
  | .error cause => .error ⟨cause, path.text⟩

/-- The directory with the bytes as the file at a path. -/
def writeBytes (d : Directory) (path : Path) (bytes : List UInt8) : Except FileFault Directory :=
  match d.locate path.text with
  | .ok (.file names _) => .ok (d.put names (.file bytes))
  | .ok (.free names) => .ok (d.put names (.file bytes))
  | .ok .folder => .error ⟨.isFolder, path.text⟩
  | .error cause => .error ⟨cause, path.text⟩

/-- The files inside the second directory that the first does not hold with the same bytes. -/
def changes (before after : Directory) : List (List String × List UInt8) :=
  after.entries.filterMap fun
    | (names, .file bytes) =>
      if isInside names ∧ before.get? names ≠ some (.file bytes) then some (names, bytes) else none
    | (_, .folder) => none

end Directory

end ChipAsm
