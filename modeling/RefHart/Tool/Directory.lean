import Std.Data.TreeMap
import RefHart.Tool.Files

/-!
# Directories

A directory of files, without subdirectories, as a value.

**Paths** are followed step by step from the directory, or from the root if they start with a slash.
A step that is empty or a dot stays in a directory, and two dots lead upward.

**Outside** the directory nothing is kept. What is written there is accepted and lost, and no name
is found there but the null device, which holds the empty text.

**Limits.** A name has at most 255 bytes, and a path has fewer than 4096.
-/

namespace RefHart

/-- A directory without subdirectories, as a map from names to contents. -/
abbrev Files := Std.TreeMap Text FileContent

/-- Where the steps of a path lead. -/
inductive Place where
  /-- The directory from which paths start. -/
  | here
  /-- A directory above it. -/
  | above
  | root
  /-- The directory of devices. -/
  | devices
  | nullDevice
  /-- The file with this name in the starting directory. -/
  | file (name : Text)
  deriving DecidableEq, Repr

namespace Place

/-- Whether a path can go on from a place. -/
def isDirectory : Place → Bool
  | nullDevice | file _ => false
  | _ => true

/-- The directory above a directory. -/
def up : Place → Place
  | here => above
  | devices => root
  | place => place

end Place

namespace Files

/-! ## Paths -/

/-- The greatest number of bytes in a name. -/
def maxNameLength : Nat := 255

/-- The least number of bytes that is too much for a path. -/
def pathLimit : Nat := 4096

/-- The steps of a path, and the place from which to take them. -/
def steps (path : Text) : Place × List Text :=
  match Text.splitOn (· == '/') path with
  | [] :: step :: rest => (.root, step :: rest)
  | names => (.here, names)

/-- Whether a step has a meaning of its own in every directory. -/
def isDots (step : Text) : Bool := step == ['.'] || step == ['.', '.']

/-- The entry of a directory with the given name. -/
def entry (files : Files) (place : Place) (name : Text) : Except FileError Place :=
  if maxNameLength < name.utf8Length then .error .nameTooLong
  else match place with
    | .here => if name ∈ files then .ok (.file name) else .error .notFound
    | .root => if name = "dev" then .ok .devices else .error .notFound
    | .devices => if name = "null" then .ok .nullDevice else .error .notFound
    | _ => .error .notFound

/-- Takes a step from a place. -/
def follow (files : Files) (place : Place) (step : Text) : Except FileError Place :=
  if !place.isDirectory then .error .notDirectory
  else if step = [] ∨ step = ['.'] then .ok place
  else if step = ['.', '.'] then .ok place.up
  else files.entry place step

/-! ## Reading -/

/-- Reads the text at a place. -/
def readAt (files : Files) : Place → Except FileError Text
  | .file name =>
    match files[name]? with
    | some (.text t) => .ok t
    | some .binary => .error .notUtf8
    | none => .error .notFound
  | .nullDevice => .ok []
  | _ => .error .isDirectory

/-- Reads a text file. -/
def read (files : Files) (path : Text) : Except FileError Text :=
  if pathLimit ≤ path.utf8Length then .error .nameTooLong
  else do
    let (start, names) := steps path
    files.readAt (← names.foldlM files.follow start)

/-! ## Writing -/

/-- Writes a text under a name in a directory. -/
def writeIn (files : Files) (place : Place) (name text : Text) : Except FileError Files :=
  match files.entry place name with
  | .ok (.file _) => .ok (files.insert name (.text text))
  | .ok .nullDevice => .ok files
  | .ok _ => .error .isDirectory
  | .error .notFound => .ok (if place = .here then files.insert name (.text text) else files)
  | .error e => .error e

/-- Writes a text file, new or in place of an old one. The last step of the path must be a name
with no slash behind it. -/
def write (files : Files) (path text : Text) : Except FileError Files :=
  if pathLimit ≤ path.utf8Length then .error .nameTooLong
  else do
    let (start, names) := steps path
    let named := (names.reverse.dropWhile (· == [])).reverse
    let place ← named.dropLast.foldlM files.follow start
    match named.getLast? with
    | none => .error .isDirectory
    | some last =>
      if !place.isDirectory then .error .notDirectory
      else if named.length < names.length ∨ isDots last then .error .isDirectory
      else files.writeIn place last text

/-- Access to a directory that is the state of the computation. -/
def access : FileAccess (StateM Files) where
  read path := fun files => (files.read path, files)
  write path text := fun files =>
    match files.write path text with
    | .ok files => (.ok (), files)
    | .error e => (.error e, files)

end Files

end RefHart
