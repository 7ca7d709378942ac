import RefHart.Text.Split

/-!
# Files

The tools read and write text files through a `FileAccess`, so that one definition of a tool serves
the file system and directories that are values alike.
-/

namespace RefHart

/-- Why a file cannot be read or written. -/
inductive FileError where
  | notFound
  /-- A step of the path goes through a file. -/
  | notDirectory
  | isDirectory
  | nameTooLong
  | notUtf8
  /-- Any other refusal of the file system, in its own words. -/
  | refused (reason : Text)
  deriving DecidableEq, Repr

/-- The wording of a refused access to a file. -/
def FileError.message : FileError → Text
  | notFound => "No such file or directory (os error 2)"
  | notDirectory => "Not a directory (os error 20)"
  | isDirectory => "Is a directory (os error 21)"
  | nameTooLong => "File name too long (os error 36)"
  | notUtf8 => "stream did not contain valid UTF-8"
  | refused reason => reason

/-- What a file holds. -/
inductive FileContent where
  | text (t : Text)
  /-- Bytes that are not UTF-8. -/
  | binary
  deriving DecidableEq, Repr

/-- Reading and writing whole text files in a monad. -/
structure FileAccess (m : Type → Type) where
  read (path : Text) : m (Except FileError Text)
  write (path text : Text) : m (Except FileError Unit)

end RefHart
