import Mathlib
import RefHart.Tool.Files

/-!
# Files behind an access

The tools know files by an access alone: they pass a path on and get a text or a refusal. What they
rely on is collected here as a structure, so that what is proved of a tool holds for every way to keep
files, with or without subdirectories and links.

**Laws.** `FileStore` has one law for reading and one for what a read gives; for an accepted write there
are four: the file that was written (`content_of_write`), every other file (`content_frame`), where
paths lead (`locate_of_write`) and what can be written next (`writable_of_write`). They make up what an
accepted write does (`content_write`) and that its text is read again (`read_of_write`).
-/

namespace RefHart

/-- Files that are kept in a state and reached through an access. -/
structure FileStore (σ κ : Type) where
  access : FileAccess (StateM σ)
  /-- What reading a path gives. -/
  read : σ → Text → Except FileError Text
  /-- The file to which a path leads, whether it is there or not yet; none if what is written to the
  path is not kept. -/
  locate : σ → Text → Option κ
  content : σ → κ → Option FileContent
  /-- Reading changes nothing. -/
  read_access (s : σ) (path : Text) : access.read path s = (read s path, s)
  /-- A file that holds a text is read as this text. -/
  read_of_content {s : σ} {path text : Text} {file : κ} : locate s path = some file →
    content s file = some (.text text) → read s path = .ok text
  /-- After a write the file holds the text and nothing else. -/
  content_of_write {s s' : σ} {path text : Text} {file : κ} :
    access.write path text s = (.ok (), s') → locate s path = some file →
      content s' file = some (.text text)
  /-- A write leaves the other files as they are. -/
  content_frame {s s' : σ} {path text : Text} {file : κ} :
    access.write path text s = (.ok (), s') → locate s path ≠ some file →
      content s' file = content s file
  /-- A write does not change where paths lead. -/
  locate_of_write {s s' : σ} {path text : Text} (other : Text) :
    access.write path text s = (.ok (), s') → locate s' other = locate s other
  /-- A path to which can be written stays so. -/
  writable_of_write {s s' : σ} {path text other : Text} :
    access.write path text s = (.ok (), s') →
      (∀ text, ∃ next, access.write other text s = (.ok (), next)) →
      ∀ text, ∃ next, access.write other text s' = (.ok (), next)

namespace FileStore

variable {σ κ : Type} (store : FileStore σ κ) {s s' : σ} {path text : Text}

/-- Any text can be written to the path. -/
def Writable (s : σ) (path : Text) : Prop :=
  ∀ text, ∃ next, store.access.write path text s = (.ok (), next)

/-- The paths do not lead to one file. -/
def Apart (s : σ) (path other : Text) : Prop :=
  ∀ file, store.locate s path = some file → store.locate s other ≠ some file

variable {store}

theorem Writable.write {other : Text} (h : store.Writable s other)
    (hwrite : store.access.write path text s = (.ok (), s')) : store.Writable s' other :=
  store.writable_of_write hwrite h

theorem Apart.write {other written : Text} (h : store.Apart s path other)
    (hwrite : store.access.write written text s = (.ok (), s')) : store.Apart s' path other := by
  intro file hfile
  rw [store.locate_of_write other hwrite]
  exact h file ((store.locate_of_write path hwrite).symm.trans hfile)

/-- What an accepted write makes of every file. -/
theorem content_write [DecidableEq κ] (h : store.access.write path text s = (.ok (), s'))
    (file : κ) :
    store.content s' file =
      if store.locate s path = some file then some (.text text) else store.content s file := by
  split_ifs with hfile
  · exact store.content_of_write h hfile
  · exact store.content_frame h hfile

/-- What was written is read again. -/
theorem read_of_write {file : κ} (h : store.access.write path text s = (.ok (), s'))
    (hfile : store.locate s path = some file) : store.read s' path = .ok text :=
  store.read_of_content ((store.locate_of_write path h).trans hfile)
    (store.content_of_write h hfile)

end FileStore

end RefHart
