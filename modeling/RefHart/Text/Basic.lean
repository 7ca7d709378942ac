/-!
# Text

A text is the list of its characters, so that every reader and printer of the library is a
function on lists. String literals stand for texts by coercion.
-/

namespace RefHart

/-- A text, as its characters from first to last. -/
abbrev Text := List Char

instance : Coe String Text := ⟨String.toList⟩

namespace Text

/-- The number of bytes of the UTF-8 form. -/
def utf8Length (t : Text) : Nat := t.foldl (fun n c => n + c.utf8Size) 0

/-- ASCII capitals become small letters; every other character is kept. -/
def toLower (t : Text) : Text := t.map Char.toLower

/-- ASCII small letters become capitals; every other character is kept. -/
def toUpper (t : Text) : Text := t.map Char.toUpper

/-- The rest of `t` after the leading `pre`, if `t` starts with it. -/
def dropLeading? (pre : Text) (t : Text) : Option Text :=
  if pre.isPrefixOf t then some (t.drop pre.length) else none

end Text

end RefHart
