import RefHart.Text.Blank

/-!
# Taking texts apart

Splitting at separators, cutting at the first occurrence of a character, and the two readings built
on them: the lines of a file and the tokens of a statement.
-/

namespace RefHart.Text

/-- The pieces between the characters that satisfy `p`: one more than there are such characters. -/
def splitOn (p : Char → Bool) (t : Text) : List Text :=
  t.foldr
    (fun c pieces =>
      if p c then [] :: pieces
      else match pieces with
        | [] => [[c]]
        | piece :: rest => (c :: piece) :: rest)
    [[]]

/-- The parts before and after the first `c`, if there is one. -/
def cutAt? (c : Char) (t : Text) : Option (Text × Text) :=
  match t.dropWhile (· != c) with
  | [] => none
  | _ :: rest => some (t.takeWhile (· != c), rest)

/-- A line without the carriage return that may end it. -/
def dropReturn (t : Text) : Text :=
  if t.getLast? = some '\r' then t.dropLast else t

/-- The lines of a file. Each line feed ends a line and takes one carriage return before it along;
what follows the last line feed is a line unless it is empty. -/
def lines (t : Text) : List Text :=
  let pieces := splitOn (· == '\n') t
  pieces.dropLast.map dropReturn ++ pieces.getLast?.toList.filter (· != [])

/-- The part of a line before the first `//`. -/
def beforeComment : Text → Text
  | '/' :: '/' :: _ => []
  | c :: rest => c :: beforeComment rest
  | [] => []

/-- The tokens of a statement: the nonempty pieces between commas and blanks. -/
def tokens (t : Text) : List Text :=
  (splitOn (fun c => c == ',' || isBlank c) t).filter (· != [])

end RefHart.Text
