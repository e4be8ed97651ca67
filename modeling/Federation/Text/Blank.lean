/-!
# Blank and control characters

The characters that separate words in any script, the control characters, and the cutting of blank
ends off a text.
-/

namespace Federation.Text

/-- the characters with the property White_Space -/
def isBlank (c : Char) : Bool :=
  let n := c.toNat
  (0x9 ≤ n && n ≤ 0xD) || n = 0x20 || n = 0x85 || n = 0xA0 || n = 0x1680 ||
    (0x2000 ≤ n && n ≤ 0x200A) || n = 0x2028 || n = 0x2029 || n = 0x202F || n = 0x205F ||
    n = 0x3000

/-- the characters of the category Cc -/
def isControl (c : Char) : Bool :=
  let n := c.toNat
  n < 0x20 || (0x7F ≤ n && n ≤ 0x9F)

def trim (s : String) : String :=
  String.ofList (((s.toList.dropWhile isBlank).reverse.dropWhile isBlank).reverse)

/-- the letter `A` to `Z` in small, every other character as it is -/
def lower (s : String) : String := String.ofList (s.toList.map Char.toLower)

/-- the pieces of a text between the characters `sep`; a text without one is a single piece -/
def splitAt (sep : Char) (cs : List Char) : List (List Char) :=
  match cs with
  | [] => [[]]
  | c :: rest =>
    if c = sep then [] :: splitAt sep rest
    else match splitAt sep rest with
      | [] => [[c]]
      | piece :: pieces => (c :: piece) :: pieces

theorem splitAt_nil (sep : Char) : splitAt sep [] = [[]] := rfl

/-- `cs` without the text `front` at its start, if it stands there -/
def stripStart? (front cs : List Char) : Option (List Char) :=
  match front, cs with
  | [], cs => some cs
  | _ :: _, [] => none
  | f :: front, c :: cs => if f = c then stripStart? front cs else none

/-- what follows the first occurrence of `mark`, and what stands before it -/
def cut? (mark cs : List Char) : Option (List Char × List Char) :=
  match stripStart? mark cs with
  | some rest => some ([], rest)
  | none => match cs with
    | [] => none
    | c :: cs => (cut? mark cs).map fun (before, after) => (c :: before, after)

end Federation.Text
