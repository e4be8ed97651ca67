import Federation.Json.Value
import Federation.Text.Decimal
import Federation.Text.Hex
import Federation.Text.Quoted

/-!
# JSON texts

`compact` writes a value without blanks.  `spacedStrings` and `spacedMember` write the two layouts
with a blank behind each separator that the token exchange asks for.
-/

namespace Federation.Json

/-! ## numbers -/

/-- a float: positional notation from 10^-5 up to 10^16, always with a point; beyond that one digit
before the point and an exponent with its sign -/
def renderFloat (x : Binary64) : String :=
  let (d, place) := x.shortest
  let digits := Nat.toDigits 10 d
  let top : Int := place + digits.length - 1
  let text : List Char :=
    if d = 0 then "0.0".toList
    else if 0 ≤ top ∧ top ≤ 15 then
      if 0 ≤ place then digits ++ List.replicate place.toNat '0' ++ ['.', '0']
      else
        let whole := (top + 1).toNat
        digits.take whole ++ '.' :: digits.drop whole
    else if -5 ≤ top ∧ top < 0 then
      ['0', '.'] ++ List.replicate (-top - 1).toNat '0' ++ digits
    else
      let mark := if top < 0 then ['e', '-'] else ['e', '+']
      let front := match digits with
        | [] => []
        | [c] => [c]
        | c :: rest => c :: '.' :: rest
      front ++ mark ++ Nat.toDigits 10 top.natAbs
  String.ofList (if x.negative then '-' :: text else text)

def Number.render : Number → String
  | .natural n => Decimal.render n
  | .negative n => "-" ++ Decimal.render n
  | .float x => renderFloat x

/-! ## strings -/

/-- how a character stands in a JSON string: only the quote, the backslash and the characters under
U+0020 are escaped -/
def escape (c : Char) : List Char :=
  match c with
  | '"' => ['\\', '"']
  | '\\' => ['\\', '\\']
  | '\x08' => ['\\', 'b']
  | '\x0c' => ['\\', 'f']
  | '\n' => ['\\', 'n']
  | '\r' => ['\\', 'r']
  | '\t' => ['\\', 't']
  | c =>
    if c.toNat < 0x20 then ['\\', 'u', '0', '0', Hex.small (c.toNat / 16), Hex.small c.toNat]
    else [c]

def renderString (s : String) : String :=
  String.ofList ('"' :: s.toList.flatMap escape ++ ['"'])

/-! ## values -/

def separated (sep : String) (items : List String) : String := sep.intercalate items

mutual

/-- a value without blanks -/
def Value.compact : Value → String
  | .null => "null"
  | .bool b => if b then "true" else "false"
  | .number n => n.render
  | .string s => renderString s
  | .array items => "[" ++ separated "," (compactItems items) ++ "]"
  | .object members => "\x7b" ++ separated "," (compactMembers members) ++ "\x7d"

def compactItems : List Value → List String
  | [] => []
  | v :: rest => v.compact :: compactItems rest

def compactMembers : List (String × Value) → List String
  | [] => []
  | (name, v) :: rest => (renderString name ++ ":" ++ v.compact) :: compactMembers rest

end

/-- an array of strings with a blank behind each comma -/
def spacedStrings (items : List String) : String :=
  "[" ++ separated ", " (items.map renderString) ++ "]"

def spacedMember (name value : String) : String :=
  "\x7b" ++ renderString name ++ ": " ++ renderString value ++ "\x7d"

end Federation.Json
