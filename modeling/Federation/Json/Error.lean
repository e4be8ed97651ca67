import Federation.Json.Printer

/-!
# Why a JSON text is refused

A `Cause` is a fault of syntax or a value of the wrong shape; a `Refusal` adds the line and the
column where reading stopped, for values that were read from a text.
-/

namespace Federation.Json

/-- what stands where something else was expected -/
inductive Found where
  | null
  | bool (b : Bool)
  | number (n : Number)
  | string (s : String)
  | array
  | object
  deriving DecidableEq, Repr

def Found.text : Found → String
  | .null => "null"
  | .bool b => "boolean `" ++ (if b then "true" else "false") ++ "`"
  | .number (.float x) => "floating point `" ++ renderFloat x ++ "`"
  | .number n => "integer `" ++ n.render ++ "`"
  | .string s => "string " ++ Text.quoted s
  | .array => "sequence"
  | .object => "map"

def Value.found : Value → Found
  | .null => .null
  | .bool b => .bool b
  | .number n => .number n
  | .string s => .string s
  | .array _ => .array
  | .object _ => .object

/-- a kind of value that a reader asks for -/
inductive Expected where
  | string
  | natural
  | list
  | record (name : String)
  deriving DecidableEq, Repr

def Expected.text : Expected → String
  | .string => "a string"
  | .natural => "u64"
  | .list => "a sequence"
  | .record name => "struct " ++ name

inductive Cause where
  | endInList
  | endInObject
  | endInString
  | endInValue
  | noColon
  | noCommaInList
  | noCommaInObject
  | badWord
  | noValue
  | badEscape
  | badNumber
  | numberOutOfRange
  | badCodePoint
  | controlCharacter
  | keyNotString
  | loneSurrogate
  | trailingComma
  | trailingCharacters
  | endOfEscape
  | tooDeep
  | wrongType (found : Found) (expected : Expected)
  | wrongValue (found : Found) (expected : Expected)
  | tooShort (count : Nat) (record : String) (fields : Nat)
  | tooLong (count : Nat)
  | missingField (name : String)
  | duplicateField (name : String)
  | noVariant (choice : String)
  | numeral (fault : Decimal.Fault)
  deriving DecidableEq, Repr

def elements (record : String) (fields : Nat) : String :=
  "struct " ++ record ++ " with " ++ Decimal.render fields ++
    (if fields = 1 then " element" else " elements")

def Cause.message : Cause → String
  | .endInList => "EOF while parsing a list"
  | .endInObject => "EOF while parsing an object"
  | .endInString => "EOF while parsing a string"
  | .endInValue => "EOF while parsing a value"
  | .noColon => "expected `:`"
  | .noCommaInList => "expected `,` or `]`"
  | .noCommaInObject => "expected `,` or `\x7d`"
  | .badWord => "expected ident"
  | .noValue => "expected value"
  | .badEscape => "invalid escape"
  | .badNumber => "invalid number"
  | .numberOutOfRange => "number out of range"
  | .badCodePoint => "invalid unicode code point"
  | .controlCharacter => "control character (\\u0000-\\u001F) found while parsing a string"
  | .keyNotString => "key must be a string"
  | .loneSurrogate => "lone leading surrogate in hex escape"
  | .trailingComma => "trailing comma"
  | .trailingCharacters => "trailing characters"
  | .endOfEscape => "unexpected end of hex escape"
  | .tooDeep => "recursion limit exceeded"
  | .wrongType found expected => "invalid type: " ++ found.text ++ ", expected " ++ expected.text
  | .wrongValue found expected => "invalid value: " ++ found.text ++ ", expected " ++ expected.text
  | .tooShort count record fields =>
    "invalid length " ++ Decimal.render count ++ ", expected " ++ elements record fields
  | .tooLong count =>
    "invalid length " ++ Decimal.render count ++ ", expected fewer elements in array"
  | .missingField name => "missing field `" ++ name ++ "`"
  | .duplicateField name => "duplicate field `" ++ name ++ "`"
  | .noVariant choice => "data did not match any variant of untagged enum " ++ choice
  | .numeral fault => fault.message

/-- a line, counted from one, and the number of bytes read in it -/
structure Place where
  line : Nat
  column : Nat
  deriving DecidableEq, Repr

def Place.after (bs : List UInt8) : Place :=
  bs.foldl (fun p b => if b = 10 then ⟨p.line + 1, 0⟩ else ⟨p.line, p.column + 1⟩) ⟨1, 0⟩

structure Refusal where
  cause : Cause
  place : Option Place
  deriving DecidableEq, Repr

def Refusal.message (r : Refusal) : String :=
  match r.place with
  | none => r.cause.message
  | some p =>
    r.cause.message ++ " at line " ++ Decimal.render p.line ++ " column " ++
      Decimal.render p.column

end Federation.Json
