import Federation.Json.Cursor

/-!
# Containers, values and records

* `list`, `members`   the items of an array and the members of an object;
* `value`             any value; at most a given number of containers inside one another;
* `skip`              a value that nobody asks for, with any nesting and without decoding it;
* `record`            an object, or an array in the order of the fields, read into a structure;
* `parse`, `parseAs`  whole texts.
-/

namespace Federation.Json

/-! ## brackets -/

/-- what ends a container: the fault if the closing bracket is missing, and where that was seen -/
abbrev Closing := Cursor → Option Fault × Cursor

def listEnd : Closing := fun c =>
  let c := c.skipWhile isSpace
  match c.rest with
  | [] => (some (c.ahead .endInList), c)
  | b :: _ =>
    if b = byte ']' then (none, c.advance 1)
    else if b = byte ',' then
      let c := (c.advance 1).skipWhile isSpace
      let cause := if c.rest.head? = some (byte ']') then .trailingComma else .trailingCharacters
      (some (c.ahead cause), c)
    else (some (c.ahead .trailingCharacters), c)

def objectEnd : Closing := fun c =>
  let c := c.skipWhile isSpace
  match c.rest with
  | [] => (some (c.ahead .endInObject), c)
  | b :: _ =>
    if b = byte '\x7d' then (none, c.advance 1)
    else if b = byte ',' then (some (c.ahead .trailingComma), c)
    else (some (c.ahead .trailingCharacters), c)

/-- reads what stands in brackets, up to the closing one; a floating fault settles behind it -/
def enclosed {α : Type} (close : Closing) (body : Reader α) : Reader α := fun c =>
  match body c with
  | .ok (a, c) => match close c with
    | (none, c) => .ok (a, c)
    | (some f, _) => .error f
  | .error (.placed cause offset) => .error (.placed cause offset)
  | .error (.floating cause c) => .error (.placed cause (close c).2.offset)

/-- whether another item follows; its comma is taken -/
def nextItem (first : Bool) : Reader Bool := do
  match ← peek with
  | none => fail (·.ahead .endInList)
  | some b =>
    if b = byte ']' then pure false
    else if first then pure true
    else if b = byte ',' then
      take 1
      match ← peek with
      | none => fail (·.ahead .endInValue)
      | some b => if b = byte ']' then fail (·.ahead .trailingComma) else pure true
    else fail (·.ahead .noCommaInList)

def nextName (first : Bool) : Reader (Option String) := do
  match ← peek with
  | none => fail (·.ahead .endInObject)
  | some b =>
    if b = byte '\x7d' then pure none
    else if first then name b
    else if b = byte ',' then
      take 1
      match ← peek with
      | none => fail (·.ahead .endInValue)
      | some b => if b = byte '\x7d' then fail (·.ahead .trailingComma) else name b
    else fail (·.ahead .noCommaInObject)
where
  name (b : UInt8) : Reader (Option String) := do
    if b = byte '"' then
      take 1
      some <$> stringTail
    else fail (·.ahead .keyNotString)

def colon : Reader Unit := do
  match ← peek with
  | none => fail (·.ahead .endInObject)
  | some b => if b = byte ':' then take 1 else fail (·.ahead .noColon)

def items {α : Type} (item : Reader α) : Nat → Bool → Reader (List α)
  | 0, _ => pure []
  | n + 1, first => do
    if ← nextItem first then
      let a ← item
      let more ← items item n false
      pure (a :: more)
    else pure []

def list {α : Type} (item : Reader α) : Reader (List α) := fun c =>
  enclosed listEnd (items item (c.rest.length + 1) true) c

def membersUpTo {α : Type} (item : Reader α) : Nat → Bool → Reader (List (String × α))
  | 0, _ => pure []
  | n + 1, first => do
    match ← nextName first with
    | none => pure []
    | some name =>
      colon
      let a ← item
      let more ← membersUpTo item n false
      pure ((name, a) :: more)

def members {α : Type} (item : Reader α) : Reader (List (String × α)) := fun c =>
  enclosed objectEnd (membersUpTo item (c.rest.length + 1) true) c

/-! ## any value -/

/-- a value that is no container, from its first byte `b` on -/
def scalar (b : UInt8) : Reader Value := do
  if b = byte 'n' then
    take 1
    word ['u', 'l', 'l']
    pure .null
  else if b = byte 't' then
    take 1
    word ['r', 'u', 'e']
    pure (.bool true)
  else if b = byte 'f' then
    take 1
    word ['a', 'l', 's', 'e']
    pure (.bool false)
  else if b = byte '-' then
    take 1
    .number <$> number true
  else if isDigit b then .number <$> number false
  else if b = byte '"' then
    take 1
    .string <$> stringTail
  else fail (·.ahead .noValue)

/-- a value with at most `depth` containers around its innermost one -/
def value (depth : Nat) : Reader Value := do
  match ← peek with
  | none => fail (·.ahead .endInValue)
  | some b =>
    if b = byte '[' then
      match depth with
      | 0 => fail (·.ahead .tooDeep)
      | d + 1 =>
        take 1
        .array <$> list (value d)
    else if b = byte '\x7b' then
      match depth with
      | 0 => fail (·.ahead .tooDeep)
      | d + 1 =>
        take 1
        (fun ms => .object (ofList ms)) <$> members (value d)
    else scalar b

def maxDepth : Nat := 127

/-! ## values that are passed over -/

/-- an escape that is passed over: the digits of `\u` are digits, and no more is asked -/
def skipEscape : Reader Unit := do
  match ← look with
  | none => fail (·.here .endInString)
  | some b =>
    take 1
    if ['"', '\\', '/', 'b', 'f', 'n', 'r', 't'].any (byte · == b) then pure ()
    else if b = byte 'u' then
      let _ ← hexQuad
      pure ()
    else fail (·.here .badEscape)

def skipString : Nat → Reader Unit
  | 0 => fail (·.here .endInString)
  | n + 1 => do
    match ← look with
    | none => fail (·.here .endInString)
    | some b =>
      if b < 0x20 then fail (·.here .controlCharacter)
      else
        take 1
        if b = byte '"' then pure ()
        else if b = byte '\\' then
          skipEscape
          skipString n
        else skipString n

def skipDigits : Reader Unit := fun c => .ok ((), c.skipWhile isDigit)

def skipExponent : Reader Unit := do
  take 1
  let sign ← look
  if sign = some (byte '-') || sign = some (byte '+') then take 1
  match ← look with
  | none => fail (·.here .badNumber)
  | some b =>
    take 1
    if isDigit b then skipDigits else fail (·.here .badNumber)

def skipNumberEnd (point : Bool) : Reader Unit := do
  let b ← look
  if point && b = some (byte '.') then
    take 1
    let digit ← look
    if !digit.any isDigit then fail (·.ahead .badNumber)
    else
      skipDigits
      let b ← look
      if b = some (byte 'e') || b = some (byte 'E') then skipExponent else pure ()
  else if b = some (byte 'e') || b = some (byte 'E') then skipExponent
  else pure ()

def skipNumber : Reader Unit := do
  match ← look with
  | none => fail (·.here .badNumber)
  | some b =>
    take 1
    if b = byte '0' then
      let digit ← look
      if digit.any isDigit then fail (·.ahead .badNumber) else skipNumberEnd true
    else if isDigit b then
      skipDigits
      skipNumberEnd true
    else fail (·.here .badNumber)

inductive Frame where
  | array
  | object
  deriving DecidableEq, Repr

def Frame.close : Frame → UInt8
  | .array => byte ']'
  | .object => byte '\x7d'

def skipName : Reader Unit := fun c =>
  let start : Reader Unit := do
    match ← peek with
    | none => fail (·.ahead .endInObject)
    | some b => if b = byte '"' then take 1 else fail (·.ahead .keyNotString)
  (do start; skipString (c.rest.length + 1); colon : Reader Unit) c

def skipScalar (b : UInt8) : Reader Unit := do
  if b = byte 'n' then
    take 1
    word ['u', 'l', 'l']
  else if b = byte 't' then
    take 1
    word ['r', 'u', 'e']
  else if b = byte 'f' then
    take 1
    word ['a', 'l', 's', 'e']
  else if b = byte '-' then
    take 1
    skipNumber
  else if isDigit b then skipNumber
  else if b = byte '"' then
    take 1
    fun c => skipString (c.rest.length + 1) c
  else fail (·.ahead .noValue)

mutual

/-- the next value inside the open containers `frames`, and all that follows up to the end of the
outermost one; `n` bounds the steps -/
def skipValue : Nat → List Frame → Reader Unit
  | 0, _ => pure ()
  | n + 1, frames => do
    match ← peek with
    | none => fail (·.ahead .endInValue)
    | some b =>
      if b = byte '[' then
        take 1
        skipRest n false (.array :: frames)
      else if b = byte '\x7b' then
        take 1
        skipRest n false (.object :: frames)
      else
        skipScalar b
        skipRest n true frames

/-- what follows inside the innermost container: a comma is accepted behind a value only -/
def skipRest : Nat → Bool → List Frame → Reader Unit
  | 0, _, _ => pure ()
  | _ + 1, _, [] => pure ()
  | n + 1, behindValue, frame :: frames => do
    match ← peek with
    | none => fail (·.ahead (if frame = .array then .endInList else .endInObject))
    | some b =>
      if b = frame.close then
        take 1
        skipRest n true frames
      else if !behindValue then
        if frame = .object then skipName
        skipValue n (frame :: frames)
      else if b = byte ',' then
        take 1
        if frame = .object then skipName
        skipValue n (frame :: frames)
      else fail (·.ahead (if frame = .array then .noCommaInList else .noCommaInObject))

end

def skip : Reader Unit := fun c => skipValue (2 * c.rest.length + 2) [] c

/-! ## values of a given kind -/

/-- the fault of a value that is no `expected`; the value is read as far as it is a scalar -/
def mismatch {α : Type} (expected : Expected) : Reader α := do
  match ← look with
  | some b =>
    if b = byte '[' then fail (·.here (.wrongType .array expected))
    else if b = byte '\x7b' then fail (·.here (.wrongType .object expected))
    else
      let v ← scalar b
      fail (·.here (.wrongType v.found expected))
  | none => fail (·.ahead .noValue)

def start : Reader UInt8 := do
  match ← peek with
  | none => fail (·.ahead .endInValue)
  | some b => pure b

def string : Reader String := do
  let b ← start
  if b = byte '"' then
    take 1
    stringTail
  else mismatch .string

def strings : Reader (List String) := do
  let b ← start
  if b = byte '[' then
    take 1
    list string
  else mismatch .list

def optional {α : Type} (r : Reader α) : Reader (Option α) := do
  if (← peek) = some (byte 'n') then
    take 1
    word ['u', 'l', 'l']
    pure none
  else some <$> r

/-! ## records -/

inductive Absence where
  | required
  /-- an object may go without it -/
  | optional
  /-- an array may end before it too -/
  | defaulted
  deriving DecidableEq, Repr

/-- a field of the structure `ρ`: its name, and how its value is put into the structure -/
structure Field (read : Type → Type) (ρ : Type) where
  name : String
  absence : Absence
  read : read (ρ → ρ)

section
variable {read : Type → Type} {ρ : Type}

def missing? (fields : List (Field read ρ)) (seen : List String) : Option String :=
  (fields.find? (fun f => f.absence = .required && !seen.contains f.name)).map (·.name)

def field? (fields : List (Field read ρ)) (name : String) : Option (Field read ρ) :=
  fields.find? (·.name == name)

end

section
variable {ρ : Type}

def floating {α : Type} (cause : Cause) : Reader α := fail (.floating cause)

/-- the members of an object into the fields; `n` bounds their number -/
def fieldsByName (fields : List (Field Reader ρ)) : Nat → Bool → List String → ρ → Reader ρ
  | 0, _, _, r => pure r
  | n + 1, first, seen, r => do
    match ← nextName first with
    | none => match missing? fields seen with
      | some name => floating (.missingField name)
      | none => pure r
    | some name => match field? fields name with
      | none =>
        colon
        skip
        fieldsByName fields n false seen r
      | some f =>
        if seen.contains name then floating (.duplicateField name)
        else
          colon
          let set ← f.read
          fieldsByName fields n false (name :: seen) (set r)

def fieldsInOrder (record : String) (count : Nat) : Nat → List (Field Reader ρ) → ρ → Reader ρ
  | _, [], r => pure r
  | k, f :: fs, r => do
    if ← nextItem (k = 0) then
      let set ← f.read
      fieldsInOrder record count (k + 1) fs (set r)
    else if f.absence = .defaulted then fieldsInOrder record count (k + 1) fs r
    else floating (.tooShort k record count)

/-- a structure, written as an object or as an array of its fields; `blank` holds what a field has
that is not written -/
def record (name : String) (fields : List (Field Reader ρ)) (blank : ρ) : Reader ρ := do
  let b ← start
  if b = byte '[' then
    take 1
    enclosed listEnd (fieldsInOrder name fields.length 0 fields blank)
  else if b = byte '\x7b' then
    take 1
    fun c => enclosed objectEnd (fieldsByName fields (c.rest.length + 1) true [] blank) c
  else mismatch (.record name)

end

/-! ## whole texts -/

def Fault.refusal (text : Bytes) : Fault → Refusal
  | .placed cause offset => ⟨cause, some (.after (text.take offset))⟩
  | .floating cause c => ⟨cause, some (.after (text.take c.offset))⟩

/-- the text as one value that `r` reads, and nothing behind it but blanks -/
def parseAs {α : Type} (r : Reader α) (text : Bytes) : Except Refusal α :=
  let whole : Reader α := do
    let a ← r
    match ← peek with
    | none => pure a
    | some _ => fail (·.ahead .trailingCharacters)
  match whole ⟨0, text⟩ with
  | .ok (a, _) => .ok a
  | .error f => .error (f.refusal text)

def parse (text : Bytes) : Except Refusal Value := parseAs (value maxDepth) text

end Federation.Json
