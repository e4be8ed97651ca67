import Federation.Json.Reader

/-!
# Structures from JSON values

The same rules as for structures in a text, for a value that has been read already: its members come
in the order of their names, and no fault has a place.
-/

namespace Federation.Json

abbrev Decoder (α : Type) := Value → Except Cause α

namespace Decode

def mismatch {α : Type} (expected : Expected) : Decoder α := fun v =>
  .error (.wrongType v.found expected)

def string : Decoder String
  | .string s => .ok s
  | v => mismatch .string v

def natural : Decoder Nat
  | .number (.natural n) => .ok n
  | .number (.negative n) => .error (.wrongValue (.number (.negative n)) .natural)
  | v => mismatch .natural v

def optional {α : Type} (d : Decoder α) : Decoder (Option α)
  | .null => .ok none
  | v => some <$> d v

section
variable {ρ : Type}

def fieldsByName (fields : List (Field Decoder ρ)) : Members → List String → ρ → Except Cause ρ
  | [], seen, r => match missing? fields seen with
    | some name => .error (.missingField name)
    | none => .ok r
  | (name, v) :: rest, seen, r => match field? fields name with
    | none => fieldsByName fields rest seen r
    | some f => do
      let set ← f.read v
      fieldsByName fields rest (name :: seen) (set r)

def fieldsInOrder (record : String) (fields : List (Field Decoder ρ)) (items : List Value)
    (r : ρ) : Except Cause ρ :=
  go 0 fields items r
where
  go (k : Nat) : List (Field Decoder ρ) → List Value → ρ → Except Cause ρ
    | [], [], r => .ok r
    | [], _ :: _, _ => .error (.tooLong items.length)
    | f :: fs, [], r =>
      if f.absence = .defaulted then go (k + 1) fs [] r
      else .error (.tooShort k record fields.length)
    | f :: fs, v :: vs, r => do
      let set ← f.read v
      go (k + 1) fs vs (set r)

def record (name : String) (fields : List (Field Decoder ρ)) (blank : ρ) : Decoder ρ
  | .object ms => fieldsByName fields ms [] blank
  | .array items => fieldsInOrder name fields items blank
  | v => mismatch (.record name) v

end

end Decode

end Federation.Json
