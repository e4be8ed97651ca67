import Federation.Number.Binary64

/-!
# JSON values

A number that is written as an integer of 64 bits keeps its value exactly; every other number is a
binary float.  An object that has been read holds its members in the order of their names, one for
each name; a printer writes the members as they stand.
-/

namespace Federation.Json

inductive Number where
  /-- an integer from 0 to 2^64 - 1 -/
  | natural (n : Nat)
  /-- the integer `-n`, down to -2^63 -/
  | negative (n : Nat)
  | float (x : Binary64)
  deriving DecidableEq, Repr

inductive Value where
  | null
  | bool (b : Bool)
  | number (n : Number)
  | string (s : String)
  | array (items : List Value)
  | object (members : List (String × Value))
  deriving Repr

abbrev Members := List (String × Value)

/-- `members` with `name` set to `v`; the names stay in order -/
def insert {α : Type} (name : String) (v : α) : List (String × α) → List (String × α)
  | [] => [(name, v)]
  | (k, w) :: rest =>
    if name < k then (name, v) :: (k, w) :: rest
    else if k < name then (k, w) :: insert name v rest
    else (name, v) :: rest

def get? {α : Type} (members : List (String × α)) (name : String) : Option α :=
  (members.find? (fun m => m.1 == name)).map (·.2)

/-- the members in order, where the last of those with one name counts -/
def ofList {α : Type} (ms : List (String × α)) : List (String × α) :=
  ms.foldl (fun acc m => insert m.1 m.2 acc) []

def Value.strings (items : List String) : Value := .array (items.map .string)

namespace Value

def member? (v : Value) (name : String) : Option Value :=
  match v with
  | .object ms => get? ms name
  | _ => none

def isNull : Value → Bool
  | .null => true
  | _ => false

end Value

/-- a member that is there and is not null -/
def present? (ms : Members) (name : String) : Option Value :=
  (get? ms name).filter (!·.isNull)

end Federation.Json
