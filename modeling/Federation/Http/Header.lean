import Federation.Text.Utf8

/-!
# HTTP headers

A header list keeps its entries in the order in which they came, and may hold several of one name;
names are small.  `set` leaves one value under a name.
-/

namespace Federation.Http

/-- a value under a name; `sensitive` asks that it not be shown -/
structure Header where
  name : String
  value : String
  sensitive : Bool
  deriving DecidableEq, Repr

abbrev Headers := List Header

def isNameChar (c : Char) : Bool :=
  c.isAlphanum || "!#$%&'*+-.^_`|~".toList.contains c

def maxNameLength : Nat := 65535

/-- a header name in its small form -/
def name? (s : String) : Option String :=
  if s.isEmpty || maxNameLength < s.length || !s.toList.all isNameChar then none
  else some (String.ofList (s.toList.map Char.toLower))

/-- the characters of a header value: no control character but the tab -/
def isValueChar (c : Char) : Bool := c = '\t' || (0x20 ≤ c.toNat && c.toNat ≠ 0x7F)

def isValue (s : String) : Bool := s.toList.all isValueChar

namespace Headers

def without (hs : Headers) (name : String) : Headers := hs.filter (·.name ≠ name)

def set (hs : Headers) (h : Header) : Headers := hs.without h.name ++ [h]

def named (hs : Headers) (name : String) : Headers := hs.filter (·.name = name)

theorem named_set_self (hs : Headers) (h : Header) : (hs.set h).named h.name = [h] := by
  simp [set, without, named]

theorem named_set_of_ne (hs : Headers) (h : Header) {name : String} (hn : name ≠ h.name) :
    (hs.set h).named name = hs.named name := by
  simp only [set, without, named, List.filter_append, List.filter_filter]
  have h1 : List.filter (fun x : Header => decide (x.name = name)) [h] = [] := by
    simp [Ne.symm hn]
  rw [h1, List.append_nil]
  apply List.filter_congr
  intro x _
  by_cases hx : x.name = name
  · simp [hx, hn]
  · simp [hx]

end Headers

end Federation.Http
