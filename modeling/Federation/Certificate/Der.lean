import Federation.Time.Timestamp

/-!
# DER

One element is a tag, a length and the contents.  `Read α` takes elements off the front of a byte
string and fails without a reason, since nothing but the failure is ever shown.
-/

namespace Federation.Der

inductive Scope where
  | universal
  | application
  | context
  | agreed
  deriving DecidableEq, Repr

structure Tag where
  scope : Scope
  constructed : Bool
  number : Nat
  deriving DecidableEq, Repr

structure Element where
  tag : Tag
  contents : Bytes
  deriving DecidableEq, Repr

abbrev Read (α : Type) := Bytes → Option (α × Bytes)

def scopeOf (b : UInt8) : Scope :=
  match b.toNat / 64 with
  | 0 => .universal
  | 1 => .application
  | 2 => .context
  | _ => .agreed

/-- the number of a tag above 30, seven bits a byte -/
def longNumber (n : Nat) : Bytes → Option (Nat × Bytes)
  | [] => none
  | b :: rest =>
    let n' := n * 128 + b.toNat % 128
    if b.toNat < 128 then some (n', rest) else longNumber n' rest

def tag : Read Tag
  | [] => none
  | b :: rest =>
    let constructed := b.toNat / 32 % 2 = 1
    let number := b.toNat % 32
    if number = 31 then
      (longNumber 0 rest).map fun (n, rest) => (⟨scopeOf b, constructed, n⟩, rest)
    else some (⟨scopeOf b, constructed, number⟩, rest)

/-- a number written in bytes, the highest first -/
def big (bs : Bytes) : Nat := bs.foldl (fun n b => n * 256 + b.toNat) 0

/-- the length of the contents, a number of 64 bits; the indefinite form is refused -/
def length : Read Nat
  | [] => none
  | b :: rest =>
    let n := b.toNat
    if n < 128 then some (n, rest)
    else if n = 128 ∨ n = 255 ∨ rest.length < n - 128 then none
    else
      let l := big (rest.take (n - 128))
      if Decimal.max64 < l then none else some (l, rest.drop (n - 128))

/-- one element with its contents -/
def element : Read Element := fun bs => do
  let (t, bs) ← tag bs
  let (n, bs) ← length bs
  if bs.length < n then none
  else some (⟨t, bs.take n⟩, bs.drop n)

def universal (number : Nat) : Read Element := fun bs => do
  let (e, rest) ← element bs
  if e.tag.scope = .universal ∧ e.tag.number = number then some (e, rest) else none

def primitive (number : Nat) : Read Bytes := fun bs => do
  let (e, rest) ← universal number bs
  if e.tag.constructed then none else some (e.contents, rest)

def sequence {α : Type} (inner : Read α) : Read α := fun bs => do
  let (e, rest) ← universal 16 bs
  let (a, _) ← inner e.contents
  some (a, rest)

def tagged? (number : Nat) : Read (Option Bytes) := fun bs =>
  match bs with
  | [] => some (none, [])
  | bs => do
    let (e, rest) ← element bs
    if e.tag.scope = .context ∧ e.tag.number = number then some (some e.contents, rest)
    else some (none, bs)

/-! ## simple types -/

def natural : Read Nat := fun bs => do
  let (c, rest) ← primitive 2 bs
  match c with
  | [] => none
  | [b] => if b < 128 then some (b.toNat, rest) else none
  | b :: b' :: _ => if b < 128 ∧ ¬(b = 0 ∧ b' < 128) then some (big c, rest) else none

/-- bits in whole bytes, with the count of those that the last byte does not use -/
def isBits (c : Bytes) : Bool :=
  match c with
  | [] => false
  | [unused] => unused = 0
  | unused :: rest => unused < 8 && (rest.getLast?.getD 0).toNat % Nat.pow 2 unused.toNat = 0

def bits : Read Bytes := fun bs => do
  let (c, rest) ← primitive 3 bs
  if isBits c then some (c, rest) else none

def identifier : Read Bytes := fun bs => do
  let (c, rest) ← primitive 6 bs
  if c.isEmpty then none else some (c, rest)

/-! ## points in time -/

def pair? : Bytes → Option (Nat × Bytes)
  | a :: b :: rest => do
    let x ← Timestamp.digit? a
    let y ← Timestamp.digit? b
    some (x * 10 + y, rest)
  | _ => none

/-- month, day and time of day of `year`, up to the closing `Z` -/
def isMoment (year : Nat) (bs : Bytes) : Option Bool := do
  let (month, bs) ← pair? bs
  let (day, bs) ← pair? bs
  let (hour, bs) ← pair? bs
  let (minute, bs) ← pair? bs
  let (second, bs) ← pair? bs
  some (1 ≤ month && month ≤ 12 && 1 ≤ day && day ≤ Timestamp.monthLength year month &&
    hour ≤ 23 && minute ≤ 59 && second ≤ 59 && bs = [0x5A])

/-- a time with a year of two digits; those from 50 on belong to the last century -/
def isShortTime (c : Bytes) : Bool :=
  ((pair? c).bind fun (y, bs) => isMoment (if y < 50 then 2000 + y else 1900 + y) bs).getD false

def isLongTime (c : Bytes) : Bool :=
  ((pair? c).bind fun (century, bs) =>
    (pair? bs).bind fun (y, bs) => isMoment (century * 100 + y) bs).getD false

def time : Read Unit := fun bs =>
  match primitive 23 bs with
  | some (c, rest) => if isShortTime c then some ((), rest) else none
  | none => do
    let (c, rest) ← primitive 24 bs
    if isLongTime c then some ((), rest) else none

end Federation.Der
