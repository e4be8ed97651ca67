import Federation.Text.Decimal
import Federation.Text.Utf8
import Federation.Time.Clock

/-!
# Timestamps

A timestamp is a civil date and time of day with an offset from UTC, written like
`2023-11-14T22:13:20.5+01:00`.  Any byte may stand between date and time, the `Z` may be small, and
of a fraction the first nine digits count.  A second `60` is accepted where UTC is at the end of a
month, and stands for the last nanosecond before it.

`read?` goes from left to right; `Timestamp.instant` is the point in time that is meant.
-/

namespace Federation

structure Timestamp where
  year : Nat
  month : Nat
  day : Nat
  hour : Nat
  minute : Nat
  second : Nat
  nanosecond : Nat
  /-- minutes ahead of UTC -/
  offset : Int
  deriving DecidableEq, Repr

namespace Timestamp

/-! ## the calendar -/

def isLeap (year : Nat) : Bool := year % 4 = 0 && (year % 100 ≠ 0 || year % 400 = 0)

def monthLength (year month : Nat) : Nat :=
  match month with
  | 2 => if isLeap year then 29 else 28
  | 4 | 6 | 9 | 11 => 30
  | _ => 31

/-- the days of a year before the first of `month` -/
def daysBeforeMonth (year : Nat) : Nat → Nat
  | 0 => 0
  | 1 => 0
  | m + 1 => daysBeforeMonth year m + monthLength year m

def daysBeforeYear (year : Nat) : Nat :=
  365 * year + (year + 3) / 4 - (year + 99) / 100 + (year + 399) / 400

def epochDay : Nat := 719528

/-- the day of the date, counted from the first day of 1970 -/
def dayNumber (t : Timestamp) : Int :=
  (daysBeforeYear t.year + daysBeforeMonth t.year t.month + (t.day - 1) : Nat) - (epochDay : Int)

def unixSecond (t : Timestamp) : Int :=
  t.dayNumber * 86400 + (t.hour * 3600 + t.minute * 60 + t.second : Nat) - t.offset * 60

/-- nanoseconds since the start of 1970 in UTC -/
def instant (t : Timestamp) : Int := t.unixSecond * (Clock.second : Int) + t.nanosecond

/-- whether UTC shows the last second of a month -/
def endsMonth (t : Timestamp) : Bool :=
  let days := t.unixSecond / 86400 - t.dayNumber
  t.unixSecond % 86400 = 86399 &&
    (if days < 0 then t.day = 1
     else if days = 0 then t.day = monthLength t.year t.month
     else t.day + 1 = monthLength t.year t.month)

/-! ## faults -/

inductive Fault where
  | component (name : String)
  | literal
  | trailing
  | range (name : String) (low high : Int) (condition : Option String)
  deriving DecidableEq, Repr

def integerText (n : Int) : String :=
  if n < 0 then "-" ++ Decimal.render n.natAbs else Decimal.render n.toNat

def Fault.message : Fault → String
  | .component name => "the '" ++ name ++ "' component could not be parsed"
  | .literal => "a character literal was not valid"
  | .trailing => "unexpected trailing characters; the end of input was expected"
  | .range name low high condition =>
    name ++ " must be in the range " ++ integerText low ++ "..=" ++ integerText high ++
      (match condition with
        | none => ""
        | some text => " " ++ text)

/-! ## reading -/

/-- reads a part off the front of the bytes -/
abbrev Part := StateT Bytes (Except Fault)

def digit? (b : UInt8) : Option Nat :=
  if 0x30 ≤ b ∧ b ≤ 0x39 then some (b.toNat - 48) else none

def refuse {α : Type} (f : Fault) : Part α := fun _ => .error f

/-- exactly `n` digits behind the value `acc` -/
def digitsFrom (name : String) (acc : Nat) : Nat → Part Nat
  | 0 => pure acc
  | n + 1 => fun bs =>
    match bs with
    | [] => .error (.component name)
    | b :: rest => match digit? b with
      | none => .error (.component name)
      | some d => digitsFrom name (acc * 10 + d) n rest

def digits (name : String) (n : Nat) : Part Nat := digitsFrom name 0 n

def mark (c : Char) : Part Unit := fun bs =>
  match bs with
  | [] => .error .literal
  | b :: rest => if b = UInt8.ofNat c.toNat then .ok ((), rest) else .error .literal

def separator : Part Unit := fun bs =>
  match bs with
  | [] => .error (.component "separator")
  | _ :: rest => .ok ((), rest)

/-- the nanoseconds of fraction digits, the first of which counts `unit` -/
def fractionValue (unit : Nat) : List Nat → Nat
  | [] => 0
  | d :: ds => d * unit + fractionValue (unit / 10) ds

def fraction : Part Nat := fun bs =>
  match bs with
  | 0x2E :: rest => match rest.takeWhile (fun b => (digit? b).isSome) with
    | [] => .error (.component "subsecond")
    | ds => .ok (fractionValue 100000000 (ds.filterMap digit?), rest.drop ds.length)
  | _ => .ok (0, bs)

def offsetPart : Part Int := fun bs =>
  match bs with
  | 0x5A :: rest => .ok (0, rest)
  | 0x7A :: rest => .ok (0, rest)
  | 0x2B :: rest => signed 1 rest
  | 0x2D :: rest => signed (-1) rest
  | _ => .error (.component "offset hour")
where
  signed (sign : Int) : Part Int := do
    let hours ← digits "offset hour" 2
    if 23 < hours then refuse (.component "offset hour")
    else
      mark ':'
      let minutes ← digits "offset minute" 2
      if 59 < minutes then refuse (.range "offset minute" (-59) 59 none)
      else pure (sign * (hours * 60 + minutes : Nat))

/-- all parts, without a look at their values -/
def parts : Part Timestamp := do
  let year ← digits "year" 4
  mark '-'
  let month ← digits "month" 2
  if month = 0 then refuse (.component "month")
  else
    mark '-'
    let day ← digits "day" 2
    separator
    let hour ← digits "hour" 2
    mark ':'
    let minute ← digits "minute" 2
    mark ':'
    let second ← digits "second" 2
    let nanosecond ← fraction
    let offset ← offsetPart
    pure ⟨year, month, day, hour, minute, second, nanosecond, offset⟩

/-- the values of the parts, of which the first one out of its range is reported -/
def check (t : Timestamp) : Except Fault Timestamp :=
  let leap := t.second = 60
  let t := if leap then { t with second := 59, nanosecond := 999999999 } else t
  if 12 < t.month then .error (.range "month" 1 12 none)
  else if t.day = 0 ∨ monthLength t.year t.month < t.day then
    .error (.range "day" 1 (monthLength t.year t.month) (some "for the given month and year"))
  else if 23 < t.hour then .error (.range "hour" 0 23 none)
  else if 59 < t.minute then .error (.range "minute" 0 59 none)
  else if 59 < t.second then .error (.range "second" 0 59 none)
  else if leap ∧ !t.endsMonth then
    .error (.range "second" 0 59 (some "because leap seconds are not supported"))
  else .ok t

def read (text : String) : Except Fault Timestamp :=
  match parts (Utf8.encode text) with
  | .error f => .error f
  | .ok (t, []) => check t
  | .ok (_, _ :: _) => .error .trailing

end Timestamp

end Federation
