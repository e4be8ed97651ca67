import Federation.Json.Error
import Federation.Text.Utf8

/-!
# Reading a JSON text from left to right

A `Cursor` is a place in the text with the bytes behind it, and a `Reader` takes a value off it.
The readers here take words, strings and numbers; containers are read in `Federation.Json.Reader`.

A fault of syntax is placed where it is found.  A value of the wrong shape is noticed only once it
has been read, and a fault that belongs to a whole container is placed behind its closing bracket:
until then it is `floating`.
-/

namespace Federation.Json

/-- how many bytes have been read, and what is left -/
structure Cursor where
  offset : Nat
  rest : Bytes
  deriving Repr

inductive Fault where
  | placed (cause : Cause) (offset : Nat)
  | floating (cause : Cause) (cursor : Cursor)
  deriving Repr

abbrev Reader := StateT Cursor (Except Fault)

namespace Cursor

/-- the fault `cause` behind the bytes that have been read -/
def here (c : Cursor) (cause : Cause) : Fault := .placed cause c.offset

/-- the fault `cause` at the next byte, which counts as read -/
def ahead (c : Cursor) (cause : Cause) : Fault :=
  .placed cause (if c.rest.isEmpty then c.offset else c.offset + 1)

def advance (c : Cursor) (n : Nat) : Cursor := ⟨c.offset + n, c.rest.drop n⟩

end Cursor

/-- the four bytes that may stand between tokens -/
def isSpace (b : UInt8) : Bool := b = 0x20 || b = 0x0A || b = 0x0D || b = 0x09

def isDigit (b : UInt8) : Bool := 0x30 ≤ b && b ≤ 0x39

def Cursor.skipWhile (p : UInt8 → Bool) (c : Cursor) : Cursor :=
  c.advance (c.rest.takeWhile p).length

def byte (c : Char) : UInt8 := UInt8.ofNat c.toNat

def fail {α : Type} (f : Cursor → Fault) : Reader α := fun c => .error (f c)

def peek : Reader (Option UInt8) := fun c =>
  let c := c.skipWhile isSpace
  .ok (c.rest.head?, c)

def look : Reader (Option UInt8) := fun c => .ok (c.rest.head?, c)

def take (n : Nat) : Reader Unit := fun c => .ok ((), c.advance n)

/-! ## words -/

/-- the letters of `null`, `true` or `false` behind the first one -/
def word : List Char → Reader Unit
  | [] => pure ()
  | w :: ws => do
    match ← look with
    | none => fail (·.here .endInValue)
    | some b =>
      take 1
      if b = byte w then word ws else fail (·.here .badWord)

/-! ## strings -/

def hexQuad : Reader Nat := fun c =>
  match c.rest with
  | a :: b :: d :: e :: rest =>
    let c' : Cursor := ⟨c.offset + 4, rest⟩
    match Hex.value? a, Hex.value? b, Hex.value? d, Hex.value? e with
    | some a, some b, some d, some e => .ok (((a * 16 + b) * 16 + d) * 16 + e, c')
    | _, _, _, _ => .error (c'.here .badEscape)
  | rest => .error (.placed .endInString (c.offset + rest.length))

/-- one byte that has to be `b`; the end of the text is the end inside a string -/
def escapeMark (b : UInt8) : Reader Unit := do
  match ← look with
  | none => fail (·.here .endInString)
  | some b' =>
    take 1
    if b' = b then pure () else fail (·.here .endOfEscape)

/-- the character of a `\u` escape; one above U+FFFF is written as a pair -/
def unicodeEscape : Reader Char := do
  let n ← hexQuad
  if 0xDC00 ≤ n ∧ n ≤ 0xDFFF then fail (·.here .loneSurrogate)
  else if n < 0xD800 ∨ 0xDBFF < n then pure (Char.ofNat n)
  else do
    escapeMark (byte '\\')
    escapeMark (byte 'u')
    let low ← hexQuad
    if low < 0xDC00 ∨ 0xDFFF < low then fail (·.here .loneSurrogate)
    else pure (Char.ofNat (0x10000 + (n - 0xD800) * 0x400 + (low - 0xDC00)))

def escaped : Reader Char := do
  match ← look with
  | none => fail (·.here .endInString)
  | some b =>
    take 1
    match Char.ofNat b.toNat with
    | '"' => pure '"'
    | '\\' => pure '\\'
    | '/' => pure '/'
    | 'b' => pure '\x08'
    | 'f' => pure '\x0c'
    | 'n' => pure '\n'
    | 'r' => pure '\r'
    | 't' => pure '\t'
    | 'u' => unicodeEscape
    | _ => fail (·.here .badEscape)

/-- the bytes of a string up to its closing quote, with escapes resolved; `n` bounds their number -/
def stringBytes : Nat → Reader Bytes
  | 0 => fail (·.here .endInString)
  | n + 1 => do
    match ← look with
    | none => fail (·.here .endInString)
    | some b =>
      take 1
      if b = byte '"' then pure []
      else if b = byte '\\' then do
        let c ← escaped
        let more ← stringBytes n
        pure (String.utf8EncodeChar c ++ more)
      else if b < 0x20 then fail (·.here .controlCharacter)
      else do
        let more ← stringBytes n
        pure (b :: more)

def stringTail : Reader String := fun c =>
  match stringBytes (c.rest.length + 1) c with
  | .error f => .error f
  | .ok (bs, c') => match Utf8.decode? bs with
    | some s => .ok (s, c')
    | none => .error (c'.here .badCodePoint)

/-! ## numbers -/

/-- the digits behind the value `n`, up to the first that would leave 64 bits; the flag tells
whether one did -/
def digits64 (n offset : Nat) : Bytes → Nat × Bool × Cursor
  | [] => (n, false, ⟨offset, []⟩)
  | b :: rest =>
    if isDigit b then
      let n' := n * 10 + (b.toNat - 48)
      if Decimal.max64 < n' then (n, true, ⟨offset, b :: rest⟩)
      else digits64 n' (offset + 1) rest
    else (n, false, ⟨offset, b :: rest⟩)

/-- the greatest power of ten that one step scales by -/
def step : Nat := 308

/-- `x / 10 ^ (n * step + last)`, one step at a time until nothing is left -/
def scaleDown (x : Binary64) (last : Nat) : Nat → Option Binary64
  | 0 => (Binary64.powerOfTen last).bind x.div
  | n + 1 =>
    if x.mantissa = 0 then some x
    else ((Binary64.powerOfTen step).bind x.div).bind fun y => scaleDown y last n

/-- `m · 10 ^ e` by one rounding of `m` and one for each scaling; `none` above the finite numbers -/
def scale (m : Nat) (e : Int) : Option Binary64 :=
  (Binary64.ofRatio m 1).bind fun x =>
    if e < 0 then
      let n := (-e).toNat
      let steps := (n - 1) / step
      scaleDown x (n - steps * step) steps
    else if x.mantissa = 0 then some x
    else if step < e.toNat then none
    else (Binary64.powerOfTen e.toNat).bind x.mul

def float (negative : Bool) (m : Nat) (e : Int) : Reader Number := fun c =>
  match scale m e with
  | some x => .ok (.float { x with negative := negative }, c)
  | none => .error (c.here .numberOutOfRange)

/-- the greatest decimal exponent that is read as such, 2^31 - 1 -/
def maxExponent : Nat := 2147483647

/-- the greatest `n` for which `-n` is an integer of 64 bits, 2^63 -/
def maxNegative : Nat := 9223372036854775808

/-- the digits of an exponent behind the value `n`; `none` once it is too large -/
def exponentDigits (n offset : Nat) : Bytes → Option Nat × Cursor
  | [] => (some n, ⟨offset, []⟩)
  | b :: rest =>
    if isDigit b then
      let n' := n * 10 + (b.toNat - 48)
      if maxExponent < n' then (none, ⟨offset + 1, rest⟩)
      else exponentDigits n' (offset + 1) rest
    else (some n, ⟨offset, b :: rest⟩)

def exponent (negative : Bool) (m : Nat) (start : Int) : Reader Number := do
  take 1
  let sign ← look
  let down := sign = some (byte '-')
  if down || sign = some (byte '+') then take 1
  match ← look with
  | none => fail (·.here .endInValue)
  | some b =>
    take 1
    if !isDigit b then fail (·.here .badNumber)
    else fun c =>
      match exponentDigits (b.toNat - 48) c.offset c.rest with
      | (some e, c) => float negative m (if down then start - e else start + e) c
      | (none, c) =>
        if m ≠ 0 ∧ !down then .error (c.here .numberOutOfRange)
        else .ok (.float { Binary64.zero with negative := negative }, c.skipWhile isDigit)

def floatEnd (negative : Bool) (m : Nat) (e : Int) : Reader Number := do
  let b ← look
  if b = some (byte 'e') || b = some (byte 'E') then exponent negative m e
  else float negative m e

def fraction (negative : Bool) (m : Nat) (before : Int) : Reader Number := fun c =>
  let start := c.advance 1
  let (m, full, c) := digits64 m start.offset start.rest
  let e := before - (c.offset - start.offset : Nat)
  if full then floatEnd negative m e (c.skipWhile isDigit)
  else if c.offset = start.offset then
    .error (c.ahead (if c.rest.isEmpty then .endInValue else .badNumber))
  else floatEnd negative m e c

/-- the number with the integer digits `m`, where only the exponent is still open -/
def numberEnd (negative : Bool) (m : Nat) : Reader Number := do
  let b ← look
  if b = some (byte '.') then fraction negative m 0
  else if b = some (byte 'e') || b = some (byte 'E') then exponent negative m 0
  else if !negative then pure (.natural m)
  else if 1 ≤ m ∧ m ≤ maxNegative then pure (.negative m)
  else float true m 0

/-- a number behind its first digit, which is not zero; digits that would leave 64 bits count as a
decimal exponent -/
def integer (negative : Bool) (first : Nat) : Reader Number := fun c =>
  let (m, full, c) := digits64 first c.offset c.rest
  if full then
    let c' := c.skipWhile isDigit
    let e : Int := (c'.offset - c.offset : Nat)
    if c'.rest.head? = some (byte '.') then fraction negative m e c'
    else floatEnd negative m e c'
  else numberEnd negative m c

def number (negative : Bool) : Reader Number := do
  match ← look with
  | none => fail (·.here .endInValue)
  | some b =>
    take 1
    if b = byte '0' then
      let digit ← look
      if digit.any isDigit then fail (·.ahead .badNumber) else numberEnd negative 0
    else if isDigit b then integer negative (b.toNat - 48)
    else fail (·.here .badNumber)

end Federation.Json
