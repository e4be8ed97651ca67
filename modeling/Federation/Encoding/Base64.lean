import Federation.Text.Utf8

/-!
# Base 64

`encode` writes three bytes as four characters of the standard alphabet, with `=` in place of what
the last group lacks.  `decode` passes over blanks, lets the last group go without its padding, and
ignores the bits that a short last group has to spare.  It goes from left to right in stretches of
eight characters, which decides what is reported of a text with two faults.
-/

namespace Federation.Base64

def digit (n : Nat) : Char :=
  if n < 26 then Char.ofNat (65 + n)
  else if n < 52 then Char.ofNat (97 + (n - 26))
  else if n < 62 then Char.ofNat (48 + (n - 52))
  else if n = 62 then '+'
  else '/'

def group (a b c : Nat) : List Char :=
  [digit (a / 4), digit (a % 4 * 16 + b / 16), digit (b % 16 * 4 + c / 64), digit (c % 64)]

def encodeChars : Bytes → List Char
  | [] => []
  | [a] => (group a.toNat 0 0).take 2 ++ ['=', '=']
  | [a, b] => (group a.toNat b.toNat 0).take 3 ++ ['=']
  | a :: b :: c :: rest => group a.toNat b.toNat c.toNat ++ encodeChars rest

def encode (bs : Bytes) : String := String.ofList (encodeChars bs)

inductive Fault where
  | invalidCharacter (b : UInt8)
  /-- `=` stands in a group that is not the last -/
  | prematurePadding
  /-- the last group is too short, or has `=` where it may not -/
  | trailingPadding
  deriving DecidableEq, Repr

/-- what a byte of the text stands for -/
inductive Symbol where
  | value (n : Nat)
  | padding
  deriving DecidableEq, Repr

def symbol (b : UInt8) : Except Fault Symbol :=
  let n := b.toNat
  if 65 ≤ n ∧ n ≤ 90 then .ok (.value (n - 65))
  else if 97 ≤ n ∧ n ≤ 122 then .ok (.value (n - 97 + 26))
  else if 48 ≤ n ∧ n ≤ 57 then .ok (.value (n - 48 + 52))
  else if b = 0x2B then .ok (.value 62)
  else if b = 0x2F then .ok (.value 63)
  else if b = 0x3D then .ok .padding
  else .error (.invalidCharacter b)

/-- tab, line feed, carriage return and space -/
def isBlank (b : UInt8) : Bool := b = 0x09 || b = 0x0A || b = 0x0D || b = 0x20

def byte1 (a b : Nat) : UInt8 := UInt8.ofNat (a * 4 + b / 16)
def byte2 (b c : Nat) : UInt8 := UInt8.ofNat (b % 16 * 16 + c / 4)
def byte3 (c d : Nat) : UInt8 := UInt8.ofNat (c % 4 * 64 + d)

def front : List Symbol → Except Fault Bytes
  | [] => .ok []
  | .value a :: .value b :: .value c :: .value d :: rest =>
    (byte1 a b :: byte2 b c :: byte3 c d :: ·) <$> front rest
  | _ => .error .prematurePadding

def last : List Symbol → Except Fault Bytes
  | [] => .ok []
  | [.value a, .value b] => .ok [byte1 a b]
  | [.value a, .value b, .padding, .padding] => .ok [byte1 a b]
  | [.value a, .value b, .value c] => .ok [byte1 a b, byte2 b c]
  | [.value a, .value b, .value c, .padding] => .ok [byte1 a b, byte2 b c]
  | [.value a, .value b, .value c, .value d] => .ok [byte1 a b, byte2 b c, byte3 c d]
  | _ => .error .trailingPadding

/-- how many symbols are decoded at a time -/
def stretch : Nat := 8

def finish (symbols : List Symbol) : Except Fault Bytes :=
  if symbols.length ≤ 4 then last symbols
  else do
    let bytes ← front (symbols.take 4)
    (bytes ++ ·) <$> last (symbols.drop 4)

/-- the bytes of a text behind the symbols `pending`, at most one stretch of them -/
def decodeFrom (pending : List Symbol) : Bytes → Except Fault Bytes
  | [] => finish pending
  | b :: rest =>
    if isBlank b then decodeFrom pending rest
    else do
      let s ← symbol b
      if pending.length < stretch then decodeFrom (pending ++ [s]) rest
      else
        let bytes ← front pending
        (bytes ++ ·) <$> decodeFrom [s] rest

def decode (text : Bytes) : Except Fault Bytes := decodeFrom [] text

end Federation.Base64
