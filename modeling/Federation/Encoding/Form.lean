import Federation.Text.Hex
import Federation.Text.Utf8

/-!
# Percent and form encoding

`percent` escapes every byte of a text outside a set of plain characters; `Form.encode` writes a
list of fields as a form body.  Beside each stands its reader: `percentDecode` and `Form.decode`.
-/

namespace Federation

/-! ## percent encoding -/

/-- `%` and the two digits of a byte -/
def percentByte (b : UInt8) : List Char :=
  ['%', Hex.capital (b.toNat / 16), Hex.capital (b.toNat % 16)]

def isAlphanumeric (b : UInt8) : Bool :=
  (0x30 ≤ b && b ≤ 0x39) || (0x41 ≤ b && b ≤ 0x5A) || (0x61 ≤ b && b ≤ 0x7A)

/-- the text with each byte escaped that is neither alphanumeric nor one of `plain` -/
def percent (plain : List Char) (s : String) : String :=
  String.ofList ((Utf8.encode s).flatMap fun b =>
    if isAlphanumeric b || plain.any (fun c => UInt8.ofNat c.toNat == b) then
      [Char.ofNat b.toNat]
    else percentByte b)

/-- the bytes of a text with its escapes resolved; a `%` without two digits stands for itself -/
def percentDecode : Bytes → Bytes
  | 0x25 :: a :: b :: rest => match Hex.value? a, Hex.value? b with
    | some h, some l => UInt8.ofNat (h * 16 + l) :: percentDecode rest
    | _, _ => 0x25 :: percentDecode (a :: b :: rest)
  | b :: rest => b :: percentDecode rest
  | [] => []

theorem percentDecode_nil : percentDecode [] = [] := by simp [percentDecode]

/-! ## forms -/

namespace Form

abbrev Field := String × String

def isPlain (b : UInt8) : Bool :=
  isAlphanumeric b || b = 0x2A || b = 0x2D || b = 0x2E || b = 0x5F

/-- a name or a value: a space becomes `+` -/
def encodeText (s : String) : List Char :=
  (Utf8.encode s).flatMap fun b =>
    if isPlain b then [Char.ofNat b.toNat]
    else if b = 0x20 then ['+']
    else percentByte b

def encodeField (f : Field) : List Char := encodeText f.1 ++ '=' :: encodeText f.2

def encode (fields : List Field) : String :=
  String.ofList (((fields.map encodeField).intersperse ['&']).flatten)

def splitOn (sep : UInt8) : Bytes → List Bytes
  | [] => [[]]
  | b :: rest =>
    if b = sep then [] :: splitOn sep rest
    else match splitOn sep rest with
      | [] => [[b]]
      | piece :: pieces => (b :: piece) :: pieces

/-- what an encoded name or value stands for -/
def decodeText (bs : Bytes) : String :=
  Utf8.lossy (percentDecode (bs.map fun b => if b = 0x2B then 0x20 else b))

def decodeField (bs : Bytes) : Field :=
  let name := bs.takeWhile (· ≠ 0x3D)
  (decodeText name, decodeText (bs.drop (name.length + 1)))

/-- the fields of a form body; empty pieces are passed over -/
def decode (body : Bytes) : List Field :=
  ((splitOn 0x26 body).filter (!·.isEmpty)).map decodeField

end Form

end Federation
