import Federation.Encoding.Base64
import Federation.Text.Decimal
import Federation.Text.Quoted

/-!
# PEM files

A PEM file is read line by line; `\n` and `\r` both end a line.  A line `-----BEGIN X-----` opens a
section and `-----END X-----` closes it; the lines between are base 64.  Sections of an unknown kind
are passed over without being decoded.  A second opening line changes the kind of the section but
keeps what has been gathered.
-/

namespace Federation.Pem

inductive Fault where
  | endMissing (label : Bytes)
  /-- an opening line that does not close its own dashes -/
  | illegalStart (line : Bytes)
  | base64 (fault : Base64.Fault)
  deriving DecidableEq, Repr

def base64Message : Base64.Fault → String
  | .invalidCharacter b => "InvalidCharacter(" ++ Decimal.render b.toNat ++ ")"
  | .prematurePadding => "PrematurePadding"
  | .trailingPadding => "InvalidTrailingPadding"

def Fault.message : Fault → String
  | .endMissing label => "section end " ++ Text.quoted (Utf8.lossy label) ++ " missing"
  | .illegalStart line => "illegal section start: " ++ Text.quoted (Utf8.lossy line)
  | .base64 fault => base64Message fault

/-! ## lines -/

def ascii (s : String) : Bytes := Utf8.encode s

def isLineEnd (b : UInt8) : Bool := b = 0x0A || b = 0x0D

/-- the lines of a file, each with the byte that ends it -/
def lines : Bytes → List Bytes
  | [] => []
  | b :: rest =>
    if isLineEnd b then [b] :: lines rest
    else match lines rest with
      | [] => [[b]]
      | line :: more => (b :: line) :: more

/-- `bs` without the bytes `front` at its start, if they stand there -/
def strip? (front bs : Bytes) : Option Bytes :=
  match front, bs with
  | [], bs => some bs
  | _ :: _, [] => none
  | f :: front, b :: bs => if f = b then strip? front bs else none

/-- the dashes at the end of a line, read backwards between blanks and line ends: how many there
are, and what stands before the first -/
def dashes (count : Nat) (before : Bytes) : Bytes → Nat × Bytes
  | [] => (count, before)
  | b :: rest =>
    if b = 0x2D then dashes (count + 1) rest rest
    else if isLineEnd b || b = 0x20 then dashes count before rest
    else (count, before)

/-- the label of an opening line; `none` for any other line -/
def opening? (line : Bytes) : Option (Except Fault Bytes) :=
  match strip? (ascii "-----BEGIN ") line with
  | none => none
  | some rest =>
    let (count, label) := dashes 0 [] rest.reverse
    some (if count = 5 then .ok label.reverse else .error (.illegalStart line))

def closes (label line : Bytes) : Bool :=
  (strip? (ascii "-----END " ++ label ++ ascii "-----") line).isSome

/-! ## sections -/

def certificateLabel : String := "CERTIFICATE"

/-- the kinds of section that are decoded -/
def knownLabels : List String := [
  certificateLabel, "PUBLIC KEY", "RSA PRIVATE KEY", "PRIVATE KEY", "EC PRIVATE KEY", "X509 CRL",
  "CERTIFICATE REQUEST", "ECHCONFIG"]

def isKnown (label : Bytes) : Bool := knownLabels.any (fun l => ascii l == label)

/-- what has been seen of the file: the open section, and the text gathered in it -/
structure Progress where
  label : Option Bytes
  text : Bytes

def readLines (p : Progress) : List Bytes → List (Except Fault Bytes)
  | [] => match p.label with
    | some label => [.error (.endMissing label)]
    | none => []
  | line :: rest => match opening? line with
    | some (.error f) => [.error f]
    | some (.ok label) => readLines { p with label := some label } rest
    | none => match p.label with
      | none => readLines p rest
      | some label =>
        if closes label line then
          if isKnown label then
            match Base64.decode p.text with
            | .error f => [.error (.base64 f)]
            | .ok der =>
              if label = ascii certificateLabel then .ok der :: readLines ⟨none, []⟩ rest
              else readLines ⟨none, []⟩ rest
          else readLines ⟨none, []⟩ rest
        else readLines { p with text := p.text ++ line } rest

/-- the certificates of a file in their order; a fault ends the list -/
def certificates (file : Bytes) : List (Except Fault Bytes) := readLines ⟨none, []⟩ (lines file)

def all (file : Bytes) : Except Fault (List Bytes) := (certificates file).mapM id

end Federation.Pem
