/-!
# UTF-8

Texts travel as bytes and come back as bytes that need not be well formed.  `next` reads one
character or one ill-formed stretch off the front of a byte string; everything else is a view of the
list of these pieces:

* `decode?`   the text, if every piece is a character;
* `lossy`     the text with each ill-formed stretch replaced by U+FFFD.

An ill-formed stretch is the longest start of a character that cannot be continued, so a broken
four-byte sequence counts once and the byte that broke it is read again.
-/

namespace Federation

abbrev Bytes := List UInt8

namespace Utf8

def encode (s : String) : Bytes := s.toList.flatMap String.utf8EncodeChar

/-- the bytes `0x80` to `0xBF`, which continue a character -/
def isTail (b : UInt8) : Bool := 0x80 ≤ b && b ≤ 0xBF

/-- the second bytes that may follow the leading byte `b`: no overlong form, no surrogate, nothing
above U+10FFFF -/
def follows (b b₁ : UInt8) : Bool :=
  if b = 0xE0 then 0xA0 ≤ b₁ && b₁ ≤ 0xBF
  else if b = 0xED then 0x80 ≤ b₁ && b₁ ≤ 0x9F
  else if b = 0xF0 then 0x90 ≤ b₁ && b₁ ≤ 0xBF
  else if b = 0xF4 then 0x80 ≤ b₁ && b₁ ≤ 0x8F
  else isTail b₁

def payload (b : UInt8) : Nat := b.toNat % 64

/-- one character, or `none` for an ill-formed stretch, and the bytes behind it -/
def next (b : UInt8) (rest : Bytes) : Option Char × Bytes :=
  if b < 0x80 then (some (Char.ofNat b.toNat), rest)
  else if b < 0xC2 || 0xF4 < b then (none, rest)
  else match rest with
    | [] => (none, [])
    | b₁ :: r₁ =>
      if !follows b b₁ then (none, b₁ :: r₁)
      else if b < 0xE0 then (some (Char.ofNat (b.toNat % 32 * 64 + payload b₁)), r₁)
      else match r₁ with
        | [] => (none, [])
        | b₂ :: r₂ =>
          if !isTail b₂ then (none, b₂ :: r₂)
          else if b < 0xF0 then
            (some (Char.ofNat ((b.toNat % 16 * 64 + payload b₁) * 64 + payload b₂)), r₂)
          else match r₂ with
            | [] => (none, [])
            | b₃ :: r₃ =>
              if !isTail b₃ then (none, b₃ :: r₃)
              else (some (Char.ofNat
                (((b.toNat % 8 * 64 + payload b₁) * 64 + payload b₂) * 64 + payload b₃)), r₃)

theorem length_next_le (b : UInt8) (rest : Bytes) : (next b rest).2.length ≤ rest.length := by
  unfold next
  repeat' split
  all_goals simp only [List.length_cons, List.length_nil]
  all_goals omega

/-- the characters of a byte string, with `none` for each ill-formed stretch -/
def pieces : Bytes → List (Option Char)
  | [] => []
  | b :: rest => (next b rest).1 :: pieces (next b rest).2
termination_by bs => bs.length
decreasing_by
  have := length_next_le b rest
  simp only [List.length_cons]
  omega

theorem pieces_nil : pieces [] = [] := by simp [pieces]

theorem pieces_cons (b : UInt8) (rest : Bytes) :
    pieces (b :: rest) = (next b rest).1 :: pieces (next b rest).2 := by
  rw [pieces]

def decode? (bs : Bytes) : Option String := ((pieces bs).mapM id).map String.ofList

/-- the text of a byte string, with U+FFFD in place of each ill-formed stretch -/
def lossy (bs : Bytes) : String := String.ofList ((pieces bs).map (·.getD '\uFFFD'))

end Utf8

end Federation
