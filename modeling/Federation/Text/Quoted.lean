import Federation.Text.Hidden

/-!
# Quoted texts

A text between double quotes, for messages: the quote and the backslash are escaped, the common
control characters have their letter, and a character without a visible form is shown by its number.
-/

namespace Federation.Text

def hex (n : Nat) : List Char := Nat.toDigits 16 n

/-- how a character stands between the quotes -/
def quotedChar (c : Char) : List Char :=
  match c with
  | '\x00' => ['\\', '0']
  | '\t' => ['\\', 't']
  | '\n' => ['\\', 'n']
  | '\r' => ['\\', 'r']
  | '"' => ['\\', '"']
  | '\\' => ['\\', '\\']
  | c => if isHidden c then ['\\', 'u', '\x7b'] ++ hex c.toNat ++ ['\x7d'] else [c]

def quoted (s : String) : String :=
  String.ofList ('"' :: s.toList.flatMap quotedChar ++ ['"'])

end Federation.Text
