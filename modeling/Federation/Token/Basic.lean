import Federation.Text.Quoted
import Federation.Time.Clock

/-!
# Tokens

An access token with its type and, unless it lasts for ever, the reading of the clock at which it
expires.  What is shown of a token in logs never holds its value.
-/

namespace Federation

structure Token where
  value : String
  kind : String
  expiry : Option Clock.Reading
  deriving DecidableEq, Repr

namespace Token

/-- the type of a token that names none -/
def bearer : String := "Bearer"

/-- the lifetime of a token in seconds, where nothing else is said -/
def defaultLifetime : Nat := 3600

def censored : String := Text.quoted "[censored]"

def inBraces (s : String) : String := "\x7b " ++ s ++ " \x7d"

def shownTable (entries : List (String × String)) : String :=
  "\x7b" ++ ", ".intercalate (entries.map fun e => Text.quoted e.1 ++ ": " ++ Text.quoted e.2) ++
    "\x7d"

/-- what is shown of a token of a type that lasts for ever, with the notes it carries -/
def shown (kind : String) (notes : Option (List (String × String))) : String :=
  "Token " ++ inBraces ("token: " ++ censored ++ ", token_type: " ++ Text.quoted kind ++
    ", expires_at: None, metadata: " ++
    (match notes with
      | none => "None"
      | some entries => "Some(" ++ shownTable entries ++ ")"))

def shownSubject : String := "SubjectToken " ++ inBraces ("token: " ++ censored)

end Token

end Federation
