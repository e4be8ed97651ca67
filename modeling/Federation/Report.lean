/-!
# Error reports

What a caller sees of a failed refresh: whether a later attempt may succeed, what was being done,
and the text of the error behind it.
-/

namespace Federation

structure Report where
  transient : Bool
  message : Option String
  /-- the text of the error that was the reason -/
  source : Option String
  deriving DecidableEq, Repr

namespace Report

def because (transient : Bool) (message source : String) : Report :=
  ⟨transient, some message, some source⟩

def plain (transient : Bool) (message : String) : Report := ⟨transient, some message, none⟩

def wrap (transient : Bool) (source : String) : Report := ⟨transient, none, some source⟩

/-- the outlook that opens every report -/
def outlook (transient : Bool) : String :=
  if transient then "cannot refresh credentials, but future attempts may succeed"
  else "cannot refresh credentials, and future attempts will not succeed"

def text (r : Report) : String :=
  match r.message, r.source with
  | some m, some s => outlook r.transient ++ ", " ++ m ++ ": " ++ s
  | some m, none => outlook r.transient ++ ", " ++ m
  | none, some s => outlook r.transient ++ ", " ++ s
  | none, none => outlook r.transient

theorem text_wrap (b : Bool) (s : String) : (wrap b s).text = outlook b ++ ", " ++ s := rfl

end Report

end Federation
