import Federation.Credentials.Basic

/-!
# Sessions

A session is a world with credentials in it, which have names.  Names may share credentials: then a
step on one of them shows under all.  A background refresh that has started does nothing until
somebody waits for it; then all that have started run, in the order in which they did.
-/

namespace Federation

structure Session where
  world : World
  made : List Credentials
  /-- the names of credentials, with their places in `made` -/
  names : List (String × Nat)
  /-- the places of credentials with a background refresh that has not run yet -/
  waiting : List Nat

namespace Session

inductive Step where
  | refresh
  | beforeRequest (headers : Http.Headers)
  | apply (headers : Http.Headers) (override? : Option String)
  | subjectToken
  | certificatePaths
  | wait
  | setNonBlocking
  | hasScopes (scopes : List String)
  | describe
  | share
  | withQuotaProject (project : String)
  | withScopes (scopes defaultScopes : List String)
  | withScopesIfRequired (scopes defaultScopes : List String)
  | event (e : World.Event)

inductive Answer where
  | outcome (result : Except Failure Unit)
  | headers (result : Except Failure Unit) (headers : Http.Headers)
  | subjectToken (result : Except Failure String)
  | certificatePaths (result : Except Failure CertificatePaths)
  | truth (b : Bool)
  | description

def start (world : World) (name : String) (c : Credentials) : Session :=
  ⟨world, [c], [(name, 0)], []⟩

/-! ## names -/

def place? (s : Session) (name : String) : Option Nat := s.names.lookup name

def credentials? (s : Session) (name : String) : Option Credentials :=
  (s.place? name).bind (s.made[·]?)

def bind (s : Session) (name : String) (place : Nat) : Session :=
  { s with names := (name, place) :: s.names.filter (·.1 ≠ name) }

def put (s : Session) (place : Nat) (c : Credentials) : Session :=
  { s with made := s.made.set place c }

def add (s : Session) (name : String) (c : Credentials) : Session :=
  { s with made := s.made ++ [c] }.bind name s.made.length

/-! ## background refreshes -/

def runOne (s : Session) (place : Nat) : Session :=
  match s.made[place]? with
  | none => s
  | some c =>
    let (c, world) := c.runBackground s.world
    { s.put place c with world := world }

def runWaiting (s : Session) : Session :=
  { s.waiting.foldl runOne s with waiting := [] }

/-! ## steps -/

/-- what a step returns, and the session after it -/
abbrev Result := Answer × Session

def observe {α : Type} (s : Session) (a : Action α) (answer : Except Failure α → Answer) :
    Result :=
  let (result, world) := a.run s.world
  (answer result, { s with world := world })

def done (s : Session) : Result := (.outcome (.ok ()), s)

/-- the step on the credentials `c` with the name `name`; steps that make credentials or share them
give the result the name `target` -/
def act (s : Session) (place : Nat) (c : Credentials) (target : String) : Step → Result
  | .refresh =>
    let (result, c, world) := c.refresh s.world
    (.outcome result, { s.put place c with world := world })
  | .beforeRequest hs =>
    let p := c.beforeRequest hs s.world
    (.headers p.result p.headers, { s.put place p.credentials with
      world := p.world
      waiting := if p.started then s.waiting ++ [place] else s.waiting })
  | .apply hs override? =>
    let (result, hs) := c.apply override? hs
    (.headers result hs, s)
  | .subjectToken => s.observe c.account.configuration.subjectToken .subjectToken
  | .certificatePaths =>
    s.observe c.account.configuration.source.certificatePaths .certificatePaths
  | .wait => (if c.slot.isRunning then s.runWaiting else s).done
  | .setNonBlocking => (s.put place { c with nonBlocking := true }).done
  | .hasScopes scopes => (.truth (c.account.configuration.hasScopes scopes), s)
  | .describe => (.description, s)
  | .share => (s.bind target place).done
  | .withQuotaProject project =>
    (s.add target (c.derive (c.account.withQuotaProject project))).done
  | .withScopes scopes defaults =>
    (s.add target (c.derive (c.account.withScopes scopes defaults))).done
  | .withScopesIfRequired scopes defaults =>
    if c.account.configuration.requiresScopes then
      (s.add target (c.derive (c.account.withScopes scopes defaults))).done
    else (s.bind target place).done
  | .event e => { s with world := s.world.after e }.done

def Step.names : Step → Bool
  | .share => true
  | .withQuotaProject _ => true
  | .withScopes _ _ => true
  | .withScopesIfRequired _ _ => true
  | _ => false

/-- what is to be seen after a step -/
structure View where
  answer : Answer
  sent : List Http.Request
  /-- the credentials that the step was about, or that it named -/
  credentials : Credentials

/-- a step on the credentials with the name `name`; there is nothing to see if there are none -/
def run (s : Session) (name : String) (target? : Option String) (step : Step) :
    Option View × Session :=
  match s.place? name, s.credentials? name with
  | some place, some c =>
    let target := target?.getD name
    let (answer, s') := { s with world := { s.world with sent := [] } }.act place c target step
    let shown := if step.names then target else name
    ((s'.credentials? shown).map fun c => ⟨answer, s'.world.sent, c⟩, s')
  | _, _ => (none, s)

end Session

end Federation
