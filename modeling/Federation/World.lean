import Federation.Failure
import Federation.Http.Message

/-!
# What credentials meet outside themselves

A `World` holds everything that a refresh may look at or change: the environment, the files, the two
clocks, and what the transport and the supplier of the application are going to answer.  It keeps
the requests that were sent.  An `Action` runs in a world and either returns a value or fails; what
happened to the world before a failure stays.
-/

namespace Federation

/-! ## the environment -/

inductive Variable where
  | boundaries
  | certificateConfig
  | home
  deriving DecidableEq, Repr

def Variable.name : Variable → String
  | .boundaries => "GOOGLE_AUTH_ENABLE_TRUST_BOUNDARIES"
  | .certificateConfig => "GOOGLE_API_CERTIFICATE_CONFIG"
  | .home => "HOME"

def Variable.all : List Variable := [.boundaries, .certificateConfig, .home]

/-- the values of the variables that are set -/
structure Environment where
  boundaries : Option String
  certificateConfig : Option String
  home : Option String
  deriving DecidableEq, Repr

def Environment.set (e : Environment) (v : Variable) (value : Option String) : Environment :=
  match v with
  | .boundaries => { e with boundaries := value }
  | .certificateConfig => { e with certificateConfig := value }
  | .home => { e with home := value }

/-! ## the world -/

structure Purpose where
  tokenType : String
  audience : String
  deriving DecidableEq, Repr

/-- what a supplier does when it is asked for a subject token -/
inductive Supply where
  | token (make : Purpose → String)
  | failure (transient : Bool) (text : String)
  /-- it takes the payload of a response as the token -/
  | fetch (url : String)

structure World where
  environment : Environment
  files : Files.Tree
  /-- nanoseconds since the start of 1970, in UTC -/
  wall : Int
  clock : Clock.Reading
  replies : List Http.Reply
  /-- its answer once they are used up -/
  silence : Report
  supplies : List Supply
  /-- its answer once they are used up -/
  supply : Supply
  sent : List Http.Request

abbrev Action := ExceptT Failure (StateM World)

namespace World

def reply (w : World) : Http.Reply := w.replies.headD (.failure w.silence)

def afterRequest (w : World) (r : Http.Request) : World :=
  { w with replies := w.replies.tail, sent := w.sent ++ [r] }

def nextSupply (w : World) : Supply := w.supplies.headD w.supply

/-- what may happen in a world by itself -/
inductive Event where
  | advance (d : Clock.Duration)
  | replies (rs : List Http.Reply)
  | supplies (ss : List Supply)
  | variables (changes : List (Variable × Option String))
  | write (path : String) (node : Node)
  | remove (path : String)

def after (w : World) : Event → World
  | .advance d => { w with wall := w.wall + d, clock := w.clock + d }
  | .replies rs => { w with replies := w.replies ++ rs }
  | .supplies ss => { w with supplies := w.supplies ++ ss }
  | .variables changes =>
    { w with environment := changes.foldl (fun e c => e.set c.1 c.2) w.environment }
  | .write path node => { w with files := Files.write node (Files.names path) w.files }
  | .remove path => { w with files := Files.remove (Files.names path) w.files }

end World

/-! ## actions -/

namespace Action

def run {α : Type} (a : Action α) (w : World) : Except Failure α × World := a w

def ask {α : Type} (f : World → α) : Action α := fun w => (.ok (f w), w)

def lift {α : Type} (r : Except Failure α) : Action α := fun w => (r, w)

/-- sends a request; a transport that gets no response reports why -/
def send (r : Http.Request) : Action Http.Response := fun w =>
  (match w.reply with
    | .response res => .ok res
    | .failure e => .error (.transport e), w.afterRequest r)

/-- sends a request; a response with another status than one of success fails -/
def call (hop : Hop) (r : Http.Request) : Action Http.Response := do
  let res ← send r
  if res.status.isSuccess then pure res else throw (.status hop res.status res.body)

def readFile (path : String) : Action (Except FileFault Bytes) := ask (Files.read ·.files path)

def readText (path : String) : Action (Except FileFault String) :=
  ask (Files.readText ·.files path)

/-- a subject token from the supplier; what it reports is passed on -/
def supplied (purpose : Purpose) : Action String := fun w =>
  let w' := { w with supplies := w.supplies.tail }
  match w.nextSupply with
  | .token make => (.ok (make purpose), w')
  | .failure transient text => (.error (.supplier transient text), w')
  | .fetch url =>
    (match w'.reply with
      | .response res => .ok (Utf8.lossy res.body)
      | .failure e => .error (.supplier e.transient e.text), w'.afterRequest (.get url []))

theorem run_pure {α : Type} (a : α) (w : World) : run (pure a) w = (.ok a, w) := rfl
theorem run_throw {α : Type} (f : Failure) (w : World) :
    run (throw f : Action α) w = (.error f, w) := rfl

theorem run_bind {α β : Type} (a : Action α) (f : α → Action β) (w : World) :
    run (a >>= f) w = match run a w with
      | (.ok x, w) => run (f x) w
      | (.error e, w) => (.error e, w) := by
  show ExceptT.bindCont f (a w).1 (a w).2 = match a w with
    | (.ok x, w) => f x w
    | (.error e, w) => (.error e, w)
  rcases a w with ⟨_ | _, _⟩ <;> rfl

theorem run_map {α β : Type} (f : α → β) (a : Action α) (w : World) :
    run (f <$> a) w = ((run a w).1.map f, (run a w).2) := by
  show run (a >>= fun x => pure (f x)) w = _
  rw [run_bind]
  rcases run a w with ⟨_ | _, _⟩ <;> rfl

theorem run_map_eq_ok_iff {α β : Type} {f : α → β} {a : Action α} {w w' : World} {y : β} :
    run (f <$> a) w = (.ok y, w') ↔ ∃ x, run a w = (.ok x, w') ∧ f x = y := by
  rw [run_map]
  rcases run a w with ⟨_ | x, v⟩
  · constructor
    · exact fun h => nomatch h
    · exact fun ⟨_, h, _⟩ => nomatch h
  · constructor
    · intro h
      cases h
      exact ⟨x, rfl, rfl⟩
    · rintro ⟨_, h, rfl⟩
      cases h
      rfl

theorem run_bind_eq_ok_iff {α β : Type} {a : Action α} {f : α → Action β} {w w' : World} {y : β} :
    run (a >>= f) w = (.ok y, w') ↔
      ∃ x v, run a w = (.ok x, v) ∧ run (f x) v = (.ok y, w') := by
  rw [run_bind]
  rcases run a w with ⟨e | x, v⟩
  · simp
  · constructor
    · exact fun h => ⟨x, v, rfl, h⟩
    · rintro ⟨_, _, h, h'⟩
      cases h
      exact h'

theorem run_send (r : Http.Request) (w : World) : run (send r) w =
    (match w.reply with
      | .response res => .ok res
      | .failure e => .error (.transport e), w.afterRequest r) := rfl

theorem run_call (hop : Hop) (r : Http.Request) (w : World) : run (call hop r) w =
    (match w.reply with
      | .response res =>
        if res.status.isSuccess then .ok res else .error (.status hop res.status res.body)
      | .failure e => .error (.transport e), w.afterRequest r) := by
  rw [call, run_bind, run_send]
  cases w.reply with
  | failure e => rfl
  | response res =>
    show run (if res.status.isSuccess then pure res else _) _ =
      (if res.status.isSuccess then _ else _, _)
    by_cases hs : res.status.isSuccess = true
    · rw [if_pos hs, if_pos hs, run_pure]
    · rw [if_neg hs, if_neg hs, run_throw]

theorem run_call_eq_ok_iff {hop : Hop} {r : Http.Request} {w w' : World} {res : Http.Response} :
    run (call hop r) w = (.ok res, w') ↔
      w.reply = .response res ∧ res.status.isSuccess = true ∧ w' = w.afterRequest r := by
  rw [run_call]
  cases w.reply with
  | failure e => simp
  | response res' =>
    by_cases hs : res'.status.isSuccess = true
    · simp only [if_pos hs, Prod.mk.injEq, Except.ok.injEq, Http.Reply.response.injEq]
      constructor
      · rintro ⟨rfl, rfl⟩
        exact ⟨rfl, hs, rfl⟩
      · rintro ⟨rfl, _, rfl⟩
        exact ⟨rfl, rfl⟩
    · simp only [if_neg hs, Prod.mk.injEq, reduceCtorEq, false_and, Http.Reply.response.injEq,
        false_iff]
      rintro ⟨rfl, h, _⟩
      exact hs h

end Action

end Federation
