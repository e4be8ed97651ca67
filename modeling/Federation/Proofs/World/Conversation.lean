import Federation.SubjectToken.Retrieval

/-!
# What an action does to the world

Whatever an action is for, all that it does to the world is to send requests and to take answers:
the clocks, the files and the environment stay as they are.  `World.Leads` says so of two worlds and
the requests between them, and `Action.Talks` of an action in every world.

* `World.Leads.trans`      one conversation after another;
* `Source.run_fromUrl`     a token at an address takes one request;
* `Source.talks_retrieve`  finding a subject token is a conversation, whatever the source.
-/

namespace Federation

namespace World

/-- `w'` is the world `w` once the requests `rs` were sent; each of them has taken one reply.  The
supplier may have been asked too. -/
structure Leads (w : World) (rs : List Http.Request) (w' : World) : Prop where
  sent : w'.sent = w.sent ++ rs
  replies : w'.replies = w.replies.drop rs.length
  silence : w'.silence = w.silence
  environment : w'.environment = w.environment
  files : w'.files = w.files
  wall : w'.wall = w.wall
  clock : w'.clock = w.clock
  supply : w'.supply = w.supply

namespace Leads

theorem refl (w : World) : w.Leads [] w :=
  ⟨(List.append_nil _).symm, rfl, rfl, rfl, rfl, rfl, rfl, rfl⟩

theorem trans {w v u : World} {rs ss : List Http.Request} (h : w.Leads rs v) (k : v.Leads ss u) :
    w.Leads (rs ++ ss) u where
  sent := by rw [k.sent, h.sent, List.append_assoc]
  replies := by rw [k.replies, h.replies, List.drop_drop, List.length_append]
  silence := k.silence.trans h.silence
  environment := k.environment.trans h.environment
  files := k.files.trans h.files
  wall := k.wall.trans h.wall
  clock := k.clock.trans h.clock
  supply := k.supply.trans h.supply

theorem afterRequest (w : World) (r : Http.Request) : w.Leads [r] (w.afterRequest r) :=
  ⟨rfl, List.drop_one.symm, rfl, rfl, rfl, rfl, rfl, rfl⟩

theorem supplies (w : World) (ss : List Supply) : w.Leads [] { w with supplies := ss } :=
  ⟨(List.append_nil _).symm, rfl, rfl, rfl, rfl, rfl, rfl, rfl⟩

end Leads

end World

namespace Action

section
variable {α β : Type}

/-- an action that does nothing to the world but to send requests and to take answers -/
def Talks (a : Action α) : Prop := ∀ w : World, ∃ rs, w.Leads rs (a.run w).2

/-- an action that only looks at the world -/
def Silent (a : Action α) : Prop := ∀ w : World, (a.run w).2 = w

theorem silent_pure (x : α) : Silent (pure x : Action α) := fun _ => rfl
theorem silent_throw (f : Failure) : Silent (throw f : Action α) := fun _ => rfl
theorem silent_lift (r : Except Failure α) : Silent (lift r) := fun _ => rfl
theorem silent_ask (f : World → α) : Silent (ask f) := fun _ => rfl

theorem silent_bind {a : Action α} {f : α → Action β} (ha : Silent a) (hf : ∀ x, Silent (f x)) :
    Silent (a >>= f) := by
  intro w
  have hw := ha w
  rw [run_bind]
  rcases h : run a w with ⟨e | x, v⟩
  · rw [h] at hw
    exact hw
  · rw [h] at hw
    exact (hf x v).trans hw

theorem Silent.talks {a : Action α} (ha : Silent a) : Talks a := by
  intro w
  rw [ha w]
  exact ⟨[], .refl w⟩

theorem talks_pure (x : α) : Talks (pure x : Action α) := (silent_pure x).talks
theorem talks_throw (f : Failure) : Talks (throw f : Action α) := (silent_throw f).talks

theorem talks_bind {a : Action α} {f : α → Action β} (ha : Talks a) (hf : ∀ x, Talks (f x)) :
    Talks (a >>= f) := by
  intro w
  obtain ⟨rs, hr⟩ := ha w
  rw [run_bind]
  rcases h : run a w with ⟨e | x, v⟩
  · rw [h] at hr
    exact ⟨rs, hr⟩
  · rw [h] at hr
    obtain ⟨ss, hs⟩ := hf x v
    exact ⟨rs ++ ss, hr.trans hs⟩

theorem talks_call (hop : Hop) (r : Http.Request) : Talks (call hop r) := fun w => by
  rw [run_call]
  exact ⟨[r], .afterRequest w r⟩

theorem talks_supplied (purpose : Purpose) : Talks (supplied purpose) := by
  intro w
  have h := World.Leads.supplies w w.supplies.tail
  show ∃ rs, w.Leads rs (supplied purpose w).2
  unfold supplied
  cases w.nextSupply with
  | token make => exact ⟨[], h⟩
  | failure transient text => exact ⟨[], h⟩
  | fetch url => exact ⟨_, h.trans (.afterRequest _ (.get url []))⟩

theorem silent_readFile (path : String) : Silent (readFile path) := silent_ask _
theorem silent_readText (path : String) : Silent (readText path) := silent_ask _

end

end Action

open Federation.Action

/-! ## subject tokens -/

theorem CertificateConfig.silent_resolve (location : CertificateLocation) :
    Silent (resolve location) := by
  refine silent_bind (silent_ask _) fun path? => ?_
  cases path? with
  | none => exact silent_throw _
  | some path =>
    refine silent_bind (silent_readText path) fun text => ?_
    cases text with
    | error fault => exact silent_throw _
    | ok text =>
      dsimp only
      rcases CertificateConfig.parse text with refusal | _ | paths
      · exact silent_throw _
      · exact silent_throw _
      · exact silent_pure _

theorem CertificateResolver.silent_paths (r : CertificateResolver)
    (location : CertificateLocation) : Silent (r.paths location) := by
  cases r with
  | configuration => exact CertificateConfig.silent_resolve location
  | custom resolve => exact silent_lift _

namespace CertificateChain

theorem silent_readLeaf (path : String) : Silent (readLeaf path) := by
  refine silent_bind (silent_readFile path) fun file => ?_
  cases file with
  | error fault => exact silent_throw _
  | ok file =>
    dsimp only
    rcases Pem.certificates file with _ | ⟨_ | _, _⟩
    · exact silent_throw _
    · exact silent_throw _
    · exact silent_pure _

theorem silent_readAll (path : String) : Silent (readAll path) := by
  refine silent_bind (silent_readFile path) fun file => ?_
  rcases file with fault | file
  · cases fault <;> exact silent_throw _
  · dsimp only
    rcases Pem.all file with _ | _ | _
    · exact silent_throw _
    · exact silent_throw _
    · exact silent_pure _

theorem silent_rest (leaf : Bytes) (chain : Option String) : Silent (rest leaf chain) := by
  cases chain with
  | none => exact silent_pure _
  | some path =>
    exact silent_bind (silent_lift _) fun _ =>
      silent_bind (silent_readAll path) fun _ => silent_lift _

end CertificateChain

namespace Source

theorem silent_fromFile (path : String) (format : TokenFormat) :
    Silent (fromFile path format) := by
  refine silent_bind (silent_readText path) fun text => ?_
  rcases text with fault | text
  · cases fault <;> exact silent_throw _
  · exact silent_lift _

theorem silent_fromCertificate (location : CertificateLocation) (chain : Option String)
    (resolver : CertificateResolver) : Silent (fromCertificate location chain resolver) :=
  silent_bind (resolver.silent_paths location) fun _ =>
    silent_bind (CertificateChain.silent_readLeaf _) fun _ =>
      silent_bind (CertificateChain.silent_rest _ _) fun _ => silent_pure _

theorem run_fromUrl (address : String) (headers : Http.Headers) (format : TokenFormat)
    (w : World) :
    ((fromUrl address headers format).run w).2 = w.afterRequest (.get address headers) := by
  rw [fromUrl, run_bind, run_call]
  cases w.reply with
  | failure e => rfl
  | response res =>
    dsimp only
    by_cases hs : res.status.isSuccess = true
    · rw [if_pos hs]
      exact silent_lift _ _
    · rw [if_neg hs]

theorem talks_retrieve (s : Source) (purpose : Purpose) : Talks (s.retrieve purpose) := by
  cases s with
  | file path format => exact (silent_fromFile path format).talks
  | url address headers format =>
    intro w
    have h := World.Leads.afterRequest w (.get address headers)
    rw [← run_fromUrl address headers format w] at h
    exact ⟨_, h⟩
  | certificate location chain resolver =>
    exact (silent_fromCertificate location chain resolver).talks
  | supplied => exact talks_supplied purpose

end Source

end Federation
