import Federation.Proofs.Refresh.Journal

/-!
# Why a refresh fails

A refresh fails because it is told of a failure from outside, by the transport, the resolver, a
response or the supplier, or because it finds one itself in what it has got.  `Trouble` is what it
may be told; a step that is told of trouble fails with just that, and a step that is not fails, if
at all, with a failure for which no later attempt helps.

* `Trouble.kept`                     what a report says of each kind of trouble;
* `Configuration.explains_advance`   why a step fails;
* `Credentials.error_of_reaches`, `Credentials.reaches_of_error`
                                     why a refresh fails;
* `Credentials.failures_keep_their_outlook`
                                     all of it together.
-/

namespace Federation

/-! ## failures from outside -/

/-- what a refresh may be told -/
inductive Trouble where
  | transport (e : Report)
  | resolver (e : Report)
  | refused (hop : Hop) (status : Http.Status) (body : Bytes)
  | supplier (transient : Bool) (text : String)

/-- the failure that passes it on -/
def Trouble.failure : Trouble → Failure
  | .transport e => .transport e
  | .resolver e => .resolver e
  | .refused hop status body => .status hop status body
  | .supplier transient text => .supplier transient text

/-- what the report says of it -/
def Trouble.Kept (report : Report) : Trouble → Prop
  | .transport e => report = e
  | .resolver e => report = e
  | .refused _ status _ =>
    report.transient = true ↔ status = 408 ∨ status = 429 ∨ status = 500 ∨ status = 503
  | .supplier transient text =>
    report.transient = transient ∧ ∃ front, report.text = front ++ text

theorem Trouble.kept (t : Trouble) : t.Kept t.failure.report := by
  cases t with
  | transport e => rfl
  | resolver e => rfl
  | refused hop status body => exact status.isRetryable_iff
  | supplier transient text => exact ⟨rfl, _, Report.text_wrap transient text⟩

theorem Report.text_of_source {r : Report} {s : String} (h : r.source = some s) :
    ∃ front, r.text = front ++ s := by
  obtain ⟨transient, message, source⟩ := r
  cases h
  cases message with
  | none => exact ⟨_, rfl⟩
  | some m => exact ⟨_, rfl⟩

/-- `r` has the reason `s`, or a reason that has it, and so on -/
inductive Report.RestsOn : Report → Report → Prop where
  | refl (r : Report) : RestsOn r r
  | step {r s t : Report} (h : r.source = some s.text) (h' : RestsOn s t) : RestsOn r t

theorem Report.RestsOn.text {r s : Report} (h : r.RestsOn s) :
    ∃ front, r.text = front ++ s.text := by
  induction h with
  | refl r => exact ⟨"", String.empty_append.symm⟩
  | step hsource _ ih =>
    obtain ⟨front, hfront⟩ := text_of_source hsource
    obtain ⟨front', hfront'⟩ := ih
    exact ⟨front ++ front', by rw [hfront, hfront', String.append_assoc]⟩

/-- a failure that a refresh finds itself -/
def Failure.IsOwn : Failure → Prop
  | .transport _ => False
  | .resolver _ => False
  | .supplier _ _ => False
  | .status _ _ _ => False
  | _ => True

theorem Failure.IsOwn.permanent {f : Failure} (h : f.IsOwn) : f.transient = false := by
  cases f with
  | transport _ => exact h.elim
  | resolver _ => exact h.elim
  | supplier _ _ => exact h.elim
  | status _ _ _ => exact h.elim
  | _ => rfl

/-- without trouble from outside an outcome fails, if at all, with a failure of its own -/
def Explains {α : Type} (t? : Option Trouble) (result : Except Failure α) : Prop :=
  match t? with
  | some t => result = .error t.failure
  | none => ∀ f, result = .error f → f.IsOwn

section
variable {α β : Type} {t? : Option Trouble} {result : Except Failure α}

/-- the failure is the trouble that was told, and reports it as it was told; without any, no later
attempt helps -/
def Failure.Follows (f : Failure) : Option Trouble → Prop
  | some t => f = t.failure ∧ t.Kept f.report
  | none => f.transient = false

theorem Explains.follows {f : Failure} (h : Explains t? result) (he : result = .error f) :
    f.Follows t? := by
  cases t? with
  | some t =>
    have ht : result = .error t.failure := h
    rw [he] at ht
    cases ht
    exact ⟨rfl, t.kept⟩
  | none => exact (h f he).permanent

theorem explains_ok (a : α) : Explains none (.ok a : Except Failure α) := fun _ he => nomatch he

theorem explains_error {f : Failure} (h : f.IsOwn) : Explains none (.error f : Except Failure α) :=
  fun _ he => (Except.error.inj he) ▸ h

theorem Explains.map (h : Explains t? result) (g : α → β) : Explains t? (result.map g) := by
  cases t? with
  | some t =>
    have he : result = .error t.failure := h
    rw [he]
    rfl
  | none =>
    cases result with
    | error f => exact explains_error (h f rfl)
    | ok a => exact explains_ok (g a)

theorem Explains.bind {g : α → Except Failure β} (h : Explains t? result)
    (hg : ∀ a, Explains none (g a)) : Explains t? (result.bind g) := by
  cases t? with
  | some t =>
    have he : result = .error t.failure := h
    rw [he]
    rfl
  | none =>
    cases result with
    | error f => exact explains_error (h f rfl)
    | ok a => exact hg a

end

/-! ## actions without trouble -/

namespace Action

variable {α β : Type}

/-- the action fails, if at all, with a failure of its own -/
def FailsOwn (a : Action α) : Prop := ∀ w, Explains none (a.run w).1

theorem failsOwn_pure (x : α) : FailsOwn (pure x : Action α) := fun _ => explains_ok x

theorem failsOwn_throw {f : Failure} (h : f.IsOwn) : FailsOwn (throw f : Action α) :=
  fun _ => explains_error h

theorem failsOwn_ask (g : World → α) : FailsOwn (ask g) := fun w => explains_ok (g w)

theorem failsOwn_lift {r : Except Failure α} (h : Explains none r) : FailsOwn (lift r) := fun _ => h

theorem explains_bind {t? : Option Trouble} {a : Action α} {g : α → Action β} {w : World}
    (ha : Explains t? (a.run w).1) (hg : ∀ x, FailsOwn (g x)) :
    Explains t? ((a >>= g).run w).1 := by
  rw [run_bind]
  rcases h : a.run w with ⟨f | x, v⟩
  · rw [h] at ha
    cases t? with
    | some t => exact congrArg _ (Except.error.inj ha)
    | none => exact explains_error (ha f rfl)
  · rw [h] at ha
    cases t? with
    | some t => exact nomatch ha
    | none => exact hg x v

theorem failsOwn_bind {a : Action α} {g : α → Action β} (ha : FailsOwn a)
    (hg : ∀ x, FailsOwn (g x)) : FailsOwn (a >>= g) := fun w => explains_bind (ha w) hg

end Action

open Federation.Action

theorem CertificateConfig.failsOwn_resolve (location : CertificateLocation) :
    FailsOwn (resolve location) := by
  refine failsOwn_bind (failsOwn_ask _) fun path? => ?_
  cases path? with
  | none => exact failsOwn_throw trivial
  | some path =>
    refine failsOwn_bind (failsOwn_ask _) fun text => ?_
    cases text with
    | error fault => exact failsOwn_throw trivial
    | ok text =>
      dsimp only
      rcases parse text with _ | _ | _
      · exact failsOwn_throw trivial
      · exact failsOwn_throw trivial
      · exact failsOwn_pure _

namespace CertificateChain

theorem failsOwn_readLeaf (path : String) : FailsOwn (readLeaf path) := by
  refine failsOwn_bind (failsOwn_ask _) fun file => ?_
  cases file with
  | error fault => exact failsOwn_throw trivial
  | ok file =>
    dsimp only
    rcases Pem.certificates file with _ | ⟨_ | _, _⟩
    · exact failsOwn_throw trivial
    · exact failsOwn_throw trivial
    · exact failsOwn_pure _

theorem failsOwn_readAll (path : String) : FailsOwn (readAll path) := by
  refine failsOwn_bind (failsOwn_ask _) fun file => ?_
  rcases file with fault | file
  · cases fault <;> exact failsOwn_throw trivial
  · dsimp only
    rcases Pem.all file with _ | _ | _
    · exact failsOwn_throw trivial
    · exact failsOwn_throw trivial
    · exact failsOwn_pure _

theorem explains_keyOf (der : Bytes) : Explains none (keyOf der) := by
  rw [keyOf]
  cases X509.publicKey? der with
  | none => exact explains_error trivial
  | some key => exact explains_ok key

theorem explains_behindLeaf (leafKey : Bytes) (first : Bool) (certs : List Bytes) :
    Explains none (behindLeaf leafKey first certs) := by
  induction certs generalizing first with
  | nil => exact explains_ok _
  | cons cert certs ih =>
    rw [behindLeaf]
    refine (explains_keyOf cert).bind fun key => ?_
    by_cases hk : key = leafKey
    · rw [if_pos hk]
      cases first
      · exact explains_error trivial
      · exact ih false
    · rw [if_neg hk]
      exact (ih false).bind fun more => explains_ok _

theorem failsOwn_rest (leaf : Bytes) (chain : Option String) : FailsOwn (rest leaf chain) := by
  cases chain with
  | none => exact failsOwn_pure _
  | some path =>
    exact failsOwn_bind (failsOwn_lift (explains_keyOf leaf)) fun _ =>
      failsOwn_bind (failsOwn_readAll path) fun _ => failsOwn_lift (explains_behindLeaf _ _ _)

end CertificateChain

theorem TokenFormat.explains_extract (format : TokenFormat) (origin text : String) :
    Explains none (format.extract origin text) := by
  have hcheck : ∀ token : String, Explains none
      (if token.isEmpty then throw .tokenEmpty else pure token : Except Failure String) := by
    intro token
    split
    · exact explains_error trivial
    · exact explains_ok token
  unfold extract
  cases format with
  | text => exact hcheck text
  | json field =>
    dsimp only
    cases Json.parse (Utf8.encode text) with
    | error refusal => exact explains_error trivial
    | ok v =>
      dsimp only
      split
      · exact hcheck _
      · exact explains_error trivial

/-! ## steps -/

def Http.Reply.trouble? (hop : Hop) : Http.Reply → Option Trouble
  | .failure e => some (.transport e)
  | .response res =>
    if res.status.isSuccess then none else some (.refused hop res.status res.body)

theorem Hop.explains_judge (hop : Hop) (reply : Http.Reply) :
    Explains (reply.trouble? hop) (hop.judge reply) := by
  cases reply with
  | failure e => rfl
  | response res =>
    rw [judge, Http.Reply.trouble?]
    by_cases hs : res.status.isSuccess = true
    · rw [if_pos hs, if_pos hs]
      exact explains_ok res
    · rw [if_neg hs, if_neg hs]
      rfl

def CertificateResolver.trouble? (location : CertificateLocation) :
    CertificateResolver → Option Trouble
  | .configuration => none
  | .custom resolve => match resolve location with
    | .error e => some (.resolver e)
    | .ok _ => none

/-- what a supplier tells; it may have it from the transport -/
def Supply.trouble? (reply : Http.Reply) : Supply → Option Trouble
  | .token _ => none
  | .failure transient text => some (.supplier transient text)
  | .fetch _ => match reply with
    | .failure e => some (.supplier e.transient e.text)
    | .response _ => none

namespace Source

/-- what is told to the source in a world -/
def trouble? (w : World) : Source → Option Trouble
  | .file _ _ => none
  | .url _ _ _ => w.reply.trouble? .subjectToken
  | .certificate location _ resolver => resolver.trouble? location
  | .supplied => w.nextSupply.trouble? w.reply

theorem failsOwn_fromFile (path : String) (format : TokenFormat) :
    FailsOwn (fromFile path format) := by
  refine failsOwn_bind (failsOwn_ask _) fun text => ?_
  rcases text with fault | text
  · cases fault <;> exact failsOwn_throw trivial
  · exact failsOwn_lift (format.explains_extract _ _)

theorem explains_paths (resolver : CertificateResolver) (location : CertificateLocation)
    (w : World) : Explains (resolver.trouble? location) ((resolver.paths location).run w).1 := by
  cases resolver with
  | configuration => exact CertificateConfig.failsOwn_resolve location w
  | custom resolve =>
    have hrun : (((CertificateResolver.custom resolve).paths location).run w).1
        = (resolve location).mapError .resolver := rfl
    rw [hrun, CertificateResolver.trouble?]
    cases resolve location with
    | error e => rfl
    | ok paths => exact explains_ok paths

theorem explains_retrieve (s : Source) (purpose : Purpose) (w : World) :
    Explains (s.trouble? w) ((s.retrieve purpose).run w).1 := by
  cases s with
  | file path format => exact failsOwn_fromFile path format w
  | url address headers format =>
    refine explains_bind ?_ fun res => failsOwn_lift (format.explains_extract _ _)
    rw [run_call_eq]
    exact Hop.explains_judge .subjectToken w.reply
  | certificate location chain resolver =>
    refine explains_bind (explains_paths resolver location w) fun paths => ?_
    exact failsOwn_bind (CertificateChain.failsOwn_readLeaf _) fun _ =>
      failsOwn_bind (CertificateChain.failsOwn_rest _ _) fun _ => failsOwn_pure _
  | supplied =>
    rw [retrieve, trouble?, Action.run]
    unfold Action.supplied
    cases w.nextSupply with
    | token make => exact explains_ok _
    | failure transient text => rfl
    | fetch url =>
      have hreply : ({ w with supplies := w.supplies.tail } : World).reply = w.reply := rfl
      dsimp only
      rw [hreply]
      unfold Supply.trouble?
      cases w.reply with
      | failure e => rfl
      | response res => exact explains_ok _

end Source

namespace Configuration

/-- what is told to a fetch in its next step, in a world -/
def trouble? (c : Configuration) (w : World) : Fetch → Option Trouble
  | .begun _ => c.source.trouble? w
  | .identified _ _ => w.reply.trouble? .exchange
  | .exchanged _ held caller =>
    if Impersonation.isLegal caller held then w.reply.trouble? .impersonation else none

theorem explains_subjectToken (c : Configuration) (w : World) :
    Explains (c.source.trouble? w) (c.subjectToken.run w).1 :=
  c.source.explains_retrieve c.purpose w

theorem explains_payload {α : Type} (hop : Hop) (r : Except Json.Refusal α) :
    Explains none (r.mapError (.payload hop)) := by
  cases r with
  | error refusal => exact explains_error trivial
  | ok a => exact explains_ok a

theorem explains_token (a : Exchange.Answer) (now : Clock.Reading) :
    Explains none (a.token now) := by
  rw [Exchange.Answer.token]
  cases Clock.deadline? now (a.seconds * Clock.second) with
  | none => exact explains_error trivial
  | some expiry => exact explains_ok _

theorem explains_impersonated (a : Impersonation.Answer) (wall : Int) (now : Clock.Reading) :
    Explains none (a.token wall now) := by
  rw [Impersonation.Answer.token]
  cases Timestamp.read a.expireTime with
  | error fault => exact explains_error trivial
  | ok t =>
    dsimp only
    cases Clock.deadline? now (Impersonation.remaining t.instant wall) with
    | none => exact explains_error trivial
    | some expiry => exact explains_ok _

theorem explains_exchange (reply : Http.Reply) :
    Explains (reply.trouble? .exchange) (Exchange.Answer.of reply) :=
  (Hop.exchange.explains_judge reply).bind fun _ => explains_payload _ _

theorem explains_advance (c : Configuration) (f : Fetch) (w : World) :
    Explains (c.trouble? w f) ((c.advance f).run w).1 := by
  cases f with
  | begun held =>
    rw [advance, Action.run_map]
    exact (c.explains_subjectToken w).map _
  | identified held subject =>
    refine explains_bind ?_ fun answer => ?_
    · rw [Exchange.run_eq]
      exact explains_exchange w.reply
    · cases c.impersonation? with
      | some i => exact failsOwn_pure _
      | none => exact fun w => (explains_token answer w.clock).map _
  | exchanged i held caller =>
    rw [advance, Action.run_map, trouble?]
    by_cases hl : Impersonation.isLegal caller held = true
    · rw [if_pos hl, i.run_of_isLegal hl]
      have hanswer : Explains (w.reply.trouble? .impersonation) (Impersonation.Answer.of w.reply) :=
        (Hop.impersonation.explains_judge w.reply).bind fun _ => explains_payload _ _
      exact (hanswer.bind fun a => explains_impersonated a _ _).map _
    · rw [if_neg hl, i.run_of_not_isLegal hl]
      exact explains_error trivial

end Configuration

/-! ## refreshes -/

namespace Credentials

/-- a refresh that begins in the world `w` comes to the stage in the world `v`, with the credentials
as they were -/
inductive Reaches (c : Credentials) (w : World) : Stage → World → Prop where
  | begun : Reaches c w .begun w
  | step {stage stage' : Stage} {v v' : World} (h : Reaches c w stage v)
      (hp : c.proceed stage v = (.moved stage', c, v')) : Reaches c w stage' v'

variable {c c' : Credentials} {stage : Stage} {w w' v : World} {e : Failure} {token : Token}

theorem Reaches.refresh_eq (h : c.Reaches w stage v) : c.refresh w = c.complete stage v := by
  induction h with
  | begun => exact Credentials.refresh_eq c w
  | step _ hp ih => rw [ih, complete_eq, hp]

/-- in any stage of any refresh, alone or among others: what is told to a step is its failure -/
theorem proceed_of_trouble {f : Fetch} {t : Trouble}
    (ht : c.account.configuration.trouble? w f = some t) :
    ∃ w', c.proceed (.fetching f) w = (.failed t.failure, c, w') := by
  have hadvance := c.account.configuration.explains_advance f w
  rw [ht] at hadvance
  rw [proceed]
  rcases ha : (c.account.configuration.advance f).run w with ⟨r, w'⟩
  rw [ha] at hadvance
  have hr : r = .error t.failure := hadvance
  subst hr
  exact ⟨w', rfl⟩

theorem explains_of_failed (h : c.proceed stage w = (.failed e, c', w')) :
    ∃ f, stage = .fetching f ∧
      Explains (c.account.configuration.trouble? w f) (.error e : Except Failure Unit) := by
  obtain ⟨_, f, rfl, ha⟩ := proceed_failed h
  have hadvance := c.account.configuration.explains_advance f w
  rw [ha] at hadvance
  refine ⟨f, rfl, ?_⟩
  cases ht : c.account.configuration.trouble? w f with
  | some t =>
    rw [ht] at hadvance
    exact congrArg _ (Except.error.inj hadvance)
  | none =>
    rw [ht] at hadvance
    exact explains_error (hadvance e rfl)

theorem error_of_reaches {f : Fetch} {t : Trouble} (h : c.Reaches w (.fetching f) v)
    (ht : c.account.configuration.trouble? v f = some t) :
    ∃ w', c.refresh w = (.error t.failure, c, w') := by
  obtain ⟨w', hp⟩ := proceed_of_trouble ht
  refine ⟨w', ?_⟩
  rw [h.refresh_eq, complete_eq, hp]

theorem reaches_of_error (h : (c.refresh w).1 = .error e) : ∃ f v, c.Reaches w (.fetching f) v ∧
    Explains (c.account.configuration.trouble? v f) (.error e : Except Failure Unit) := by
  have hall : ∀ (d : Credentials) (stage : Stage) (v : World), d = c → c.Reaches w stage v →
      (d.complete stage v).1 = .error e → ∃ f v, c.Reaches w (.fetching f) v ∧
        Explains (c.account.configuration.trouble? v f) (.error e : Except Failure Unit) := by
    refine complete_induction (P := fun d stage v => d = c → c.Reaches w stage v →
      (d.complete stage v).1 = .error e → ∃ f v, c.Reaches w (.fetching f) v ∧
        Explains (c.account.configuration.trouble? v f) (.error e : Except Failure Unit)) ?_ ?_
    · intro d stage v d' stage' v' hp ih hd hreach he
      subst hd
      obtain ⟨_, _, rfl, _⟩ | ⟨_, _, _, _, rfl, _⟩ | ⟨_, _, _, _, rfl, _⟩ |
        ⟨token, rfl, _⟩ := proceed_moved hp
      · rw [complete_eq, hp] at he
        exact ih rfl (hreach.step hp) he
      · rw [complete_eq, hp] at he
        exact ih rfl (hreach.step hp) he
      · rw [complete_eq, hp] at he
        exact ih rfl (hreach.step hp) he
      · cases he
    · intro d stage v hover hd hreach he
      subst hd
      rcases hp : d.proceed stage v with ⟨stage' | f | token, d', v'⟩
      · exact absurd (congrArg Prod.fst hp) (hover stage')
      · rw [complete_eq, hp] at he
        cases he
        obtain ⟨f, rfl, hf⟩ := explains_of_failed hp
        exact ⟨f, v, hreach, hf⟩
      · rw [complete_eq, hp] at he
        cases he
  exact hall c .begun w rfl .begun (by rw [← Credentials.refresh_eq]; exact h)

/-- once the token is there, the refresh succeeds and publishes it, whatever comes of the lookup; a
lookup without a boundary leaves the one that was there -/
theorem refresh_of_fetched (h : c.Reaches w (.fetched token) v) :
    (c.refresh w).1 = .ok () ∧ (c.refresh w).2.1.token = some token ∧
      ((Boundary.ofReply v.reply).toOption = none →
        (c.refresh w).2.1.boundary = c.boundary) := by
  rw [h.refresh_eq]
  refine ⟨rfl, rfl, fun hnone => ?_⟩
  show (c.lookup token v).1 = c.boundary
  rw [lookup_eq]
  cases c.request? v.environment (.fetched token) with
  | none => rfl
  | some r =>
    dsimp only
    rw [hnone]
    rfl

/-- errors keep what they say of later attempts, in finding a subject token and in every refresh,
and a lookup adds none -/
theorem failures_keep_their_outlook :
    (∀ r s : Report, r.RestsOn s → ∃ front,
      (Failure.supplier r.transient r.text).text = front ++ s.text) ∧
    (∀ (c : Configuration) (w : World),
      (∀ t, c.source.trouble? w = some t → (c.subjectToken.run w).1 = .error t.failure) ∧
      ∀ f, (c.subjectToken.run w).1 = .error f → f.Follows (c.source.trouble? w)) ∧
    (∀ (c : Credentials) (w : World) (f : Fetch) (t : Trouble),
      c.account.configuration.trouble? w f = some t →
        ∃ w', c.proceed (.fetching f) w = (.failed t.failure, c, w')) ∧
    (∀ (c c' : Credentials) (stage : Stage) (w w' : World) (e : Failure),
      c.proceed stage w = (.failed e, c', w') →
        ∃ f, stage = .fetching f ∧ e.Follows (c.account.configuration.trouble? w f)) ∧
    (∀ (c : Credentials) (w v : World) (f : Fetch) (t : Trouble), c.Reaches w (.fetching f) v →
      c.account.configuration.trouble? v f = some t →
        ∃ w', c.refresh w = (.error t.failure, c, w')) ∧
    (∀ (c : Credentials) (w : World) (e : Failure), (c.refresh w).1 = .error e →
      ∃ f v, c.Reaches w (.fetching f) v ∧
        e.Follows (c.account.configuration.trouble? v f)) ∧
    ∀ (c : Credentials) (w v : World) (token : Token), c.Reaches w (.fetched token) v →
      (c.refresh w).1 = .ok () ∧ (c.refresh w).2.1.token = some token ∧
        ((Boundary.ofReply v.reply).toOption = none →
          (c.refresh w).2.1.boundary = c.boundary) := by
  refine ⟨fun r s h => ?_, fun c w => ⟨fun t ht => ?_, fun f hf => ?_⟩,
    fun c w f t ht => proceed_of_trouble ht, fun c c' stage w w' e h => ?_,
    fun c w v f t h ht => error_of_reaches h ht, fun c w e h => ?_,
    fun c w v token h => refresh_of_fetched h⟩
  · obtain ⟨front, hfront⟩ := h.text
    refine ⟨Report.outlook r.transient ++ ", " ++ front, ?_⟩
    rw [String.append_assoc, ← hfront]
    exact Report.text_wrap r.transient r.text
  · have hsubject := c.explains_subjectToken w
    rw [ht] at hsubject
    exact hsubject
  · exact (c.explains_subjectToken w).follows hf
  · obtain ⟨f, hstage, hf⟩ := explains_of_failed h
    exact ⟨f, hstage, hf.follows rfl⟩
  · obtain ⟨f, v, hreach, hf⟩ := reaches_of_error h
    exact ⟨f, v, hreach, hf.follows rfl⟩

end Credentials

end Federation
