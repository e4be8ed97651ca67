import Federation.Proofs.Refresh.Journal

/-!
# Where the secrets of a refresh go

Two refreshes of the same credentials are compared, with what is to be seen of them.  If they differ
in the subject token, all else stays the same but one field of the form that is posted; if they
differ in the access token that this is exchanged for, all else but one authorization.

* `Credentials.seen_alike`        what is seen depends on answers, clocks and the environment;
* `Credentials.subject_confined`  the subject token is in one field of one request;
* `Credentials.access_confined`   the access token is in one header of one request.
-/

namespace Federation

/-! ## headers -/

namespace Http

theorem Headers.without_eq_self {hs : Headers} {name : String} (hn : name ∉ hs.map Header.name) :
    hs.without name = hs := by
  refine List.filter_eq_self.2 fun h hm => ?_
  have hne : h.name ≠ name := fun he => hn (he ▸ List.mem_map_of_mem hm)
  exact decide_eq_true hne

theorem Headers.setEach_eq_append (planned : List Header) (hl : planned.all (isValue ·.value)) :
    ∀ hs : Headers, ((hs ++ planned).map Header.name).Nodup →
      hs.setEach planned = (true, hs ++ planned) := by
  induction planned with
  | nil =>
    intro hs _
    rw [setEach_nil, List.append_nil]
  | cons h planned ih =>
    intro hs hn
    rw [List.all_cons, Bool.and_eq_true] at hl
    have hnew : h.name ∉ hs.map Header.name := by
      rw [List.map_append, List.nodup_append] at hn
      intro hm
      exact hn.2.2 _ hm _ (List.mem_map_of_mem List.mem_cons_self) rfl
    have hset : hs.set h = hs ++ [h] := by
      rw [set, without_eq_self hnew]
    rw [setEach_cons_of_isValue hs planned hl.1, hset, ih hl.2 (hs ++ [h])]
    · rw [List.append_assoc, List.singleton_append]
    · rw [List.append_assoc, List.singleton_append]
      exact hn

/-- the requests differ at most in the token that authorizes them -/
def Request.AlikeBut (token token' : String) (r r' : Request) : Prop :=
  ∃ method url front back body,
    r = ⟨method, url, front ++ bearer token :: back, body⟩ ∧
    r' = ⟨method, url, front ++ bearer token' :: back, body⟩

end Http

theorem Impersonation.request_eq (i : Impersonation) {caller : String} {held : Option Boundary}
    (hl : isLegal caller held = true) :
    i.request caller held = .post i.url (planned caller held) i.body.compact := by
  have hn : ((planned caller held).map Http.Header.name).Nodup := by
    cases held with
    | none =>
      show ["content-type", Http.authorization, "x-goog-api-client"].Nodup
      decide
    | some b =>
      show ["content-type", Http.authorization, "x-goog-api-client", "x-allowed-locations"].Nodup
      decide
  rw [request, Http.Headers.setEach_eq_append _ hl [] hn]
  rfl

theorem Impersonation.isLegal_congr {t t' : String}
    (ht : Http.isValue (Http.bearer t).value = true)
    (ht' : Http.isValue (Http.bearer t').value = true) (held : Option Boundary) :
    isLegal t held = isLegal t' held := by
  simp only [isLegal, planned, List.cons_append, List.all_cons, ht, ht']

theorem Boundary.request_eq {url token : String}
    (hl : Http.isValue (Http.bearer token).value = true) :
    request url token = .get url [Http.bearer token] := by
  have h := Http.Headers.setEach_cons_of_isValue [] [] hl
  rw [request, h]
  rfl

/-! ## worlds that a refresh cannot tell apart -/

namespace World

/-- a refresh that has its subject token cannot tell these worlds apart -/
structure Alike (v v' : World) : Prop where
  environment : v.environment = v'.environment
  wall : v.wall = v'.wall
  clock : v.clock = v'.clock
  replies : v.replies = v'.replies
  silence : v.silence = v'.silence

theorem Alike.reply {v v' : World} (h : v.Alike v') : v.reply = v'.reply := by
  rw [World.reply, World.reply, h.replies, h.silence]

theorem Alike.afterRequest {v v' : World} (h : v.Alike v') (r r' : Http.Request) :
    (v.afterRequest r).Alike (v'.afterRequest r') :=
  ⟨h.environment, h.wall, h.clock, congrArg List.tail h.replies, h.silence⟩

structure Agree {α : Type} (x y : α × World) : Prop where
  outcome : x.1 = y.1
  worlds : x.2.Alike y.2

end World

open World (Agree)

namespace Configuration

variable (c : Configuration) {v v' : World}

theorem agree_advance_identified {c c' : Configuration} (hi : c.impersonation? = c'.impersonation?)
    (hv : v.Alike v') (held : Option Boundary) (subject subject' : String) :
    Agree ((c.advance (.identified held subject)).run v)
      ((c'.advance (.identified held subject')).run v') := by
  have hw := hv.afterRequest (c.exchange subject).request (c'.exchange subject').request
  rw [advance, advance, Action.run_bind, Action.run_bind, Exchange.run_eq, Exchange.run_eq,
    hv.reply, hi]
  cases Exchange.Answer.of v'.reply with
  | error f => exact ⟨rfl, hw⟩
  | ok a =>
    dsimp only
    cases c'.impersonation? with
    | some i => exact ⟨rfl, hw⟩
    | none =>
      refine ⟨?_, hw⟩
      show (a.token _).map _ = (a.token _).map _
      rw [hw.clock]

theorem agree_advance_exchanged (hv : v.Alike v') (i : Impersonation) (held : Option Boundary)
    {caller caller' : String}
    (hl : Impersonation.isLegal caller held = Impersonation.isLegal caller' held) :
    Agree ((c.advance (.exchanged i held caller)).run v)
      ((c.advance (.exchanged i held caller')).run v') := by
  rw [advance, advance, Action.run_map, Action.run_map]
  by_cases h : Impersonation.isLegal caller held = true
  · have h' := hl ▸ h
    rw [i.run_of_isLegal h, i.run_of_isLegal h', hv.reply, hv.wall, hv.clock]
    exact ⟨rfl, hv.afterRequest _ _⟩
  · have h' := hl ▸ h
    rw [i.run_of_not_isLegal h, i.run_of_not_isLegal h']
    exact ⟨rfl, hv⟩

end Configuration

namespace Credentials

variable {c : Credentials} {stage : Stage} {v v' w w' : World}

theorem agree_lookup (c : Credentials) (token : Token) (hv : v.Alike v') :
    Agree (c.lookup token v) (c.lookup token v') := by
  rw [lookup_eq, lookup_eq, hv.environment]
  cases c.request? v'.environment (.fetched token) with
  | none => exact ⟨rfl, hv⟩
  | some r =>
    dsimp only
    rw [hv.reply]
    exact ⟨rfl, hv.afterRequest _ _⟩

def Progress.Agree (x y : Progress × Credentials × World) : Prop :=
  x.1 = y.1 ∧ x.2.1 = y.2.1 ∧ x.2.2.Alike y.2.2

theorem agree_proceed_fetching {f f' : Fetch}
    (h : Agree ((c.account.configuration.advance f).run v)
      ((c.account.configuration.advance f').run v')) :
    Progress.Agree (c.proceed (.fetching f) v) (c.proceed (.fetching f') v') := by
  obtain ⟨hr, hw⟩ := h
  rw [proceed, proceed]
  generalize (c.account.configuration.advance f).run v = x at hr hw
  generalize (c.account.configuration.advance f').run v' = y at hr hw
  obtain ⟨r, u⟩ := x
  obtain ⟨r', u'⟩ := y
  obtain rfl : r = r' := hr
  rcases r with _ | _ | _
  all_goals exact ⟨rfl, rfl, hw⟩

theorem agree_proceed (c : Credentials) (hs : ¬stage.IsEarly) (hv : v.Alike v') :
    Progress.Agree (c.proceed stage v) (c.proceed stage v') := by
  cases stage with
  | begun => exact absurd trivial hs
  | fetching f =>
    cases f with
    | begun held => exact absurd trivial hs
    | identified held subject =>
      exact agree_proceed_fetching
        (Configuration.agree_advance_identified rfl hv held subject subject)
    | exchanged i held caller =>
      exact agree_proceed_fetching
        (c.account.configuration.agree_advance_exchanged hv i held rfl)
  | fetched token =>
    obtain ⟨hb, hw⟩ := c.agree_lookup token hv
    exact ⟨rfl, congrArg (fun b => { c with boundary := b }) hb, hw⟩
  | located token => exact ⟨rfl, rfl, hv⟩

/-! ## what is to be seen of a refresh -/

/-- what is to be seen of a refresh from a stage on -/
structure Seen where
  requests : List Http.Request
  result : Except Failure Unit
  credentials : Credentials

def seen (c : Credentials) (stage : Stage) (w : World) : Seen where
  requests := (c.journal stage w).map Sent.request
  result := (c.complete stage w).1
  credentials := (c.complete stage w).2.1

def Seen.after (x : Seen) (rs : List Http.Request) : Seen := { x with requests := rs ++ x.requests }

theorem seen_of_moved {c' : Credentials} {stage' : Stage}
    (h : c.proceed stage w = (.moved stage', c', w')) :
    c.seen stage w
      = (c'.seen stage' w').after ((c.request? w.environment stage).toList.map Prod.snd) := by
  rw [seen, journal_of_moved h, List.map_append, map_request_sends, complete_eq, h]
  rfl

theorem seen_of_failed {c' : Credentials} {f : Failure}
    (h : c.proceed stage w = (.failed f, c', w')) :
    c.seen stage w = ⟨(c.request? w.environment stage).toList.map Prod.snd, .error f, c'⟩ := by
  rw [seen, journal_of_over h nofun, map_request_sends, complete_eq, h]

theorem seen_of_published {c' : Credentials} {token : Token}
    (h : c.proceed stage w = (.published token, c', w')) :
    c.seen stage w = ⟨(c.request? w.environment stage).toList.map Prod.snd, .ok (), c'⟩ := by
  rw [seen, journal_of_over h nofun, map_request_sends, complete_eq, h]

def Seen.map (g : Credentials → Credentials) (x : Seen) : Seen :=
  { x with credentials := g x.credentials }

/-- two steps come to the same, and the second leaves `g` of what the first does -/
structure Alongside (g : Credentials → Credentials) (x y : Progress × Credentials × World) :
    Prop where
  progress : y.1 = x.1
  credentials : y.2.1 = g x.2.1
  worlds : x.2.2.Alike y.2.2

theorem seen_of_alongside {g : Credentials → Credentials} {c₁ c₂ : Credentials} {stage' : Stage}
    (h : Alongside g (c₁.proceed stage v) (c₂.proceed stage' v'))
    (hrest : ∀ next c' u u', c₁.proceed stage v = (.moved next, c', u) → u.Alike u' →
      (g c').seen next u' = (c'.seen next u).map g) :
    ∃ x : Seen,
      c₁.seen stage v = x.after ((c₁.request? v.environment stage).toList.map Prod.snd) ∧
      c₂.seen stage' v'
        = (x.map g).after ((c₂.request? v'.environment stage').toList.map Prod.snd) := by
  have hnil : ∀ rs : List Http.Request, rs = rs ++ [] := fun rs => (List.append_nil rs).symm
  rcases hp : c₁.proceed stage v with ⟨next | f | token, c', u⟩
  all_goals
    rcases hp' : c₂.proceed stage' v' with ⟨y, c'', u'⟩
    rw [hp, hp'] at h
    obtain ⟨hy, hc, hu⟩ := h
    obtain rfl := hy
    obtain rfl : c'' = g c' := hc
  · refine ⟨c'.seen next u, seen_of_moved hp, ?_⟩
    rw [← hrest next c' u u' hp hu]
    exact seen_of_moved hp'
  · refine ⟨⟨[], .error f, c'⟩, ?_, ?_⟩
    · rw [seen_of_failed hp, Seen.after, ← hnil]
    · rw [seen_of_failed hp', Seen.after, Seen.map, ← hnil]
  · refine ⟨⟨[], .ok (), c'⟩, ?_, ?_⟩
    · rw [seen_of_published hp, Seen.after, ← hnil]
    · rw [seen_of_published hp', Seen.after, Seen.map, ← hnil]

theorem seen_of_agree {stage' : Stage}
    (h : Progress.Agree (c.proceed stage v) (c.proceed stage' v'))
    (hrest : ∀ next c' u u', (c.proceed stage v) = (.moved next, c', u) → u.Alike u' →
      c'.seen next u = c'.seen next u') :
    ∃ x : Seen,
      c.seen stage v = x.after ((c.request? v.environment stage).toList.map Prod.snd) ∧
      c.seen stage' v' = x.after ((c.request? v'.environment stage').toList.map Prod.snd) :=
  seen_of_alongside (g := id) ⟨h.1.symm, h.2.1.symm, h.2.2⟩
    fun next c' u u' hp hu => (hrest next c' u u' hp hu).symm

/-- once it has its subject token a refresh looks at nothing but the answers, the clocks and the
environment -/
theorem seen_alike (c : Credentials) (stage : Stage) (v v' : World) (hs : ¬stage.IsEarly)
    (hv : v.Alike v') : c.seen stage v = c.seen stage v' := by
  refine complete_induction (P := fun c stage v => ∀ v', ¬stage.IsEarly → v.Alike v' →
    c.seen stage v = c.seen stage v') ?_ ?_ c stage v v' hs hv
  · intro c stage v c' stage' u hp ih v' hs hv
    obtain ⟨x, hx, hx'⟩ := seen_of_agree (agree_proceed c hs hv) (by
      intro next c'' u₁ u₂ hn hu
      rw [hp] at hn
      cases hn
      exact ih u₂ (fun he => hs (by rw [begun_of_moved hp he]; trivial)) hu)
    rw [hx, hx', hv.environment]
  · intro c stage v hover v' hs hv
    obtain ⟨x, hx, hx'⟩ := seen_of_agree (agree_proceed c hs hv) (by
      intro next c'' u₁ u₂ hn _
      exact absurd (congrArg Prod.fst hn) (hover next))
    rw [hx, hx', hv.environment]

theorem exists_seen (c : Credentials) (stage : Stage) (w : World) :
    ∃ x : Seen, c.seen stage w
      = x.after ((c.request? w.environment stage).toList.map Prod.snd) := by
  rcases hp : c.proceed stage w with ⟨next | f | token, c', u⟩
  · exact ⟨_, seen_of_moved hp⟩
  · refine ⟨⟨[], .error f, c'⟩, ?_⟩
    rw [seen_of_failed hp, Seen.after, List.append_nil]
  · refine ⟨⟨[], .ok (), c'⟩, ?_⟩
    rw [seen_of_published hp, Seen.after, List.append_nil]

/-! ## the subject token -/

theorem not_isEarly_of_moved {c' : Credentials} {f : Fetch} {next : Stage}
    (h : c.proceed (.fetching f) w = (.moved next, c', w')) : ¬next.IsEarly := by
  intro he
  cases begun_of_moved h he

/-- what a refresh sends of its own to find the subject token -/
def asks (c : Credentials) : List Http.Request :=
  (c.account.configuration.request? (.begun c.boundary)).toList.map Prod.snd

theorem seen_of_subjectToken {subject : String}
    (hs : c.account.configuration.subjectToken.run w = (.ok subject, v)) :
    c.seen .begun w = (c.seen (.fetching (.identified c.boundary subject)) v).after c.asks := by
  have hbegun : c.proceed .begun w = (.moved (.fetching (.begun c.boundary)), c, w) := rfl
  have hfound : c.proceed (.fetching (.begun c.boundary)) w
      = (.moved (.fetching (.identified c.boundary subject)), c, v) := by
    rw [proceed, Configuration.advance, Action.run_map, hs]
    rfl
  rw [seen_of_moved hbegun, seen_of_moved hfound]
  rfl

/-- two refreshes send the same up to the exchange but for the subject token that is exchanged, and
what is different afterwards is not for that -/
theorem subject_confined {subject subject' : String}
    (hs : c.account.configuration.subjectToken.run w = (.ok subject, v))
    (hs' : c.account.configuration.subjectToken.run w' = (.ok subject', v')) :
    ∃ x x' : Seen,
      c.seen .begun w
        = x.after (c.asks ++ [(c.account.configuration.exchange subject).request]) ∧
      c.seen .begun w'
        = x'.after (c.asks ++ [(c.account.configuration.exchange subject').request]) ∧
      (v.Alike v' → x = x') := by
  have hjoin : ∀ (x : Seen) (r : Http.Request),
      (x.after [r]).after c.asks = x.after (c.asks ++ [r]) := by
    intro x r
    simp only [Seen.after, List.append_assoc]
  rw [seen_of_subjectToken hs, seen_of_subjectToken hs']
  by_cases hv : v.Alike v'
  · obtain ⟨x, hx, hx'⟩ := seen_of_agree
      (agree_proceed_fetching (c := c)
        (Configuration.agree_advance_identified rfl hv c.boundary subject subject'))
      (fun next c' u u' hn hu => seen_alike c' next u u' (not_isEarly_of_moved hn) hu)
    refine ⟨x, x, ?_, ?_, fun _ => rfl⟩
    · rw [hx, ← hjoin]
      rfl
    · rw [hx', ← hjoin]
      rfl
  · obtain ⟨x, hx⟩ := c.exists_seen (.fetching (.identified c.boundary subject)) v
    obtain ⟨x', hx'⟩ := c.exists_seen (.fetching (.identified c.boundary subject')) v'
    refine ⟨x, x', ?_, ?_, fun h => absurd h hv⟩
    · rw [hx, ← hjoin]
      rfl
    · rw [hx', ← hjoin]
      rfl

end Credentials

theorem Configuration.exchange_request_eq (c : Configuration) :
    ∃ headers front back, ∀ subject, (c.exchange subject).request
      = .post c.tokenUrl headers (Form.encode (front ++ ("subject_token", subject) :: back)) := by
  refine ⟨(c.exchange "").headers, [("grant_type", Exchange.grantType), ("audience", c.audience)] ++
    Exchange.scopeFields (c.exchange "").scopes ++
      [("requested_token_type", Exchange.accessTokenType)],
    ("subject_token_type", c.tokenType) :: Exchange.optionFields (c.exchange "").userProject, ?_⟩
  intro subject
  rw [Exchange.request, Exchange.form]
  simp only [exchange, Exchange.headers, List.append_assoc, List.cons_append, List.nil_append]

/-! ## the access token -/

namespace Exchange.Answer

variable {a : Answer} {now : Clock.Reading}

theorem token_value {token : Token} (h : a.token now = .ok token) :
    token.value = a.accessToken := by
  rw [Answer.token] at h
  cases hd : Clock.deadline? now (a.seconds * Clock.second) with
  | none =>
    rw [hd] at h
    cases h
  | some expiry =>
    rw [hd] at h
    cases h
    rfl

theorem token_of_other (value : String) :
    ({ a with accessToken := value } : Answer).token now
      = (a.token now).map fun token => { token with value := value } := by
  have hs : ({ a with accessToken := value } : Answer).seconds = a.seconds := rfl
  rw [Answer.token, Answer.token, hs]
  cases Clock.deadline? now (a.seconds * Clock.second) with
  | none => rfl
  | some expiry => rfl

end Exchange.Answer

theorem Configuration.run_advance_of_answer (c : Configuration) (held : Option Boundary)
    (subject : String) {v : World} {a : Exchange.Answer}
    (ha : Exchange.Answer.of v.reply = .ok a) :
    (c.advance (.identified held subject)).run v =
      (match c.impersonation? with
        | some i => .ok (.inl (.exchanged i held a.accessToken))
        | none => (a.token v.clock).map .inr, v.afterRequest (c.exchange subject).request) := by
  rw [advance, Action.run_bind, Exchange.run_eq, ha]
  show (match c.impersonation? with
    | some i => pure (.inl (.exchanged i held a.accessToken))
    | none => fun w => ((a.token w.clock).map .inr, w) : Action (Fetch ⊕ Token)).run _ = _
  cases c.impersonation? with
  | some i => rfl
  | none => rfl

namespace Credentials

variable {c : Credentials} {v w w' : World} {subject : String}

theorem proceed_of_answer (c : Credentials) (held : Option Boundary) (subject : String)
    {a : Exchange.Answer} (ha : Exchange.Answer.of v.reply = .ok a) :
    c.proceed (.fetching (.identified held subject)) v =
      (match c.account.configuration.impersonation? with
        | some i => .moved (.fetching (.exchanged i held a.accessToken))
        | none => match a.token v.clock with
          | .error f => .failed f
          | .ok token => .moved (.fetched token),
        c, v.afterRequest (c.account.configuration.exchange subject).request) := by
  rw [proceed, Configuration.run_advance_of_answer _ held subject ha]
  generalize a.token v.clock = r
  cases c.account.configuration.impersonation? with
  | some i => rfl
  | none => cases r <;> rfl

theorem seen_fetched (c : Credentials) (token : Token) (w : World) :
    c.seen (.fetched token) w =
      ⟨(c.request? w.environment (.fetched token)).toList.map Prod.snd, .ok (),
        { c with token := some token, boundary := (c.lookup token w).1 }⟩ := by
  have hmoved : c.proceed (.fetched token) w
      = (.moved (.located token), { c with boundary := (c.lookup token w).1 },
        (c.lookup token w).2) := rfl
  have hover : ∀ (c : Credentials) (w : World), c.proceed (.located token) w
      = (.published token, { c with token := some token }, w) := fun _ _ => rfl
  rw [seen_of_moved hmoved, seen_of_published (hover _ _), Seen.after]
  congr 1
  exact List.append_nil _

/-- the request that the access token of an exchange is for: the impersonation if there is one, and
the lookup otherwise -/
def Takes (c : Credentials) (token : String) (r : Http.Request) : Prop :=
  match c.account.configuration.impersonation? with
  | some i => r = i.request token c.boundary
  | none => ∃ url, r = Boundary.request url token

/-- what is to be seen of two refreshes that were given the access tokens `token` and `token'`: they
send the same but for these, in one request at most -/
structure Apart (c : Credentials) (token token' : String) (r : Http.Request) (x x' : Seen) :
    Prop where
  requests : ∃ (q q' : Option Http.Request) (rest : List Http.Request),
    Option.Rel (Http.Request.AlikeBut token token') q q' ∧ (∀ r' ∈ q, c.Takes token r') ∧
    x.requests = r :: (q.toList ++ rest) ∧ x'.requests = r :: (q'.toList ++ rest)
  result : x.result = x'.result
  /-- nothing is left of the token once it has served to impersonate -/
  credentials : c.account.configuration.impersonation?.isSome → x.credentials = x'.credentials

section
variable {a : Exchange.Answer} {token' : String} {v' : World}

theorem apart_of_impersonation {i : Impersonation}
    (hi : c.account.configuration.impersonation? = some i)
    (hl : Http.isValue (Http.bearer a.accessToken).value = true)
    (hl' : Http.isValue (Http.bearer token').value = true)
    (ha : Exchange.Answer.of v.reply = .ok a)
    (ha' : Exchange.Answer.of v'.reply = .ok { a with accessToken := token' })
    (hu : (v.afterRequest (c.account.configuration.exchange subject).request).Alike
      (v'.afterRequest (c.account.configuration.exchange subject).request)) :
    c.Apart a.accessToken token' (c.account.configuration.exchange subject).request
      (c.seen (.fetching (.identified c.boundary subject)) v)
      (c.seen (.fetching (.identified c.boundary subject)) v') := by
  have hp := c.proceed_of_answer c.boundary subject ha
  have hp' := c.proceed_of_answer c.boundary subject ha'
  rw [hi] at hp hp'
  have hlegal := Impersonation.isLegal_congr hl hl' c.boundary
  obtain ⟨x, hx, hx'⟩ := seen_of_agree (agree_proceed_fetching (c := c)
      (c.account.configuration.agree_advance_exchanged hu i c.boundary hlegal))
    (fun next c' u u' hn hu => seen_alike c' next u u' (not_isEarly_of_moved hn) hu)
  rw [seen_of_moved hp, seen_of_moved hp', hx, hx']
  refine ⟨?_, rfl, fun _ => rfl⟩
  by_cases h : Impersonation.isLegal a.accessToken c.boundary = true
  · have h' := hlegal ▸ h
    refine ⟨some (i.request a.accessToken c.boundary), some (i.request token' c.boundary),
      x.requests, .some ?_, ?_, ?_, ?_⟩
    · rw [i.request_eq h, i.request_eq h']
      exact ⟨.post, i.url, [_], _, _, rfl, rfl⟩
    · intro r hr
      cases hr
      rw [Takes, hi]
    · simp only [Seen.after, request?, Configuration.request?, if_pos h]
      rfl
    · simp only [Seen.after, request?, Configuration.request?, if_pos h']
      rfl
  · have h' := hlegal ▸ h
    refine ⟨none, none, x.requests, .none, fun _ hr => absurd hr (Option.not_mem_none _), ?_, ?_⟩
    · simp only [Seen.after, request?, Configuration.request?, if_neg h]
      rfl
    · simp only [Seen.after, request?, Configuration.request?, if_neg h']
      rfl

theorem apart_of_fetched {token : Token} {u u' : World}
    (hi : c.account.configuration.impersonation? = none)
    (hl : Http.isValue (Http.bearer token.value).value = true)
    (hl' : Http.isValue (Http.bearer token').value = true) (he : u.environment = u'.environment)
    (r : Http.Request) :
    c.Apart token.value token' r ((c.seen (.fetched token) u).after [r])
      ((c.seen (.fetched { token with value := token' }) u').after [r]) := by
  rw [seen_fetched, seen_fetched]
  refine ⟨?_, rfl, fun h => by rw [hi] at h; cases h⟩
  cases hlook : c.account.lookup? u'.environment with
  | none =>
    refine ⟨none, none, [], .none, fun _ hr => absurd hr (Option.not_mem_none _), ?_, ?_⟩
    · simp only [Seen.after, request?, he, hlook]
      rfl
    · simp only [Seen.after, request?, hlook]
      rfl
  | some url =>
    refine ⟨some (Boundary.request url token.value), some (Boundary.request url token'), [],
      .some ?_, ?_, ?_, ?_⟩
    · rw [Boundary.request_eq hl, Boundary.request_eq hl']
      exact ⟨.get, url, [], [], none, rfl, rfl⟩
    · intro r hr
      cases hr
      rw [Takes, hi]
      exact ⟨url, rfl⟩
    · simp only [Seen.after, request?, he, hlook, if_pos hl]
      rfl
    · simp only [Seen.after, request?, hlook, if_pos hl']
      rfl

theorem apart_of_answers
    (hl : Http.isValue (Http.bearer a.accessToken).value = true)
    (hl' : Http.isValue (Http.bearer token').value = true)
    (ha : Exchange.Answer.of v.reply = .ok a)
    (ha' : Exchange.Answer.of v'.reply = .ok { a with accessToken := token' })
    (hu : (v.afterRequest (c.account.configuration.exchange subject).request).Alike
      (v'.afterRequest (c.account.configuration.exchange subject).request)) :
    c.Apart a.accessToken token' (c.account.configuration.exchange subject).request
      (c.seen (.fetching (.identified c.boundary subject)) v)
      (c.seen (.fetching (.identified c.boundary subject)) v') := by
  cases hi : c.account.configuration.impersonation? with
  | some i => exact apart_of_impersonation hi hl hl' ha ha' hu
  | none =>
    have hp := c.proceed_of_answer c.boundary subject ha
    have hp' := c.proceed_of_answer c.boundary subject ha'
    have hclock : v.clock = v'.clock := hu.clock
    rw [hi] at hp hp'
    rw [Exchange.Answer.token_of_other, ← hclock] at hp'
    cases hk : a.token v.clock with
    | error f =>
      rw [hk] at hp hp'
      rw [seen_of_failed hp, seen_of_failed hp']
      have hnone : ∀ r ∈ (none : Option Http.Request), c.Takes a.accessToken r :=
        fun _ hr => absurd hr (Option.not_mem_none _)
      exact ⟨⟨none, none, [], .none, hnone, rfl, rfl⟩, rfl, fun _ => rfl⟩
    | ok token =>
      rw [hk] at hp hp'
      have hvalue := Exchange.Answer.token_value hk
      rw [seen_of_moved hp, seen_of_moved hp', ← hvalue]
      rw [← hvalue] at hl
      exact apart_of_fetched hi hl hl' hu.environment _

end

/-- two refreshes that differ only in the access token that is given for the subject token send the
same but for one authorization -/
theorem access_confined {a : Exchange.Answer} {token' : String} {v' : World}
    (hs : c.account.configuration.subjectToken.run w = (.ok subject, v))
    (hs' : c.account.configuration.subjectToken.run w' = (.ok subject, v'))
    (hl : Http.isValue (Http.bearer a.accessToken).value = true)
    (hl' : Http.isValue (Http.bearer token').value = true)
    (ha : Exchange.Answer.of v.reply = .ok a)
    (ha' : Exchange.Answer.of v'.reply = .ok { a with accessToken := token' })
    (hu : (v.afterRequest (c.account.configuration.exchange subject).request).Alike
      (v'.afterRequest (c.account.configuration.exchange subject).request)) :
    ∃ x x' : Seen, c.seen .begun w = x.after c.asks ∧ c.seen .begun w' = x'.after c.asks ∧
      c.Apart a.accessToken token' (c.account.configuration.exchange subject).request x x' :=
  ⟨_, _, seen_of_subjectToken hs, seen_of_subjectToken hs', apart_of_answers hl hl' ha ha' hu⟩

end Credentials

end Federation
