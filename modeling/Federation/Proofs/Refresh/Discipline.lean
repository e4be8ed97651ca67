import Federation.Proofs.Account.Build
import Federation.Proofs.Refresh.Confinement
import Federation.Proofs.Traffic.Requests

/-!
# The shape of a refresh

What a refresh sends, in which order, to whom and on what condition, and what its requests say of
the secrets that it was told.

* `Course.orderly`               the requests of a refresh that others may come between;
* `Traffic.Job.extends_turn`     the turns of such a refresh make up a course;
* `Credentials.sentAlone`        the requests of a refresh that nothing comes between;
* `Credentials.confined`         the secrets in them;
* `refresh_is_disciplined`       all of this.
-/

namespace Federation

/-! ## one request -/

/-- where the request goes, and how -/
structure Sent.Aimed (s : Sent) (a : Account) : Prop where
  source : s.hop = .subjectToken → ∃ address headers format,
    a.configuration.source = .url address headers format ∧
      s.request = ⟨.get, address, headers, none⟩
  exchange : s.hop = .exchange →
    s.request.method = .post ∧ s.request.url = a.configuration.tokenUrl
  impersonation : s.hop = .impersonation →
    s.request.method = .post ∧ a.configuration.impersonationUrl = some s.request.url
  lookup : s.hop = .lookup →
    s.request.method = .get ∧ s.request.body = none ∧
      a.lookup? s.world.environment = some s.request.url

theorem Sent.Planned.aimed {s : Sent} {a : Account} (h : s.Planned a) : s.Aimed a := by
  obtain ⟨hop, r, w⟩ := s
  cases hop with
  | subjectToken => exact ⟨fun _ => h, nofun, nofun, nofun⟩
  | exchange =>
    obtain ⟨subject, hr⟩ := h
    refine ⟨nofun, fun _ => ?_, nofun, nofun⟩
    show r.method = _ ∧ r.url = _
    have hr : r = _ := hr
    rw [hr]
    exact ⟨rfl, rfl⟩
  | impersonation =>
    obtain ⟨i, caller, held, hi, hr⟩ := h
    refine ⟨nofun, nofun, fun _ => ?_, nofun⟩
    show r.method = _ ∧ _ = some r.url
    have hr : r = _ := hr
    obtain ⟨url, hu, hiu⟩ := Option.map_eq_some_iff.1 hi
    rw [hr, hu, ← hiu]
    exact ⟨rfl, rfl⟩
  | lookup =>
    obtain ⟨url, token, hu, hr⟩ := h
    refine ⟨nofun, nofun, nofun, fun _ => ?_⟩
    show r.method = _ ∧ r.body = _ ∧ _ = some r.url
    have hr : r = _ := hr
    rw [hr]
    exact ⟨rfl, rfl, hu⟩

/-! ## a refresh among others -/

/-- the requests `l` of a refresh that is at a stage or over are what they have to be -/
structure Orderly (a : Account) (l : List Sent) (x : Stage ⊕ Except Failure Token) : Prop where
  /-- they come in the order of their hops, each at most once -/
  order : (l.map Sent.hop).Sublist Hop.all
  aimed : ∀ s ∈ l, s.Aimed a
  /-- any that another one follows has got an answer that could be read -/
  answered : l.Pairwise fun s _ => s.Succeeded a.configuration
  /-- without one the refresh fails, unless it only looks the boundary up -/
  failed : ∀ result, x = .inr result → ∀ s ∈ l, s.hop ≠ .lookup → ¬s.Succeeded a.configuration →
    ∃ f, result = .error f
  /-- a refresh that succeeds has left none out -/
  complete : ∀ token, x = .inr (.ok token) → ∀ hop, hop ≠ .lookup →
    (hop ∈ l.map Sent.hop ↔ a.configuration.Asks hop)

theorem Course.orderly {a : Account} {l : List Sent} {x : Stage ⊕ Except Failure Token}
    (h : Course a l x) : Orderly a l x where
  order := h.order
  aimed := fun s hs => (h.planned s hs).aimed
  answered := h.answered
  failed := by
    rintro result rfl s hs hhop hno
    exact h.failed hs hhop hno
  complete := by
    rintro token rfl hop hhop
    exact h.complete hhop

namespace Traffic.Job

/-- what a turn of a refresh at a stage does, which has sent the requests `l` -/
structure Extends (owner : Owner) (stage : Stage) (c : Credentials) (w : World) (l : List Sent)
    (t : Turn) : Prop where
  next : (∃ stage', t.next = some (.refreshing owner stage') ∧
      Federation.Course c.account (l ++ c.sends stage w) (.inl stage')) ∨
    ∃ result, t.next = owner.next (result.map fun _ => ()) ∧
      Federation.Course c.account (l ++ c.sends stage w) (.inr result)
  sent : ∃ own, (own ≠ [] → c.account.configuration.source = .supplied) ∧
    w.Leads (own ++ (c.sends stage w).map Sent.request) t.world

theorem extends_turn (owner : Owner) {stage : Stage} {c : Credentials} {l : List Sent}
    (h : Federation.Course c.account l (.inl stage)) (w : World) :
    Extends owner stage c w l ((Job.refreshing owner stage).turn c w) := by
  refine ⟨?_, (Job.refreshing owner stage).leads_turn c w⟩
  have hstep := h.step rfl w
  rw [turn]
  rcases hp : c.proceed stage w with ⟨stage' | f | token, c', w'⟩
  · rw [hp] at hstep
    exact .inl ⟨stage', rfl, hstep⟩
  · rw [hp] at hstep
    exact .inr ⟨.error f, rfl, hstep⟩
  · rw [hp] at hstep
    exact .inr ⟨.ok token, rfl, hstep⟩

end Traffic.Job

/-! ## a refresh that nothing comes between -/

namespace Credentials

/-- what a refresh sends in the world `w` -/
structure SentAlone (c : Credentials) (w : World) : Prop where
  orderly : ∃ result : Except Failure Token,
    Orderly c.account (c.journal .begun w) (.inr result) ∧
      (c.refresh w).1 = result.map fun _ => ()
  /-- nothing else is sent, unless by a supplier, and that before -/
  leading : ∃ own, (own ≠ [] → c.account.configuration.source = .supplied) ∧
    w.Leads (own ++ (c.journal .begun w).map Sent.request) (c.refresh w).2.2 ∧
    ∀ front s back, c.journal .begun w = front ++ s :: back →
      w.Leads (own ++ front.map Sent.request) s.world
  /-- every step before a request has succeeded -/
  told : ∀ s ∈ c.journal .begun w, s.Told c w

theorem sentAlone (c : Credentials) (w : World) : c.SentAlone w := by
  obtain ⟨result, hcourse, hresult⟩ := c.course_journal .begun w [] .begun
  obtain ⟨own, hown, hbefore, hafter⟩ := c.leads_journal .begun w
  exact ⟨⟨result, hcourse.orderly, hresult⟩, ⟨own, fun hne => (hown hne).1, hafter, hbefore⟩,
    c.told_journal w⟩

structure Confined (c : Credentials) : Prop where
  /-- two refreshes send the same up to the exchange but for the subject token -/
  subject : ∀ {w w' v v' : World} {subject subject' : String},
    c.account.configuration.subjectToken.run w = (.ok subject, v) →
    c.account.configuration.subjectToken.run w' = (.ok subject', v') → ∃ x x' : Seen,
      c.seen .begun w
        = x.after (c.asks ++ [(c.account.configuration.exchange subject).request]) ∧
      c.seen .begun w'
        = x'.after (c.asks ++ [(c.account.configuration.exchange subject').request]) ∧
      (v.Alike v' → x = x')
  field : ∃ headers front back, ∀ subject,
    (c.account.configuration.exchange subject).request = .post c.account.configuration.tokenUrl
      headers (Form.encode (front ++ ("subject_token", subject) :: back))
  /-- two refreshes that differ in the access token that the exchange brings send the same but for
  this token, which is in one header -/
  access : ∀ {w w' v v' : World} {subject token' : String} {a : Exchange.Answer},
    c.account.configuration.subjectToken.run w = (.ok subject, v) →
    c.account.configuration.subjectToken.run w' = (.ok subject, v') →
    Http.isValue (Http.bearer a.accessToken).value = true →
    Http.isValue (Http.bearer token').value = true →
    Exchange.Answer.of v.reply = .ok a →
    Exchange.Answer.of v'.reply = .ok { a with accessToken := token' } →
    (v.afterRequest (c.account.configuration.exchange subject).request).Alike
      (v'.afterRequest (c.account.configuration.exchange subject).request) →
    ∃ x x' : Seen, c.seen .begun w = x.after c.asks ∧ c.seen .begun w' = x'.after c.asks ∧
      c.Apart a.accessToken token' (c.account.configuration.exchange subject).request x x'

theorem confined (c : Credentials) : c.Confined :=
  ⟨fun hs hs' => subject_confined hs hs', c.account.configuration.exchange_request_eq,
    fun hs hs' hl hl' ha ha' hu => access_confined hs hs' hl hl' ha ha' hu⟩

end Credentials

/-- the requests of a refresh are in order, they go where they are configured to, and each of its
two secrets is in one place -/
theorem refresh_is_disciplined :
    (∀ a l x, Course a l x → Orderly a l x) ∧
    (∀ owner stage c l, Course c.account l (.inl stage) → ∀ w,
      Traffic.Job.Extends owner stage c w l ((Traffic.Job.refreshing owner stage).turn c w)) ∧
    (∀ (c : Credentials) (w : World), c.SentAlone w ∧ c.Confined) ∧
    (∀ s a a', Account.IsBuilt s a → Account.Derived a a' → ∀ address headers format,
      a'.configuration.source = .url address headers format →
      ∃ ms, a'.configuration.sourceInfo = some (.object ms) ∧
        Source.DescribesUrl ms address headers) ∧
    (∀ files path resolver s a a', Account.ofFile files path resolver s = .ok a →
      Account.Derived a a' → ∀ v ∈ a'.configuration.sourceInfo, v.Ordered) := by
  refine ⟨fun a l x h => h.orderly,
    fun owner stage c l h w => Traffic.Job.extends_turn owner h w,
    fun c w => ⟨c.sentAlone w, c.confined⟩, ?_,
    fun _ _ _ _ _ _ hf hd => hd.ordered hf⟩
  intro s a a' hb hd address headers format hsrc
  exact hd.describesUrl hb hsrc

end Federation
