import Federation.Proofs.Refresh.Confinement

/-!
# Refreshes that differ in their source

Two accounts that are the same but for the source of their subject tokens are compared, once both
have the same subject token.  From there on the source is not looked at again but for one word of
the metrics that are sent with the exchange.

* `Configuration.exchange_withSource`   where the source shows in the exchange;
* `Credentials.alongside_withSource`    one step;
* `Credentials.seen_of_sources`         a refresh to its end;
* `Credentials.refreshesAs`             all of this.
-/

namespace Federation

/-! ## another source -/

def Configuration.withSource (c : Configuration) (source : Source) (info : Option Json.Value) :
    Configuration :=
  { c with source := source, sourceInfo := info }

/-- the account with another source, and with what is said of it -/
def Account.withSource (a : Account) (source : Source) (info : Option Json.Value) : Account :=
  { a with configuration := a.configuration.withSource source info }

theorem Configuration.exchange_withSource (c : Configuration) (subject : String) :
    ∃ words headers body, ∀ source info,
      ((c.withSource source info).exchange subject).request =
        .post c.tokenUrl (Http.metrics (words ++ ["source/" ++ source.kind]) :: headers) body :=
  ⟨["google-byoid-sdk", flag "sa-impersonation" c.impersonationUrl.isSome,
      flag "config-lifetime" c.lifetime.isSome],
    Http.contentType "application/x-www-form-urlencoded" :: Exchange.clientHeaders c.client,
    Form.encode (c.exchange subject).form, fun _ _ => rfl⟩

/-- the subject token has been exchanged -/
def Stage.HasExchanged : Stage → Prop
  | .fetching (.exchanged _ _ _) => True
  | .fetched _ => True
  | .located _ => True
  | _ => False

namespace Credentials

open World (Agree)

def withSource (c : Credentials) (source : Source) (info : Option Json.Value) : Credentials :=
  { c with account := c.account.withSource source info }

variable {c : Credentials} {stage : Stage} {source : Source} {info : Option Json.Value}
  {v v' w w' : World}

/-! ## one step -/

theorem alongside_proceed_fetching {f : Fetch}
    (h : Agree ((c.account.configuration.advance f).run v)
      (((c.account.configuration.withSource source info).advance f).run v')) :
    Alongside (withSource · source info) (c.proceed (.fetching f) v)
      ((c.withSource source info).proceed (.fetching f) v') := by
  obtain ⟨hr, hw⟩ := h
  rw [proceed, proceed]
  dsimp only [withSource, Account.withSource]
  generalize (c.account.configuration.advance f).run v = x at hr hw
  generalize ((c.account.configuration.withSource source info).advance f).run v' = y at hr hw
  obtain ⟨r, u⟩ := x
  obtain ⟨r', u'⟩ := y
  obtain rfl : r = r' := hr
  rcases r with _ | _ | _
  all_goals exact ⟨rfl, rfl, hw⟩

theorem alongside_withSource (c : Credentials) (source : Source) (info : Option Json.Value)
    (hs : ¬stage.IsEarly) (hv : v.Alike v') :
    Alongside (withSource · source info) (c.proceed stage v)
      ((c.withSource source info).proceed stage v') := by
  cases stage with
  | begun => exact absurd trivial hs
  | fetching f =>
    refine alongside_proceed_fetching ?_
    cases f with
    | begun held => exact absurd trivial hs
    | identified held subject =>
      have hi : c.account.configuration.impersonation?
        = (c.account.configuration.withSource source info).impersonation? := rfl
      exact Configuration.agree_advance_identified hi hv held subject subject
    | exchanged i held caller => exact c.account.configuration.agree_advance_exchanged hv i held rfl
  | fetched token =>
    obtain ⟨hb, hw⟩ := c.agree_lookup token hv
    exact ⟨rfl, congrArg (fun b => { c.withSource source info with boundary := b }) hb.symm, hw⟩
  | located token => exact ⟨rfl, rfl, hv⟩

theorem request?_withSource (c : Credentials) (source : Source) (info : Option Json.Value)
    (e : Environment) (hs : stage.HasExchanged) :
    (c.withSource source info).request? e stage = c.request? e stage := by
  rcases stage with _ | (_ | _ | _) | _ | _
  · exact hs.elim
  · exact hs.elim
  · exact hs.elim
  · rfl
  · rfl
  · rfl

theorem not_isEarly_of_hasExchanged (hs : stage.HasExchanged) : ¬stage.IsEarly := by
  rcases stage with _ | (_ | _ | _) | _ | _
  · exact hs.elim
  · exact hs.elim
  · exact hs.elim
  all_goals exact fun h => h

theorem hasExchanged_of_moved {c' : Credentials} {stage' : Stage}
    (h : c.proceed stage w = (.moved stage', c', w')) (hs : ¬stage.IsEarly) :
    stage'.HasExchanged := by
  obtain ⟨rfl, _⟩ | ⟨f, f', rfl, rfl, _, ha⟩ | ⟨f, token, rfl, rfl, _⟩ | ⟨token, rfl, rfl, _⟩ :=
    proceed_moved h
  · exact absurd trivial hs
  · cases f with
    | begun held => exact absurd trivial hs
    | identified held subject =>
      obtain ⟨_, _, ⟨_, _, hx⟩ | ⟨_, _, _, hx⟩⟩ := Configuration.advance_identified ha
      · cases hx
        trivial
      · cases hx
    | exchanged i held caller =>
      obtain ⟨_, hx, _⟩ := Configuration.advance_exchanged ha
      cases hx
  · trivial
  · trivial

/-! ## a refresh to its end -/

theorem seen_withSource (c : Credentials) (source : Source) (info : Option Json.Value)
    (stage : Stage) (v v' : World) (hs : stage.HasExchanged) (hv : v.Alike v') :
    (c.withSource source info).seen stage v' = (c.seen stage v).map (withSource · source info) := by
  refine complete_induction (P := fun c stage v => ∀ v', stage.HasExchanged → v.Alike v' →
    (c.withSource source info).seen stage v' = (c.seen stage v).map (withSource · source info))
    ?_ ?_ c stage v v' hs hv
  · intro c stage v c' stage' u hp ih v' hs hv
    have hearly := not_isEarly_of_hasExchanged hs
    obtain ⟨x, hx, hx'⟩ := seen_of_alongside (alongside_withSource c source info hearly hv) (by
      intro next c'' u₁ u₂ hn hu
      rw [hp] at hn
      cases hn
      exact ih u₂ (hasExchanged_of_moved hp hearly) hu)
    rw [hx, hx', ← hv.environment, request?_withSource c source info _ hs]
    rfl
  · intro c stage v hover v' hs hv
    have hearly := not_isEarly_of_hasExchanged hs
    obtain ⟨x, hx, hx'⟩ := seen_of_alongside (alongside_withSource c source info hearly hv) (by
      intro next c'' u₁ u₂ hn _
      exact absurd (congrArg Prod.fst hn) (hover next))
    rw [hx, hx', ← hv.environment, request?_withSource c source info _ hs]
    rfl

/-- two refreshes with different sources that find the same subject token: what each sends to find
it and the exchange come first, and the rest is the same -/
theorem seen_of_sources {subject : String} (hv : v.Alike v')
    (hs : c.account.configuration.subjectToken.run w = (.ok subject, v))
    (hs' : (c.withSource source info).account.configuration.subjectToken.run w'
      = (.ok subject, v')) :
    ∃ x : Seen,
      c.seen .begun w
        = x.after (c.asks ++ [(c.account.configuration.exchange subject).request]) ∧
      (c.withSource source info).seen .begun w'
        = (x.map (withSource · source info)).after ((c.withSource source info).asks ++
          [((c.account.configuration.withSource source info).exchange subject).request]) := by
  have hearly : ¬(Stage.fetching (.identified c.boundary subject)).IsEarly := fun h => h
  obtain ⟨x, hx, hx'⟩ := seen_of_alongside (alongside_withSource c source info hearly hv)
    fun next c' u u' hp hu =>
      seen_withSource c' source info next u u' (hasExchanged_of_moved hp hearly) hu
  refine ⟨x, ?_, ?_⟩
  · rw [seen_of_subjectToken hs, hx, Seen.after, Seen.after, Seen.after, List.append_assoc]
    rfl
  · have hboundary : (c.withSource source info).boundary = c.boundary := rfl
    rw [seen_of_subjectToken hs', hboundary, hx', Seen.after, Seen.after, Seen.after,
      List.append_assoc]
    rfl

/-- with another source the refreshes are the same once they have the same subject token -/
structure RefreshesAs (c : Credentials) (source : Source) (info : Option Json.Value) : Prop where
  step : ∀ {stage : Stage} {v v' : World}, ¬stage.IsEarly → v.Alike v' →
    Alongside (withSource · source info) (c.proceed stage v)
      ((c.withSource source info).proceed stage v')
  refresh : ∀ {w w' v v' : World} {subject : String}, v.Alike v' →
    c.account.configuration.subjectToken.run w = (.ok subject, v) →
    (c.withSource source info).account.configuration.subjectToken.run w' = (.ok subject, v') →
    ∃ x : Seen,
      c.seen .begun w
        = x.after (c.asks ++ [(c.account.configuration.exchange subject).request]) ∧
      (c.withSource source info).seen .begun w'
        = (x.map (withSource · source info)).after ((c.withSource source info).asks ++
          [((c.account.configuration.withSource source info).exchange subject).request])
  /-- the kind of the source is one word in the exchange -/
  exchange : ∀ subject, ∃ words headers body,
    (c.account.configuration.exchange subject).request = .post c.account.configuration.tokenUrl
      (Http.metrics (words ++ ["source/" ++ c.account.configuration.source.kind]) :: headers)
      body ∧
    ((c.account.configuration.withSource source info).exchange subject).request =
      .post c.account.configuration.tokenUrl
        (Http.metrics (words ++ ["source/" ++ source.kind]) :: headers) body

theorem refreshesAs (c : Credentials) (source : Source) (info : Option Json.Value) :
    c.RefreshesAs source info where
  step := c.alongside_withSource source info
  refresh := seen_of_sources
  exchange := by
    intro subject
    obtain ⟨words, headers, body, h⟩ := c.account.configuration.exchange_withSource subject
    exact ⟨words, headers, body,
      h c.account.configuration.source c.account.configuration.sourceInfo, h source info⟩

end Credentials

end Federation
