import Federation.Account.Build
import Federation.Proofs.SubjectToken.Headers

/-!
# What building an account checks

All accounts are built by way of `Account.ofDescription`, which refuses those that are not valid.

* `Account.fault?_eq_none_iff`     what an account is refused for;
* `Account.IsBuilt.valid`          an account that was built is valid;
* `Account.IsBuilt.withThreshold`  it could have been built with any other threshold;
* `Account.Derived.valid`          so are all that are made from it;
* `Account.Derived.describesUrl`   and their headers are the ones that were described.
-/

namespace Federation

/-- nothing is wrong with the configuration; `checked` says whether its endpoints had to be known -/
structure Configuration.Valid (c : Configuration) (checked : Bool) : Prop where
  workforce : c.userProject.isSome = true → c.isWorkforcePool = true
  tokenUrl : checked = true → Endpoint.isTokenUrl c.tokenUrl = true
  impersonationUrl : checked = true → ∀ url ∈ c.impersonationUrl,
    Endpoint.isImpersonationUrl url = true

namespace Description

open Json.Decode (Keeps)

theorem keeps_of_map {α : Type} {P : Description → Prop} {name : String} {absence : Json.Absence}
    {d : Json.Decoder α} {set : α → Description → Description}
    (h : ∀ v a, v.Ordered → d v = .ok a → ∀ r, P r → P (set a r)) :
    Keeps P ⟨name, absence, fun v => set <$> d v⟩ := by
  intro v set' hv hset r hr
  change set <$> d v = .ok set' at hset
  cases ha : d v with
  | error cause =>
    rw [ha] at hset
    cases hset
  | ok a =>
    rw [ha] at hset
    cases hset
    exact h v a hv ha r hr

theorem ordered_source {v : Json.Value} (hv : v.Ordered) {d : Description}
    (h : ofJson v = .ok d) : ∀ w ∈ d.source, w.Ordered := by
  refine Json.Decode.record_keeps (P := fun d => ∀ w ∈ d.source, w.Ordered) ?_ hv nofun h
  have hother : ∀ {α : Type} {name : String} {absence : Json.Absence}
      {d : Json.Decoder α} {set : α → Description → Description},
      (∀ a r, (set a r).source = r.source) →
      Keeps (fun d => ∀ w ∈ d.source, w.Ordered) ⟨name, absence, fun v => set <$> d v⟩ := by
    intro α name absence d set hset
    exact keeps_of_map fun _ a _ _ r hr => by rw [hset]; exact hr
  simp only [fields, List.forall_mem_cons]
  refine ⟨hother fun _ _ => rfl, hother fun _ _ => rfl, hother fun _ _ => rfl,
    hother fun _ _ => rfl, hother fun _ _ => rfl, hother fun _ _ => rfl, hother fun _ _ => rfl,
    hother fun _ _ => rfl, hother fun _ _ => rfl, keeps_of_map ?_, hother fun _ _ => rfl,
    hother fun _ _ => rfl, hother fun _ _ => rfl, nofun⟩
  intro v source hv hread r _ w hw
  have hcopy : source = none ∨ source = some v := by
    cases v with
    | null =>
      cases hread
      exact .inl rfl
    | _ =>
      cases hread
      exact .inr rfl
  rcases hcopy with rfl | rfl
  · cases hw
  · cases hw
    exact hv

end Description

theorem Source.ne_null_of_ofConfig {config : Option Json.Value} {resolver : CertificateResolver}
    {source : Source} (h : ofConfig config false resolver = .ok source) :
    config ≠ some .null := by
  rintro rfl
  cases h

namespace Account

/-- an account that was built with these settings, from whatever there was -/
def IsBuilt (s : Settings) (a : Account) : Prop :=
  (∃ v resolver, ofJson v resolver s = .ok a) ∨
    (∃ files path resolver, ofFile files path resolver s = .ok a) ∨ ∃ d, ofDraft d s = .ok a

theorem fault?_eq_none_iff (c : Configuration) (checked : Bool) :
    fault? c checked = none ↔ c.Valid checked := by
  have hiff : (c.userProject.isSome && !c.isWorkforcePool) = false ↔
      (c.userProject.isSome = true → c.isWorkforcePool = true) := by
    cases c.userProject.isSome <;> cases c.isWorkforcePool <;> decide
  rw [fault?]
  by_cases hw : (c.userProject.isSome && !c.isWorkforcePool) = true
  · rw [if_pos hw]
    have hnot : ¬c.Valid checked := fun h => Bool.eq_false_iff.1 (hiff.2 h.workforce) hw
    exact ⟨nofun, fun h => absurd h hnot⟩
  · have hworkforce := hiff.1 (Bool.eq_false_iff.2 hw)
    rw [if_neg hw]
    cases checked with
    | false => exact ⟨fun _ => ⟨hworkforce, nofun, nofun⟩, fun _ => rfl⟩
    | true =>
      cases ht : Endpoint.isTokenUrl c.tokenUrl with
      | false => exact ⟨nofun, fun h => nomatch ht.symm.trans (h.tokenUrl rfl)⟩
      | true =>
        cases hi : c.impersonationUrl with
        | none => exact ⟨fun _ => ⟨hworkforce, fun _ => ht, by rw [hi]; nofun⟩, fun _ => rfl⟩
        | some url =>
          cases hu : Endpoint.isImpersonationUrl url with
          | false =>
            simp only [Bool.not_true, Bool.false_eq_true, if_false, hu]
            exact ⟨nofun, fun h => nomatch hu.symm.trans (h.impersonationUrl rfl url hi)⟩
          | true =>
            simp only [Bool.not_true, Bool.false_eq_true, if_false, hu, if_true]
            refine ⟨fun _ => ⟨hworkforce, fun _ => ht, fun _ url' hu' => ?_⟩, fun _ => trivial⟩
            rw [hi] at hu'
            cases hu'
            exact hu

/-! ## what an account is built from -/

theorem ofDescription_eq_ok {d : Description} {source : Source} {s : Settings} {a : Account}
    (h : ofDescription d source s = .ok a) :
    a.configuration = configurationOf d source s ∧ a.configuration.Valid s.checkEndpoints := by
  rw [ofDescription] at h
  split at h
  · cases h
  · next hf =>
    cases h
    exact ⟨rfl, (fault?_eq_none_iff _ _).1 hf⟩

theorem ofJson_eq_ok {v : Json.Value} {resolver : CertificateResolver} {s : Settings}
    {a : Account} (h : ofJson v resolver s = .ok a) :
    ∃ d source, Description.ofJson v = .ok d ∧
      Source.ofConfig d.source false resolver = .ok source ∧ ofDescription d source s = .ok a := by
  rw [ofJson] at h
  obtain ⟨d, hd, h⟩ := ok_of_bind h
  split at h
  · cases h
  · obtain ⟨source, hs, h⟩ := ok_of_bind h
    exact ⟨d, source, ok_of_mapError hd, ok_of_mapError hs, h⟩

theorem ofJson_eq_ofDescription {v : Json.Value} {resolver : CertificateResolver} {d : Description}
    {source : Source} (hd : Description.ofJson v = .ok d)
    (hk : ∀ kind ∈ d.kind, kind = Description.externalAccount)
    (hs : Source.ofConfig d.source false resolver = .ok source) (s : Settings) :
    ofJson v resolver s = ofDescription d source s := by
  have hkind : d.kind.filter (· ≠ Description.externalAccount) = none := by
    rw [Option.filter_eq_none_iff]
    intro kind hm hne
    exact of_decide_eq_true hne (hk kind hm)
  rw [ofJson, hd]
  dsimp only [Except.mapError, bind, Except.bind]
  rw [hkind, hs]

theorem ofFile_eq_ok {files : Files.Tree} {path : String} {resolver : CertificateResolver}
    {s : Settings} {a : Account} (h : ofFile files path resolver s = .ok a) :
    ∃ v, v.Ordered ∧ ofJson v resolver s = .ok a := by
  rw [ofFile] at h
  obtain ⟨text, _, h⟩ := ok_of_bind h
  obtain ⟨v, hv, h⟩ := ok_of_bind h
  exact ⟨v, Json.ordered_of_parse (ok_of_mapError hv), h⟩

theorem ofDraft_eq_ok {draft : Draft} {s : Settings} {a : Account}
    (h : ofDraft draft s = .ok a) : ∃ d, ofDescription d .supplied s = .ok a := by
  rw [ofDraft] at h
  obtain ⟨d, _, h⟩ := ok_of_bind h
  exact ⟨d, h⟩

/-! ## with another threshold -/

section
variable (resolver : CertificateResolver) (s : Settings) (threshold : Clock.Duration)

theorem ofDescription_withThreshold (d : Description) (source : Source) :
    ofDescription d source { s with threshold := some threshold }
      = (ofDescription d source s).map ({ · with threshold }) := by
  have hfault : fault? (configurationOf d source { s with threshold := some threshold })
      s.checkEndpoints = fault? (configurationOf d source s) s.checkEndpoints := rfl
  rw [ofDescription, ofDescription]
  dsimp only
  rw [hfault]
  cases fault? (configurationOf d source s) s.checkEndpoints <;> rfl

theorem ofJson_withThreshold (v : Json.Value) :
    ofJson v resolver { s with threshold := some threshold }
      = (ofJson v resolver s).map ({ · with threshold }) := by
  rw [ofJson, ofJson]
  rcases Description.ofJson v with cause | d
  · rfl
  · dsimp only [Except.mapError, bind, Except.bind]
    split
    · rfl
    · rcases Source.ofConfig d.source false resolver with defect | source
      · rfl
      · exact ofDescription_withThreshold s threshold d source

theorem ofFile_withThreshold (files : Files.Tree) (path : String) :
    ofFile files path resolver { s with threshold := some threshold }
      = (ofFile files path resolver s).map ({ · with threshold }) := by
  rw [ofFile, ofFile]
  rcases Files.readText files path with fault | text
  · rfl
  · dsimp only [Except.mapError, bind, Except.bind]
    rcases Json.parse (Utf8.encode text) with refusal | v
    · rfl
    · exact ofJson_withThreshold resolver s threshold v

theorem ofDraft_withThreshold (draft : Draft) :
    ofDraft draft { s with threshold := some threshold }
      = (ofDraft draft s).map ({ · with threshold }) := by
  rw [ofDraft, ofDraft]
  rcases draft.describe with e | d
  · rfl
  · exact ofDescription_withThreshold s threshold d .supplied

end

namespace IsBuilt

variable {s : Settings} {a : Account}

theorem withThreshold (h : IsBuilt s a) (threshold : Clock.Duration) :
    IsBuilt { s with threshold := some threshold } { a with threshold } := by
  obtain ⟨v, resolver, h⟩ | ⟨files, path, resolver, h⟩ | ⟨draft, h⟩ := h
  · refine .inl ⟨v, resolver, ?_⟩
    rw [ofJson_withThreshold, h]
    rfl
  · refine .inr (.inl ⟨files, path, resolver, ?_⟩)
    rw [ofFile_withThreshold, h]
    rfl
  · refine .inr (.inr ⟨draft, ?_⟩)
    rw [ofDraft_withThreshold, h]
    rfl

theorem exists_source (h : IsBuilt s a) : ∃ d source, ofDescription d source s = .ok a ∧
    (source = .supplied ∨ ∃ resolver, Source.ofConfig d.source false resolver = .ok source) := by
  obtain ⟨v, resolver, h⟩ | ⟨files, path, resolver, h⟩ | ⟨draft, h⟩ := h
  · obtain ⟨d, source, _, hs, h⟩ := ofJson_eq_ok h
    exact ⟨d, source, h, .inr ⟨resolver, hs⟩⟩
  · obtain ⟨v, _, h⟩ := ofFile_eq_ok h
    obtain ⟨d, source, _, hs, h⟩ := ofJson_eq_ok h
    exact ⟨d, source, h, .inr ⟨resolver, hs⟩⟩
  · obtain ⟨d, h⟩ := ofDraft_eq_ok h
    exact ⟨d, .supplied, h, .inl rfl⟩

theorem valid (h : IsBuilt s a) : a.configuration.Valid s.checkEndpoints := by
  obtain ⟨d, source, h, _⟩ := h.exists_source
  exact (ofDescription_eq_ok h).2

end IsBuilt

/-! ## accounts that are made from others -/

/-- `a'` is made from `a`, at whatever remove -/
inductive Derived (a : Account) : Account → Prop where
  | refl : Derived a a
  | withQuotaProject {a' : Account} (h : Derived a a') (project : String) :
      Derived a (a'.withQuotaProject project)
  | withScopes {a' : Account} (h : Derived a a') (scopes defaultScopes : List String) :
      Derived a (a'.withScopes scopes defaultScopes)

namespace Derived

variable {a a' : Account}

theorem configuration_eq (h : Derived a a') : ∃ scopes defaultScopes,
    a'.configuration = { a.configuration with scopes, defaultScopes } := by
  induction h with
  | refl => exact ⟨_, _, rfl⟩
  | withQuotaProject h project ih => exact ih
  | withScopes h scopes defaultScopes ih =>
    obtain ⟨_, _, ih⟩ := ih
    refine ⟨scopes, defaultScopes, ?_⟩
    rw [Account.withScopes, ih]

theorem threshold_eq (h : Derived a a') : a'.threshold = a.threshold := by
  induction h with
  | refl => rfl
  | withQuotaProject _ _ ih => exact ih
  | withScopes _ _ _ ih => exact ih

theorem valid (h : Derived a a') {checked : Bool} (hv : a.configuration.Valid checked) :
    a'.configuration.Valid checked := by
  obtain ⟨scopes, defaultScopes, hc⟩ := h.configuration_eq
  rw [hc]
  exact ⟨hv.workforce, hv.tokenUrl, hv.impersonationUrl⟩

end Derived

theorem Derived.describesUrl {s : Settings} {a a' : Account} (h : Derived a a') (hb : IsBuilt s a)
    {address : String} {headers : Http.Headers} {format : TokenFormat}
    (hsrc : a'.configuration.source = .url address headers format) :
    ∃ ms, a'.configuration.sourceInfo = some (.object ms) ∧
      Source.DescribesUrl ms address headers := by
  obtain ⟨scopes, defaultScopes, hc⟩ := h.configuration_eq
  obtain ⟨d, source, hd, hs⟩ := hb.exists_source
  rw [hc, (ofDescription_eq_ok hd).1] at hsrc ⊢
  obtain rfl : source = .url address headers format := hsrc
  show ∃ ms, d.source = some (.object ms) ∧ _
  obtain hs | ⟨resolver, hs⟩ := hs
  · cases hs
  · cases hv : d.source with
    | none =>
      rw [hv] at hs
      cases hs
    | some v =>
      rw [hv] at hs
      obtain ⟨ms, rfl, hm⟩ := Source.describesUrl_of_ofConfig hs
      exact ⟨ms, rfl, hm⟩

theorem Derived.ordered {files : Files.Tree} {path : String} {resolver : CertificateResolver}
    {s : Settings} {a a' : Account} (h : Derived a a') (hf : ofFile files path resolver s = .ok a) :
    ∀ v ∈ a'.configuration.sourceInfo, v.Ordered := by
  obtain ⟨scopes, defaultScopes, hc⟩ := h.configuration_eq
  obtain ⟨v, hv, hj⟩ := ofFile_eq_ok hf
  obtain ⟨d, source, hd, _, hb⟩ := ofJson_eq_ok hj
  rw [hc, (ofDescription_eq_ok hb).1]
  exact Description.ordered_source hv hd

end Account

end Federation
