import Federation.Proofs.Json.Order
import Federation.SubjectToken.Source

/-!
# The configured headers of a source

The headers that are described for an address are an object, whose members come in the order of
their names.  Names are sent in their small form, and of those that then are the same only one is
left, the last in that order.

* `Source.describesUrl_of_ofConfig`  the headers of an address are the ones that are described.
-/

namespace Federation

/-! ## the headers -/

namespace Source

/-- the headers are the ones that these members describe -/
structure Configured (given : Json.Members) (headers : Http.Headers) : Prop where
  /-- every header is that of a member, and no later one has the same name in its small form -/
  chosen : ∀ h ∈ headers, h.sensitive = false ∧ ∃ name,
    (name, Json.Value.string h.value) ∈ given ∧ Http.name? name = some h.name ∧
    ∀ m ∈ given, Http.name? m.1 = some h.name → m.1 ≤ name
  /-- every member has a header of its name -/
  complete : ∀ m ∈ given, ∃ h ∈ headers, Http.name? m.1 = some h.name
  distinct : (headers.map Http.Header.name).Nodup

theorem Configured.nil : Configured [] [] :=
  ⟨fun _ h => absurd h List.not_mem_nil, fun _ h => absurd h List.not_mem_nil, List.nodup_nil⟩

theorem headerOf_eq_ok {name : String} {v : Json.Value} {h : Http.Header}
    (hh : headerOf name v = .ok h) :
    v = .string h.value ∧ Http.name? name = some h.name ∧ h.sensitive = false := by
  cases v with
  | string value =>
    rw [headerOf] at hh
    split at hh
    · cases hh
    · next small hn =>
      split at hh <;> cases hh
      exact ⟨rfl, hn, rfl⟩
  | _ => cases hh

theorem Configured.set {given : Json.Members} {headers : Http.Headers}
    (hc : Configured given headers) {name : String} {h : Http.Header}
    (hlast : ∀ m ∈ given, m.1 < name) (hn : Http.name? name = some h.name)
    (hs : h.sensitive = false) :
    Configured (given ++ [(name, .string h.value)]) (headers.set h) := by
  have hmem : ∀ h' : Http.Header,
      h' ∈ headers.set h ↔ (h' ∈ headers ∧ h'.name ≠ h.name) ∨ h' = h := by
    intro h'
    simp [Http.Headers.set, Http.Headers.without]
  refine ⟨fun h' hm => ?_, fun m hm => ?_, ?_⟩
  · rcases (hmem h').1 hm with ⟨hm, hne⟩ | rfl
    · obtain ⟨hs', name', hg, hn', hmax⟩ := hc.chosen h' hm
      refine ⟨hs', name', List.mem_append_left _ hg, hn', fun m hm hmn => ?_⟩
      rcases List.mem_append.1 hm with hm | hm
      · exact hmax m hm hmn
      · obtain rfl := List.mem_singleton.1 hm
        rw [hn] at hmn
        exact absurd (Option.some.inj hmn).symm hne
    · refine ⟨hs, name, List.mem_append_right _ List.mem_cons_self, hn, fun m hm _ => ?_⟩
      rcases List.mem_append.1 hm with hm | hm
      · exact String.lt_asymm (hlast m hm)
      · obtain rfl := List.mem_singleton.1 hm
        exact String.le_refl name
  · rcases List.mem_append.1 hm with hm | hm
    · obtain ⟨h', hm', hn'⟩ := hc.complete m hm
      by_cases he : h'.name = h.name
      · exact ⟨h, (hmem h).2 (.inr rfl), he ▸ hn'⟩
      · exact ⟨h', (hmem h').2 (.inl ⟨hm', he⟩), hn'⟩
    · obtain rfl := List.mem_singleton.1 hm
      exact ⟨h, (hmem h).2 (.inr rfl), hn⟩
  · rw [Http.Headers.set, List.map_append, List.nodup_append]
    refine ⟨hc.distinct.sublist (List.filter_sublist.map _), List.pairwise_singleton _ _, ?_⟩
    intro n hm n' hm' he
    obtain ⟨h', hf, rfl⟩ := List.mem_map.1 hm
    have hne := of_decide_eq_true (List.mem_filter.1 hf).2
    exact hne (he.trans (List.mem_singleton.1 hm'))

theorem configured_of_headersFrom (rest : Json.Members) :
    ∀ {given : Json.Members} {headers headers' : Http.Headers}, Configured given headers →
      Json.Sorted (given ++ rest) → headersFrom headers rest = .ok headers' →
      Configured (given ++ rest) headers' := by
  induction rest with
  | nil =>
    intro given headers headers' hc _ h
    cases h
    rw [List.append_nil]
    exact hc
  | cons m rest ih =>
    intro given headers headers' hc hsorted h
    obtain ⟨name, v⟩ := m
    rw [headersFrom] at h
    cases hh : headerOf name v with
    | error defect =>
      rw [hh] at h
      cases h
    | ok header =>
      rw [hh] at h
      obtain ⟨rfl, hn, hs⟩ := headerOf_eq_ok hh
      have hlast : ∀ m ∈ given, m.1 < name := fun m hm =>
        (List.pairwise_append.1 hsorted).2.2 m hm _ List.mem_cons_self
      rw [List.append_cons] at hsorted ⊢
      exact ih (hc.set hlast hn hs) hsorted h

/-- the members `ms` describe the address and the headers that are sent to it -/
structure DescribesUrl (ms : Json.Members) (address : String) (headers : Http.Headers) : Prop where
  address : Json.get? ms "url" = some (.string address)
  headers : (Json.present? ms "headers" = none ∧ headers = []) ∨
    ∃ given, Json.present? ms "headers" = some (.object given) ∧
      ((Json.Value.object ms).Ordered → Configured given headers)

theorem configured_of_headersOf {ms : Json.Members} {headers : Http.Headers}
    (h : headersOf ms = .ok headers) : (Json.present? ms "headers" = none ∧ headers = []) ∨
      ∃ given, Json.present? ms "headers" = some (.object given) ∧
        ((Json.Value.object ms).Ordered → Configured given headers) := by
  rw [headersOf] at h
  split at h
  · next hp =>
    cases h
    exact .inl ⟨hp, rfl⟩
  · next given hp =>
    refine .inr ⟨given, hp, fun ho => ?_⟩
    cases ho.of_present? hp with
    | object hsorted _ => exact configured_of_headersFrom given .nil hsorted h
  · cases h

theorem stringField_eq_ok {ms : Json.Members} {field value : String}
    (h : stringField ms field = .ok value) : Json.get? ms field = some (.string value) := by
  rw [stringField] at h
  split at h
  · next hg =>
    cases h
    exact hg
  · cases h

theorem certificateOf_ne_url {resolver : CertificateResolver} {ms : Json.Members}
    {address : String} {headers : Http.Headers} {format : TokenFormat} :
    certificateOf resolver ms ≠ .ok (.url address headers format) := by
  intro h
  rw [certificateOf] at h
  split at h
  · obtain ⟨_, _, h⟩ := ok_of_bind h
    dsimp only at h
    split at h <;> cases h
  · cases h

theorem describesUrl_of_ofMembers {resolver : CertificateResolver} {ms : Json.Members}
    {address : String} {headers : Http.Headers} {format : TokenFormat}
    (h : ofMembers resolver ms = .ok (.url address headers format)) :
    DescribesUrl ms address headers := by
  rw [ofMembers] at h
  split at h
  · cases h
  · split at h
    · cases h
    · split at h
      · obtain ⟨_, _, h⟩ := ok_of_bind h
        obtain ⟨_, _, h⟩ := ok_of_bind h
        cases h
      · split at h
        · obtain ⟨_, ha, h⟩ := ok_of_bind h
          obtain ⟨_, hh, h⟩ := ok_of_bind h
          obtain ⟨_, _, h⟩ := ok_of_bind h
          cases h
          exact ⟨stringField_eq_ok ha, configured_of_headersOf hh⟩
        · exact absurd h certificateOf_ne_url
  · cases h

theorem describesUrl_of_ofConfig {v : Json.Value} {resolver : CertificateResolver}
    {address : String} {headers : Http.Headers} {format : TokenFormat}
    (h : ofConfig (some v) false resolver = .ok (.url address headers format)) :
    ∃ ms, v = .object ms ∧ DescribesUrl ms address headers := by
  cases v with
  | object ms => exact ⟨ms, rfl, describesUrl_of_ofMembers h⟩
  | _ => cases h

end Source

end Federation
