import Federation.Proofs.Http.Headers
import Federation.Proofs.Json.Compact
import Federation.Proofs.SubjectToken.Headers
import Mathlib.Data.List.Forall2

/-!
# What describes a source

A description is an object with one of three members, each with members of its own.  A member that
is null counts as missing, except for `environment_id`, which must not be there at all.  All that is
not said here makes no difference.

* `Source.formatOf_eq_ok_iff`        the format of a token;
* `Source.headersOf_eq_ok_iff`       the headers that are sent to an address;
* `Source.useDefault_eq_ok_iff`, `Source.certificateOf_eq_ok_iff`
                                     the place of a certificate;
* `Source.ofMembers_eq_ok_iff`       the three kinds of sources;
* `Source.ofConfig_eq_ok_iff`        what describes a source, and which.
-/

namespace Federation

namespace Json

/-- there is no member of this name, or it is null -/
def Lacks (ms : Members) (name : String) : Prop :=
  get? ms name = none ∨ get? ms name = some .null

variable {o : Option Value} {ms : Members} {name : String} {v : Value}

theorem isNull_iff : v.isNull = true ↔ v = .null := by
  cases v <;> simp [Value.isNull]

theorem filter_eq_none_iff : o.filter (!·.isNull) = none ↔ o = none ∨ o = some .null := by
  rcases o with _ | _ | _ <;> simp [Option.filter, Value.isNull]

theorem filter_eq_some_iff : o.filter (!·.isNull) = some v ↔ o = some v ∧ v ≠ .null := by
  rw [Option.filter_eq_some_iff, Bool.not_eq_true', Bool.eq_false_iff, ne_eq, isNull_iff]

theorem present?_eq_none_iff : present? ms name = none ↔ Lacks ms name := filter_eq_none_iff

theorem present?_eq_some_iff : present? ms name = some v ↔ get? ms name = some v ∧ v ≠ .null :=
  filter_eq_some_iff

theorem present?_of_object {fs : Members} (h : get? ms name = some (.object fs)) :
    present? ms name = some (.object fs) :=
  have hne : Value.object fs ≠ .null := Value.noConfusion
  present?_eq_some_iff.2 ⟨h, hne⟩

end Json

namespace Source

open Json (Value Members get? present? Lacks)

variable {ms fs : Members} {resolver : CertificateResolver}

/-! ## formats -/

/-- the object describes how a token is found -/
inductive HasFormat (ms : Members) : TokenFormat → Prop where
  | absent (h : Lacks ms "format") : HasFormat ms .text
  | untyped {fs : Members} (h : get? ms "format" = some (.object fs)) (ht : Lacks fs "type") :
      HasFormat ms .text
  /-- the letters of the type may be small or not -/
  | text {fs : Members} {name : String} (h : get? ms "format" = some (.object fs))
      (ht : get? fs "type" = some (.string name)) (hn : Text.lower name = "text") :
      HasFormat ms .text
  | json {fs : Members} {name field : String} (h : get? ms "format" = some (.object fs))
      (ht : get? fs "type" = some (.string name)) (hn : Text.lower name = "json")
      (hf : get? fs "subject_token_field_name" = some (.string field)) (hne : field ≠ "") :
      HasFormat ms (.json field)

theorem formatName_cases (fs : Members) :
    (Lacks fs "type" ∧ formatName fs = "text") ∨
    (∃ name, get? fs "type" = some (.string name) ∧ formatName fs = name) ∨
    Text.lower (formatName fs) ≠ "text" ∧ Text.lower (formatName fs) ≠ "json" := by
  rw [formatName]
  cases h : get? fs "type" with
  | none => exact .inl ⟨.inl h, rfl⟩
  | some v =>
    by_cases hn : v = .null
    · subst hn
      exact .inl ⟨.inr h, rfl⟩
    by_cases hs : ∃ s, v = .string s
    · obtain ⟨s, rfl⟩ := hs
      exact .inr (.inl ⟨s, rfl, rfl⟩)
    · have hname := Json.lower_compact_ne hn fun s h => hs ⟨s, h⟩
      refine .inr (.inr ?_)
      cases v with
      | null => exact absurd rfl hn
      | string s => exact absurd ⟨s, rfl⟩ hs
      | _ => exact hname

theorem formatOf_of_object (h : get? ms "format" = some (.object fs)) :
    formatOf ms = if Text.lower (formatName fs) = "text" then .ok .text
      else if Text.lower (formatName fs) = "json" then
        match get? fs "subject_token_field_name" with
        | some (.string field) =>
          if field.isEmpty then .error .formatFieldMissing else .ok (.json field)
        | _ => .error .formatFieldMissing
      else .error (.formatUnknown (formatName fs)) := by
  unfold formatOf
  exact Json.present?_of_object h ▸ rfl

theorem hasFormat_of_formatOf {format : TokenFormat} (h : formatOf ms = .ok format) :
    HasFormat ms format := by
  by_cases hl : Lacks ms "format"
  · rw [formatOf, Json.present?_eq_none_iff.2 hl] at h
    cases h
    exact .absent hl
  obtain ⟨v, hv⟩ := Option.ne_none_iff_exists'.1 (mt Json.present?_eq_none_iff.1 hl)
  have hget := (Json.present?_eq_some_iff.1 hv).1
  cases v with
  | object fs =>
    rw [formatOf_of_object hget] at h
    have hname := formatName_cases fs
    split at h
    · next ht =>
      cases h
      rcases hname with ⟨hlacks, _⟩ | ⟨name, hn, he⟩ | ⟨hne, _⟩
      · exact .untyped hget hlacks
      · exact .text hget hn (he ▸ ht)
      · exact absurd ht hne
    · next ht =>
      split at h
      · next hj =>
        rcases hname with ⟨_, he⟩ | ⟨name, hn, he⟩ | ⟨_, hne⟩
        · rw [he] at ht
          exact absurd rfl ht
        · split at h
          · next field hf =>
            split at h
            · cases h
            · next hne =>
              cases h
              exact .json hget hn (he ▸ hj) hf (mt String.isEmpty_iff.2 hne)
          · cases h
        · exact absurd hj hne
      · cases h
  | _ =>
    rw [formatOf, hv] at h
    cases h

theorem HasFormat.formatOf_eq {format : TokenFormat} (h : HasFormat ms format) :
    formatOf ms = .ok format := by
  cases h with
  | absent h => rw [formatOf, Json.present?_eq_none_iff.2 h]
  | untyped h ht =>
    rw [formatOf_of_object h, formatName]
    rcases ht with ht | ht <;> rw [ht] <;> rfl
  | text h ht hn =>
    rw [formatOf_of_object h, formatName, ht]
    exact if_pos hn
  | json h ht hn hf hne =>
    rw [formatOf_of_object h, formatName, ht, hf]
    dsimp only
    rw [hn, if_neg (by decide), if_pos rfl, if_neg (mt String.isEmpty_iff.1 hne)]

theorem formatOf_eq_ok_iff {format : TokenFormat} :
    formatOf ms = .ok format ↔ HasFormat ms format :=
  ⟨hasFormat_of_formatOf, HasFormat.formatOf_eq⟩

/-! ## headers -/

structure IsHeader (m : String × Value) (h : Http.Header) : Prop where
  isName : Http.IsName m.1
  name : h.name = Text.lower m.1
  value : m.2 = .string h.value
  legal : Http.isValue h.value = true
  shown : h.sensitive = false

inductive HasHeaders (ms : Members) : Http.Headers → Prop where
  | absent (h : Lacks ms "headers") : HasHeaders ms []
  /-- they are set in the order of the members -/
  | object {given : Members} {headers : List Http.Header}
      (h : get? ms "headers" = some (.object given)) (hg : List.Forall₂ IsHeader given headers) :
      HasHeaders ms (Http.Headers.setAll [] headers)

theorem headerOf_eq_ok_iff {name : String} {v : Value} {h : Http.Header} :
    headerOf name v = .ok h ↔ IsHeader (name, v) h := by
  constructor
  · intro hh
    obtain ⟨rfl, hn, hs⟩ := headerOf_eq_ok hh
    obtain ⟨hname, he⟩ := Http.name?_eq_some_iff.1 hn
    rw [headerOf, hn] at hh
    dsimp only at hh
    split at hh
    · next hv => exact ⟨hname, he, rfl, hv, hs⟩
    · cases hh
  · rintro ⟨hname, he, hv, hl, hs⟩
    obtain ⟨small, value, sensitive⟩ := h
    dsimp only at hname he hv hl hs
    subst he hv hs
    rw [headerOf, Http.name?_eq_some_iff.2 ⟨hname, rfl⟩]
    exact if_pos hl

theorem headersFrom_eq_ok_iff {given : Members} {hs set : Http.Headers} :
    headersFrom hs given = .ok set ↔
      ∃ headers, List.Forall₂ IsHeader given headers ∧ set = hs.setAll headers := by
  induction given generalizing hs with
  | nil =>
    rw [headersFrom]
    constructor
    · rintro ⟨⟩
      exact ⟨[], .nil, rfl⟩
    · rintro ⟨_, ⟨⟩, rfl⟩
      rfl
  | cons m given ih =>
    obtain ⟨name, v⟩ := m
    rw [headersFrom]
    constructor
    · intro h
      obtain ⟨header, hh, h⟩ := ok_of_bind h
      obtain ⟨headers, hg, rfl⟩ := ih.1 h
      exact ⟨header :: headers, .cons (headerOf_eq_ok_iff.1 hh) hg, rfl⟩
    · rintro ⟨_, hg, rfl⟩
      cases hg with
      | @cons _ header _ headers hh hg =>
        rw [headerOf_eq_ok_iff.2 hh]
        exact ih.2 ⟨headers, hg, rfl⟩

theorem headersOf_eq_ok_iff {headers : Http.Headers} :
    headersOf ms = .ok headers ↔ HasHeaders ms headers := by
  constructor
  · intro h
    cases hp : present? ms "headers" with
    | none =>
      rw [headersOf, hp] at h
      cases h
      exact .absent (Json.present?_eq_none_iff.1 hp)
    | some v =>
      rw [headersOf, hp] at h
      cases v with
      | object given =>
        obtain ⟨headers, hg, rfl⟩ := headersFrom_eq_ok_iff.1 h
        exact .object (Json.present?_eq_some_iff.1 hp).1 hg
      | _ => cases h
  · intro h
    cases h with
    | absent h => rw [headersOf, Json.present?_eq_none_iff.2 h]
    | object h hg =>
      rw [headersOf, Json.present?_of_object h]
      exact headersFrom_eq_ok_iff.2 ⟨_, hg, rfl⟩

/-! ## certificates -/

/-- whether the object asks for the usual certificate configuration -/
inductive AsksDefault (fs : Members) : Bool → Prop where
  | absent (h : Lacks fs "use_default_certificate_config") : AsksDefault fs false
  | bool {b : Bool} (h : get? fs "use_default_certificate_config" = some (.bool b)) :
      AsksDefault fs b
  | yes {s : String} (h : get? fs "use_default_certificate_config" = some (.string s))
      (hs : Text.lower s = "true") : AsksDefault fs true
  | no {s : String} (h : get? fs "use_default_certificate_config" = some (.string s))
      (hs : Text.lower s = "false") : AsksDefault fs false

/-- the object names the place of a certificate: either it asks for the usual one, or it has the
path of another -/
inductive HasLocation (fs : Members) : CertificateLocation → Prop where
  | default (h : AsksDefault fs true)
      (hn : ∀ path, get? fs "certificate_config_location" = some (.string path) → path = "") :
      HasLocation fs .default
  | path {path : String} (h : AsksDefault fs false)
      (hp : get? fs "certificate_config_location" = some (.string path)) (hne : path ≠ "") :
      HasLocation fs (.path path)

theorem filled?_eq_some_iff {name s : String} :
    filled? ms name = some s ↔ get? ms name = some (.string s) ∧ s ≠ "" := by
  rw [filled?]
  split
  · next s' h =>
    rw [h]
    split
    · next he =>
      refine ⟨nofun, fun hs => absurd ?_ hs.2⟩
      rw [← Value.string.inj (Option.some.inj hs.1), String.isEmpty_iff.1 he]
    · next he =>
      refine ⟨fun hs => ?_, fun hs => congrArg some (Value.string.inj (Option.some.inj hs.1))⟩
      obtain rfl := Option.some.inj hs
      exact ⟨rfl, mt String.isEmpty_iff.2 he⟩
  · next h => exact ⟨nofun, fun hs => absurd hs.1 (h s)⟩

theorem filled?_eq_none_iff {name : String} :
    filled? ms name = none ↔ ∀ s, get? ms name = some (.string s) → s = "" := by
  constructor
  · intro h s hs
    refine Decidable.byContradiction fun hne => ?_
    cases h.symm.trans (filled?_eq_some_iff.2 ⟨hs, hne⟩)
  · intro h
    rw [Option.eq_none_iff_forall_ne_some]
    intro s hs
    obtain ⟨hs, hne⟩ := filled?_eq_some_iff.1 hs
    exact hne (h s hs)

theorem useDefault_eq_ok_iff {b : Bool} : useDefault fs = .ok b ↔ AsksDefault fs b := by
  constructor
  · intro h
    rw [useDefault] at h
    split at h
    · next hg =>
      cases h
      exact .absent (.inl hg)
    · next hg =>
      cases h
      exact .absent (.inr hg)
    · next hg =>
      cases h
      exact .bool hg
    · next hg =>
      split at h
      · next hs =>
        cases h
        exact .yes hg hs
      · split at h
        · next hs =>
          cases h
          exact .no hg hs
        · cases h
    · cases h
  · intro h
    cases h with
    | absent h => rcases h with h | h <;> rw [useDefault, h]
    | bool h => rw [useDefault, h]
    | yes h hs =>
      rw [useDefault, h]
      exact if_pos hs
    | no h hs =>
      rw [useDefault, h]
      dsimp only
      rw [hs, if_neg (by decide), if_pos rfl]

theorem certificateOf_eq_ok_iff {source : Source} : certificateOf resolver ms = .ok source ↔
    ∃ fs location, get? ms "certificate" = some (.object fs) ∧ HasLocation fs location ∧
      source = .certificate location (filled? fs "trust_chain_path") resolver := by
  constructor
  · intro h
    rw [certificateOf] at h
    split at h
    · next fs hg =>
      obtain ⟨usual, hu, h⟩ := ok_of_bind h
      have hasks := useDefault_eq_ok_iff.1 hu
      dsimp only at h
      split at h
      · cases h
      · cases h
      · next hf =>
        cases h
        exact ⟨fs, .default, hg, .default hasks (filled?_eq_none_iff.1 hf), rfl⟩
      · next path hf =>
        cases h
        obtain ⟨hp, hne⟩ := filled?_eq_some_iff.1 hf
        exact ⟨fs, .path path, hg, .path hasks hp hne, rfl⟩
    · cases h
  · rintro ⟨fs, location, hg, hl, rfl⟩
    rw [certificateOf, hg]
    cases hl with
    | default hasks hn =>
      dsimp only
      rw [useDefault_eq_ok_iff.2 hasks, filled?_eq_none_iff.2 hn]
      rfl
    | path hasks hp hne =>
      dsimp only
      rw [useDefault_eq_ok_iff.2 hasks, filled?_eq_some_iff.2 ⟨hp, hne⟩]
      rfl

/-! ## the whole description -/

/-- of the members that name a kind of source there is only this one -/
structure IsSole (ms : Members) (kind : String) : Prop where
  has : ¬Lacks ms kind
  others : ∀ k ∈ ["file", "url", "certificate"], k ≠ kind → Lacks ms k

theorem filter_kinds_eq_iff {kind : String} (hk : kind ∈ kinds) :
    kinds.filter (fun k => (present? ms k).isSome) = [kind] ↔ IsSole ms kind := by
  have hsome : ∀ k, (present? ms k).isSome = true ↔ ¬Lacks ms k := fun k => by
    rw [← Json.present?_eq_none_iff, Option.isSome_iff_ne_none]
  constructor
  · intro h
    have hm : ∀ k, k ∈ kinds ∧ (present? ms k).isSome = true ↔ k = kind := fun k => by
      rw [← List.mem_filter (p := fun k => (present? ms k).isSome), h, List.mem_singleton]
    refine ⟨(hsome kind).1 ((hm kind).2 rfl).2, fun k hk hne => ?_⟩
    exact Classical.byContradiction fun hl => hne ((hm k).1 ⟨hk, (hsome k).2 hl⟩)
  · rintro ⟨hhas, hothers⟩
    have hp : ∀ k ∈ kinds, (present? ms k).isSome = decide (k = kind) := by
      intro k hk
      by_cases he : k = kind
      · rw [decide_eq_true he, he, (hsome kind).2 hhas]
      · rw [decide_eq_false he, Bool.eq_false_iff]
        exact fun h => (hsome k).1 h (hothers k hk he)
    have hone : ∀ kind ∈ kinds, kinds.filter (fun k => decide (k = kind)) = [kind] := by decide
    rw [List.filter_congr hp, hone kind hk]

theorem stringField_eq_ok_iff {field value : String} :
    stringField ms field = .ok value ↔ get? ms field = some (.string value) := by
  refine ⟨stringField_eq_ok, fun h => ?_⟩
  rw [stringField, h]

inductive HasSource (resolver : CertificateResolver) (ms : Members) : Source → Prop where
  | file {path : String} {format : TokenFormat} (hs : IsSole ms "file")
      (h : get? ms "file" = some (.string path)) (hf : HasFormat ms format) :
      HasSource resolver ms (.file path format)
  | url {address : String} {headers : Http.Headers} {format : TokenFormat} (hs : IsSole ms "url")
      (h : get? ms "url" = some (.string address)) (hh : HasHeaders ms headers)
      (hf : HasFormat ms format) : HasSource resolver ms (.url address headers format)
  | certificate {fs : Members} {location : CertificateLocation} (hs : IsSole ms "certificate")
      (h : get? ms "certificate" = some (.object fs)) (hl : HasLocation fs location) :
      HasSource resolver ms (.certificate location (filled? fs "trust_chain_path") resolver)

theorem ofMembers_eq_ok_iff {source : Source} : ofMembers resolver ms = .ok source ↔
    get? ms "environment_id" = none ∧ HasSource resolver ms source := by
  constructor
  · intro h
    rw [ofMembers] at h
    split at h
    · cases h
    · next kind hkinds =>
      have hk : kind ∈ kinds := (List.mem_filter.1 (hkinds ▸ List.mem_cons_self)).1
      have hs := (filter_kinds_eq_iff hk).1 hkinds
      split at h
      · cases h
      · next henv =>
        refine ⟨Option.not_isSome_iff_eq_none.1 henv, ?_⟩
        split at h
        · next he =>
          subst he
          obtain ⟨path, hp, h⟩ := ok_of_bind h
          obtain ⟨format, hf, h⟩ := ok_of_bind h
          cases h
          exact .file hs (stringField_eq_ok hp) (formatOf_eq_ok_iff.1 hf)
        · split at h
          · next he =>
            subst he
            obtain ⟨address, ha, h⟩ := ok_of_bind h
            obtain ⟨headers, hh, h⟩ := ok_of_bind h
            obtain ⟨format, hf, h⟩ := ok_of_bind h
            cases h
            exact .url hs (stringField_eq_ok ha) (headersOf_eq_ok_iff.1 hh)
              (formatOf_eq_ok_iff.1 hf)
          · next hfile hurl =>
            obtain rfl : kind = "certificate" := by
              simpa [kinds, hfile, hurl] using hk
            obtain ⟨fs, location, hg, hl, rfl⟩ := certificateOf_eq_ok_iff.1 h
            exact .certificate hs hg hl
    · cases h
  · rintro ⟨henv, h⟩
    rw [ofMembers]
    cases h with
    | file hs hp hf =>
      rw [(filter_kinds_eq_iff (by decide)).2 hs]
      dsimp only
      rw [henv, stringField_eq_ok_iff.2 hp, formatOf_eq_ok_iff.2 hf]
      rfl
    | url hs ha hh hf =>
      rw [(filter_kinds_eq_iff (by decide)).2 hs]
      dsimp only
      rw [henv, stringField_eq_ok_iff.2 ha, headersOf_eq_ok_iff.2 hh, formatOf_eq_ok_iff.2 hf]
      rfl
    | certificate hs hg hl =>
      rw [(filter_kinds_eq_iff (by decide)).2 hs]
      dsimp only
      rw [henv]
      exact certificateOf_eq_ok_iff.2 ⟨_, _, hg, hl, rfl⟩

/-- the configuration describes the source, or an application supplies the tokens and there is
nothing that describes another source -/
inductive Describes (resolver : CertificateResolver) : Option Value → Bool → Source → Prop where
  | supplied {config : Option Value} (h : config = none ∨ config = some .null) :
      Describes resolver config true .supplied
  | described {ms : Members} {source : Source} (henv : get? ms "environment_id" = none)
      (h : HasSource resolver ms source) : Describes resolver (some (.object ms)) false source

theorem ofConfig_eq_ok_iff {config : Option Value} {supplier : Bool} {source : Source} :
    ofConfig config supplier resolver = .ok source ↔ Describes resolver config supplier source := by
  constructor
  · intro h
    rw [ofConfig.eq_def] at h
    split at h
    · cases h
    · cases h
    · next hn =>
      cases h
      exact .supplied (Json.filter_eq_none_iff.1 hn)
    · next hs =>
      obtain ⟨rfl, _⟩ := Json.filter_eq_some_iff.1 hs
      obtain ⟨henv, h⟩ := ofMembers_eq_ok_iff.1 h
      exact .described henv h
    · cases h
  · intro h
    cases h with
    | supplied h => rw [ofConfig.eq_def, Json.filter_eq_none_iff.2 h]
    | described henv h => exact ofMembers_eq_ok_iff.2 ⟨henv, h⟩

theorem exists_location_iff : (∃ location, HasLocation fs location) ↔
    ∃ usual, AsksDefault fs usual ∧ (usual = true ↔
      ¬∃ path, get? fs "certificate_config_location" = some (.string path) ∧ path ≠ "") := by
  constructor
  · rintro ⟨_, ⟨hasks, hn⟩ | ⟨hasks, hp, hne⟩⟩
    · exact ⟨true, hasks, fun _ ⟨path, hp, hne⟩ => hne (hn path hp), fun _ => rfl⟩
    · exact ⟨false, hasks, nofun, fun h => absurd ⟨_, hp, hne⟩ h⟩
  · rintro ⟨usual, hasks, h⟩
    by_cases hp : ∃ path, get? fs "certificate_config_location" = some (.string path) ∧ path ≠ ""
    · have hu : usual = false := Bool.eq_false_iff.2 fun hu => h.1 hu hp
      obtain ⟨path, hp, hne⟩ := hp
      exact ⟨_, .path (hu ▸ hasks) hp hne⟩
    · refine ⟨_, .default (h.2 hp ▸ hasks) fun path hpath => ?_⟩
      exact Classical.byContradiction fun hne => hp ⟨path, hpath, hne⟩

theorem exists_source_iff (resolver : CertificateResolver) (ms : Members) :
    (∃ source, HasSource resolver ms source) ↔
    (IsSole ms "file" ∧ (∃ path, get? ms "file" = some (.string path)) ∧
      ∃ format, HasFormat ms format) ∨
    (IsSole ms "url" ∧ (∃ address, get? ms "url" = some (.string address)) ∧
      (∃ headers, HasHeaders ms headers) ∧ ∃ format, HasFormat ms format) ∨
    (IsSole ms "certificate" ∧ ∃ fs, get? ms "certificate" = some (.object fs) ∧
      ∃ location, HasLocation fs location) := by
  constructor
  · rintro ⟨_, h⟩
    cases h with
    | file hs h hf => exact .inl ⟨hs, ⟨_, h⟩, _, hf⟩
    | url hs h hh hf => exact .inr (.inl ⟨hs, ⟨_, h⟩, ⟨_, hh⟩, _, hf⟩)
    | certificate hs h hl => exact .inr (.inr ⟨hs, _, h, _, hl⟩)
  · rintro (⟨hs, ⟨_, h⟩, _, hf⟩ | ⟨hs, ⟨_, h⟩, ⟨_, hh⟩, _, hf⟩ | ⟨hs, _, h, _, hl⟩)
    · exact ⟨_, .file hs h hf⟩
    · exact ⟨_, .url hs h hh hf⟩
    · exact ⟨_, .certificate hs h hl⟩

/-- a source is accepted if and only if an application supplies the tokens and nothing else is
described, or nobody supplies them and one source is described in full; and then it is this one -/
theorem accepts_descriptions (config : Option Value) (supplier : Bool)
    (resolver : CertificateResolver) :
    ((∃ source, ofConfig config supplier resolver = .ok source) ↔
      ((config = none ∨ config = some .null) ∧ supplier = true) ∨
      (supplier = false ∧ ∃ ms, config = some (.object ms) ∧ get? ms "environment_id" = none ∧
        ((IsSole ms "file" ∧ (∃ path, get? ms "file" = some (.string path)) ∧
            ∃ format, HasFormat ms format) ∨
          (IsSole ms "url" ∧ (∃ address, get? ms "url" = some (.string address)) ∧
            (∃ headers, HasHeaders ms headers) ∧ ∃ format, HasFormat ms format) ∨
          (IsSole ms "certificate" ∧ ∃ fs, get? ms "certificate" = some (.object fs) ∧
            ∃ usual, AsksDefault fs usual ∧ (usual = true ↔
              ¬∃ path, get? fs "certificate_config_location" = some (.string path) ∧
                path ≠ ""))))) ∧
    ∀ source, ofConfig config supplier resolver = .ok source ↔
      Describes resolver config supplier source := by
  refine ⟨?_, fun source => ofConfig_eq_ok_iff⟩
  simp only [ofConfig_eq_ok_iff, ← exists_location_iff, ← exists_source_iff resolver]
  constructor
  · rintro ⟨_, h⟩
    cases h with
    | supplied h => exact .inl ⟨h, rfl⟩
    | described henv h => exact .inr ⟨rfl, _, rfl, henv, _, h⟩
  · rintro (⟨h, rfl⟩ | ⟨rfl, ms, rfl, henv, source, h⟩)
    · exact ⟨_, .supplied h⟩
    · exact ⟨_, .described henv h⟩

end Source

end Federation
