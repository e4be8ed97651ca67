import Federation.Proofs.Http.Headers
import Federation.Proofs.Refresh.Usable

/-!
# What setting headers does

The headers of a request are the access token, the project that pays, and the boundary unless it is
that of all locations.  Each of them replaces whatever stands under its name, and nothing else is
touched.

* `Credentials.apply_eq_ok_iff_setEach`, `Credentials.apply_eq_error_iff_setEach`
                                    setting headers, success and failure;
* `Credentials.legal_planned_iff`   when all values are legal;
* `Credentials.headers_are_replaced`
                                    when headers can be set, and what stands in them then.
-/

namespace Federation

theorem Boundary.bind_header? (held : Option Boundary) : held.bind header?
    = (held.filter (!·.isNoOp)).map (Http.allowedLocations ·.encoded) := by
  cases held with
  | none => rfl
  | some b =>
    rw [Option.bind_some, header?]
    cases hb : b.isNoOp <;> simp [Option.filter, hb]

theorem Boundary.isNoOp_iff (b : Boundary) : b.isNoOp = true ↔ b.encoded = "0x0" := by
  rw [isNoOp, everywhere, decide_eq_true_eq]

namespace Credentials

variable {c : Credentials} {token : String} {override? : Option String} {hs hs' : Http.Headers}

def chosen? (c : Credentials) (override? : Option String) : Option String :=
  override?.or (c.token.map (·.value))

theorem apply_of_chosen (h : c.chosen? override? = some token) (hs : Http.Headers) :
    c.apply override? hs = match hs.setEach (c.planned token) with
      | (true, hs) => (.ok (), hs)
      | (false, hs) => (.error .headerValue, hs) := by
  unfold chosen? at h
  unfold apply
  exact h ▸ rfl

theorem apply_of_not_chosen (h : c.chosen? override? = none) (hs : Http.Headers) :
    c.apply override? hs = (.error .noToken, hs) := by
  rw [apply, show override?.or (c.token.map (·.value)) = none from h]

theorem apply_eq_ok_iff_setEach : c.apply override? hs = (.ok (), hs') ↔
    ∃ token, c.chosen? override? = some token ∧ hs.setEach (c.planned token) = (true, hs') := by
  cases h : c.chosen? override? with
  | none =>
    rw [apply_of_not_chosen h]
    exact ⟨nofun, fun ⟨_, hn, _⟩ => nomatch hn⟩
  | some token =>
    rw [apply_of_chosen h]
    rcases hset : hs.setEach (c.planned token) with ⟨_ | _, _⟩ <;> simp [hset]

theorem apply_eq_error_iff_setEach {f : Failure} : c.apply override? hs = (.error f, hs') ↔
    (c.chosen? override? = none ∧ f = .noToken ∧ hs' = hs) ∨ ∃ token,
      c.chosen? override? = some token ∧ f = .headerValue ∧
        hs.setEach (c.planned token) = (false, hs') := by
  cases h : c.chosen? override? with
  | none =>
    rw [apply_of_not_chosen h]
    simp [eq_comm]
  | some token =>
    rw [apply_of_chosen h]
    rcases hset : hs.setEach (c.planned token) with ⟨_ | _, _⟩ <;> simp [hset, eq_comm]

/-! ## what is set -/

theorem nodup_planned (c : Credentials) (token : String) :
    ((c.planned token).map Http.Header.name).Nodup := by
  rw [planned, Boundary.bind_header?]
  cases c.account.quotaProject <;> cases c.boundary.filter (!·.isNoOp)
  all_goals
    simp [Http.bearer, Http.quotaProject, Http.allowedLocations, Http.Header.open,
      Http.authorization]

theorem mem_planned {h : Http.Header} : h ∈ c.planned token ↔ h = Http.bearer token ∨
    (∃ project ∈ c.account.quotaProject, h = Http.quotaProject project) ∨
    ∃ b ∈ c.boundary, b.encoded ≠ "0x0" ∧ h = Http.allowedLocations b.encoded := by
  have hb : h ∈ (c.boundary.bind Boundary.header?).toList ↔
      ∃ b ∈ c.boundary, b.encoded ≠ "0x0" ∧ h = Http.allowedLocations b.encoded := by
    cases c.boundary with
    | none => simp
    | some b =>
      have hnone : b.isNoOp = true → b.header? = none := fun h => if_pos h
      have hsome : ¬b.isNoOp = true → b.header? = some (Http.allowedLocations b.encoded) :=
        fun h => if_neg h
      rw [Option.bind_some]
      by_cases hb : b.isNoOp = true
      · simp [hnone hb, b.isNoOp_iff.1 hb]
      · simp [hsome hb, mt b.isNoOp_iff.2 hb]
  rw [planned, List.cons_append, List.mem_cons, List.mem_append, hb]
  simp [eq_comm]

/-- all values that are to be set are legal -/
structure Settable (c : Credentials) (token : String) : Prop where
  bearer : Http.isValue ("Bearer " ++ token) = true
  project : ∀ project ∈ c.account.quotaProject, Http.isValue project = true
  locations : ∀ b ∈ c.boundary, b.encoded ≠ "0x0" → Http.isValue b.encoded = true

theorem legal_planned_iff :
    (∀ h ∈ c.planned token, Http.isValue h.value = true) ↔ c.Settable token := by
  constructor
  · intro h
    refine ⟨h _ (mem_planned.2 (.inl rfl)), fun project hp => ?_, fun b hb hne => ?_⟩
    · exact h (Http.quotaProject project) (mem_planned.2 (.inr (.inl ⟨project, hp, rfl⟩)))
    · exact h (Http.allowedLocations b.encoded) (mem_planned.2 (.inr (.inr ⟨b, hb, hne, rfl⟩)))
  · intro hl h hm
    obtain rfl | ⟨project, hp, rfl⟩ | ⟨b, hb, hne, rfl⟩ := mem_planned.1 hm
    · exact hl.bearer
    · exact hl.project project hp
    · exact hl.locations b hb hne

/-- the names under which headers are set -/
def Sets (c : Credentials) (name : String) : Prop :=
  name = "authorization" ∨ (name = "x-goog-user-project" ∧ c.account.quotaProject.isSome = true) ∨
    (name = "x-allowed-locations" ∧ ∃ b ∈ c.boundary, b.encoded ≠ "0x0")

theorem sets_iff {name : String} :
    c.Sets name ↔ ∃ h ∈ c.planned token, h.name = name := by
  constructor
  · rintro (rfl | ⟨rfl, hp⟩ | ⟨rfl, b, hb, hne⟩)
    · exact ⟨_, mem_planned.2 (.inl rfl), rfl⟩
    · obtain ⟨project, hp⟩ := Option.isSome_iff_exists.1 hp
      exact ⟨_, mem_planned.2 (.inr (.inl ⟨project, hp, rfl⟩)), rfl⟩
    · exact ⟨_, mem_planned.2 (.inr (.inr ⟨b, hb, hne, rfl⟩)), rfl⟩
  · rintro ⟨h, hm, rfl⟩
    obtain rfl | ⟨project, hp, rfl⟩ | ⟨b, hb, hne, rfl⟩ := mem_planned.1 hm
    · exact .inl rfl
    · exact .inr (.inl ⟨rfl, Option.isSome_iff_exists.2 ⟨project, hp⟩⟩)
    · exact .inr (.inr ⟨rfl, b, hb, hne⟩)

/-! ## what the headers are then -/

open Http.Headers (gathered under)

/-- what has come of the headers `entries`, which the caller has put there under names in any letter
case -/
structure Applied (c : Credentials) (token : String) (entries : List Http.Header)
    (set : Http.Headers) : Prop where
  authorization : set.named "authorization" = [⟨"authorization", "Bearer " ++ token, true⟩]
  project : ∀ project ∈ c.account.quotaProject,
    set.named "x-goog-user-project" = [⟨"x-goog-user-project", project, false⟩]
  locations : ∀ b ∈ c.boundary, b.encoded ≠ "0x0" →
    set.named "x-allowed-locations" = [⟨"x-allowed-locations", b.encoded, false⟩]
  /-- all that the caller has put under any other name is there still -/
  others : ∀ name, ¬c.Sets (Text.lower name) →
    set.named (Text.lower name) = gathered (under entries name)
  /-- what the caller has put nothing under has one value if it is set, and none otherwise -/
  once : ∀ name, under entries name = [] →
    ((set.named (Text.lower name)).length = 1 ↔ c.Sets (Text.lower name))

theorem applied_of_setEach {entries : List Http.Header} {set : Http.Headers}
    (h : (gathered entries).setEach (c.planned token) = (true, set)) :
    Applied c token entries set := by
  obtain ⟨_, rfl⟩ := Http.Headers.setEach_eq_true_iff.1 h
  have hself : ∀ h ∈ c.planned token,
      ((gathered entries).setAll (c.planned token)).named h.name = [h] := fun h hm =>
    Http.Headers.named_setAll_self (c.nodup_planned token) hm _
  have hothers : ∀ name, ¬c.Sets (Text.lower name) →
      ((gathered entries).setAll (c.planned token)).named (Text.lower name)
        = gathered (under entries name) := by
    intro name hn
    rw [Http.Headers.named_setAll_of_ne, Http.Headers.named_gathered]
    exact fun h hm he => hn (sets_iff.2 ⟨h, hm, he.symm⟩)
  refine ⟨hself _ (mem_planned.2 (.inl rfl)), fun project hp => ?_, fun b hb hne => ?_, hothers,
    fun name hnone => ?_⟩
  · exact hself _ (mem_planned.2 (.inr (.inl ⟨project, hp, rfl⟩)))
  · exact hself _ (mem_planned.2 (.inr (.inr ⟨b, hb, hne, rfl⟩)))
  · by_cases hs : c.Sets (Text.lower name)
    · obtain ⟨h, hm, hname⟩ := sets_iff.1 hs
      rw [← hname, hself h hm]
      exact ⟨fun _ => hname ▸ hs, fun _ => rfl⟩
    · rw [hothers name hs, hnone]
      exact ⟨nofun, fun h => absurd h hs⟩

end Credentials

end Federation
