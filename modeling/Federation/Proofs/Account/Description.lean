import Mathlib.Algebra.Order.Group.Multiset
import Mathlib.Tactic.Abel
import Federation.Account.Description
import Federation.Proofs.Json.Members

/-!
# Descriptions, there and back

What is written of a description is an object whose members stand in the order of their names, and
reading the object gives the description back.  Only a source that is null would get lost.

* `Description.toJson_eq`        the members in order;
* `Description.ofJson_toJson`    a description that is written and read.
-/

namespace Federation.Description

open Json (Members SortedAfter)
open Json.Decode (Takes)

/-! ## the members in order -/

/-- what comes before the source -/
def front (d : Description) : Members :=
  ("audience", .string d.audience) ::
    (member? "client_id" .string d.clientId ++
      member? "client_secret" .string d.clientSecret)

def back (d : Description) : Members :=
  member? "quota_project_id" .string d.quotaProject ++
    (member? "service_account_impersonation" writeLifetime d.lifetime ++
      (member? "service_account_impersonation_url" .string d.impersonationUrl ++
        (("subject_token_type", .string d.tokenType) ::
          (member? "token_info_url" .string d.tokenInfoUrl ++
            (member? "token_url" .string d.tokenUrl ++
              (member? "type" .string d.kind ++
                (member? "universe_domain" .string d.domain ++
                  member? "workforce_pool_user_project" .string d.userProject)))))))

def members (d : Description) : Members :=
  d.front ++ (member? "credential_source" id d.source ++ d.back)

theorem sortedAfter_member? {α : Type} {low name : String} {write : α → Json.Value}
    {v : Option α} {ms : Members} (hlt : low < name) (h : SortedAfter name ms) :
    SortedAfter low (member? name write v ++ ms) := by
  cases v with
  | none => exact h.mono hlt
  | some a => exact h.cons hlt

theorem sorted_members (d : Description) : Json.Sorted d.members := by
  have h : SortedAfter "" (d.members ++ []) := by
    simp only [members, front, back, List.append_assoc, List.cons_append]
    refine .cons (by decide) ?_
    refine sortedAfter_member? (by decide) (sortedAfter_member? (by decide) ?_)
    refine sortedAfter_member? (by decide) (sortedAfter_member? (by decide) ?_)
    refine sortedAfter_member? (by decide) (sortedAfter_member? (by decide) ?_)
    refine .cons (by decide) ?_
    refine sortedAfter_member? (by decide) (sortedAfter_member? (by decide) ?_)
    refine sortedAfter_member? (by decide) (sortedAfter_member? (by decide) ?_)
    exact sortedAfter_member? (by decide) (Json.sortedAfter_nil _)
  rw [List.append_nil] at h
  exact h.1

theorem toJson_eq (d : Description) : d.toJson = .object d.members := by
  refine congrArg Json.Value.object (Json.ofList_eq_of_perm ?_ d.sorted_members)
  rw [← Multiset.coe_eq_coe]
  simp only [members, front, back, ← Multiset.coe_add, ← Multiset.cons_coe,
    ← Multiset.singleton_add]
  abel

/-! ## reading them -/

section
variable {name : String} {absence : Json.Absence} {r r' : Description}

theorem takes_string {set : String → Description → Description}
    (hf : Json.field? fields name =
      some ⟨name, absence, fun v => set <$> Json.Decode.string v⟩)
    (s : String) (hput : set s r = r') : Takes fields [(name, .string s)] r r' := by
  rw [← hput]
  exact .single hf rfl

theorem takes_member? {α : Type} {f : Json.Field Json.Decoder Description}
    {write : α → Json.Value} (set : Option α → Description → Description)
    (hf : Json.field? fields name = some f) (v : Option α)
    (hread : ∀ a ∈ v, f.read (write a) = .ok (set (some a)))
    (hnone : set none r = r) (hput : set v r = r') :
    Takes fields (member? name write v) r r' := by
  rw [← hput]
  cases v with
  | none =>
    rw [hnone]
    exact .nil r
  | some a => exact .single hf (hread a rfl)

theorem takes_text {set : Option String → Description → Description}
    (hf : Json.field? fields name =
      some ⟨name, absence, fun v => set <$> Json.Decode.optional Json.Decode.string v⟩)
    (v : Option String) (hnone : set none r = r) (hput : set v r = r') :
    Takes fields (member? name .string v) r r' :=
  takes_member? set hf v (fun _ _ => rfl) hnone hput

end

theorem takes_lifetime (seconds : Option Nat) {r : Description} (hnone : r.lifetime = none) :
    Takes fields (member? "service_account_impersonation" writeLifetime seconds) r
      { r with lifetime := seconds } := by
  refine takes_member? (fun n d => { d with lifetime := n }) rfl seconds ?_ ?_ rfl
  · exact fun _ _ => rfl
  · rw [← hnone]

theorem takes_source {source : Option Json.Value} (h : source ≠ some .null) {r : Description}
    (hnone : r.source = none) :
    Takes fields (member? "credential_source" id source) r { r with source := source } := by
  refine takes_member? (fun v d => { d with source := v }) rfl source ?_ ?_ rfl
  · intro v hv
    cases v with
    | null => exact absurd hv h
    | _ => rfl
  · rw [← hnone]

theorem takes_members {d : Description} (h : d.source ≠ some .null) :
    Takes fields d.members blank d := by
  have hfront : Takes fields d.front blank
      { blank with
        audience := d.audience, clientId := d.clientId, clientSecret := d.clientSecret } :=
    (takes_string rfl d.audience rfl).append <|
      (takes_text rfl d.clientId rfl rfl).append (takes_text rfl d.clientSecret rfl rfl)
  refine hfront.append ((takes_source h rfl).append ?_)
  exact (takes_text rfl d.quotaProject rfl rfl).append <|
    (takes_lifetime d.lifetime rfl).append <|
    (takes_text rfl d.impersonationUrl rfl rfl).append <|
    (takes_string rfl d.tokenType rfl).append <|
    (takes_text rfl d.tokenInfoUrl rfl rfl).append <|
    (takes_text rfl d.tokenUrl rfl rfl).append <|
    (takes_text rfl d.kind rfl rfl).append <|
    (takes_text rfl d.domain rfl rfl).append <|
    takes_text rfl d.userProject rfl rfl

/-! ## there and back -/

theorem required_mem_members (d : Description) :
    ∀ f ∈ fields, f.absence = .required → f.name ∈ d.members.map Prod.fst := by
  simp [fields, members, front, back]

theorem ofJson_toJson {d : Description} (h : d.source ≠ some .null) : ofJson d.toJson = .ok d := by
  rw [toJson_eq]
  exact (takes_members h).record d.required_mem_members _

end Federation.Description
