import Federation.Proofs.Endpoint.Grammar

/-!
# Hosts of both services

The grammars of the two services share hosts, since a segment may be the name of the other service.
They share no others: a label that is joined to a service name tells by its first or its last group
which name that is, and neither `mtls` nor `p` is the name of a service.

* `Endpoint.Named.crossed`    the names that two services share;
* `Endpoint.hostLabels_both_iff`
                              the labels of the hosts that they share;
* `Endpoint.accepted_by_both_iff`
                              the URLs that are endpoints of both.
-/

namespace Federation.Endpoint

/-! ## labels of different services -/

section
variable {s s' : Service} {r r' : List Char}

theorem Service.label_injective (h : s.label = s'.label) : s = s' := by
  cases s with
  | sts =>
    cases s' with
    | sts => rfl
    | iamCredentials => exact absurd h (by decide)
  | iamCredentials =>
    cases s' with
    | sts => exact absurd h (by decide)
    | iamCredentials => rfl

theorem isRegion_label (s : Service) : IsRegion s.label := .group (isGroup_label s)

theorem groups_joined (s : Service) (r : List Char) :
    groups (r ++ '-' :: s.label) = groups r ++ [s.label] := by
  rw [groups, Text.splitAt_append, ← groups, ← groups, groups_label]

theorem groups_private (s : Service) (r : List Char) :
    groups (s.label ++ '-' :: r) = s.label :: groups r := by
  rw [groups, Text.splitAt_append, ← groups, ← groups, groups_label, List.singleton_append]

theorem eq_of_joined (h : r ++ '-' :: s.label = r' ++ '-' :: s'.label) : s = s' := by
  have hlast := congrArg (fun label => (groups label).getLast?) h
  simp only [groups_joined, List.getLast?_concat, Option.some.injEq] at hlast
  exact Service.label_injective hlast

theorem eq_of_private (h : s.label ++ '-' :: r = s'.label ++ '-' :: r') : s = s' := by
  have hhead := congrArg (fun label => (groups label).head?) h
  simp only [groups_private, List.head?_cons, Option.some.injEq] at hhead
  exact Service.label_injective hhead

theorem label_ne_of_hyphen (s : Service) (front back : List Char) :
    s.label ≠ front ++ '-' :: back := by
  intro h
  have hmem : '-' ∈ s.label := by simp [h]
  exact (isGroup_label s).free hmem

theorem label_ne_mtls (s : Service) : s.label ≠ "mtls".toList := by
  cases s <;> decide

theorem label_ne_p (s : Service) : s.label ≠ "p".toList := by
  cases s <;> decide

end

/-! ## names -/

section
variable {s s' : Service}

theorem named_one_iff (s : List Char) (a : List Char) :
    Named s [a] ↔ a = s ∨ ∃ r, IsRegion r ∧ a = r ++ '-' :: s := by
  constructor
  · intro h
    cases h with
    | alone => exact .inl rfl
    | joined hr => exact .inr ⟨_, hr, rfl⟩
  · rintro (rfl | ⟨r, hr, rfl⟩)
    · exact .alone
    · exact .joined hr

theorem named_two_iff (s : List Char) (a b : List Char) :
    Named s [a, b] ↔ IsRegion a ∧ b = s ∨ a = s ∧ IsRegion b ∨
      ∃ r, IsRegion r ∧ a = s ++ '-' :: r ∧ b = "p".toList := by
  constructor
  · intro h
    cases h with
    | before hr => exact .inl ⟨hr, rfl⟩
    | behind hr => exact .inr (.inl ⟨rfl, hr⟩)
    | privateName hr => exact .inr (.inr ⟨_, hr, rfl, rfl⟩)
  · rintro (⟨hr, rfl⟩ | ⟨rfl, hr⟩ | ⟨r, hr, rfl, rfl⟩)
    · exact .before hr
    · exact .behind hr
    · exact .privateName hr

theorem Named.length {s : List Char} {name : List (List Char)} (h : Named s name) :
    (∃ a, name = [a]) ∨ ∃ a b, name = [a, b] := by
  cases h with
  | alone => exact .inl ⟨_, rfl⟩
  | before _ => exact .inr ⟨_, _, rfl⟩
  | behind _ => exact .inr ⟨_, _, rfl⟩
  | joined _ => exact .inl ⟨_, rfl⟩
  | privateName _ => exact .inr ⟨_, _, rfl⟩

theorem Named.eq_of_one {a : List Char} (h : Named s.label [a]) (h' : Named s'.label [a]) :
    s = s' := by
  rw [named_one_iff] at h h'
  rcases h with rfl | ⟨r, _, rfl⟩
  · rcases h' with h' | ⟨r', _, h'⟩
    · exact Service.label_injective h'
    · exact absurd h' (label_ne_of_hyphen _ _ _)
  · rcases h' with h' | ⟨r', _, h'⟩
    · exact absurd h'.symm (label_ne_of_hyphen _ _ _)
    · exact eq_of_joined h'

/-- two labels name two services only if they are the names of both -/
theorem Named.crossed {name : List (List Char)} (hs : s ≠ s') (h : Named s.label name)
    (h' : Named s'.label name) : name = [s.label, s'.label] ∨ name = [s'.label, s.label] := by
  rcases h.length with ⟨a, rfl⟩ | ⟨a, b, rfl⟩
  · exact absurd (h.eq_of_one h') hs
  rw [named_two_iff] at h h'
  rcases h with ⟨_, rfl⟩ | ⟨rfl, _⟩ | ⟨r, _, rfl, rfl⟩
  · rcases h' with ⟨_, h'⟩ | ⟨rfl, _⟩ | ⟨_, _, _, h'⟩
    · exact absurd (Service.label_injective h') hs
    · exact .inr rfl
    · exact absurd h' (label_ne_p _)
  · rcases h' with ⟨_, rfl⟩ | ⟨h', _⟩ | ⟨_, _, h', _⟩
    · exact .inl rfl
    · exact absurd (Service.label_injective h') hs
    · exact absurd h' (label_ne_of_hyphen _ _ _)
  · rcases h' with ⟨_, h'⟩ | ⟨h', _⟩ | ⟨r', _, h', _⟩
    · exact absurd h'.symm (label_ne_p _)
    · exact absurd h'.symm (label_ne_of_hyphen _ _ _)
    · exact absurd (eq_of_private h') hs

theorem Named.not_mtls {name : List (List Char)} (hs : s ≠ s') (h : Named s'.label name) :
    ¬Named s.label (name ++ ["mtls".toList]) := by
  intro hm
  rcases h.length with ⟨a, rfl⟩ | ⟨a, b, rfl⟩
  · rw [List.singleton_append, named_two_iff] at hm
    rcases hm with ⟨_, hm⟩ | ⟨rfl, _⟩ | ⟨_, _, _, hm⟩
    · exact label_ne_mtls _ hm.symm
    · rcases (named_one_iff _ _).1 h with h | ⟨_, _, h⟩
      · exact hs (Service.label_injective h)
      · exact label_ne_of_hyphen _ _ _ h
    · exact absurd hm (by decide)
  · rcases hm.length with ⟨_, hlen⟩ | ⟨_, _, hlen⟩
    · exact absurd (congrArg List.length hlen) (by simp)
    · exact absurd (congrArg List.length hlen) (by simp)

/-! ## hosts -/

/-- the labels of a host that is named for two services -/
def CrossedLabels (s s' : List Char) (labels : List (List Char)) : Prop :=
  ∃ m, (m = [] ∨ m = ["mtls".toList]) ∧
    labels = [s, s'] ++ m ++ ["googleapis".toList, "com".toList]

theorem CrossedLabels.hostLabels {labels : List (List Char)}
    (h : CrossedLabels s.label s'.label labels) :
    HostLabels s.label labels ∧ HostLabels s'.label labels := by
  obtain ⟨m, hm, rfl⟩ := h
  exact ⟨⟨_, m, .behind (isRegion_label s'), hm, rfl⟩, ⟨_, m, .before (isRegion_label s), hm, rfl⟩⟩

/-- the hosts that two services share are named for both -/
theorem hostLabels_both_iff (hs : s ≠ s') (labels : List (List Char)) :
    HostLabels s.label labels ∧ HostLabels s'.label labels ↔
      CrossedLabels s.label s'.label labels ∨ CrossedLabels s'.label s.label labels := by
  constructor
  · rintro ⟨⟨name, m, hname, hm, rfl⟩, ⟨name', m', hname', hm', hlabels⟩⟩
    have hfront : name ++ m = name' ++ m' := List.append_cancel_right hlabels
    rcases hm with rfl | rfl
    · rcases hm' with rfl | rfl
      · rw [List.append_nil, List.append_nil] at hfront
        subst hfront
        rcases hname.crossed hs hname' with rfl | rfl
        · exact .inl ⟨[], .inl rfl, rfl⟩
        · exact .inr ⟨[], .inl rfl, rfl⟩
      · rw [List.append_nil] at hfront
        exact absurd (hfront ▸ hname) (hname'.not_mtls hs)
    · rcases hm' with rfl | rfl
      · rw [List.append_nil] at hfront
        exact absurd (hfront.symm ▸ hname') (hname.not_mtls hs.symm)
      · obtain rfl : name = name' := List.append_cancel_right hfront
        rcases hname.crossed hs hname' with rfl | rfl
        · exact .inl ⟨_, .inr rfl, rfl⟩
        · exact .inr ⟨_, .inr rfl, rfl⟩
  · rintro (h | h)
    · exact h.hostLabels
    · exact h.hostLabels.symm

end

def sharedHosts : List String :=
  ["sts.iamcredentials.googleapis.com", "iamcredentials.sts.googleapis.com",
    "sts.iamcredentials.mtls.googleapis.com", "iamcredentials.sts.mtls.googleapis.com"]

theorem isHostOf_both_iff (host : List Char) :
    isHostOf .sts host = true ∧ isHostOf .iamCredentials host = true ↔
      ∃ shared ∈ sharedHosts, host = shared.toList := by
  rw [isHostOf_iff, isHostOf_iff, hostLabels_both_iff (by decide)]
  constructor
  · intro h
    rw [← Text.intercalate_splitAt '.' host]
    rcases h with ⟨m, rfl | rfl, hlabels⟩ | ⟨m, rfl | rfl, hlabels⟩
    · rw [hlabels]
      exact ⟨"sts.iamcredentials.googleapis.com", by simp [sharedHosts], by decide⟩
    · rw [hlabels]
      exact ⟨"sts.iamcredentials.mtls.googleapis.com", by simp [sharedHosts], by decide⟩
    · rw [hlabels]
      exact ⟨"iamcredentials.sts.googleapis.com", by simp [sharedHosts], by decide⟩
    · rw [hlabels]
      exact ⟨"iamcredentials.sts.mtls.googleapis.com", by simp [sharedHosts], by decide⟩
  · rintro ⟨shared, hshared, rfl⟩
    simp only [sharedHosts, List.mem_cons, List.not_mem_nil, or_false] at hshared
    rcases hshared with rfl | rfl | rfl | rfl
    · exact .inl ⟨[], .inl rfl, by decide⟩
    · exact .inr ⟨[], .inl rfl, by decide⟩
    · exact .inl ⟨_, .inr rfl, by decide⟩
    · exact .inr ⟨_, .inr rfl, by decide⟩

/-- a URL is an endpoint of both services exactly when it is one of either, on a host that is named
for both; on any other host it is not one of the other service too -/
theorem accepted_by_both_iff (url : String) :
    (isTokenUrl url = true ∧ isImpersonationUrl url = true ↔
      (isTokenUrl url = true ∨ isImpersonationUrl url = true) ∧
        ∃ host ∈ sharedHosts, host? url = some host.toList) ∧
    ((∃ host ∈ sharedHosts, host? url = some host.toList) ∨
      isTokenUrl url = false ∨ isImpersonationUrl url = false) := by
  rw [isTokenUrl, isImpersonationUrl, isEndpointOf, isEndpointOf]
  cases host? url with
  | none => simp
  | some host =>
    have hboth := isHostOf_both_iff host
    simp only [Option.some.injEq]
    constructor
    · constructor
      · exact fun h => ⟨.inl h.1, hboth.1 h⟩
      · exact fun h => hboth.2 h.2
    · by_cases hshared : ∃ shared ∈ sharedHosts, host = shared.toList
      · exact .inl hshared
      · have hnot := mt hboth.1 hshared
        rw [← Bool.not_eq_true, ← Bool.not_eq_true]
        exact .inr (not_and_or.1 hnot)

end Federation.Endpoint
