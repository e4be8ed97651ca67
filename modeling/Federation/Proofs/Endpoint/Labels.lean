import Federation.Endpoint.Allowed

/-!
# The hosts of a service, label by label

The hosts of a service as a grammar over their labels, and the check of a host as a decision of
that grammar.  A text is cut at its separators and put together again, so what the check says about
the groups of a label is said about the label itself.

* `Endpoint.isSegment_iff`, `Endpoint.isJoinedBefore_iff`, `Endpoint.isJoinedBehind_iff`
                            the forms of one label;
* `Endpoint.isServiceName_iff`
                            the labels in front of `mtls` and the domain;
* `Endpoint.isHostOf_iff`   a host passes the check exactly when its labels are in the grammar.
-/

namespace Federation

/-! ## texts between separators -/

namespace Text

theorem splitAt_eq_splitOn (sep : Char) (cs : List Char) : splitAt sep cs = cs.splitOn sep := by
  induction cs with
  | nil => rfl
  | cons c cs ih =>
    rw [splitAt, List.splitOn_cons_eq_if_modifyHead, ih]
    by_cases h : c = sep
    · rw [if_pos h, if_pos (beq_iff_eq.2 h)]
    · rw [if_neg h, if_neg (mt beq_iff_eq.1 h)]
      cases hs : cs.splitOn sep with
      | nil => exact absurd hs (List.splitOn_ne_nil sep cs)
      | cons piece pieces => rfl

theorem splitAt_ne_nil (sep : Char) (cs : List Char) : splitAt sep cs ≠ [] := by
  rw [splitAt_eq_splitOn]
  exact List.splitOn_ne_nil sep cs

theorem splitAt_of_free {sep : Char} {cs : List Char} (h : sep ∉ cs) : splitAt sep cs = [cs] := by
  rw [splitAt_eq_splitOn, List.splitOn_eq_singleton h]

theorem splitAt_append (sep : Char) (cs ds : List Char) :
    splitAt sep (cs ++ sep :: ds) = splitAt sep cs ++ splitAt sep ds := by
  rw [splitAt_eq_splitOn, splitAt_eq_splitOn, splitAt_eq_splitOn, List.splitOn_append_cons_self]

theorem intercalate_splitAt (sep : Char) (cs : List Char) :
    [sep].intercalate (splitAt sep cs) = cs := by
  rw [splitAt_eq_splitOn, List.intercalate_splitOn]

theorem intercalate_concat (sep : Char) {pieces : List (List Char)} (h : pieces ≠ [])
    (last : List Char) :
    [sep].intercalate (pieces ++ [last]) = [sep].intercalate pieces ++ sep :: last := by
  induction pieces with
  | nil => exact absurd rfl h
  | cons piece pieces ih =>
    cases pieces with
    | nil => simp
    | cons next pieces =>
      rw [List.cons_append, List.cons_append, List.intercalate_cons_cons, ← List.cons_append,
        ih (List.cons_ne_nil _ _), List.intercalate_cons_cons]
      simp only [List.append_assoc]

end Text

namespace Endpoint

/-! ## one label -/

def IsGroup (g : List Char) : Prop :=
  g ≠ [] ∧ ∀ c ∈ g, ('a' ≤ c ∧ c ≤ 'z') ∨ ('0' ≤ c ∧ c ≤ '9')

/-- groups with single hyphens between them -/
inductive IsRegion : List Char → Prop
  | group {g : List Char} : IsGroup g → IsRegion g
  | join {g r : List Char} : IsGroup g → IsRegion r → IsRegion (g ++ '-' :: r)

theorem isSegmentChar_iff (c : Char) :
    isSegmentChar c = true ↔ ('a' ≤ c ∧ c ≤ 'z') ∨ ('0' ≤ c ∧ c ≤ '9') := by
  have hlower : c.isLower = (decide ('a' ≤ c) && decide (c ≤ 'z')) := rfl
  have hdigit : c.isDigit = (decide ('0' ≤ c) && decide (c ≤ '9')) := rfl
  rw [isSegmentChar, hlower, hdigit]
  simp only [Bool.or_eq_true, Bool.and_eq_true, decide_eq_true_eq]

theorem isGroup_iff (g : List Char) : isGroup g = true ↔ IsGroup g := by
  simp [isGroup, IsGroup, isSegmentChar_iff]

theorem IsGroup.free {g : List Char} (h : IsGroup g) : '-' ∉ g := by
  intro hm
  have := h.2 '-' hm
  revert this
  decide

theorem isRegion_intercalate {gs : List (List Char)} (hne : gs ≠ []) (h : ∀ g ∈ gs, IsGroup g) :
    IsRegion (['-'].intercalate gs) := by
  induction gs with
  | nil => exact absurd rfl hne
  | cons g gs ih =>
    obtain ⟨hg, hgs⟩ := List.forall_mem_cons.1 h
    cases gs with
    | nil =>
      rw [List.intercalate_singleton]
      exact .group hg
    | cons g' gs =>
      rw [List.intercalate_cons_cons, List.append_assoc]
      exact .join hg (ih (List.cons_ne_nil _ _) hgs)

theorem isSegment_eq (label : List Char) :
    isSegment label = true ↔ ∀ g ∈ groups label, IsGroup g := by
  simp only [isSegment, List.all_eq_true, isGroup_iff]

theorem isSegment_iff (label : List Char) : isSegment label = true ↔ IsRegion label := by
  rw [isSegment_eq]
  constructor
  · intro h
    rw [← Text.intercalate_splitAt '-' label]
    exact isRegion_intercalate (Text.splitAt_ne_nil _ _) h
  · intro h
    induction h with
    | group hg =>
      rw [groups, Text.splitAt_of_free hg.free]
      exact List.forall_mem_singleton.2 hg
    | join hg _ ih =>
      rw [groups, Text.splitAt_append, Text.splitAt_of_free hg.free]
      exact List.forall_mem_cons.2 ⟨hg, ih⟩

section
variable (s : Service)

theorem isGroup_label : IsGroup s.label := by
  rw [← isGroup_iff]
  cases s <;> decide

theorem groups_label : groups s.label = [s.label] := Text.splitAt_of_free (isGroup_label s).free

theorem isJoinedBefore_iff (label : List Char) :
    isJoinedBefore s label = true ↔ ∃ r, IsRegion r ∧ label = r ++ '-' :: s.label := by
  simp only [isJoinedBefore, Bool.and_eq_true, decide_eq_true_eq, isSegment_eq]
  constructor
  · rintro ⟨⟨hall, hlen⟩, hlast⟩
    obtain ⟨gs, hgs⟩ := List.getLast?_eq_some_iff.1 hlast
    have hne : gs ≠ [] := by
      rintro rfl
      rw [hgs] at hlen
      exact Nat.not_succ_le_self 1 hlen
    refine ⟨['-'].intercalate gs, isRegion_intercalate hne fun g hg => hall g ?_, ?_⟩
    · rw [hgs]
      exact List.mem_append_left _ hg
    · rw [← Text.intercalate_concat '-' hne, ← hgs, groups, Text.intercalate_splitAt]
  · rintro ⟨r, hr, rfl⟩
    have hsplit : groups (r ++ '-' :: s.label) = groups r ++ [s.label] := by
      rw [groups, Text.splitAt_append, ← groups, ← groups, groups_label]
    have hpos : 0 < (groups r).length := List.length_pos_iff.2 (Text.splitAt_ne_nil _ _)
    rw [hsplit]
    refine ⟨⟨fun g hg => ?_, ?_⟩, List.getLast?_concat⟩
    · rcases List.mem_append.1 hg with hg | hg
      · exact (isSegment_eq r).1 ((isSegment_iff r).2 hr) g hg
      · exact List.mem_singleton.1 hg ▸ isGroup_label s
    · rw [List.length_append]
      exact Nat.add_le_add_right hpos 1

theorem isJoinedBehind_iff (label : List Char) :
    isJoinedBehind s label = true ↔ ∃ r, IsRegion r ∧ label = s.label ++ '-' :: r := by
  simp only [isJoinedBehind, Bool.and_eq_true, decide_eq_true_eq, isSegment_eq]
  constructor
  · rintro ⟨⟨hall, hlen⟩, hhead⟩
    obtain ⟨gs, hgs⟩ := List.head?_eq_some_iff.1 hhead
    have hne : gs ≠ [] := by
      rintro rfl
      rw [hgs] at hlen
      exact Nat.not_succ_le_self 1 hlen
    refine ⟨['-'].intercalate gs, isRegion_intercalate hne fun g hg => hall g ?_, ?_⟩
    · rw [hgs]
      exact List.mem_cons_of_mem _ hg
    · have h := Text.intercalate_splitAt '-' label
      rw [← groups, hgs, List.intercalate_cons_of_ne_nil hne, List.append_assoc] at h
      exact h.symm
  · rintro ⟨r, hr, rfl⟩
    have hsplit : groups (s.label ++ '-' :: r) = s.label :: groups r := by
      rw [groups, Text.splitAt_append, ← groups, ← groups, groups_label, List.singleton_append]
    have hpos : 0 < (groups r).length := List.length_pos_iff.2 (Text.splitAt_ne_nil _ _)
    rw [hsplit]
    refine ⟨⟨List.forall_mem_cons.2 ⟨isGroup_label s, ?_⟩, Nat.succ_le_succ hpos⟩, rfl⟩
    exact (isSegment_eq r).1 ((isSegment_iff r).2 hr)

end

/-! ## the labels of a host -/

/-- the labels of a host in front of `mtls` and the domain, for a service with the label `s` -/
inductive Named (s : List Char) : List (List Char) → Prop
  | alone : Named s [s]
  | before {r : List Char} : IsRegion r → Named s [r, s]
  | behind {r : List Char} : IsRegion r → Named s [s, r]
  | joined {r : List Char} : IsRegion r → Named s [r ++ '-' :: s]
  | privateName {r : List Char} : IsRegion r → Named s [s ++ '-' :: r, "p".toList]

/-- the labels of the hosts of a service with the label `s` -/
def HostLabels (s : List Char) (labels : List (List Char)) : Prop :=
  ∃ name m, Named s name ∧ (m = [] ∨ m = ["mtls".toList]) ∧
    labels = name ++ m ++ ["googleapis".toList, "com".toList]

theorem isServiceName_iff (s : Service) (labels : List (List Char)) :
    isServiceName s labels = true ↔ Named s.label labels := by
  constructor
  · intro h
    match labels, h with
    | [a], h =>
      simp only [isServiceName, Bool.or_eq_true, decide_eq_true_eq, isJoinedBefore_iff] at h
      rcases h with rfl | ⟨r, hr, rfl⟩
      · exact .alone
      · exact .joined hr
    | [a, b], h =>
      simp only [isServiceName, Bool.or_eq_true, Bool.and_eq_true, decide_eq_true_eq,
        isSegment_iff, isJoinedBehind_iff] at h
      rcases h with (⟨ha, rfl⟩ | ⟨rfl, hb⟩) | ⟨⟨r, hr, rfl⟩, rfl⟩
      · exact .before ha
      · exact .behind hb
      · exact .privateName hr
  · intro h
    cases h with
    | alone => simp [isServiceName]
    | before hr => simp [isServiceName, (isSegment_iff _).2 hr]
    | behind hr => simp [isServiceName, (isSegment_iff _).2 hr]
    | joined hr => simp [isServiceName, (isJoinedBefore_iff s _).2 ⟨_, hr, rfl⟩]
    | privateName hr => simp [isServiceName, (isJoinedBehind_iff s _).2 ⟨_, hr, rfl⟩]

theorem reverse_domain : domain.reverse = ["googleapis".toList, "com".toList] := rfl

theorem isHostOfReversed_iff (s : Service) (labels : List (List Char)) :
    isHostOfReversed s labels.reverse = true ↔ HostLabels s.label labels := by
  simp only [isHostOfReversed, Bool.and_eq_true, Bool.or_eq_true, decide_eq_true_eq,
    isServiceName_iff]
  constructor
  · rintro ⟨hdomain, hname⟩
    have hlabels : labels = (labels.reverse.drop 2).reverse ++ domain.reverse := by
      rw [← List.reverse_append, ← hdomain, List.take_append_drop, List.reverse_reverse]
    rcases hname with hname | ⟨hmtls, hname⟩
    · refine ⟨_, [], hname, .inl rfl, ?_⟩
      rw [List.append_nil, ← reverse_domain]
      exact hlabels
    · obtain ⟨front, hfront⟩ := List.head?_eq_some_iff.1 hmtls
      rw [hfront, List.reverse_cons] at hlabels
      rw [hfront] at hname
      exact ⟨_, [mtls], hname, .inr rfl, hlabels⟩
  · rintro ⟨name, m, hname, rfl | rfl, rfl⟩
    · rw [List.append_nil, List.reverse_append]
      refine ⟨rfl, .inl ?_⟩
      exact (List.reverse_reverse name).symm ▸ hname
    · rw [List.reverse_append, List.reverse_append]
      refine ⟨rfl, .inr ⟨rfl, ?_⟩⟩
      exact (List.reverse_reverse name).symm ▸ hname

/-- a host belongs to a service exactly when its labels do -/
theorem isHostOf_iff (s : Service) (host : List Char) :
    isHostOf s host = true ↔ HostLabels s.label (Text.splitAt '.' host) :=
  isHostOfReversed_iff s _

end Endpoint

end Federation
