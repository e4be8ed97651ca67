import Federation.Account.Basic
import Federation.Proofs.Text.Cut
import Mathlib.Data.List.TakeWhile

/-!
# The pool that an audience names

An audience is a path whose segments name a pool at a location, with one of a few texts in front.
The address of the boundary is the same path at the location `global`, at another service.  The
texts in front end with slashes, so they are segments of the audience too, and what is read from an
audience is one of its segments.

* `Boundary.audiencePath_append`     the path behind one of the texts;
* `Boundary.exists_segments_audiencePath`
                                     its segments are the last ones of the audience;
* `Boundary.Pool.ofSegments?_eq_some_iff`
                                     the segments that name a pool;
* `Boundary.Pool.segments_url`       the segments of the address;
* `Configuration.isWorkforceAudience_iff`
                                     the audiences of workforce pools;
* `Boundary.audience_names_its_pool`  what is looked up for an audience.
-/

namespace Federation

namespace Boundary

/-! ## segments -/

/-- the segments of a path -/
def segments (path : List Char) : List String := (Text.splitAt '/' path).map String.ofList

theorem segments_append (cs ds : List Char) :
    segments (cs ++ '/' :: ds) = segments cs ++ segments ds := by
  rw [segments, Text.splitAt_append, List.map_append]
  rfl

theorem slash_notMem_of_mem_segments {path : List Char} {s : String} (h : s ∈ segments path) :
    '/' ∉ s.toList := by
  obtain ⟨piece, hpiece, rfl⟩ := List.mem_map.1 h
  rw [String.toList_ofList]
  exact Text.sep_notMem_of_mem_splitAt hpiece

theorem segments_intercalate {ss : List String} (hne : ss ≠ []) (h : ∀ s ∈ ss, '/' ∉ s.toList) :
    segments (['/'].intercalate (ss.map String.toList)) = ss := by
  have hfree : ∀ piece ∈ ss.map String.toList, '/' ∉ piece := fun piece hp => by
    obtain ⟨s, hs, rfl⟩ := List.mem_map.1 hp
    exact h s hs
  have hback : String.ofList ∘ String.toList = id := funext fun _ => String.ofList_toList
  rw [segments, Text.splitAt_eq_splitOn,
    List.splitOn_intercalate '/' hfree (mt List.map_eq_nil_iff.1 hne), List.map_map, hback,
    List.map_id]

/-! ## texts in front -/

theorem exists_stripAllUpTo (front : List Char) (n : Nat) (cs : List Char) :
    ∃ k, cs = (List.replicate k front).flatten ++ stripAllUpTo front n cs := by
  induction n generalizing cs with
  | zero => exact ⟨0, rfl⟩
  | succ n ih =>
    rw [stripAllUpTo]
    cases hs : Text.stripStart? front cs with
    | none => exact ⟨0, rfl⟩
    | some rest =>
      obtain ⟨k, hk⟩ := ih rest
      refine ⟨k + 1, ?_⟩
      rw [Text.stripStart?_eq_some_iff.1 hs, List.replicate_succ, List.flatten_cons,
        List.append_assoc, ← hk]

theorem stripAllUpTo_of_absent {front cs : List Char} (h : ¬front <+: cs) (n : Nat) :
    stripAllUpTo front n cs = cs := by
  cases n with
  | zero => rfl
  | succ n => rw [stripAllUpTo, Text.stripStart?_eq_none_iff.2 h]

theorem stripAll_of_absent {front cs : List Char} (h : ¬front <+: cs) :
    stripAll front cs = cs := stripAllUpTo_of_absent h _

theorem stripAll_append {front cs : List Char} (hne : front ≠ []) (h : ¬front <+: cs) :
    stripAll front (front ++ cs) = cs := by
  obtain ⟨c, more, rfl⟩ := List.exists_cons_of_ne_nil hne
  rw [stripAll, List.cons_append, List.length_cons, stripAllUpTo, ← List.cons_append,
    Text.stripStart?_eq_some_iff.2 rfl]
  exact stripAllUpTo_of_absent h _

theorem exists_segments_stripAll (front cs : List Char) :
    ∃ pieces, segments cs = pieces ++ segments (stripAll (front ++ ['/']) cs) := by
  obtain ⟨k, hk⟩ := exists_stripAllUpTo (front ++ ['/']) cs.length cs
  have hcopies : ∀ (k : Nat) (rest : List Char), ∃ pieces,
      segments ((List.replicate k (front ++ ['/'])).flatten ++ rest)
        = pieces ++ segments rest := by
    intro k rest
    induction k with
    | zero => exact ⟨[], rfl⟩
    | succ k ih =>
      obtain ⟨pieces, hp⟩ := ih
      refine ⟨segments front ++ pieces, ?_⟩
      rw [List.replicate_succ, List.flatten_cons, List.append_assoc, List.append_assoc,
        List.singleton_append, segments_append, hp, List.append_assoc]
  obtain ⟨pieces, hp⟩ := hcopies k (stripAll (front ++ ['/']) cs)
  exact ⟨pieces, (congrArg segments hk).trans hp⟩

theorem exists_segments_audiencePath (audience : List Char) :
    ∃ pieces, segments audience = pieces ++ segments (audiencePath audience) := by
  obtain ⟨xs, hx⟩ := exists_segments_stripAll "//iam.googleapis.com".toList audience
  obtain ⟨ys, hy⟩ := exists_segments_stripAll "https://iam.googleapis.com".toList
    (stripAll ("//iam.googleapis.com".toList ++ ['/']) audience)
  obtain ⟨zs, hz⟩ := exists_segments_stripAll []
    (stripAll ("https://iam.googleapis.com".toList ++ ['/'])
      (stripAll ("//iam.googleapis.com".toList ++ ['/']) audience))
  refine ⟨xs ++ ys ++ zs, ?_⟩
  rw [hx, hy, hz, List.append_assoc, List.append_assoc]
  rfl

/-- the texts that may stand in front of a path -/
def fronts : List String := ["//iam.googleapis.com/", "https://iam.googleapis.com/", "/", ""]

theorem not_prefix_cons {c d : Char} {front cs : List Char} (h : c ≠ d) :
    ¬c :: front <+: d :: cs := fun hp => h (List.cons_prefix_cons.1 hp).1

theorem audiencePath_append {front : String} (hf : front ∈ fronts) {c : Char} (hs : '/' ≠ c)
    (hh : 'h' ≠ c) (cs : List Char) :
    audiencePath (front.toList ++ c :: cs) = c :: cs := by
  have hhost : ¬"//iam.googleapis.com/".toList <+: c :: cs := not_prefix_cons hs
  have hscheme : ¬"https://iam.googleapis.com/".toList <+: c :: cs := not_prefix_cons hh
  have hslash : ¬['/'] <+: c :: cs := not_prefix_cons hs
  simp only [fronts, List.mem_cons, List.not_mem_nil, or_false] at hf
  rw [audiencePath]
  rcases hf with rfl | rfl | rfl | rfl
  · rw [stripAll_append (by decide) hhost, stripAll_of_absent hscheme,
      stripAll_of_absent hslash]
  · have hother : ¬"//iam.googleapis.com/".toList
        <+: "https://iam.googleapis.com/".toList ++ c :: cs := not_prefix_cons (by decide)
    rw [stripAll_of_absent hother, stripAll_append (by decide) hscheme,
      stripAll_of_absent hslash]
  · have hsecond : ¬"//iam.googleapis.com/".toList <+: "/".toList ++ c :: cs := fun hp =>
      not_prefix_cons hs (List.cons_prefix_cons.1 hp).2
    have hother : ¬"https://iam.googleapis.com/".toList <+: "/".toList ++ c :: cs :=
      not_prefix_cons (by decide)
    rw [stripAll_of_absent hsecond, stripAll_of_absent hother]
    exact stripAll_append (by decide) hslash
  · show stripAll _ (stripAll _ (stripAll _ (c :: cs))) = _
    rw [stripAll_of_absent hhost, stripAll_of_absent hscheme,
      stripAll_of_absent hslash]

/-! ## pools -/

namespace Pool

/-- the segments that name a pool at a location -/
def steps (location : String) : Pool → List String
  | .workload project pool =>
    ["projects", project, "locations", location, "workloadIdentityPools", pool]
  | .workforce pool => ["locations", location, "workforcePools", pool]

/-- the names that a pool brings with it -/
def names : Pool → List String
  | .workload project pool => [project, pool]
  | .workforce pool => [pool]

theorem mem_steps_of_mem_names {p : Pool} {name : String} (h : name ∈ p.names)
    (location : String) : name ∈ p.steps location := by
  cases p with
  | workload project pool =>
    have hsub : (workload project pool).names.Sublist ((workload project pool).steps location) :=
      .cons _ (.cons_cons _ (.cons _ (.cons _ (.cons _ (.refl _)))))
    exact hsub.subset h
  | workforce pool =>
    have hsub : (workforce pool).names.Sublist ((workforce pool).steps location) :=
      .cons _ (.cons _ (.cons _ (.refl _)))
    exact hsub.subset h

theorem slash_notMem_steps {p : Pool} {location : String} (hp : ∀ s ∈ p.names, '/' ∉ s.toList)
    (hl : '/' ∉ location.toList) : ∀ s ∈ p.steps location, '/' ∉ s.toList := by
  intro s hs
  cases p with
  | workload project pool =>
    simp only [steps, List.mem_cons, List.not_mem_nil, or_false] at hs
    rcases hs with rfl | rfl | rfl | rfl | rfl | rfl
    · decide
    · exact hp _ List.mem_cons_self
    · decide
    · exact hl
    · decide
    · exact hp _ (List.mem_cons_of_mem _ List.mem_cons_self)
  | workforce pool =>
    simp only [steps, List.mem_cons, List.not_mem_nil, or_false] at hs
    rcases hs with rfl | rfl | rfl | rfl
    · decide
    · exact hl
    · decide
    · exact hp _ List.mem_cons_self

theorem ofSegments?_eq_some_iff {ss : List String} {p : Pool} :
    ofSegments? ss = some p ↔ ∃ location more, ss = p.steps location ++ more := by
  constructor
  · intro h
    rw [ofSegments?.eq_def] at h
    split at h
    · cases h
      exact ⟨_, _, rfl⟩
    · cases h
      exact ⟨_, _, rfl⟩
    · cases h
  · rintro ⟨location, more, rfl⟩
    cases p <;> rfl

theorem ofAudience?_eq (audience : String) :
    ofAudience? audience = ofSegments? (segments (audiencePath audience.toList)) := rfl

theorem segments_steps {p : Pool} {location : String}
    (hp : ∀ s ∈ p.names, '/' ∉ s.toList) (hl : '/' ∉ location.toList) {tail : List Char}
    (ht : tail = [] ∨ ∃ more, tail = '/' :: more) : ∃ more,
    segments (['/'].intercalate ((p.steps location).map String.toList) ++ tail)
      = p.steps location ++ more := by
  have hne : p.steps location ≠ [] := by cases p <;> exact List.cons_ne_nil _ _
  have hp := slash_notMem_steps hp hl
  rcases ht with rfl | ⟨more, rfl⟩
  · exact ⟨[], by rw [List.append_nil, List.append_nil, segments_intercalate hne hp]⟩
  · exact ⟨segments more, by rw [segments_append, segments_intercalate hne hp]⟩

theorem intercalate_workload (project location pool : String) (tail : List Char) :
    ['/'].intercalate (((workload project pool).steps location).map String.toList) ++ tail
      = "projects/".toList ++ (project.toList ++ ("/locations/".toList ++ (location.toList ++
          ("/workloadIdentityPools/".toList ++ (pool.toList ++ tail))))) := by
  simp only [steps, List.map_cons, List.map_nil, List.intercalate_cons_cons,
    List.intercalate_singleton, List.append_assoc]
  rfl

theorem intercalate_workforce (location pool : String) (tail : List Char) :
    ['/'].intercalate (((workforce pool).steps location).map String.toList) ++ tail
      = "locations/".toList ++ (location.toList ++ ("/workforcePools/".toList ++
          (pool.toList ++ tail))) := by
  simp only [steps, List.map_cons, List.map_nil, List.intercalate_cons_cons,
    List.intercalate_singleton, List.append_assoc]
  rfl

theorem exists_intercalate_steps (p : Pool) (location : String) : ∃ c cs, '/' ≠ c ∧ 'h' ≠ c ∧
    ['/'].intercalate ((p.steps location).map String.toList) = c :: cs := by
  cases p with
  | workload project pool => exact ⟨'p', _, by decide, by decide, rfl⟩
  | workforce pool => exact ⟨'l', _, by decide, by decide, rfl⟩

theorem ofAudience?_of_steps {front : String} (hf : front ∈ fronts) {p : Pool} {location : String}
    (hp : ∀ s ∈ p.names, '/' ∉ s.toList) (hl : '/' ∉ location.toList) {audience : String}
    {tail : List Char} (ht : tail = [] ∨ ∃ more, tail = '/' :: more)
    (ha : audience.toList = front.toList
      ++ (['/'].intercalate ((p.steps location).map String.toList) ++ tail)) :
    ofAudience? audience = some p := by
  obtain ⟨c, cs, hs, hh, hpath⟩ := p.exists_intercalate_steps location
  obtain ⟨more, hsegments⟩ := segments_steps hp hl ht
  rw [ofAudience?_eq, ha, ofSegments?_eq_some_iff, hpath, List.cons_append,
    audiencePath_append hf hs hh, ← List.cons_append, ← hpath]
  exact ⟨location, more, hsegments⟩

theorem exists_steps_of_ofAudience? {audience : String} {p : Pool}
    (h : ofAudience? audience = some p) : ∃ front location more,
    segments audience.toList = front ++ p.steps location ++ more := by
  obtain ⟨location, more, hsegments⟩ := ofSegments?_eq_some_iff.1 h
  obtain ⟨front, hfront⟩ := exists_segments_audiencePath audience.toList
  refine ⟨front, location, more, ?_⟩
  rw [hfront, List.append_assoc, ← hsegments]
  rfl

/-! ## addresses -/

theorem url_workload (domain project pool : String) :
    (workload project pool).url domain = "https://iamcredentials." ++ domain ++ "/v1/projects/"
      ++ project ++ "/locations/global/workloadIdentityPools/" ++ pool ++ "/allowedLocations" := by
  have hpath : "/v1/" ++ "projects/" = "/v1/projects/" := rfl
  rw [← hpath, ← String.append_assoc]
  rfl

theorem url_workforce (domain pool : String) :
    (workforce pool).url domain = "https://iamcredentials." ++ domain
      ++ "/v1/locations/global/workforcePools/" ++ pool ++ "/allowedLocations" := by
  have hpath : "/v1/" ++ "locations/global/workforcePools/"
      = "/v1/locations/global/workforcePools/" := rfl
  rw [← hpath, ← String.append_assoc]
  rfl

theorem toList_url (domain : String) (p : Pool) : (p.url domain).toList
    = ("https://iamcredentials." ++ domain).toList ++ '/' :: ['/'].intercalate
      (("v1" :: (p.steps "global" ++ ["allowedLocations"])).map String.toList) := by
  cases p with
  | workload project pool =>
    rw [url_workload]
    simp only [String.toList_append, List.append_assoc]
    rfl
  | workforce pool =>
    rw [url_workforce]
    simp only [String.toList_append, List.append_assoc]
    rfl

theorem segments_url (domain : String) {p : Pool} (hp : ∀ s ∈ p.names, '/' ∉ s.toList) :
    segments (p.url domain).toList = segments ("https://iamcredentials." ++ domain).toList
      ++ "v1" :: (p.steps "global" ++ ["allowedLocations"]) := by
  rw [toList_url, segments_append, segments_intercalate (List.cons_ne_nil _ _)]
  intro s hs
  rcases List.mem_cons.1 hs with rfl | hs
  · decide
  rcases List.mem_append.1 hs with hs | hs
  · exact slash_notMem_steps hp (by decide) s hs
  · rw [List.mem_singleton.1 hs]
    decide

/-- a pool of one kind is never looked up where one of the other kind is -/
theorem url_workforce_ne (domain pool project pool' : String) :
    (workforce pool).url domain ≠ (workload project pool').url domain := by
  intro h
  have hpath := congrArg String.toList h
  rw [toList_url, toList_url] at hpath
  have hsteps : 'v' :: '1' :: '/' :: 'l' :: _ = 'v' :: '1' :: '/' :: 'p' :: _ :=
    (List.cons.inj (List.append_cancel_left hpath)).2
  exact absurd hsteps (by simp)

end Pool

/-- where the boundary is of the pool that an audience names -/
def poolUrl? (domain audience : String) : Option String :=
  (Pool.ofAudience? audience).map (Pool.url domain)

end Boundary

/-! ## workforce pools -/

namespace Configuration

theorem isWorkforceAudience_append {location : List Char} (hne : location ≠ [])
    (hs : '/' ∉ location) {audience : String} {rest : List Char}
    (ha : audience.toList = workforceFront ++ (location ++ (workforceMiddle ++ rest))) :
    isWorkforceAudience audience = true := by
  have hpos : ∀ c ∈ location, decide (c ≠ '/') = true := fun c hc =>
    decide_eq_true fun he => hs (he ▸ hc)
  have htake : (location ++ (workforceMiddle ++ rest)).takeWhile (· ≠ '/') = location := by
    rw [List.takeWhile_append_of_pos hpos]
    exact List.append_nil _
  have hdrop : (location ++ (workforceMiddle ++ rest)).dropWhile (· ≠ '/')
      = workforceMiddle ++ rest := by
    rw [List.dropWhile_append_of_pos hpos]
    rfl
  rw [isWorkforceAudience, ha, Text.stripStart?_eq_some_iff.2 rfl]
  dsimp only
  rw [htake, hdrop, Text.stripStart?_eq_some_iff.2 rfl, List.isEmpty_eq_false_iff.2 hne]
  rfl

theorem exists_of_isWorkforceAudience {audience : String}
    (h : isWorkforceAudience audience = true) : ∃ location rest : List Char,
      audience.toList = workforceFront ++ (location ++ (workforceMiddle ++ rest)) ∧
        location ≠ [] ∧ '/' ∉ location := by
  rw [isWorkforceAudience] at h
  cases hf : Text.stripStart? workforceFront audience.toList with
  | none =>
    rw [hf] at h
    cases h
  | some path =>
    rw [hf, Bool.and_eq_true, Bool.not_eq_true', List.isEmpty_eq_false_iff] at h
    obtain ⟨rest, hrest⟩ := Option.isSome_iff_exists.1 h.2
    refine ⟨path.takeWhile (· ≠ '/'), rest, ?_, h.1, fun hm => ?_⟩
    · rw [← Text.stripStart?_eq_some_iff.1 hrest, List.takeWhile_append_dropWhile]
      exact Text.stripStart?_eq_some_iff.1 hf
    · have hc := List.mem_takeWhile_imp hm
      exact of_decide_eq_true hc rfl

theorem isWorkforceAudience_iff {audience : String} : isWorkforceAudience audience = true ↔
    ∃ location rest : String, audience
      = "//iam.googleapis.com/locations/" ++ location ++ "/workforcePools/" ++ rest ∧
        location ≠ "" ∧ '/' ∉ location.toList := by
  constructor
  · intro h
    obtain ⟨location, rest, ha, hne, hs⟩ := exists_of_isWorkforceAudience h
    refine ⟨String.ofList location, String.ofList rest, ?_, ?_, ?_⟩
    · rw [← String.toList_inj, ha]
      simp only [String.toList_append, String.toList_ofList, List.append_assoc]
      rfl
    · exact fun he => hne (String.ofList_eq_empty_iff.1 he)
    · rwa [String.toList_ofList]
  · rintro ⟨location, rest, rfl, hne, hs⟩
    refine isWorkforceAudience_append (mt String.toList_eq_nil_iff.1 hne) hs (?_ : _ =
      workforceFront ++ (location.toList ++ (workforceMiddle ++ rest.toList)))
    simp only [String.toList_append, List.append_assoc]
    rfl

end Configuration

namespace Boundary

def beforeSlash (s : String) : String := String.ofList (s.toList.takeWhile (· ≠ '/'))

theorem beforeSlash_split (s : String) : '/' ∉ (beforeSlash s).toList ∧
    ∃ tail, s.toList = (beforeSlash s).toList ++ tail ∧
      (tail = [] ∨ ∃ more, tail = '/' :: more) := by
  rw [beforeSlash, String.toList_ofList]
  refine ⟨fun hm => ?_, s.toList.dropWhile (· ≠ '/'), List.takeWhile_append_dropWhile.symm, ?_⟩
  · have hc := List.mem_takeWhile_imp hm
    exact of_decide_eq_true hc rfl
  cases h : s.toList.dropWhile (· ≠ '/') with
  | nil => exact .inl rfl
  | cons c more =>
    have hc := List.head?_dropWhile_not (· ≠ '/') s.toList
    rw [h] at hc
    have hc : c = '/' := by simpa using hc
    exact .inr ⟨more, by rw [hc]⟩

theorem Pool.ofAudience?_workforce {location : String} (hs : '/' ∉ location.toList)
    (rest : String) : Pool.ofAudience?
        ("//iam.googleapis.com/locations/" ++ location ++ "/workforcePools/" ++ rest)
      = some (.workforce (beforeSlash rest)) := by
  obtain ⟨hpool, tail, hrest, ht⟩ := beforeSlash_split rest
  have hf : "//iam.googleapis.com/" ∈ fronts := List.mem_cons_self
  refine ofAudience?_of_steps hf ?_ hs ht ?_
  · intro s hm
    rwa [List.mem_singleton.1 hm]
  · rw [intercalate_workforce]
    simp only [String.toList_append, List.append_assoc, hrest]
    rfl

theorem Pool.ofAudience?_workload {front : String} (hf : front ∈ fronts)
    {project location pool : String} (hproject : '/' ∉ project.toList)
    (hlocation : '/' ∉ location.toList) (hpool : '/' ∉ pool.toList) {tail : String}
    (ht : tail = "" ∨ ∃ more, tail = "/" ++ more) :
    Pool.ofAudience? (front ++ "projects/" ++ project ++ "/locations/" ++ location
      ++ "/workloadIdentityPools/" ++ pool ++ tail) = some (.workload project pool) := by
  have hnames : ∀ s ∈ (Pool.workload project pool).names, '/' ∉ s.toList := by
    intro s hm
    rcases List.mem_cons.1 hm with rfl | hm
    · exact hproject
    · rwa [List.mem_singleton.1 hm]
  have htail : tail.toList = [] ∨ ∃ more, tail.toList = '/' :: more := by
    rcases ht with rfl | ⟨more, rfl⟩
    · exact .inl rfl
    · exact .inr ⟨more.toList, String.toList_append⟩
  refine ofAudience?_of_steps hf hnames hlocation htail ?_
  rw [intercalate_workload]
  simp only [String.toList_append, List.append_assoc]

theorem poolUrl?_eq_some_iff {domain audience url : String} : poolUrl? domain audience = some url ↔
    ∃ p, Pool.ofAudience? audience = some p ∧ p.url domain = url := Option.map_eq_some_iff

theorem Pool.mem_segments_of_ofAudience? {audience : String} {p : Pool}
    (h : Pool.ofAudience? audience = some p) {name : String} (hn : name ∈ p.names) :
    name ∈ segments audience.toList := by
  obtain ⟨front, location, more, hsegments⟩ := exists_steps_of_ofAudience? h
  rw [hsegments]
  exact List.mem_append_left _ (List.mem_append_right _ (mem_steps_of_mem_names hn location))

/-- the boundary of a pool that an audience names is looked up for this pool, and for no other path
of the service -/
theorem audience_names_its_pool :
    (∀ audience, Configuration.isWorkforceAudience audience = true ↔
      ∃ location rest : String, audience
        = "//iam.googleapis.com/locations/" ++ location ++ "/workforcePools/" ++ rest ∧
          location ≠ "" ∧ '/' ∉ location.toList) ∧
    (∀ a : Account, a.configuration.impersonationUrl = none →
      a.lookupUrl? = poolUrl? a.configuration.domain a.configuration.audience) ∧
    (∀ domain location rest : String, '/' ∉ location.toList →
      poolUrl? domain
          ("//iam.googleapis.com/locations/" ++ location ++ "/workforcePools/" ++ rest)
        = some ("https://iamcredentials." ++ domain ++ "/v1/locations/global/workforcePools/"
          ++ beforeSlash rest ++ "/allowedLocations")) ∧
    (∀ domain audience project pool : String,
      Configuration.isWorkforceAudience audience = true →
      poolUrl? domain audience ≠ some ("https://iamcredentials." ++ domain ++ "/v1/projects/"
        ++ project ++ "/locations/global/workloadIdentityPools/" ++ pool
        ++ "/allowedLocations")) ∧
    (∀ front ∈ fronts, ∀ domain project location pool tail : String,
      '/' ∉ project.toList → '/' ∉ location.toList → '/' ∉ pool.toList →
      (tail = "" ∨ ∃ more, tail = "/" ++ more) →
      poolUrl? domain (front ++ "projects/" ++ project ++ "/locations/" ++ location
          ++ "/workloadIdentityPools/" ++ pool ++ tail)
        = some ("https://iamcredentials." ++ domain ++ "/v1/projects/" ++ project
          ++ "/locations/global/workloadIdentityPools/" ++ pool ++ "/allowedLocations")) ∧
    (∀ domain audience url : String, poolUrl? domain audience = some url → ∃ p : Pool,
      ((∃ project pool, p = .workload project pool ∧
          url = "https://iamcredentials." ++ domain ++ "/v1/projects/" ++ project
            ++ "/locations/global/workloadIdentityPools/" ++ pool ++ "/allowedLocations") ∨
        ∃ pool, p = .workforce pool ∧
          url = "https://iamcredentials." ++ domain ++ "/v1/locations/global/workforcePools/"
            ++ pool ++ "/allowedLocations") ∧
      (∃ front location more, segments audience.toList = front ++ p.steps location ++ more) ∧
      (∀ name ∈ p.names, name ∈ segments audience.toList ∧ '/' ∉ name.toList) ∧
      segments url.toList = segments ("https://iamcredentials." ++ domain).toList
        ++ "v1" :: (p.steps "global" ++ ["allowedLocations"])) := by
  refine ⟨fun _ => Configuration.isWorkforceAudience_iff, ?_, ?_, ?_, ?_, ?_⟩
  · intro a h
    rw [Account.lookupUrl?, Configuration.email?, h]
    rfl
  · intro domain location rest hs
    rw [poolUrl?, Pool.ofAudience?_workforce hs, Option.map_some, Pool.url_workforce]
  · intro domain audience project pool h hu
    obtain ⟨location, rest, rfl, -, hs⟩ := Configuration.isWorkforceAudience_iff.1 h
    rw [poolUrl?, Pool.ofAudience?_workforce hs, Option.map_some, ← Pool.url_workload] at hu
    exact Pool.url_workforce_ne _ _ _ _ (Option.some.inj hu)
  · intro front hf domain project location pool tail hproject hlocation hpool ht
    rw [poolUrl?, Pool.ofAudience?_workload hf hproject hlocation hpool ht, Option.map_some,
      Pool.url_workload]
  · intro domain audience url hu
    obtain ⟨p, hp, rfl⟩ := poolUrl?_eq_some_iff.1 hu
    have hnames : ∀ name ∈ p.names, '/' ∉ name.toList := fun name hn =>
      slash_notMem_of_mem_segments (Pool.mem_segments_of_ofAudience? hp hn)
    refine ⟨p, ?_, Pool.exists_steps_of_ofAudience? hp,
      fun name hn => ⟨Pool.mem_segments_of_ofAudience? hp hn, hnames name hn⟩,
      Pool.segments_url domain hnames⟩
    cases p with
    | workload project pool => exact .inl ⟨project, pool, rfl, Pool.url_workload _ _ _⟩
    | workforce pool => exact .inr ⟨pool, rfl, Pool.url_workforce _ _⟩

end Boundary

end Federation
