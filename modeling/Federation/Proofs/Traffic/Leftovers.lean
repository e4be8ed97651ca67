import Federation.Proofs.Credentials.Apply
import Federation.Proofs.Traffic.Failures

/-!
# What a call that fails leaves in the headers

Headers are set one after another, and the value of each is looked at just before.  A call that
fails for a later one has set those before it: it leaves the new authorization in the headers, and
the project that pays with it.  Every other failure leaves the headers as they were.

* `Credentials.leaves_iff`            what setting headers leaves when it fails;
* `Credentials.untouched_iff`         when that is always what was there;
* `Credentials.leaves_of_beforeRequest`
                                      what preparing a request leaves when it fails;
* `Traffic.Reached.left_of_apply`, `Traffic.Reached.left_of_beforeRequest`
                                      the same among other calls;
* `Traffic.failures_leave_headers`    all of it;
* `Traffic.failure_leaves_authorization`
                                      headers are not always left as they were.
-/

namespace Federation

namespace Credentials

/-- setting the headers `hs` fails with a failure and leaves them like this: one constructor for
each value that may be the first that is missing or not legal -/
inductive Leaves (c : Credentials) (override? : Option String) (hs : Http.Headers) :
    Failure → Http.Headers → Prop where
  | noToken (h : c.chosen? override? = none) : Leaves c override? hs .noToken hs
  | token {token : String} (h : c.chosen? override? = some token)
      (ht : ¬Http.isValue ("Bearer " ++ token) = true) : Leaves c override? hs .headerValue hs
  | project {token project : String} (h : c.chosen? override? = some token)
      (ht : Http.isValue ("Bearer " ++ token) = true)
      (hp : c.account.quotaProject = some project) (hv : ¬Http.isValue project = true) :
      Leaves c override? hs .headerValue (hs.set (Http.bearer token))
  | locations {token : String} {b : Boundary} (h : c.chosen? override? = some token)
      (ht : Http.isValue ("Bearer " ++ token) = true)
      (hp : ∀ project ∈ c.account.quotaProject, Http.isValue project = true)
      (hb : c.boundary = some b) (hne : b.encoded ≠ "0x0") (hv : ¬Http.isValue b.encoded = true) :
      Leaves c override? hs .headerValue
        (hs.setAll (Http.bearer token :: (c.account.quotaProject.map Http.quotaProject).toList))

variable {c : Credentials} {token : String} {override? : Option String} {hs hs' : Http.Headers}
  {f : Failure}

theorem apply_of_illegal (h : c.chosen? override? = some token) {front back : List Http.Header}
    {illegal : Http.Header} (hplanned : c.planned token = front ++ illegal :: back)
    (hl : ∀ h ∈ front, Http.isValue h.value = true) (hv : ¬Http.isValue illegal.value = true)
    (hs : Http.Headers) : c.apply override? hs = (.error .headerValue, hs.setAll front) := by
  refine apply_eq_error_iff_setEach.2 (.inr ⟨token, h, rfl, ?_⟩)
  rw [hplanned, Http.Headers.setEach_of_illegal hs hl hv]

theorem Leaves.apply_eq (h : c.Leaves override? hs f hs') :
    c.apply override? hs = (.error f, hs') := by
  cases h with
  | noToken h => exact apply_of_not_chosen h hs
  | @token token h ht =>
    have hl : ∀ h ∈ ([] : List Http.Header), Http.isValue h.value = true := nofun
    exact apply_of_illegal h rfl hl ht hs
  | @project token project h ht hp hv =>
    have hplanned : c.planned token = [Http.bearer token] ++ Http.quotaProject project ::
        (c.boundary.bind Boundary.header?).toList := by
      rw [planned, hp]
      rfl
    have hl : ∀ h ∈ [Http.bearer token], Http.isValue h.value = true :=
      List.forall_mem_singleton.2 ht
    exact apply_of_illegal h hplanned hl hv hs
  | @locations token b h ht hp hb hne hv =>
    have hplanned : c.planned token
        = (Http.bearer token :: (c.account.quotaProject.map Http.quotaProject).toList) ++
          [Http.allowedLocations b.encoded] := by
      rw [planned, hb, Option.bind_some, Boundary.header?, if_neg (mt b.isNoOp_iff.1 hne)]
      rfl
    have hl : ∀ h ∈ Http.bearer token :: (c.account.quotaProject.map Http.quotaProject).toList,
        Http.isValue h.value = true := by
      refine List.forall_mem_cons.2 ⟨ht, fun h hm => ?_⟩
      obtain ⟨project, hproject, rfl⟩ := Option.map_eq_some_iff.1 (Option.mem_toList.1 hm)
      exact hp project hproject
    exact apply_of_illegal h hplanned hl hv hs

theorem exists_leaves (h : c.chosen? override? = some token) (hn : ¬c.Settable token)
    (hs : Http.Headers) : ∃ hs', c.Leaves override? hs .headerValue hs' := by
  by_cases ht : Http.isValue ("Bearer " ++ token) = true
  · by_cases hp : ∀ project ∈ c.account.quotaProject, Http.isValue project = true
    · by_cases hb : ∀ b ∈ c.boundary, b.encoded ≠ "0x0" → Http.isValue b.encoded = true
      · exact absurd ⟨ht, hp, hb⟩ hn
      · push Not at hb
        obtain ⟨b, hb, hne, hv⟩ := hb
        exact ⟨_, .locations h ht hp hb hne hv⟩
    · push Not at hp
      obtain ⟨project, hp, hv⟩ := hp
      exact ⟨_, .project h ht hp hv⟩
  · exact ⟨_, .token h ht⟩

theorem leaves_iff : c.apply override? hs = (.error f, hs') ↔ c.Leaves override? hs f hs' := by
  refine ⟨fun h => ?_, Leaves.apply_eq⟩
  rcases apply_eq_error_iff_setEach.1 h with ⟨hn, rfl, rfl⟩ | ⟨token, ht, rfl, hset⟩
  · exact .noToken hn
  · have hn : ¬c.Settable token := fun hl => by
      rw [Http.Headers.setEach_of_legal hs (legal_planned_iff.2 hl)] at hset
      cases hset
    obtain ⟨hs'', hl⟩ := exists_leaves ht hn hs
    obtain rfl : hs' = hs'' := congrArg Prod.snd (h.symm.trans hl.apply_eq)
    exact hl

theorem Leaves.headers_eq (h : c.Leaves override? hs f hs')
    (hp : ∀ project ∈ c.account.quotaProject, Http.isValue project = true)
    (hb : ∀ b ∈ c.boundary, b.encoded ≠ "0x0" → Http.isValue b.encoded = true) : hs' = hs := by
  cases h with
  | noToken _ => rfl
  | token _ _ => rfl
  | project _ _ h hv => exact absurd (hp _ h) hv
  | locations _ _ _ h hne hv => exact absurd (hb _ h hne) hv

theorem Leaves.named_eq (h : c.Leaves override? hs f hs') {name : String}
    (ha : name ≠ "authorization") (hp : name ≠ "x-goog-user-project") :
    hs'.named name = hs.named name := by
  cases h with
  | noToken _ => rfl
  | token _ _ => rfl
  | @project token project _ _ _ _ =>
    exact Http.Headers.named_set_of_ne hs (Http.bearer token) ha
  | locations _ _ _ _ _ _ =>
    refine Http.Headers.named_setAll_of_ne (fun h hm => ?_) hs
    rcases List.mem_cons.1 hm with rfl | hm
    · exact ha
    · obtain ⟨project, _, rfl⟩ := Option.map_eq_some_iff.1 (Option.mem_toList.1 hm)
      exact hp

theorem Leaves.named_authorization (h : c.Leaves override? hs f hs')
    (ht : c.chosen? override? = some token) (hv : Http.isValue ("Bearer " ++ token) = true) :
    hs'.named Http.authorization = [Http.bearer token] := by
  cases h with
  | noToken hnone => cases ht.symm.trans hnone
  | token h hn =>
    cases ht.symm.trans h
    exact absurd hv hn
  | project h _ _ _ =>
    cases ht.symm.trans h
    exact Http.Headers.named_set_self hs (Http.bearer token)
  | locations h _ _ _ _ _ =>
    cases ht.symm.trans h
    rw [Http.Headers.setAll_cons, Http.Headers.named_setAll_of_ne _ (hs.set (Http.bearer token))]
    · exact Http.Headers.named_set_self hs (Http.bearer token)
    · intro h hm
      obtain ⟨project, _, rfl⟩ := Option.map_eq_some_iff.1 (Option.mem_toList.1 hm)
      show "authorization" ≠ "x-goog-user-project"
      decide

/-- failures leave all headers alone exactly for credentials with which they can only be failures
for the token -/
theorem untouched_iff :
    (∀ hs f hs', c.apply override? hs = (.error f, hs') → hs' = hs) ↔
      ∀ token, c.chosen? override? = some token → Http.isValue ("Bearer " ++ token) = true →
        c.Settable token := by
  constructor
  · intro hu token ht hv
    by_contra hn
    obtain ⟨hs', hl⟩ := exists_leaves ht hn []
    have hset := hl.named_authorization ht hv
    obtain rfl := hu [] _ hs' hl.apply_eq
    cases hset
  · intro hl hs f hs' h
    cases leaves_iff.1 h with
    | noToken _ => rfl
    | token _ _ => rfl
    | project hc ht hp hv => exact absurd ((hl _ hc ht).project _ hp) hv
    | locations hc ht _ hb hne hv => exact absurd ((hl _ hc ht).locations _ hb hne) hv

/-! ## preparing a request -/

/-- a call that fails has met the limit of the clock, or its refresh has failed, and it has set
nothing; or else it has failed to set the headers -/
theorem leaves_of_beforeRequest {w : World} (h : (c.beforeRequest hs w).result = .error f) :
    (c.Overflows w.clock ∧ f = .clockOverflow ∧ (c.beforeRequest hs w).headers = hs) ∨
    (c.NeedsRefresh w.clock ∧ (c.cleared.refresh w).1 = .error f ∧
      (c.beforeRequest hs w).headers = hs) ∨
    (c.beforeRequest hs w).credentials.Leaves none hs f (c.beforeRequest hs w).headers := by
  by_cases ho : c.Overflows w.clock
  · rw [beforeRequest_of_overflows ho] at h ⊢
    exact .inl ⟨ho, (Except.error.inj h).symm, rfl⟩
  · right
    by_cases hr : c.NeedsRefresh w.clock
    · rw [beforeRequest_of_needsRefresh hr] at h ⊢
      generalize c.cleared.refresh w = r at h ⊢
      rcases r with ⟨f' | _, c', w'⟩
      · exact .inl ⟨hr, h, rfl⟩
      · exact .inr (leaves_iff.1 (Prod.ext h rfl))
    · right
      by_cases hb : c.NeedsBackground w.clock
      · rw [beforeRequest_of_needsBackground hb] at h ⊢
        exact leaves_iff.1 (Prod.ext h rfl)
      · rw [beforeRequest_of_neither ho hr hb] at h ⊢
        exact leaves_iff.1 (Prod.ext h rfl)

end Credentials

namespace Traffic

/-! ## among other calls -/

variable {P : Credentials → Prop} {hs : Http.Headers}

/-- it is done for a call that prepares a request with the headers `hs`; what the call holds was
there once -/
def Job.IsFor (P : Credentials → Prop) (hs : Http.Headers) : Job → Prop
  | .refreshing owner _ => owner = .request hs
  | .request hs' (.holding held) => hs' = hs ∧ ∃ d, P d ∧ d.boundary = held
  | .request hs' _ => hs' = hs
  | _ => False

/-- preparing a request with the headers `hs` fails and leaves others, with a token and a boundary
that were there once -/
def Leaves (P : Credentials → Prop) (hs : Http.Headers) (f : Failure) (hs' : Http.Headers) : Prop :=
  ∃ c d, P c ∧ P d ∧ { c with boundary := d.boundary }.Leaves none hs f hs'

theorem Job.isFor_of_turn {c : Credentials} {w : World} {j j' : Job} (hj : j.IsFor P hs)
    (hc : P c) (hn : (j.turn c w).next = some j') : j'.IsFor P hs := by
  have hd := j.does_turn c w
  generalize j.turn c w = t at hd hn
  cases hd with
  | moved _ =>
    cases hn
    exact hj
  | failed _ =>
    obtain rfl : _ = Owner.request hs := hj
    cases hn
  | published =>
    obtain rfl : _ = Owner.request hs := hj
    cases hn
    exact rfl
  | settled => exact hj.elim
  | entered h =>
    cases hn
    rcases h with rfl | rfl
    · exact hj
    · exact hj
  | held =>
    cases hn
    exact ⟨hj, c, hc, rfl⟩
  | notValid _ | emptied | took _ =>
    obtain rfl : _ = hs := hj
    cases hn
    exact rfl
  | overflowed _ | set _ | applied _ => cases hn
  | _ =>
    cases hn
    exact hj

theorem Job.leaves_of_turn {c : Credentials} {w : World} {j : Job} (hj : j.IsFor P hs)
    (hc : P c) {f : Failure} {hs' : Http.Headers}
    (hn : .prepared (.error f) hs' ∈ (j.turn c w).notes) :
    (hs' = hs ∧ .failed f ∈ (j.turn c w).notes) ∨ Leaves P hs f hs' := by
  have hd := j.does_turn c w
  generalize j.turn c w = t at hd hn ⊢
  cases hd with
  | @moved owner stage stage' =>
    cases stage' with
    | fetched token => cases List.mem_singleton.1 hn
    | _ => cases hn
  | failed _ =>
    obtain rfl : _ = Owner.request hs := hj
    rcases List.mem_cons.1 hn with hn | hn
    · cases hn
    · cases List.mem_singleton.1 hn
      exact .inl ⟨rfl, List.mem_cons_self⟩
  | published =>
    obtain rfl : _ = Owner.request hs := hj
    cases List.mem_singleton.1 hn
  | set ha =>
    obtain ⟨rfl, d, hd, rfl⟩ := hj
    cases List.mem_singleton.1 hn
    exact .inr ⟨c, d, hc, hd, Credentials.leaves_iff.1 ha⟩
  | applied _ => exact hj.elim
  | settled => exact hj.elim
  | notValid _ | overflowed _ | emptied | took _ | started _ => cases List.mem_singleton.1 hn
  | _ => cases hn

/-- a call that prepares a request, with its notes: it leaves its headers alone unless it fails to
set them -/
structure Minds (P : Credentials → Prop) (hs : Http.Headers) (l : List Note) (o : Option Job) :
    Prop where
  next : ∀ j, o = some j → j.IsFor P hs
  outcome : ∀ f hs', .prepared (.error f) hs' ∈ l →
    (hs' = hs ∧ .failed f ∈ l) ∨ Leaves P hs f hs'

theorem minds_of_course {j : Job} (hj : j.IsFor P hs) {l : List Note} {o : Option Job}
    (h : Course P (some j) l o) : Minds P hs l o := by
  induction h with
  | refl => exact ⟨fun j' h => Option.some.inj h ▸ hj, fun _ _ hn => absurd hn List.not_mem_nil⟩
  | @turn l j' c w _ hc ih =>
    refine ⟨fun j'' hn => Job.isFor_of_turn (ih.next j' rfl) hc hn, fun f hs' hn => ?_⟩
    rcases List.mem_append.1 hn with hn | hn
    · exact (ih.outcome f hs' hn).imp_left fun h => ⟨h.1, List.mem_append_left _ h.2⟩
    · exact (Job.leaves_of_turn (ih.next j' rfl) hc hn).imp_left
        fun h => ⟨h.1, List.mem_append_right _ h.2⟩

theorem applied_of_course {override? : Option String} {l : List Note} {o : Option Job}
    (h : Course P (some (.applying hs override?)) l o) :
    (l = [] ∧ o = some (.applying hs override?)) ∨
      ∃ c, P c ∧ l = [.applied (c.apply override? hs).1 (c.apply override? hs).2] ∧ o = none := by
  induction h with
  | refl => exact .inl ⟨rfl, rfl⟩
  | @turn l j' c w _ hc ih =>
    rcases ih with ⟨rfl, hj⟩ | ⟨_, _, _, hj⟩
    · cases hj
      exact .inr ⟨c, hc, rfl, rfl⟩
    · cases hj

/-! ## in a run -/

variable {account : Account} {s : Traffic}

theorem Reached.course_launch (h : Reached account s) {m : Move} {j : Job}
    (hm : s.step m = s.launch j) (ms : List Move) : ∃ o,
      Course (Became account) (some j) (ofTask s.jobs.length (s.run (m :: ms)).log) o := by
  have hj : (s.step m).jobs[s.jobs.length]? = some (some j) := by
    rw [hm]
    exact List.getElem?_concat_length
  have hnone : ofTask s.jobs.length (s.step m).log = [] := by
    rw [hm]
    exact ofTask_eq_nil h.numbered
  obtain ⟨l, o, hl, _, hc⟩ := (h.run [m]).course_run hj ms
  refine ⟨o, ?_⟩
  show Course _ _ (ofTask _ ((s.step m).run ms).log) o
  rw [show ((s.step m).run ms).log = (s.step m).log ++ l from hl, ofTask_append, hnone]
  exact hc

theorem Reached.left_of_apply (h : Reached account s) {hs hs' : Http.Headers}
    {override? : Option String} {ms : List Move} {f : Failure}
    (hn : (s.jobs.length, .applied (.error f) hs') ∈ (s.run (.apply hs override? :: ms)).log) :
    ∃ c, Became account c ∧ c.Leaves override? hs f hs' := by
  obtain ⟨o, hc⟩ := h.course_launch (m := .apply hs override?) rfl ms
  have hn := mem_ofTask.2 hn
  rcases applied_of_course hc with ⟨hl, _⟩ | ⟨c, hbecame, hl, _⟩
  · rw [hl] at hn
    cases hn
  · rw [hl] at hn
    obtain ⟨he, rfl⟩ := Note.applied.inj (List.mem_singleton.1 hn)
    exact ⟨c, hbecame, Credentials.leaves_iff.1 (Prod.ext he.symm rfl)⟩

theorem Reached.left_of_beforeRequest (h : Reached account s) {hs hs' : Http.Headers}
    {ms : List Move} {f : Failure}
    (hn : (s.jobs.length, .prepared (.error f) hs') ∈ (s.run (.beforeRequest hs :: ms)).log) :
    (hs' = hs ∧ (s.jobs.length, .failed f) ∈ (s.run (.beforeRequest hs :: ms)).log) ∨
      Leaves (Became account) hs f hs' := by
  obtain ⟨o, hc⟩ := h.course_launch (m := .beforeRequest hs) rfl ms
  have hj : (Job.request hs .entered).IsFor (Became account) hs := rfl
  exact ((minds_of_course hj hc).outcome f hs' (mem_ofTask.2 hn)).imp_left
    fun h => ⟨h.1, mem_ofTask.1 h.2⟩

/-! ## all of it -/

/-- what calls that fail leave of the headers they were given -/
structure Leftovers (account : Account) (s : Traffic) : Prop where
  applied : ∀ override? hs f hs', s.credentials.apply override? hs = (.error f, hs') ↔
    s.credentials.Leaves override? hs f hs'
  /-- nothing is left exactly when no value behind a legal token can be illegal -/
  untouched : ∀ override?,
    (∀ hs f hs', s.credentials.apply override? hs = (.error f, hs') → hs' = hs) ↔
      ∀ token, s.credentials.chosen? override? = some token →
        Http.isValue ("Bearer " ++ token) = true → s.credentials.Settable token
  /-- a call that nothing comes between sets no header unless it fails to set another one -/
  prepared : ∀ hs f, (s.credentials.beforeRequest hs s.world).result = .error f →
    (s.credentials.Overflows s.world.clock ∧ f = .clockOverflow ∧
      (s.credentials.beforeRequest hs s.world).headers = hs) ∨
    (s.credentials.NeedsRefresh s.world.clock ∧
      (s.credentials.cleared.refresh s.world).1 = .error f ∧
      (s.credentials.beforeRequest hs s.world).headers = hs) ∨
    (s.credentials.beforeRequest hs s.world).credentials.Leaves none hs f
      (s.credentials.beforeRequest hs s.world).headers
  /-- nor does a call with others in between -/
  appliedAmong : ∀ hs override? ms f hs',
    (s.jobs.length, .applied (.error f) hs') ∈ (s.run (.apply hs override? :: ms)).log →
      ∃ c, Became account c ∧ c.Leaves override? hs f hs'
  preparedAmong : ∀ hs ms f hs',
    (s.jobs.length, .prepared (.error f) hs') ∈ (s.run (.beforeRequest hs :: ms)).log →
      (hs' = hs ∧ (s.jobs.length, .failed f) ∈ (s.run (.beforeRequest hs :: ms)).log) ∨
        Leaves (Became account) hs f hs'

/-- a call that fails leaves its headers as they were if the project and the locations are legal;
if they are not it may have replaced the authorization and the project, and no more -/
theorem failures_leave_headers (account : Account) (boundary : Option Boundary)
    (nonBlocking : Bool) (w : World) (ms : List Move) :
    Leftovers account ((start (.new account boundary nonBlocking) w).run ms) ∧
    ∀ (c : Credentials) override? hs f hs', c.Leaves override? hs f hs' →
      ((∀ project ∈ c.account.quotaProject, Http.isValue project = true) →
        (∀ b ∈ c.boundary, b.encoded ≠ "0x0" → Http.isValue b.encoded = true) → hs' = hs) ∧
      ∀ name, name ≠ "authorization" → name ≠ "x-goog-user-project" →
        hs'.named name = hs.named name := by
  refine ⟨?_, fun c override? hs f hs' h => ⟨h.headers_eq, fun _ => h.named_eq⟩⟩
  have h := Reached.of_run account boundary nonBlocking w ms
  exact {
    applied := fun _ _ _ _ => Credentials.leaves_iff
    untouched := fun _ => Credentials.untouched_iff
    prepared := fun _ _ => Credentials.leaves_of_beforeRequest
    appliedAmong := fun _ _ _ _ _ => h.left_of_apply
    preparedAmong := fun _ _ _ _ => h.left_of_beforeRequest }

/-- the end of a line is not legal in a header, so the project is not set once the authorization
is -/
theorem failure_leaves_authorization :
    ¬∀ account s, Reached account s →
      (∀ override? hs f hs', s.credentials.apply override? hs = (.error f, hs') → hs' = hs) ∧
      ∀ hs f, (s.credentials.beforeRequest hs s.world).result = .error f →
        (s.credentials.beforeRequest hs s.world).headers = hs := by
  intro h
  have hleaves : (Credentials.new (Credentials.ofPool.account.withQuotaProject "\n") none
      false).Leaves (some "token") [] .headerValue [Http.bearer "token"] :=
    .project rfl (by decide) rfl (by decide)
  have hreached := Reached.of_run (Credentials.ofPool.account.withQuotaProject "\n") none false
    (Credentials.answering []) []
  cases (h _ _ hreached).1 _ _ _ _ hleaves.apply_eq

end Traffic

end Federation
