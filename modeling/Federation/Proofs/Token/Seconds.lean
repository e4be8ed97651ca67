import Federation.Proofs.Json.Alongside
import Federation.Proofs.Json.Integer
import Federation.Proofs.Refresh.Confinement
import Federation.Proofs.Refresh.Passage
import Federation.Token.Exchange

/-!
# How long the token of an exchange lasts

The answer to an exchange may name the lifetime of its token, as a number or in a string.  A `Draft`
is an answer where any value stands for the lifetime, and keeps the text of it; the answer is read
just if the lifetime of the draft is written in one of the two ways.

* `Exchange.parse_eq_ok_iff`                 the answers that are read;
* `Credentials.Exchanged.refresh_error`      a refresh that gets another one;
* `Credentials.Exchanged.refresh_congr`      what the rest of a refresh takes from an answer;
* `Credentials.Exchanged.refresh_ok_iff`     the clock has to show the expiry;
* `Credentials.exists_exchanged`             every refresh that succeeds gets an answer;
* `Credentials.lifetimes_are_exact`          all of it together.
-/

namespace Federation

namespace Exchange

open Json (Reader Field Value)

/-! ## what a lifetime may be -/

def withText {α : Type} (r : Reader α) : Reader (Bytes × α) := fun c =>
  match r c with
  | .error fault => .error fault
  | .ok (a, c') => .ok ((c.upTo c', a), c')

theorem withText_eq_ok_iff {α : Type} {r : Reader α} {x : Bytes × α} {c c' : Json.Cursor} :
    withText r c = .ok (x, c') ↔ r c = .ok (x.2, c') ∧ x.1 = c.upTo c' := by
  rw [withText]
  rcases r c with fault | ⟨a, c₁⟩
  · exact ⟨fun h => (nomatch h), fun h => (nomatch h.1)⟩
  · constructor
    · intro h
      cases h
      exact ⟨rfl, rfl⟩
    · rintro ⟨h, hx⟩
      cases h
      exact congrArg (fun text => Except.ok ((text, x.2), c')) hx.symm

/-- the lifetime that is written as the value with the text: none, an integer of 64 bits without a
sign, or a numeral between blanks in a string -/
inductive Writes : Bytes × Value → Option Nat → Prop where
  | null (text : Bytes) : Writes (text, .null) none
  | number {text gap : Bytes} {ds : List (Fin 10)} {n : Nat} (x : Json.Number)
    (hgap : ∀ b ∈ gap, Json.isSpace b = true) (hds : Json.IsInteger ds)
    (ht : text = gap ++ Decimal.digitsText ds) (hn : Decimal.numeral ds = n)
    (hle : n ≤ Decimal.max64) : Writes (text, .number x) (some n)
  | text {s : String} {front cs back : List Char} {n : Nat} (text : Bytes)
    (hs : s.toList = front ++ cs ++ back) (hf : Text.AllBlank front) (hb : Text.AllBlank back)
    (hn : Decimal.IsNumeral cs n) : Writes (text, .string s) (some n)

def IsWritten (x : Bytes × Value) : Prop :=
  ∃ c c', Json.value (Json.maxDepth - 1) c = .ok (x.2, c') ∧ x.1 = c.upTo c'

/-- the lifetime that is made of a value -/
def Holds (v : Value) (l : Option Nat) : Prop :=
  (v = .null ∧ l = none) ∨ ∃ n, seconds v = .ok n ∧ l = some n

theorem Holds.unique {v : Value} {l l' : Option Nat} (h : Holds v l) (h' : Holds v l') :
    l = l' := by
  rcases h with ⟨rfl, rfl⟩ | ⟨n, hn, rfl⟩
  · rcases h' with ⟨-, rfl⟩ | ⟨m, hm, -⟩
    · rfl
    · cases hm
  · rcases h' with ⟨rfl, -⟩ | ⟨m, hm, rfl⟩
    · cases hn
    · rw [hn] at hm
      cases hm
      rfl

theorem bare_numeral {cs : List Char} {n : Nat} (h : Decimal.IsNumeral cs n) : Text.Bare cs := by
  have hdigit : ∀ c : Char, c.isDigit = true → Text.isBlank c = false := by
    intro c hc
    rw [Char.isDigit, Bool.and_eq_true, decide_eq_true_eq, decide_eq_true_eq] at hc
    change 0x30 ≤ c.toNat ∧ c.toNat ≤ 0x39 at hc
    simp only [Text.isBlank, Bool.or_eq_false_iff, Bool.and_eq_false_iff, decide_eq_false_iff_not]
    omega
  have hall : ∀ c ∈ cs, Text.isBlank c = false := by
    obtain ⟨⟨ds, rfl | rfl, -, hds, -⟩, -⟩ := h
    · exact fun c hc => hdigit c (hds c hc)
    · exact List.forall_mem_cons.2 ⟨by decide, fun c hc => hdigit c (hds c hc)⟩
  exact ⟨fun c hc => hall c (List.mem_of_mem_head? hc),
    fun c hc => hall c (List.mem_of_mem_getLast? hc)⟩

theorem seconds_string_iff {s : String} {n : Nat} : seconds (.string s) = .ok n ↔
    ∃ front cs back, s.toList = front ++ cs ++ back ∧ Text.AllBlank front ∧ Text.AllBlank back ∧
      Decimal.IsNumeral cs n := by
  have hread : seconds (.string s) = .ok n ↔ Decimal.IsNumeral (Text.trim s).toList n := by
    rw [← Decimal.read_eq_ok_iff, seconds]
    cases Decimal.read (Text.trim s) with
    | error fault => exact ⟨fun h => (nomatch h), fun h => (nomatch h)⟩
    | ok m =>
      constructor
      · intro h
        cases h
        rfl
      · intro h
        cases h
        rfl
  rw [hread]
  constructor
  · intro h
    obtain ⟨front, back, hs, hf, hb, -⟩ := Text.exists_ends s
    exact ⟨front, _, back, hs, hf, hb, h⟩
  · rintro ⟨front, cs, back, hs, hf, hb, h⟩
    have hbare := bare_numeral h
    rw [← String.toList_ofList (l := cs)] at hs hbare
    rw [Text.trim_of_bare hs hf hb hbare, String.toList_ofList]
    exact h

theorem writes_iff {x : Bytes × Value} (h : IsWritten x) {l : Option Nat} :
    Writes x l ↔ Holds x.2 l := by
  obtain ⟨c, c', hvalue, htext⟩ := h
  obtain ⟨text, v⟩ := x
  dsimp only at hvalue htext ⊢
  subst htext
  constructor
  · intro hw
    cases hw with
    | null => exact .inl ⟨rfl, rfl⟩
    | number x hgap hds ht hn hle =>
      obtain rfl := (Json.natural_iff hvalue).2 ⟨_, _, hgap, hds, ht, hn, hle⟩
      exact .inr ⟨_, rfl, rfl⟩
    | text _ hs hf hb hn => exact .inr ⟨_, seconds_string_iff.2 ⟨_, _, _, hs, hf, hb, hn⟩, rfl⟩
  · rintro (⟨rfl, rfl⟩ | ⟨n, hn, rfl⟩)
    · exact .null _
    · cases v with
      | number x =>
        cases x with
        | natural m =>
          cases hn
          obtain ⟨gap, ds, hgap, hds, ht, hn, hle⟩ := (Json.natural_iff hvalue).1 rfl
          exact .number _ hgap hds ht hn hle
        | negative m => cases hn
        | float x => cases hn
      | string s =>
        obtain ⟨front, cs, back, hs, hf, hb, hn⟩ := seconds_string_iff.1 hn
        exact .text _ hs hf hb hn
      | null => cases hn
      | bool b => cases hn
      | array items => cases hn
      | object ms => cases hn

/-! ## reading a lifetime -/

theorem value_null {depth : Nat} {c : Json.Cursor}
    (h : (c.skipWhile Json.isSpace).rest.head? = some (Json.byte 'n')) :
    Json.value depth c =
      (do Json.take 1; Json.word ['u', 'l', 'l']; pure Value.null : Reader Value)
        (c.skipWhile Json.isSpace) := by
  obtain ⟨more, hrest⟩ := List.head?_eq_some_iff.1 h
  rw [Json.value_eq_scalar depth hrest (by decide) (by decide), Json.scalar, if_pos rfl]

theorem optional_lifetime_eq_ok_iff {l : Option Nat} {c c' : Json.Cursor} :
    Json.optional lifetime c = .ok (l, c') ↔
      ∃ v, Json.value (Json.maxDepth - 1) c = .ok (v, c') ∧ Holds v l := by
  rw [Json.optional, bind_eq_ok_iff]
  by_cases hn : (c.skipWhile Json.isSpace).rest.head? = some (Json.byte 'n')
  · rw [value_null hn]
    constructor
    · rintro ⟨_, _, hpeek, h⟩
      cases hpeek
      rw [if_pos hn] at h
      obtain ⟨_, c₁, htake, h⟩ := bind_eq_ok_iff.1 h
      obtain ⟨_, c₂, hword, h⟩ := bind_eq_ok_iff.1 h
      obtain ⟨rfl, rfl⟩ := pure_eq_ok_iff.1 h
      exact ⟨.null, bind_eq_ok_iff.2 ⟨_, c₁, htake, bind_eq_ok_iff.2 ⟨_, c₂, hword, rfl⟩⟩,
        .inl ⟨rfl, rfl⟩⟩
    · rintro ⟨v, h, hl⟩
      obtain ⟨_, c₁, htake, h⟩ := bind_eq_ok_iff.1 h
      obtain ⟨_, c₂, hword, h⟩ := bind_eq_ok_iff.1 h
      obtain ⟨rfl, rfl⟩ := pure_eq_ok_iff.1 h
      obtain rfl := hl.unique (.inl ⟨rfl, rfl⟩)
      refine ⟨_, _, rfl, ?_⟩
      rw [if_pos hn]
      exact bind_eq_ok_iff.2 ⟨_, c₁, htake, bind_eq_ok_iff.2 ⟨_, c₂, hword, rfl⟩⟩
  · constructor
    · rintro ⟨_, _, hpeek, h⟩
      cases hpeek
      rw [if_neg hn] at h
      obtain ⟨n, hlifetime, rfl⟩ := map_eq_ok_iff.1 h
      obtain ⟨v, c₁, hv, hmatch⟩ := bind_eq_ok_iff.1 hlifetime
      rw [Json.value_skipWhile] at hv
      cases hs : seconds v with
      | error cause =>
        rw [hs] at hmatch
        cases hmatch
      | ok m =>
        rw [hs] at hmatch
        obtain ⟨rfl, rfl⟩ := pure_eq_ok_iff.1 hmatch
        exact ⟨v, hv, .inr ⟨_, hs, rfl⟩⟩
    · rintro ⟨v, hv, ⟨rfl, rfl⟩ | ⟨n, hs, rfl⟩⟩
      · exact absurd (Json.head_of_null hv) hn
      · refine ⟨_, _, rfl, ?_⟩
        rw [if_neg hn]
        refine map_eq_ok_iff.2 ⟨n, bind_eq_ok_iff.2 ⟨v, c', ?_, ?_⟩, rfl⟩
        · rw [Json.value_skipWhile]
          exact hv
        · rw [hs]
          rfl

/-! ## drafts -/

/-- an answer of which the lifetime is any value -/
structure Draft where
  accessToken : String
  tokenType : Option String
  written : Option (Bytes × Value)

def Draft.fields : List (Field Reader Draft) := [
  ⟨"access_token", .required, (fun t d => { d with accessToken := t }) <$> Json.string⟩,
  ⟨"issued_token_type", .defaulted, (fun _ d => d) <$> Json.optional Json.string⟩,
  ⟨"token_type", .defaulted, (fun t d => { d with tokenType := t }) <$>
    Json.optional Json.string⟩,
  ⟨"expires_in", .defaulted, (fun x d => { d with written := some x }) <$>
    withText (Json.value (Json.maxDepth - 1))⟩,
  ⟨"scope", .defaulted, (fun _ d => d) <$> Json.optional Json.string⟩]

def Draft.parse (payload : Bytes) : Except Json.Refusal Draft :=
  Json.parseAs (Json.record "TokenResponse" Draft.fields ⟨"", none, none⟩) payload

/-- the lifetime of the draft: none if it is not written -/
def Draft.Lasts (d : Draft) (l : Option Nat) : Prop :=
  match d.written with
  | none => l = none
  | some x => Writes x l

structure Draft.Makes (d : Draft) (a : Answer) : Prop where
  accessToken : d.accessToken = a.accessToken
  tokenType : d.tokenType = a.tokenType
  lasts : d.Lasts a.lifetime
  written : ∀ x ∈ d.written, IsWritten x

theorem Draft.Lasts.unique {d : Draft} {l l' : Option Nat} (h : d.Lasts l) (h' : d.Lasts l')
    (hw : ∀ x ∈ d.written, IsWritten x) : l = l' := by
  rw [Lasts] at h h'
  cases hd : d.written with
  | none =>
    rw [hd] at h h'
    exact h.trans h'.symm
  | some x =>
    rw [hd] at h h'
    have hx := hw x hd
    exact ((writes_iff hx).1 h).unique ((writes_iff hx).1 h')

theorem Draft.Makes.unique {d : Draft} {a : Answer} (h : d.Makes a) {b : Answer}
    (ha : d.accessToken = b.accessToken) (ht : d.tokenType = b.tokenType)
    (hl : d.Lasts b.lifetime) : a = b := by
  obtain ⟨accessToken, tokenType, lifetime⟩ := a
  obtain ⟨accessToken', tokenType', lifetime'⟩ := b
  obtain rfl : accessToken = accessToken' := h.accessToken.symm.trans ha
  obtain rfl : tokenType = tokenType' := h.tokenType.symm.trans ht
  obtain rfl : lifetime = lifetime' := h.lasts.unique hl h.written
  rfl

def Draft.IsGood (d : Draft) : Prop := ∃ l, d.Lasts l

theorem beside_expires_in : Field.Beside Draft.Makes "expires_in" Draft.IsGood
    ⟨"expires_in", .defaulted, (fun x d => { d with written := some x }) <$>
      withText (Json.value (Json.maxDepth - 1))⟩
    ⟨"expires_in", .defaulted, (fun n a => { a with lifetime := n }) <$>
      Json.optional lifetime⟩ where
  name := rfl
  absence := rfl
  forth := by
    intro c set c' h
    obtain ⟨l, hl, rfl⟩ := map_eq_ok_iff.1 h
    obtain ⟨v, hv, hholds⟩ := optional_lifetime_eq_ok_iff.1 hl
    have hw : IsWritten (c.upTo c', v) := ⟨c, c', hv, rfl⟩
    refine ⟨_, map_eq_ok_iff.2 ⟨(c.upTo c', v), withText_eq_ok_iff.2 ⟨hv, rfl⟩, rfl⟩, ?_⟩
    exact fun d a hd => ⟨hd.accessToken, hd.tokenType, (writes_iff hw).2 hholds,
      fun x hx => Option.some.inj hx ▸ hw⟩
  back := by
    intro c set' c' h
    obtain ⟨x, hx, rfl⟩ := map_eq_ok_iff.1 h
    obtain ⟨hv, htext⟩ := withText_eq_ok_iff.1 hx
    have hw : IsWritten x := ⟨c, c', hv, htext⟩
    by_cases hl : ∃ l, Writes x l
    · obtain ⟨l, hl⟩ := hl
      have hread := optional_lifetime_eq_ok_iff.2 ⟨x.2, hv, (writes_iff hw).1 hl⟩
      refine .inl ⟨_, map_eq_ok_iff.2 ⟨l, hread, rfl⟩, ?_⟩
      exact fun d a hd => ⟨hd.accessToken, hd.tokenType, hl, fun y hy => Option.some.inj hy ▸ hw⟩
    · exact .inr ⟨rfl, fun d hd => hl hd⟩
  keeps := fun hne => absurd rfl hne

theorem beside_fields :
    List.Forall₂ (Field.Beside Draft.Makes "expires_in" Draft.IsGood) Draft.fields fields :=
  .cons (.same (fun _ _ _ h => ⟨rfl, h.tokenType, h.lasts, h.written⟩) fun _ _ h => h) <|
  .cons (.same (fun _ _ _ h => h) fun _ _ h => h) <|
  .cons (.same (fun _ _ _ h => ⟨h.accessToken, rfl, h.lasts, h.written⟩) fun _ _ h => h) <|
  .cons beside_expires_in <|
  .cons (.same (fun _ _ _ h => h) fun _ _ h => h) .nil

/-- an answer is read just if its draft is, and the lifetime is written in one of the two ways or
not at all -/
theorem parse_eq_ok_iff {payload : Bytes} {a : Answer} : Answer.parse payload = .ok a ↔
    ∃ d, Draft.parse payload = .ok d ∧ d.accessToken = a.accessToken ∧
      d.tokenType = a.tokenType ∧ d.Lasts a.lifetime := by
  have hblank : Draft.Makes ⟨"", none, none⟩ ⟨"", none, none⟩ := ⟨rfl, rfl, rfl, nofun⟩
  rw [Answer.parse, Json.parseAs_eq_ok_iff]
  constructor
  · rintro ⟨c, hrun, hend⟩
    obtain ⟨d, hd, hmakes⟩ := Json.record_forth beside_fields hblank hrun
    exact ⟨d, Json.parseAs_eq_ok_iff.2 ⟨c, hd, hend⟩, hmakes.accessToken, hmakes.tokenType,
      hmakes.lasts⟩
  · rintro ⟨d, hd, ha, ht, hl⟩
    obtain ⟨c, hrun, hend⟩ := Json.parseAs_eq_ok_iff.1 hd
    have hnodup : (fields.map (·.name)).Nodup := by decide
    obtain ⟨b, hb, hmakes⟩ := Json.record_back beside_fields hnodup ⟨_, hl⟩ hblank hrun
    exact ⟨c, hmakes.unique ha ht hl ▸ hb, hend⟩

/-- the reading at which the token of the answer expires, if it is made at the reading `now` -/
def Answer.expiry (a : Answer) (now : Clock.Reading) : Clock.Reading :=
  now + a.seconds * Clock.second

theorem Answer.token_eq (a : Answer) (now : Clock.Reading) : a.token now =
    if Clock.representable (a.expiry now) = true then
      .ok ⟨a.accessToken, a.tokenType.getD Token.bearer, some (a.expiry now)⟩
    else .error (.expiresIn a.seconds) := by
  rw [token, Clock.deadline?]
  unfold expiry
  split
  · rfl
  · rfl

end Exchange

/-! ## refreshes -/

def World.answering (v : World) (reply : Http.Reply) : World :=
  { v with replies := reply :: v.replies.tail }

namespace Credentials

/-- the stage at which the subject token is exchanged -/
abbrev exchanging (c : Credentials) (subject : String) : Stage :=
  .fetching (.identified c.boundary subject)

/-- a refresh that begins in the world `w` exchanges the subject token in the world `v`, and that
succeeds with a response -/
structure Exchanged (c : Credentials) (w : World) (subject : String) (v : World) (body : Bytes) :
    Prop where
  sent : c.Reaches w (c.exchanging subject) v
  reply : ∃ res, v.reply = .response res ∧ res.status.isSuccess = true ∧ res.body = body

variable {c : Credentials} {w v : World} {subject : String} {body : Bytes} {a : Exchange.Answer}

theorem answer_of_success {res : Http.Response} (hs : res.status.isSuccess = true) :
    Exchange.Answer.of (.response res) =
      (Exchange.Answer.parse res.body).mapError (.payload .exchange) := by
  rw [Exchange.Answer.of, Hop.judge, if_pos hs]
  rfl

theorem Exchanged.answer (h : c.Exchanged w subject v body) : Exchange.Answer.of v.reply =
    (Exchange.Answer.parse body).mapError (.payload .exchange) := by
  obtain ⟨res, hreply, hsuccess, rfl⟩ := h.reply
  rw [hreply, answer_of_success hsuccess]

theorem Exchanged.answer_ok (h : c.Exchanged w subject v body)
    (hp : Exchange.Answer.parse body = .ok a) : Exchange.Answer.of v.reply = .ok a := by
  rw [h.answer, hp]
  rfl

theorem Exchanged.refresh_error (h : c.Exchanged w subject v body) {refusal : Json.Refusal}
    (hp : Exchange.Answer.parse body = .error refusal) :
    ∃ w', c.refresh w = (.error (.payload .exchange refusal), c, w') := by
  have hanswer : Exchange.Answer.of v.reply = .error (.payload .exchange refusal) := by
    rw [h.answer, hp]
    rfl
  refine ⟨v.afterRequest (c.account.configuration.exchange subject).request, ?_⟩
  rw [h.sent.refresh_eq, complete_eq, proceed, Configuration.advance, Action.run_bind,
    Exchange.run_eq, hanswer]

theorem Exchanged.refresh_congr (h : c.Exchanged w subject v body)
    (hp : Exchange.Answer.parse body = .ok a) {res : Http.Response}
    (hs : res.status.isSuccess = true) {a' : Exchange.Answer}
    (hp' : Exchange.Answer.parse res.body = .ok a') (ht : a.accessToken = a'.accessToken)
    (hi : c.account.configuration.impersonation?.isSome = true ∨ a = a') :
    c.refresh w = c.complete (c.exchanging subject) (v.answering (.response res)) := by
  have ha' : Exchange.Answer.of (v.answering (.response res)).reply = .ok a' := by
    show Exchange.Answer.of (.response res) = .ok a'
    rw [answer_of_success hs, hp']
    rfl
  have hclock : (v.answering (.response res)).clock = v.clock := rfl
  rw [h.sent.refresh_eq, complete_eq, proceed_of_answer c c.boundary subject (h.answer_ok hp),
    complete_eq c _ (v.answering _), proceed_of_answer c c.boundary subject ha', hclock]
  cases hc : c.account.configuration.impersonation? with
  | some i =>
    rw [ht]
    rfl
  | none =>
    rw [hc] at hi
    obtain rfl := hi.resolve_left nofun
    generalize a.token v.clock = r
    cases r with
    | error f => rfl
    | ok token => rfl

/-! ### without an impersonation -/

theorem Exchanged.refresh_ok (h : c.Exchanged w subject v body)
    (hi : c.account.configuration.impersonation? = none) (hp : Exchange.Answer.parse body = .ok a)
    (hc : Clock.representable (a.expiry v.clock) = true) :
    (c.refresh w).1 = .ok () ∧ (c.refresh w).2.1.token =
      some ⟨a.accessToken, a.tokenType.getD Token.bearer, some (a.expiry v.clock)⟩ := by
  have hproceed := proceed_of_answer c c.boundary subject (h.answer_ok hp)
  rw [hi, a.token_eq, if_pos hc] at hproceed
  obtain ⟨hok, htoken, -⟩ := refresh_of_fetched (h.sent.step hproceed)
  exact ⟨hok, htoken⟩

theorem Exchanged.refresh_overflow (h : c.Exchanged w subject v body)
    (hi : c.account.configuration.impersonation? = none) (hp : Exchange.Answer.parse body = .ok a)
    (hc : ¬Clock.representable (a.expiry v.clock) = true) :
    ∃ w', c.refresh w = (.error (.expiresIn a.seconds), c, w') := by
  have hproceed := proceed_of_answer c c.boundary subject (h.answer_ok hp)
  rw [hi, a.token_eq, if_neg hc] at hproceed
  refine ⟨v.afterRequest (c.account.configuration.exchange subject).request, ?_⟩
  rw [h.sent.refresh_eq, complete_eq, hproceed]

theorem Exchanged.refresh_ok_iff (h : c.Exchanged w subject v body)
    (hi : c.account.configuration.impersonation? = none)
    (hp : Exchange.Answer.parse body = .ok a) :
    (c.refresh w).1 = .ok () ↔ Clock.representable (a.expiry v.clock) = true := by
  constructor
  · intro hok
    by_contra hc
    obtain ⟨w', he⟩ := h.refresh_overflow hi hp hc
    rw [he] at hok
    cases hok
  · exact fun hc => (h.refresh_ok hi hp hc).1

theorem exists_exchanged (hok : (c.refresh w).1 = .ok ()) : ∃ subject v body a,
    c.Exchanged w subject v body ∧ Exchange.Answer.parse body = .ok a := by
  obtain ⟨subject, u, _, a, hreach, hrun⟩ := exists_exchange_of_ok hok
  obtain ⟨res, hreply, hsuccess, hparse, -⟩ := Exchange.run_eq_ok_iff.1 hrun
  exact ⟨subject, u, res.body, a, ⟨hreach, res, hreply, hsuccess, rfl⟩, hparse⟩

end Credentials

end Federation
