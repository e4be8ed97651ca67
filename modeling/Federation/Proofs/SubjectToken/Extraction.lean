import Federation.Proofs.Json.Reread
import Federation.Proofs.Text.Blank
import Federation.SubjectToken.Retrieval

/-!
# Tokens in files and responses

A token is the whole of a text, or a string in the object that the text is.  Where it comes from
matters for two things only: the blank ends of a file do not count, and a response need not be well
formed.

* `TokenFormat.outcome_extract`           what becomes of any text;
* `Json.holds_compact`                    an object that is written out, with blanks around it;
* `Source.subject_tokens_are_faithful`    both for a file and for a response.
-/

namespace Federation

namespace TokenFormat

variable {format : TokenFormat} {field text token : String}

/-- the text holds the token, which may be empty -/
def Holds : TokenFormat → String → String → Prop
  | .text, text, token => token = text
  | .json field, text, token =>
    ∃ ms, Json.Writes (Utf8.encode text) ms ∧ Json.last? ms field = some (.string token)

/-- what `r` has to be for a text: its token, but not an empty one.  A text that is no object, or an
object without such a string, fails in one way only. -/
structure Outcome (format : TokenFormat) (origin text : String) (r : Except Failure String) :
    Prop where
  ok_iff (token : String) : r = .ok token ↔ format.Holds text token ∧ token ≠ ""
  error_iff (f : Failure) : r = .error f ↔ (f = .tokenEmpty ∧ format.Holds text "") ∨
    ∃ field, format = .json field ∧ f = .tokenNotFound origin field ∧
      ∀ token, ¬format.Holds text token

theorem extract_of_holds (h : format.Holds text token) (origin : String) :
    format.extract origin text = if token = "" then .error .tokenEmpty else .ok token := by
  have hcheck : (if token.isEmpty then throw .tokenEmpty else pure token : Except Failure String)
      = if token = "" then .error .tokenEmpty else .ok token := by
    simp only [String.isEmpty_iff]
    rfl
  rw [← hcheck]
  cases format with
  | text =>
    obtain rfl : token = text := h
    rfl
  | json field =>
    obtain ⟨v, hv, hm⟩ := Json.parse_member_iff.2 h
    rw [extract]
    dsimp only
    rw [hv]
    dsimp only
    rw [hm]
    rfl

theorem extract_of_not_holds (h : ∀ token, ¬(json field).Holds text token) (origin : String) :
    (json field).extract origin text = .error (.tokenNotFound origin field) := by
  rw [extract]
  dsimp only
  cases hv : Json.parse (Utf8.encode text) with
  | error _ => rfl
  | ok v =>
    dsimp only
    split
    · next token hm => exact absurd (Json.parse_member_iff.1 ⟨v, hv, hm⟩) (h token)
    · rfl

theorem holds_or (format : TokenFormat) (text : String) : (∃ token, format.Holds text token) ∨
    ∃ field, format = .json field ∧ ∀ token, ¬format.Holds text token := by
  cases format with
  | text => exact .inl ⟨text, rfl⟩
  | json field =>
    by_cases h : ∃ token, (json field).Holds text token
    · exact .inl h
    · exact .inr ⟨field, rfl, not_exists.1 h⟩

theorem extract_eq_ok_iff {origin : String} :
    format.extract origin text = .ok token ↔ format.Holds text token ∧ token ≠ "" := by
  constructor
  · intro h
    rcases holds_or format text with ⟨t, ht⟩ | ⟨field, rfl, hnone⟩
    · rw [extract_of_holds ht] at h
      split at h
      · cases h
      · next hne =>
        cases h
        exact ⟨ht, hne⟩
    · rw [extract_of_not_holds hnone] at h
      cases h
  · rintro ⟨h, hne⟩
    rw [extract_of_holds h, if_neg hne]

example : (json "t").extract "o" "\x7b\"t\":\"a\",\"t\":\"b\"\x7d" = .ok "b" := by cbv

theorem extract_eq_error_iff {origin : String} {f : Failure} :
    format.extract origin text = .error f ↔ (f = .tokenEmpty ∧ format.Holds text "") ∨
      ∃ field, format = .json field ∧ f = .tokenNotFound origin field ∧
        ∀ token, ¬format.Holds text token := by
  constructor
  · intro h
    rcases holds_or format text with ⟨t, ht⟩ | ⟨field, rfl, hnone⟩
    · rw [extract_of_holds ht] at h
      split at h
      · next he =>
        cases h
        exact .inl ⟨rfl, he ▸ ht⟩
      · cases h
    · rw [extract_of_not_holds hnone] at h
      cases h
      exact .inr ⟨field, rfl, rfl, hnone⟩
  · rintro (⟨rfl, h⟩ | ⟨field, rfl, rfl, h⟩)
    · rw [extract_of_holds h, if_pos rfl]
    · exact extract_of_not_holds h origin

theorem outcome_extract (format : TokenFormat) (origin text : String) :
    format.Outcome origin text (format.extract origin text) :=
  ⟨fun _ => extract_eq_ok_iff, fun _ => extract_eq_error_iff⟩

end TokenFormat

/-! ## objects that are written out -/

namespace Json

variable {ms : Members} {front back : String}

theorem IsGap.allBlank {s : String} (h : IsGap s) : Text.AllBlank s.toList := by
  intro c hc
  have hall : ∀ c ∈ [' ', '\n', '\r', '\t'], Text.isBlank c = true :=
    Utf8.forall_of_all (by decide)
  exact hall c (h c hc)

theorem bare_compact (ms : Members) : Text.Bare (Value.object ms).compact.toList := by
  rw [Value.compact, String.toList_append, String.toList_append]
  constructor
  · intro c hc
    obtain rfl : '\x7b' = c := Option.some.inj hc
    rfl
  · intro c hc
    rw [show "\x7d".toList = ['\x7d'] from rfl, List.getLast?_concat] at hc
    obtain rfl : '\x7d' = c := Option.some.inj hc
    rfl

theorem trim_compact (hfront : IsGap front) (hback : IsGap back) :
    Text.trim (front ++ (Value.object ms).compact ++ back) = (Value.object ms).compact := by
  refine Text.trim_of_bare ?_ hfront.allBlank hback.allBlank (bare_compact ms)
  rw [String.toList_append, String.toList_append]

theorem holds_compact (h : (Value.object ms).Fits maxDepth) (hfront : IsGap front)
    (hback : IsGap back) {field token : String} (hm : last? ms field = some (.string token)) :
    (TokenFormat.json field).Holds (front ++ (Value.object ms).compact ++ back) token := by
  obtain ⟨ms', hms', hlast⟩ := writes_compact h hfront hback
  exact ⟨ms', hms', hlast field token hm⟩

end Json

/-! ## sources -/

namespace Source

/-- the source finds these bytes in the world `w`, takes them for the text `text`, which errors say
is from `origin`, and leaves the world `w'`: the blank ends of a file do not count, and what is not
well formed in a response is replaced -/
inductive Finds (w : World) : Source → TokenFormat → (origin : String) → Bytes →
    (text : String) → World → Prop where
  | file {path text : String} {format : TokenFormat} {content : Bytes}
    (hread : Files.read w.files path = .ok content) (htext : Utf8.decode? content = some text) :
    Finds w (.file path format) format path content (Text.trim text) w
  | url {address : String} {headers : Http.Headers} {format : TokenFormat} {res : Http.Response}
    (hreply : w.reply = .response res) (hs : res.status.isSuccess = true) :
    Finds w (.url address headers format) format address res.body (Utf8.lossy res.body)
      (w.afterRequest (.get address headers))

variable {w w' : World} {s : Source} {format : TokenFormat} {origin text token : String}
  {bytes : Bytes}

theorem Finds.run_retrieve (h : Finds w s format origin bytes text w') (purpose : Purpose) :
    (s.retrieve purpose).run w = (format.extract origin text, w') := by
  cases h with
  | @file _ text _ _ hread htext =>
    have hfile : Files.readText w.files origin = .ok text := by
      rw [Files.readText, hread]
      dsimp only [bind, Except.bind]
      rw [htext]
      rfl
    have hrun : (Action.readText origin).run w = (.ok (.ok text), w) := by
      show (Except.ok (Files.readText w.files origin), w) = _
      rw [hfile]
    show (fromFile origin format).run w = _
    rw [fromFile, Action.run_bind, hrun]
    rfl
  | @url _ headers _ res hreply hs =>
    have hrun : (Action.call .subjectToken (.get origin headers)).run w
        = (.ok res, w.afterRequest (.get origin headers)) :=
      Action.run_call_eq_ok_iff.2 ⟨hreply, hs, rfl⟩
    show (fromUrl origin headers format).run w = _
    rw [fromUrl, Action.run_bind, hrun]
    rfl

theorem Finds.text_eq (h : Finds w s format origin bytes text w') {exact : String}
    (hbytes : Utf8.decode? bytes = some exact) (hbare : Text.Bare exact.toList) :
    text = exact := by
  cases h with
  | @file _ text _ _ _ htext =>
    obtain rfl : text = exact := Option.some.inj (htext.symm.trans hbytes)
    have hends : text.toList = [] ++ text.toList ++ [] := (List.append_nil _).symm
    exact Text.trim_of_bare hends nofun nofun hbare
  | url _ _ => exact Utf8.lossy_of_decode? hbytes

theorem Finds.holds_compact {ms : Json.Members} {field front back : String}
    (h : Finds w s format origin
      (Utf8.encode (front ++ (Json.Value.object ms).compact ++ back)) text w')
    (hfits : (Json.Value.object ms).Fits Json.maxDepth) (hfront : Json.IsGap front)
    (hback : Json.IsGap back) (hm : Json.last? ms field = some (.string token)) :
    (TokenFormat.json field).Holds text token := by
  have hbytes := Utf8.decode?_encode (front ++ (Json.Value.object ms).compact ++ back)
  generalize hb : Utf8.encode (front ++ (Json.Value.object ms).compact ++ back) = bytes at h hbytes
  cases h with
  | file hread htext =>
    obtain rfl := Option.some.inj (htext.symm.trans hbytes)
    rw [Json.trim_compact hfront hback]
    have hempty : Json.IsGap "" := nofun
    have hholds := Json.holds_compact hfits hempty hempty hm
    rwa [String.empty_append, String.append_empty] at hholds
  | url _ _ =>
    rw [Utf8.lossy_of_decode? hbytes]
    exact Json.holds_compact hfits hfront hback hm

theorem ne_empty_of_fromFile {path : String}
    (h : (fromFile path format).run w = (.ok token, w')) : token ≠ "" := by
  rw [fromFile, Action.run_bind_eq_ok_iff] at h
  obtain ⟨x, v, -, h⟩ := h
  rcases x with fault | text
  · cases fault <;> cases h
  · exact (TokenFormat.extract_eq_ok_iff.1 (congrArg Prod.fst h)).2

theorem ne_empty_of_fromUrl {address : String} {headers : Http.Headers}
    (h : (fromUrl address headers format).run w = (.ok token, w')) : token ≠ "" := by
  rw [fromUrl, Action.run_bind_eq_ok_iff] at h
  obtain ⟨res, v, -, h⟩ := h
  exact (TokenFormat.extract_eq_ok_iff.1 (congrArg Prod.fst h)).2

/-- a token is what its file or its response holds, and is never empty -/
theorem subject_tokens_are_faithful :
    (∀ s w w' format origin bytes text purpose, Finds w s format origin bytes text w' →
      ∃ r, (s.retrieve purpose).run w = (r, w') ∧ format.Outcome origin text r) ∧
    (Failure.tokenEmpty.report.message =
      some "Missing subject_token in the credential_source file") ∧
    (∀ origin field, (Failure.tokenNotFound origin field).transient = false ∧
      (Failure.tokenNotFound origin field).report.message =
        some ("Unable to parse subject_token from JSON file '" ++ origin ++ "' using key '" ++
          field ++ "'")) ∧
    (∀ bytes ms', Json.parse bytes = .ok (.object ms') ↔
      ∃ ms, Json.Writes bytes ms ∧ Json.ofList ms = ms') ∧
    (∀ (ms : Json.Members) name, Json.get? (Json.ofList ms) name = Json.last? ms name) ∧
    (∀ content text, Text.trim content = text ↔ Text.Bare text.toList ∧ ∃ front back,
      content.toList = front ++ text.toList ++ back ∧
        Text.AllBlank front ∧ Text.AllBlank back) ∧
    (∀ bytes text, Utf8.decode? bytes = some text → Utf8.lossy bytes = text) ∧
    (∀ path format purpose token w w',
      ((Source.file path format).retrieve purpose).run w = (.ok token, w') → token ≠ "") ∧
    (∀ address headers format purpose token w w',
      ((Source.url address headers format).retrieve purpose).run w = (.ok token, w') →
        token ≠ "") ∧
    (∀ (ms : Json.Members) field token front back, (Json.Value.object ms).Fits Json.maxDepth →
      Json.last? ms field = some (.string token) → token ≠ "" →
      Json.IsGap front → Json.IsGap back →
      ∀ s w w' origin text purpose, Finds w s (.json field) origin
        (Utf8.encode (front ++ (Json.Value.object ms).compact ++ back)) text w' →
          (s.retrieve purpose).run w = (.ok token, w')) ∧
    ∀ bytes exact, Utf8.decode? bytes = some exact → Text.Bare exact.toList →
      ∀ s s' w w' v v' format origin origin' text text' purpose,
        Finds w s format origin bytes text w' → Finds v s' format origin' bytes text' v' →
          ∃ r r', (s.retrieve purpose).run w = (r, w') ∧ (s'.retrieve purpose).run v = (r', v') ∧
            (∀ token, r = .ok token ↔ r' = .ok token) ∧
            (r = .error .tokenEmpty ↔ r' = .error .tokenEmpty) ∧
            ∀ field, r = .error (.tokenNotFound origin field) ↔
              r' = .error (.tokenNotFound origin' field) := by
  refine ⟨fun s w w' format origin bytes text purpose h => ?_, rfl, fun origin field => ⟨rfl, ?_⟩,
    fun bytes ms' => Json.parse_eq_object_iff, Json.get?_ofList,
    fun content text => Text.trim_eq_iff, fun bytes text => Utf8.lossy_of_decode?,
    fun path format purpose token w w' => ne_empty_of_fromFile,
    fun address headers format purpose token w w' => ne_empty_of_fromUrl,
    fun ms field token front back hfits hm hne hfront hback s w w' origin text purpose h => ?_,
    fun bytes exact hbytes hbare s s' w w' v v' format origin origin' text text' purpose h h' => ?_⟩
  · exact ⟨_, h.run_retrieve purpose, format.outcome_extract origin text⟩
  · show some ("Unable to parse subject_token from JSON file " ++ ("'" ++ origin ++ "'") ++
      " using key " ++ ("'" ++ field ++ "'")) = _
    simp only [String.append_assoc]
    rfl
  · rw [h.run_retrieve purpose]
    exact congrArg (·, w') (TokenFormat.extract_eq_ok_iff.2
      ⟨h.holds_compact hfits hfront hback hm, hne⟩)
  · obtain rfl := h.text_eq hbytes hbare
    obtain rfl := h'.text_eq hbytes hbare
    refine ⟨_, _, h.run_retrieve purpose, h'.run_retrieve purpose, fun token => ?_, ?_,
      fun field => ?_⟩
    · rw [TokenFormat.extract_eq_ok_iff, TokenFormat.extract_eq_ok_iff]
    · simp only [TokenFormat.extract_eq_error_iff, reduceCtorEq, false_and, and_false,
        exists_false, or_false]
    · simp only [TokenFormat.extract_eq_error_iff, reduceCtorEq, false_and, false_or,
        Failure.tokenNotFound.injEq, true_and]

end Source

end Federation
