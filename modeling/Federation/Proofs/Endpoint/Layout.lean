import Federation.Endpoint.Url
import Federation.Proofs.Encoding.Form
import Federation.Proofs.Text.Decimal
import Mathlib.Data.List.DropRight

/-!
# How an endpoint URL is written

A URL is written from parts: the scheme, more slashes, a user, a host, a port, and what follows
them.  The parts say where the host stands, and the reader of a URL finds it just there.

* `Endpoint.isPort_iff`        the ports;
* `Endpoint.hostText?_plain`   letters, digits, hyphens and dots stand for their small letters;
* `Endpoint.Parts.host?_text`  the host of a URL is the host it is written with;
* `Endpoint.exists_parts`      a URL that has a host is written from parts;
* `Endpoint.host?_dropSlashes` further slashes behind the scheme say nothing.
-/

namespace Federation.Endpoint

/-! ## characters -/

/-- neither blank nor a control character -/
def IsVisible (c : Char) : Prop := Text.isBlank c = false ∧ Text.isControl c = false

instance : DecidablePred IsVisible := fun c =>
  inferInstanceAs (Decidable (Text.isBlank c = false ∧ Text.isControl c = false))

def IsHostChar (c : Char) : Prop :=
  ('a' ≤ c ∧ c ≤ 'z') ∨ ('A' ≤ c ∧ c ≤ 'Z') ∨ ('0' ≤ c ∧ c ≤ '9') ∨ c = '-' ∨ c = '.'

instance : DecidablePred IsHostChar := fun c => inferInstanceAs (Decidable
  (('a' ≤ c ∧ c ≤ 'z') ∨ ('A' ≤ c ∧ c ≤ 'Z') ∨ ('0' ≤ c ∧ c ≤ '9') ∨ c = '-' ∨ c = '.'))

def isSlash (c : Char) : Bool := c = '/' || c = '\\'

theorem IsHostChar.ascii {c : Char} (h : IsHostChar c) : c.toNat ≤ 0x7F := by
  rcases h with h | h | h | rfl | rfl
  · change 0x61 ≤ c.toNat ∧ c.toNat ≤ 0x7A at h
    omega
  · change 0x41 ≤ c.toNat ∧ c.toNat ≤ 0x5A at h
    omega
  · change 0x30 ≤ c.toNat ∧ c.toNat ≤ 0x39 at h
    omega
  · decide
  · decide

theorem IsHostChar.ne {c d : Char} (h : IsHostChar c) (hd : ¬IsHostChar d) : c ≠ d := by
  rintro rfl
  exact hd h

/-! ## hosts -/

theorem percentDecode_of_free {bs : Bytes} (h : ∀ b ∈ bs, b ≠ 0x25) : percentDecode bs = bs := by
  induction bs with
  | nil => exact percentDecode_nil
  | cons b bs ih =>
    obtain ⟨hb, hbs⟩ := List.forall_mem_cons.1 h
    rw [percentDecode_cons hb, ih hbs]

theorem mapM_plainForm? {cs : List Char} (h : ∀ c ∈ cs, c.toNat ≤ 0x7F) :
    cs.mapM plainForm? = some (cs.map fun c => [c.toLower]) := by
  induction cs with
  | nil => rfl
  | cons c cs ih =>
    obtain ⟨hc, hcs⟩ := List.forall_mem_cons.1 h
    rw [List.mapM_cons, ih hcs, plainForm?, if_pos (Nat.lt_succ_of_le hc)]
    rfl

theorem plainText?_of_ascii {cs : List Char} (h : ∀ c ∈ cs, c.toNat ≤ 0x7F) :
    plainText? cs = some (cs.map Char.toLower) := by
  rw [plainText?, mapM_plainForm? h, Option.map_some, ← List.flatMap_def, ← List.map_eq_flatMap]

theorem hostText?_plain {host : List Char} (h : ∀ c ∈ host, IsHostChar c) :
    hostText? host = some (host.map Char.toLower) := by
  have hfree : ∀ b ∈ Utf8.encode (String.ofList host), b ≠ 0x25 := by
    rw [Utf8.encode_ofList, Utf8.encodeChars_of_ascii fun c hc => (h c hc).ascii]
    refine Form.ne_of_mem_bytes '%' (by decide) fun c hc => ⟨(h c hc).ascii, ?_⟩
    exact (h c hc).ne (by decide)
  rw [hostText?, percentDecode_of_free hfree, Utf8.decode?_encode, Option.map_some,
    String.toList_ofList, Option.bind_some, plainText?_of_ascii fun c hc => (h c hc).ascii]

/-! ## ports -/

/-- the text of a port: digits, with a value that a port may have -/
def IsPort (digits : List Char) : Prop :=
  (∀ d ∈ digits, d.isDigit = true) ∧ Nat.ofDigitChars 10 digits 0 ≤ 65535

/-- the value of a numeral grows with every digit, so a bound on the whole is one on each part -/
theorem isPortFrom_iff (ds : List Char) (n : Nat) (hn : n ≤ maxPort) : isPortFrom n ds = true ↔
    (∀ d ∈ ds, d.isDigit = true) ∧ Nat.ofDigitChars 10 ds n ≤ maxPort := by
  induction ds generalizing n with
  | nil => simp [isPortFrom, Nat.ofDigitChars_nil, hn]
  | cons d ds ih =>
    rw [isPortFrom, Decimal.value?_eq, List.forall_mem_cons, Nat.ofDigitChars_cons, Nat.mul_comm 10]
    by_cases hd : d.isDigit = true
    · rw [if_pos hd]
      dsimp only
      rw [Bool.and_eq_true, decide_eq_true_eq]
      constructor
      · rintro ⟨hle, hmore⟩
        obtain ⟨hds, hvalue⟩ := (ih _ hle).1 hmore
        exact ⟨⟨hd, hds⟩, hvalue⟩
      · rintro ⟨⟨_, hds⟩, hvalue⟩
        have hle := Nat.le_trans (Decimal.le_ofDigitChars ds _) hvalue
        exact ⟨hle, (ih _ hle).2 ⟨hds, hvalue⟩⟩
    · rw [if_neg hd]
      simp [hd]

/-- the port with its colon -/
def portText : Option (List Char) → List Char
  | none => []
  | some digits => ':' :: digits

theorem isPort_iff (cs : List Char) : isPort cs = true ↔
    ∃ port : Option (List Char), cs = portText port ∧ ∀ ds ∈ port, IsPort ds := by
  cases cs with
  | nil => exact ⟨fun _ => ⟨none, rfl, nofun⟩, fun _ => isPort_nil⟩
  | cons c ds =>
    rw [isPort, Bool.and_eq_true, decide_eq_true_eq, isPortFrom_iff ds 0 (Nat.zero_le _)]
    constructor
    · rintro ⟨rfl, h⟩
      exact ⟨some ds, rfl, fun ds' hds' => Option.some.inj hds' ▸ h⟩
    · rintro ⟨port, hcs, h⟩
      cases port with
      | none => cases hcs
      | some ds' =>
        cases hcs
        exact ⟨rfl, h ds rfl⟩

/-! ## users -/

theorem head?_dropWhile (q : Char → Bool) (cs : List Char) :
    ∀ c ∈ (cs.dropWhile q).head?, q c = false := by
  intro c hc
  have h := List.head?_dropWhile_not q cs
  rw [Option.mem_def.1 hc] at h
  exact h

def userText : Option (List Char) → List Char
  | none => []
  | some user => user ++ ['@']

theorem afterUser_userText (user : Option (List Char)) {place : List Char} (h : '@' ∉ place) :
    afterUser (userText user ++ place) = place := by
  have hplace : ∀ c ∈ place.reverse, decide (c ≠ '@') = true := by
    intro c hc
    rw [decide_eq_true_eq]
    rintro rfl
    exact h (List.mem_reverse.1 hc)
  rw [afterUser, List.reverse_append, List.takeWhile_append_of_pos hplace]
  cases user with
  | none =>
    rw [userText, List.reverse_nil, List.takeWhile_nil, List.append_nil, List.reverse_reverse]
  | some user =>
    rw [userText, List.reverse_concat, List.takeWhile_cons_of_neg (by decide), List.append_nil,
      List.reverse_reverse]

theorem at_notMem_afterUser (cs : List Char) : '@' ∉ afterUser cs := by
  intro h
  have hne := List.mem_takeWhile_imp (List.mem_reverse.1 h)
  exact absurd hne (by decide)

theorem exists_user (cs : List Char) : ∃ user, cs = userText user ++ afterUser cs := by
  have hcs : cs = (cs.reverse.dropWhile (· ≠ '@')).reverse ++ afterUser cs := by
    rw [afterUser, ← List.reverse_append, List.takeWhile_append_dropWhile, List.reverse_reverse]
  cases hback : cs.reverse.dropWhile (· ≠ '@') with
  | nil =>
    rw [hback] at hcs
    exact ⟨none, hcs⟩
  | cons c back =>
    have hc : decide (c ≠ '@') = false := head?_dropWhile (· ≠ '@') cs.reverse c (by
      rw [hback, List.head?_cons]
      rfl)
    obtain rfl : c = '@' := not_not.1 (of_decide_eq_false hc)
    rw [hback, List.reverse_cons] at hcs
    exact ⟨some back.reverse, hcs⟩

/-! ## behind the scheme -/

section
variable {front rest : List Char} {url : String} {host : List Char}

theorem any_hidden_iff (cs : List Char) :
    cs.any (fun c => Text.isBlank c || Text.isControl c) = false ↔ ∀ c ∈ cs, IsVisible c := by
  simp only [List.any_eq_false, Bool.or_eq_true, not_or, Bool.not_eq_true, IsVisible]

theorem host?_ofList (hfront : front.map Char.toLower = scheme)
    (hv : ∀ c ∈ front ++ rest, IsVisible c) : host? (String.ofList (front ++ rest))
      = hostOf? ((rest.dropWhile isSlash).takeWhile (!endsAuthority ·)) := by
  have hlen : scheme.length = front.length := by rw [← hfront, List.length_map]
  have hany := (any_hidden_iff _).2 hv
  unfold host?
  rw [String.toList_ofList]
  dsimp only
  rw [hany, if_neg (by decide), hlen, List.take_left, hfront, if_neg (not_not_intro rfl),
    List.drop_left]
  rfl

theorem host?_dropSlashes (hfront : front.map Char.toLower = scheme)
    (hv : ∀ c ∈ front ++ rest, IsVisible c) : host? (String.ofList (front ++ rest))
      = host? (String.ofList (front ++ rest.dropWhile isSlash)) := by
  have hv' : ∀ c ∈ front ++ rest.dropWhile isSlash, IsVisible c := fun c hc => by
    rcases List.mem_append.1 hc with hc | hc
    · exact hv c (List.mem_append_left _ hc)
    · exact hv c (List.mem_append_right _ ((List.dropWhile_sublist _).subset hc))
  rw [host?_ofList hfront hv, host?_ofList hfront hv', List.dropWhile_idempotent]

theorem front_of_host? (h : host? url = some host) : ∃ front rest,
    url = String.ofList (front ++ rest) ∧ front.map Char.toLower = scheme ∧
    ∀ c ∈ front ++ rest, IsVisible c := by
  refine ⟨url.toList.take scheme.length, url.toList.drop scheme.length, ?_⟩
  rw [List.take_append_drop, String.ofList_toList]
  unfold host? at h
  dsimp only at h
  split at h
  · cases h
  · next hv =>
    split at h
    · cases h
    · next hs => exact ⟨rfl, not_not.1 hs, (any_hidden_iff _).1 (Bool.eq_false_iff.2 hv)⟩

end

/-! ## URLs by their parts -/

/-- the parts that a URL is written from -/
structure Parts where
  front : List Char
  slashes : List Char
  user : Option (List Char)
  host : List Char
  port : Option (List Char)
  suffix : List Char
  front_eq : front.map Char.toLower = "https://".toList
  isSlash_slashes : ∀ c ∈ slashes, isSlash c = true
  user_free : ∀ u ∈ user, ∀ c ∈ u, endsAuthority c = false
  host_free : ∀ c ∈ host, endsAuthority c = false ∧ c ≠ '@' ∧ c ≠ ':'
  isPort_port : ∀ ds ∈ port, IsPort ds
  suffix_starts : ∀ c ∈ suffix.head?, endsAuthority c = true
  /-- no slash is left to what stands behind the slashes -/
  slashes_end : ∀ c ∈ (userText user ++ (host ++ portText port) ++ suffix).head?, isSlash c = false
  visible : ∀ c ∈ front ++ (slashes ++ (userText user ++ (host ++ portText port) ++ suffix)),
    IsVisible c

namespace Parts

variable (p : Parts)

def place : List Char := p.host ++ portText p.port

def authority : List Char := userText p.user ++ p.place

def text : String := String.ofList (p.front ++ (p.slashes ++ (p.authority ++ p.suffix)))

theorem visible_text : ∀ c ∈ p.text.toList, IsVisible c := by
  rw [text, String.toList_ofList]
  exact p.visible

theorem take_text : p.text.toList.take 8 = p.front := by
  have hlen : p.front.length = 8 := by
    rw [← List.length_map Char.toLower, p.front_eq]
    rfl
  rw [text, String.toList_ofList, ← hlen, List.take_left]

theorem mem_portText {c : Char} (h : c ∈ portText p.port) : c = ':' ∨ c.isDigit = true := by
  cases hp : p.port with
  | none =>
    rw [hp] at h
    exact absurd h List.not_mem_nil
  | some ds =>
    rw [hp, portText, List.mem_cons] at h
    exact h.imp_right ((p.isPort_port ds hp).1 c)

theorem place_free {c : Char} (h : c ∈ p.place) : endsAuthority c = false ∧ c ≠ '@' := by
  have hdigit : ∀ d, endsAuthority d = true ∨ d = '@' → d.isDigit = false := by
    intro d hd
    simp only [endsAuthority, Bool.or_eq_true, decide_eq_true_eq] at hd
    rcases hd with (((rfl | rfl) | rfl) | rfl) | rfl <;> decide
  rcases List.mem_append.1 h with h | h
  · exact ⟨(p.host_free c h).1, (p.host_free c h).2.1⟩
  · rcases p.mem_portText h with rfl | h
    · decide
    · refine ⟨Bool.eq_false_iff.2 fun he => ?_, fun he => ?_⟩
      · rw [hdigit c (.inl he)] at h
        cases h
      · rw [hdigit c (.inr he)] at h
        cases h

theorem authority_free {c : Char} (h : c ∈ p.authority) : endsAuthority c = false := by
  rcases List.mem_append.1 h with h | h
  · cases hu : p.user with
    | none =>
      rw [hu] at h
      exact absurd h List.not_mem_nil
    | some u =>
      rw [hu, userText, List.mem_append, List.mem_singleton] at h
      rcases h with h | rfl
      · exact p.user_free u hu c h
      · decide
  · exact (p.place_free h).1

theorem takeWhile_rest : (p.authority ++ p.suffix).takeWhile (!endsAuthority ·) = p.authority := by
  have hall : ∀ c ∈ p.authority, (!endsAuthority c) = true := fun c hc => by
    rw [p.authority_free hc, Bool.not_false]
  rw [List.takeWhile_append_of_pos hall]
  cases hs : p.suffix with
  | nil => rw [List.takeWhile_nil, List.append_nil]
  | cons c cs =>
    have hc : endsAuthority c = true := p.suffix_starts c (by rw [hs, List.head?_cons]; rfl)
    rw [List.takeWhile_cons_of_neg (by rw [hc]; decide), List.append_nil]

theorem takeWhile_place : p.place.takeWhile (· ≠ ':') = p.host := by
  have hhost : ∀ c ∈ p.host, decide (c ≠ ':') = true := fun c hc =>
    decide_eq_true (p.host_free c hc).2.2
  rw [place, List.takeWhile_append_of_pos hhost]
  cases p.port with
  | none => rw [portText, List.takeWhile_nil, List.append_nil]
  | some ds => rw [portText, List.takeWhile_cons_of_neg (by decide), List.append_nil]

theorem hostOf?_authority : hostOf? p.authority = hostText? p.host := by
  have hplace : afterUser p.authority = p.place :=
    afterUser_userText p.user fun h => (p.place_free h).2 rfl
  have hport : isPort (p.place.drop p.host.length) = true := by
    rw [place, List.drop_left]
    exact (isPort_iff _).2 ⟨p.port, rfl, p.isPort_port⟩
  rw [hostOf?, hplace, takeWhile_place, if_pos hport]

theorem dropWhile_slashes :
    (p.slashes ++ (p.authority ++ p.suffix)).dropWhile isSlash = p.authority ++ p.suffix := by
  rw [List.dropWhile_append_of_pos p.isSlash_slashes]
  cases hrest : p.authority ++ p.suffix with
  | nil => rfl
  | cons c cs =>
    have hc : isSlash c = false := p.slashes_end c (by
      rw [← place, ← authority, hrest, List.head?_cons]
      rfl)
    rw [List.dropWhile_cons_of_neg (by rw [hc]; decide)]

/-- the host of a URL is the host it is written with -/
theorem host?_text : host? p.text = hostText? p.host := by
  have hv : ∀ c ∈ p.front ++ (p.slashes ++ (p.authority ++ p.suffix)), IsVisible c := p.visible
  rw [text, host?_ofList p.front_eq hv, dropWhile_slashes, takeWhile_rest,
    hostOf?_authority]

end Parts

theorem exists_place {authority host : List Char} (h : hostOf? authority = some host) :
    ∃ user written port, authority = userText user ++ (written ++ portText port) ∧
      '@' ∉ written ∧ ':' ∉ written ∧ (∀ ds ∈ port, IsPort ds) ∧
      hostText? written = some host := by
  obtain ⟨user, huser⟩ := exists_user authority
  rw [hostOf?] at h
  split at h
  · next hport =>
    obtain ⟨port, hplace, hp⟩ := (isPort_iff _).1 hport
    have hwritten := List.prefix_iff_eq_append.1
      (List.takeWhile_prefix (l := afterUser authority) (· ≠ ':'))
    rw [hplace] at hwritten
    refine ⟨user, _, port, huser.trans (congrArg _ hwritten.symm), fun hc => ?_, fun hc => ?_, hp,
      h⟩
    · exact at_notMem_afterUser authority ((List.takeWhile_prefix _).subset hc)
    · exact absurd (List.mem_takeWhile_imp hc) (by decide)
  · cases h

/-- a URL that has a host is written from parts, with the host in its place -/
theorem exists_parts {url : String} {host : List Char} (h : host? url = some host) :
    ∃ p : Parts, p.text = url ∧ hostText? p.host = some host := by
  obtain ⟨front, rest, rfl, hfront, hv⟩ := front_of_host? h
  rw [host?_ofList hfront hv] at h
  obtain ⟨user, written, port, hauthority, hat, hcolon, hport, hhost⟩ := exists_place h
  have htail : rest.dropWhile isSlash = userText user ++ (written ++ portText port) ++
      (rest.dropWhile isSlash).dropWhile (!endsAuthority ·) := by
    rw [← hauthority, List.takeWhile_append_dropWhile]
  have hrest : rest = rest.takeWhile isSlash ++ (userText user ++ (written ++ portText port) ++
      (rest.dropWhile isSlash).dropWhile (!endsAuthority ·)) := by
    rw [← htail, List.takeWhile_append_dropWhile]
  have hfree : ∀ c ∈ userText user ++ (written ++ portText port), endsAuthority c = false := by
    intro c hc
    rw [← hauthority] at hc
    have hends := List.mem_takeWhile_imp hc
    rwa [Bool.not_eq_true'] at hends
  have hhostFree : ∀ c ∈ written, endsAuthority c = false ∧ c ≠ '@' ∧ c ≠ ':' := by
    intro c hc
    refine ⟨hfree c (List.mem_append_right _ (List.mem_append_left _ hc)), ?_, ?_⟩
    · rintro rfl
      exact hat hc
    · rintro rfl
      exact hcolon hc
  have hsuffix : ∀ c ∈ ((rest.dropWhile isSlash).dropWhile (!endsAuthority ·)).head?,
      endsAuthority c = true := by
    intro c hc
    have hends := head?_dropWhile (!endsAuthority ·) _ c hc
    rwa [Bool.not_eq_false'] at hends
  refine ⟨⟨front, rest.takeWhile isSlash, user, written, port, _, hfront,
    fun c hc => List.mem_takeWhile_imp hc, ?_, hhostFree, hport, hsuffix,
    htail ▸ head?_dropWhile isSlash rest, hrest ▸ hv⟩,
    congrArg (fun cs => String.ofList (front ++ cs)) hrest.symm, hhost⟩
  rintro u rfl c hc
  exact hfree c (List.mem_append_left _ (List.mem_append_left _ hc))

end Federation.Endpoint
