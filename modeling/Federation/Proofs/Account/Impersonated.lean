import Federation.Proofs.Refresh.Discipline
import Federation.Proofs.Text.Cut
import Federation.Proofs.Traffic.Lookups

/-!
# The account that is impersonated

The address of an impersonation ends with the account, in front of a mark and behind the last slash.
The boundary that goes with the tokens is looked up for this account; where the address names none,
it is looked up for the pool that the audience names.

* `Configuration.parts_accountIn?`        where the slashes and the mark of an address can be;
* `Configuration.accountIn?_eq_some_iff`, `Configuration.accountIn?_eq_none_iff`
                                          the addresses that name an account, and the others;
* `Configuration.accountIn?_eq_sliced?`   the account is cut out of the bytes of the address;
* `Account.lookupUrl?_of_email`, `Account.lookupUrl?_of_pool`
                                          where the boundary is;
* `Account.impersonated_is_looked_up`     all of it, with the lookups of a refresh.
-/

namespace Federation

namespace Configuration

theorem isMark_accountMark : Text.IsMark accountMark := ⟨':', _, rfl, by decide⟩
theorem slash_notMem_accountMark : '/' ∉ accountMark := by decide

/-! ## the account in an address -/

/-- the address names the account between its last slash and its first mark -/
def Names (url email : String) : Prop := ∃ front back : String,
  url = front ++ "/" ++ email ++ ":generateAccessToken" ++ back ∧
    '/' ∉ email.toList ∧ '/' ∉ back.toList ∧
    ¬accountMark <:+: front.toList ∧ ¬accountMark <:+: email.toList

/-- where the slashes and the first mark of an address are, and what it names -/
inductive Parts (cs : List Char) : Option String → Prop where
  | unmarked (h : ¬accountMark <:+: cs) : Parts cs none
  | slashless (h : '/' ∉ cs) : Parts cs none
  | early {before after : List Char} (h : cs = before ++ accountMark ++ after)
      (hb : ¬accountMark <:+: before) (hs : '/' ∈ after) : Parts cs none
  | named {front email back : List Char} (h : cs = front ++ '/' :: email ++ accountMark ++ back)
      (hb : ¬accountMark <:+: front ++ '/' :: email) (he : '/' ∉ email) (hs : '/' ∉ back) :
      Parts cs (some (String.ofList email))

theorem accountIn?_of_cut {url : String} {before after : List Char}
    (h : Text.cut? accountMark url.toList = some (before, after)) :
    accountIn? url = if '/' ∈ after ∨ '/' ∉ before then none
      else (Text.splitAt '/' before).getLast?.map String.ofList := by
  rw [accountIn?, h]
  simp only [List.contains_eq_mem, Bool.or_eq_true, Bool.not_eq_true', decide_eq_true_eq,
    decide_eq_false_iff_not]

theorem parts_accountIn? (url : String) : Parts url.toList (accountIn? url) := by
  cases hcut : Text.cut? accountMark url.toList with
  | none =>
    rw [accountIn?, hcut]
    exact .unmarked (Text.cut?_eq_none_iff.1 hcut)
  | some parts =>
    obtain ⟨before, after⟩ := parts
    obtain ⟨hurl, hb⟩ := (Text.cut?_eq_some_iff isMark_accountMark).1 hcut
    rw [accountIn?_of_cut hcut]
    by_cases ha : '/' ∈ after
    · rw [if_pos (.inl ha)]
      exact .early hurl hb ha
    by_cases hs : '/' ∈ before
    · obtain ⟨front, email, rfl, he⟩ := Text.exists_last hs
      rw [if_neg (not_or.2 ⟨ha, not_not.2 hs⟩), Text.getLast?_splitAt he]
      exact .named hurl hb he ha
    · rw [if_pos (.inr hs)]
      refine .slashless ?_
      rw [hurl]
      simp only [List.mem_append, not_or]
      exact ⟨⟨hs, slash_notMem_accountMark⟩, ha⟩

theorem accountIn?_of_names {url email : String} (h : Names url email) :
    accountIn? url = some email := by
  obtain ⟨front, back, rfl, he, hs, hf, hm⟩ := h
  have hb : ¬accountMark <:+: front.toList ++ '/' :: email.toList := fun hi =>
    (Text.infix_of_infix_sep slash_notMem_accountMark hi).elim hf hm
  have hcut : Text.cut? accountMark
      (front ++ "/" ++ email ++ ":generateAccessToken" ++ back).toList
      = some (front.toList ++ '/' :: email.toList, back.toList) := by
    refine (Text.cut?_eq_some_iff isMark_accountMark).2 ⟨?_, hb⟩
    simp only [String.toList_append, List.append_assoc]
    rfl
  have hslash : '/' ∈ front.toList ++ '/' :: email.toList :=
    List.mem_append_right _ List.mem_cons_self
  rw [accountIn?_of_cut hcut, if_neg (not_or.2 ⟨hs, not_not.2 hslash⟩), Text.getLast?_splitAt he,
    Option.map_some, String.ofList_toList]

theorem accountIn?_eq_some_iff {url email : String} :
    accountIn? url = some email ↔ Names url email := by
  refine ⟨fun h => ?_, accountIn?_of_names⟩
  have hp := parts_accountIn? url
  rw [h] at hp
  cases hp with
  | @named front email back hurl hb he hs =>
    refine ⟨String.ofList front, String.ofList back, ?_, ?_, ?_, ?_, ?_⟩
    · rw [← String.toList_inj, hurl]
      simp only [String.toList_append, String.toList_ofList, List.append_assoc]
      rfl
    · rwa [String.toList_ofList]
    · rwa [String.toList_ofList]
    · rw [String.toList_ofList]
      exact fun hi => hb (hi.trans (List.prefix_append front _).isInfix)
    · rw [String.toList_ofList]
      exact fun hi => hb ((List.infix_cons hi).trans (List.suffix_append front _).isInfix)

/-- an address names no account if it has no slash or no mark, or a slash behind the first mark -/
theorem accountIn?_eq_none_iff {url : String} : accountIn? url = none ↔
    '/' ∉ url.toList ∨ ¬accountMark <:+: url.toList ∨ ∃ before after,
      url.toList = before ++ accountMark ++ after ∧ ¬accountMark <:+: before ∧ '/' ∈ after := by
  constructor
  · intro h
    have hp := parts_accountIn? url
    rw [h] at hp
    cases hp with
    | slashless h => exact .inl h
    | unmarked h => exact .inr (.inl h)
    | early h hb hs => exact .inr (.inr ⟨_, _, h, hb, hs⟩)
  · rintro (h | h | ⟨before, after, h, hb, hs⟩)
    · rw [Option.eq_none_iff_forall_ne_some]
      intro email he
      obtain ⟨front, back, rfl, -⟩ := accountIn?_eq_some_iff.1 he
      apply h
      simp only [String.toList_append, List.mem_append]
      exact .inl (.inl (.inl (.inr List.mem_cons_self)))
    · rw [accountIn?, Text.cut?_eq_none_iff.2 h]
    · rw [accountIn?_of_cut ((Text.cut?_eq_some_iff isMark_accountMark).2 ⟨h, hb⟩), if_pos (.inl hs)]

/-! ## the bytes of an address -/

/-- what stands in the bytes of an address between the last slash and the first mark -/
def sliced? (url : Bytes) : Option String := do
  let start ← Text.lastPlace? (UInt8.ofNat '/'.toNat) url
  let stop ← Text.place? (Utf8.encodeChars accountMark) url
  Text.slice? url (start + 1) stop

theorem place?_accountMark (cs : List Char) :
    Text.place? (Utf8.encodeChars accountMark) (Utf8.encodeChars cs)
      = (Text.cut? accountMark cs).map fun parts => (Utf8.encodeChars parts.1).length :=
  Text.place?_encodeChars (by decide) cs

theorem lastPlace?_slash {front back : List Char} (h : '/' ∉ back) :
    Text.lastPlace? (UInt8.ofNat '/'.toNat) (Utf8.encodeChars (front ++ '/' :: back))
      = some (Utf8.encodeChars front).length :=
  Text.lastPlace?_encodeChars (by decide) h

theorem slice?_encodeChars (front : List Char) (c : Char) (email back : List Char)
    (hc : c.toNat ≤ 0x7F) :
    Text.slice? (Utf8.encodeChars (front ++ c :: email ++ back))
        ((Utf8.encodeChars front).length + 1) (Utf8.encodeChars (front ++ c :: email)).length
      = some (String.ofList email) := by
  have hlen : (Utf8.encodeChars (front ++ [c])).length = (Utf8.encodeChars front).length + 1 := by
    rw [Utf8.encodeChars_append, List.length_append, Utf8.encodeChars_cons,
      Utf8.encodeChar_of_ascii hc]
    rfl
  have hsplit : Utf8.encodeChars (front ++ c :: email)
      = Utf8.encodeChars (front ++ [c]) ++ Utf8.encodeChars email := by
    rw [← Utf8.encodeChars_append, List.append_assoc, List.singleton_append]
  rw [Text.slice?, if_pos, Utf8.encodeChars_append (front ++ c :: email), List.take_left, hsplit,
    ← hlen, List.drop_left, ← Utf8.encode_ofList, Utf8.decode?_encode]
  rw [hsplit, List.length_append, hlen]
  omega

theorem slice?_of_reversed {bs : Bytes} {before between : List Char} :
    Text.slice? bs ((Utf8.encodeChars (before ++ between)).length + 1)
      (Utf8.encodeChars before).length = none := by
  rw [Text.slice?, if_neg]
  rw [Utf8.encodeChars_append, List.length_append]
  omega

/-- the account of an address is cut out of its bytes, and no cut goes through a character -/
theorem accountIn?_eq_sliced? (url : String) : accountIn? url = sliced? (Utf8.encode url) := by
  have hp := parts_accountIn? url
  rw [sliced?, Utf8.encode_eq, place?_accountMark]
  generalize accountIn? url = account at hp
  cases hp with
  | unmarked h =>
    rw [Text.cut?_eq_none_iff.2 h]
    exact (Option.bind_fun_none _).symm
  | slashless h =>
    rw [Text.lastPlace?_of_notMem (mt (Text.mem_encodeChars_iff (by decide)).1 h)]
    rfl
  | @early before after h hb hs =>
    obtain ⟨between, rest, rfl, hr⟩ := Text.exists_last hs
    rw [(Text.cut?_eq_some_iff isMark_accountMark).2 ⟨h, hb⟩, h, ← List.append_assoc,
      lastPlace?_slash hr, List.append_assoc before]
    exact slice?_of_reversed.symm
  | @named front email back h hb he hs =>
    have hfree : '/' ∉ email ++ accountMark ++ back := by
      simp only [List.mem_append, not_or]
      exact ⟨⟨he, slash_notMem_accountMark⟩, hs⟩
    have hlast : url.toList = front ++ '/' :: (email ++ accountMark ++ back) := by
      rw [h]
      simp only [List.append_assoc, List.cons_append]
    have hslice := slice?_encodeChars front '/' email (accountMark ++ back) (by decide)
    rw [← List.append_assoc, ← h] at hslice
    rw [(Text.cut?_eq_some_iff isMark_accountMark).2 ⟨h, hb⟩, Option.map_some, hlast,
      lastPlace?_slash hfree, ← hlast]
    exact hslice.symm

end Configuration

/-! ## the boundary of the account -/

namespace Account

theorem lookupUrl?_of_email {a : Account} {email : String}
    (h : a.configuration.email? = some email) :
    a.lookupUrl? = some ("https://iamcredentials." ++ a.configuration.domain
      ++ "/v1/projects/-/serviceAccounts/" ++ email ++ "/allowedLocations") := by
  have hpath : "/v1/" ++ "projects/-/serviceAccounts/" = "/v1/projects/-/serviceAccounts/" := rfl
  rw [lookupUrl?, h, ← hpath, ← String.append_assoc]
  rfl

theorem lookupUrl?_of_pool {a : Account} (h : a.configuration.email? = none) :
    a.lookupUrl? = (Boundary.Pool.ofAudience? a.configuration.audience).map
      (Boundary.Pool.url a.configuration.domain) := by
  rw [lookupUrl?, h]

/-- the account of an impersonation is named by its address or is not there, and the lookups of a
refresh go to this account, or to the pool of the audience if there is none -/
theorem impersonated_is_looked_up :
    (∀ url email, Configuration.accountIn? url = some email ↔ Configuration.Names url email) ∧
    (∀ url email email', Configuration.Names url email → Configuration.Names url email' →
      email = email') ∧
    (∀ url, Configuration.accountIn? url = none ↔
      '/' ∉ url.toList ∨ ¬Configuration.accountMark <:+: url.toList ∨ ∃ before after,
        url.toList = before ++ Configuration.accountMark ++ after ∧
          ¬Configuration.accountMark <:+: before ∧ '/' ∈ after) ∧
    (∀ url, Configuration.accountIn? url = Configuration.sliced? (Utf8.encode url)) ∧
    (∀ (a : Account) url email, a.configuration.impersonationUrl = some url →
      Configuration.Names url email →
      a.lookupUrl? = some ("https://iamcredentials." ++ a.configuration.domain
        ++ "/v1/projects/-/serviceAccounts/" ++ email ++ "/allowedLocations")) ∧
    (∀ a : Account,
      (∀ url email, a.configuration.impersonationUrl = some url →
        ¬Configuration.Names url email) →
      a.lookupUrl? = (Boundary.Pool.ofAudience? a.configuration.audience).map
        (Boundary.Pool.url a.configuration.domain)) ∧
    (∀ (a : Account) (l : List Sent) x, Course a l x → ∀ s ∈ l, s.hop = .lookup →
      a.lookupUrl? = some s.request.url) := by
  refine ⟨fun _ _ => Configuration.accountIn?_eq_some_iff, ?_,
    fun _ => Configuration.accountIn?_eq_none_iff, Configuration.accountIn?_eq_sliced?, ?_, ?_, ?_⟩
  · intro url email email' h h'
    exact Option.some.inj ((Configuration.accountIn?_of_names h).symm.trans
      (Configuration.accountIn?_of_names h'))
  · intro a url email hu h
    refine lookupUrl?_of_email ?_
    rw [Configuration.email?, hu]
    exact Configuration.accountIn?_of_names h
  · intro a h
    refine lookupUrl?_of_pool (Option.bind_eq_none_iff.2 fun url hu => ?_)
    rw [Option.eq_none_iff_forall_ne_some]
    exact fun email he => h url email hu (Configuration.accountIn?_eq_some_iff.1 he)
  · intro a l x hc s hs hop
    exact (lookup?_eq_some_iff.1 ((hc.orderly.aimed s hs).lookup hop).2.2).2.2

end Account

end Federation
