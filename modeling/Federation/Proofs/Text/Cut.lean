import Federation.Proofs.Endpoint.Labels
import Federation.Proofs.Text.Utf8

/-!
# Texts cut at a mark

`Text.cut?` cuts a text where a mark stands first.  A mark whose first character comes once in it
cannot overlap itself, so the place is known as soon as the mark is not found before it.

The same places can be found in the bytes of a text: an ASCII character has one byte, which is part
of no other character, so what stands between two such places is a text again.

* `Text.cut?_eq_some_iff`, `Text.cut?_eq_none_iff`   the two parts, if there are any;
* `Text.exists_last`, `Text.sep_notMem_of_mem_splitAt`
                                                     the last separator, and what is between them;
* `Text.lastPlace?_encodeChars`, `Text.place?_encodeChars`
                                                     the places of both in the bytes.
-/

namespace Federation.Text

/-! ## a text in front -/

theorem stripStart?_eq_some_iff {front cs rest : List Char} :
    stripStart? front cs = some rest ↔ cs = front ++ rest := by
  induction front generalizing cs with
  | nil =>
    rw [stripStart?, Option.some_inj]
    rfl
  | cons f front ih =>
    cases cs with
    | nil => exact ⟨fun h => (nomatch h), fun h => (nomatch h)⟩
    | cons c cs =>
      rw [stripStart?]
      by_cases h : f = c
      · rw [if_pos h, ih, h, List.cons_append, List.cons_inj_right]
      · rw [if_neg h]
        exact ⟨fun h => (nomatch h), fun he => absurd (List.cons.inj he).1.symm h⟩

theorem stripStart?_eq_none_iff {front cs : List Char} :
    stripStart? front cs = none ↔ ¬front <+: cs := by
  rw [Option.eq_none_iff_forall_ne_some]
  constructor
  · rintro h ⟨rest, rfl⟩
    exact h rest (stripStart?_eq_some_iff.2 rfl)
  · rintro h rest hr
    exact h ⟨rest, (stripStart?_eq_some_iff.1 hr).symm⟩

/-! ## marks -/

/-- the first character of the mark comes once in it -/
def IsMark (mark : List Char) : Prop := ∃ c more, mark = c :: more ∧ c ∉ more

section
variable {mark cs before after : List Char}

theorem cut?_of_front {rest : List Char} (h : stripStart? mark cs = some rest) :
    cut? mark cs = some ([], rest) := by
  rw [cut?.eq_def, h]

theorem cut?_cons {c : Char} (h : stripStart? mark (c :: cs) = none) :
    cut? mark (c :: cs) = (cut? mark cs).map fun parts => (c :: parts.1, parts.2) := by
  rw [cut?.eq_def, h]

theorem cut?_of_notMem (hm : IsMark mark) (hb : ¬mark <:+: before) (after : List Char) :
    cut? mark (before ++ mark ++ after) = some (before, after) := by
  induction before with
  | nil =>
    exact cut?_of_front (stripStart?_eq_some_iff.2 rfl)
  | cons b before ih =>
    have hnone : stripStart? mark (b :: (before ++ mark ++ after)) = none := by
      rw [stripStart?_eq_none_iff]
      rintro ⟨rest, h⟩
      obtain ⟨c, more, rfl, hc⟩ := hm
      obtain ⟨rfl, htail⟩ := List.cons.inj h
      rw [List.append_assoc] at htail
      rcases List.append_eq_append_iff.1 htail with ⟨x, rfl, -⟩ | ⟨x, rfl, hx⟩
      · exact hb ⟨[], x, rfl⟩
      · cases x with
        | nil =>
          rw [List.append_nil] at hb
          exact hb (List.infix_refl _)
        | cons d x =>
          obtain ⟨rfl, -⟩ := List.cons.inj hx
          exact hc (List.mem_append_right _ List.mem_cons_self)
    rw [List.cons_append, List.cons_append, cut?_cons hnone, ih fun h => hb (List.infix_cons h)]
    rfl

theorem exists_of_cut? (hm : mark ≠ []) (h : cut? mark cs = some (before, after)) :
    cs = before ++ mark ++ after ∧ ¬mark <:+: before := by
  induction cs generalizing before with
  | nil =>
    cases mark with
    | nil => exact absurd rfl hm
    | cons c more => cases h
  | cons c cs ih =>
    cases hs : stripStart? mark (c :: cs) with
    | some rest =>
      rw [cut?_of_front hs] at h
      cases h
      exact ⟨stripStart?_eq_some_iff.1 hs, fun h => hm (List.infix_nil.1 h)⟩
    | none =>
      rw [cut?_cons hs] at h
      obtain ⟨⟨before', after'⟩, hcut, he⟩ := Option.map_eq_some_iff.1 h
      cases he
      obtain ⟨rfl, hb⟩ := ih hcut
      refine ⟨rfl, fun hi => ?_⟩
      rcases List.infix_cons_iff.1 hi with hp | hi
      · have hfront : mark <+: c :: (before' ++ mark ++ after') :=
          hp.trans ⟨mark ++ after', by rw [List.cons_append, List.append_assoc]⟩
        exact stripStart?_eq_none_iff.1 hs hfront
      · exact hb hi

theorem IsMark.ne_nil (hm : IsMark mark) : mark ≠ [] := by
  obtain ⟨c, more, rfl, -⟩ := hm
  exact List.cons_ne_nil _ _

/-- a text is cut where the mark is not found before -/
theorem cut?_eq_some_iff (hm : IsMark mark) : cut? mark cs = some (before, after) ↔
    cs = before ++ mark ++ after ∧ ¬mark <:+: before := by
  constructor
  · exact exists_of_cut? hm.ne_nil
  · rintro ⟨rfl, hb⟩
    exact cut?_of_notMem hm hb after

theorem cut?_eq_none_iff : cut? mark cs = none ↔ ¬mark <:+: cs := by
  induction cs with
  | nil =>
    rw [cut?.eq_def, List.infix_nil]
    cases mark with
    | nil => exact ⟨fun h => (nomatch h), fun h => absurd rfl h⟩
    | cons c more => exact ⟨fun _ => List.cons_ne_nil _ _, fun _ => rfl⟩
  | cons c cs ih =>
    rw [List.infix_cons_iff, not_or, ← ih, ← stripStart?_eq_none_iff]
    cases hs : stripStart? mark (c :: cs) with
    | some rest =>
      rw [cut?_of_front hs]
      exact ⟨fun h => (nomatch h), fun h => (nomatch h.1)⟩
    | none =>
      rw [cut?_cons hs, Option.map_eq_none_iff]
      exact ⟨fun h => ⟨rfl, h⟩, And.right⟩

theorem prefix_of_prefix_sep {sep : Char} {front back : List Char} (hs : sep ∉ mark)
    (h : mark <+: front ++ sep :: back) : mark <+: front := by
  obtain ⟨y, h⟩ := h
  rcases List.append_eq_append_iff.1 h with ⟨z, rfl, -⟩ | ⟨z, rfl, hz⟩
  · exact ⟨z, rfl⟩
  · cases z with
    | nil => exact ⟨[], by rw [List.append_nil, List.append_nil]⟩
    | cons d z =>
      obtain ⟨rfl, -⟩ := List.cons.inj hz
      exact absurd (List.mem_append_right _ List.mem_cons_self) hs

theorem infix_of_infix_sep {sep : Char} {front back : List Char} (hs : sep ∉ mark)
    (h : mark <:+: front ++ sep :: back) : mark <:+: front ∨ mark <:+: back := by
  induction front with
  | nil =>
    rcases List.infix_cons_iff.1 h with hp | hi
    · have hp : mark <+: [] ++ sep :: back := hp
      exact .inl (prefix_of_prefix_sep hs hp).isInfix
    · exact .inr hi
  | cons c front ih =>
    rcases List.infix_cons_iff.1 h with hp | hi
    · have hp : mark <+: (c :: front) ++ sep :: back := hp
      exact .inl (prefix_of_prefix_sep hs hp).isInfix
    · exact (ih hi).imp_left List.infix_cons

end

/-! ## separators -/

theorem exists_last {sep : Char} {cs : List Char} (h : sep ∈ cs) :
    ∃ front back, cs = front ++ sep :: back ∧ sep ∉ back := by
  obtain ⟨front, back, hcs, hf⟩ := List.eq_append_cons_of_mem (List.mem_reverse.2 h)
  refine ⟨back.reverse, front.reverse, ?_, fun hm => hf (List.mem_reverse.1 hm)⟩
  have hr := congrArg List.reverse hcs
  rwa [List.reverse_reverse, List.reverse_append, List.reverse_cons, List.append_assoc,
    List.singleton_append] at hr

theorem sep_notMem_of_mem_splitAt {sep : Char} {cs piece : List Char}
    (h : piece ∈ splitAt sep cs) : sep ∉ piece := by
  induction cs generalizing piece with
  | nil =>
    rw [splitAt_nil, List.mem_singleton] at h
    rw [h]
    exact List.not_mem_nil
  | cons c cs ih =>
    rw [splitAt] at h
    split at h
    · rcases List.mem_cons.1 h with rfl | h
      · exact List.not_mem_nil
      · exact ih h
    · next hc =>
      split at h
      · next hnil => exact absurd hnil (splitAt_ne_nil sep cs)
      · next first rest hrest =>
        rw [hrest] at ih
        rcases List.mem_cons.1 h with rfl | h
        · rw [List.mem_cons, not_or]
          exact ⟨fun he => hc he.symm, ih List.mem_cons_self⟩
        · exact ih (List.mem_cons_of_mem _ h)

theorem getLast?_splitAt {sep : Char} {back : List Char} (h : sep ∉ back) (front : List Char) :
    (splitAt sep (front ++ sep :: back)).getLast? = some back := by
  rw [splitAt_append, splitAt_of_free h, List.getLast?_concat]

/-! ## places in the bytes of a text -/

/-- the last place of the byte `b` -/
def lastPlace? (b : UInt8) : Bytes → Option Nat
  | [] => none
  | c :: bs => match lastPlace? b bs with
    | some i => some (i + 1)
    | none => if c = b then some 0 else none

/-- the first place where the bytes `mark` stand -/
def place? (mark : Bytes) : Bytes → Option Nat
  | [] => if mark = [] then some 0 else none
  | b :: bs => if mark.isPrefixOf (b :: bs) then some 0 else (place? mark bs).map (· + 1)

/-- the text from the byte `start` up to the byte `stop`; none if they come the other way round, or
if what is between them is no text -/
def slice? (bs : Bytes) (start stop : Nat) : Option String :=
  if start ≤ stop then Utf8.decode? ((bs.take stop).drop start) else none

theorem lastPlace?_of_notMem {b : UInt8} {bs : Bytes} (h : b ∉ bs) : lastPlace? b bs = none := by
  induction bs with
  | nil => rfl
  | cons c bs ih =>
    rw [List.mem_cons, not_or] at h
    rw [lastPlace?, ih h.2]
    exact if_neg fun he => h.1 he.symm

theorem lastPlace?_append {b : UInt8} {back : Bytes} (h : b ∉ back) (front : Bytes) :
    lastPlace? b (front ++ b :: back) = some front.length := by
  induction front with
  | nil =>
    rw [List.nil_append, lastPlace?, lastPlace?_of_notMem h]
    exact if_pos rfl
  | cons c front ih => rw [List.cons_append, lastPlace?, ih, List.length_cons]

theorem place?_of_front {mark bs : Bytes} (h : mark <+: bs) : place? mark bs = some 0 := by
  cases bs with
  | nil =>
    rw [List.prefix_nil.1 h]
    rfl
  | cons b bs => exact if_pos (List.isPrefixOf_iff_prefix.2 h)

theorem place?_append {b : UInt8} {more front : Bytes} (h : b ∉ front) (bs : Bytes) :
    place? (b :: more) (front ++ bs) = (place? (b :: more) bs).map (· + front.length) := by
  induction front with
  | nil => exact Option.map_id'.symm
  | cons c front ih =>
    rw [List.mem_cons, not_or] at h
    have hne : ¬(b :: more).isPrefixOf (c :: (front ++ bs)) = true := by
      rw [List.isPrefixOf_iff_prefix, List.cons_prefix_cons]
      exact fun hp => h.1 hp.1
    rw [List.cons_append, place?, if_neg hne, ih h.2, Option.map_map, List.length_cons]
    rfl

section
variable {sep : Char} {mark cs : List Char}

theorem mem_encodeChars_iff (hs : sep.toNat ≤ 0x7F) :
    UInt8.ofNat sep.toNat ∈ Utf8.encodeChars cs ↔ sep ∈ cs := by
  induction cs with
  | nil => exact ⟨fun h => absurd h List.not_mem_nil, fun h => absurd h List.not_mem_nil⟩
  | cons c cs ih =>
    rw [Utf8.encodeChars_cons, List.mem_append, ih, List.mem_cons]
    refine or_congr_left ⟨fun h => ?_, ?_⟩
    · by_cases hc : c.toNat ≤ 0x7F
      · rw [Utf8.encodeChar_of_ascii hc, List.mem_singleton] at h
        have hnat := congrArg UInt8.toNat h
        rw [Utf8.toNat_ofNat (by omega), Utf8.toNat_ofNat (by omega)] at hnat
        rw [← Char.ofNat_toNat sep, hnat, Char.ofNat_toNat]
      · have hle := Utf8.le_of_mem_encodeChar (Nat.lt_of_not_le hc) h
        rw [Utf8.toNat_ofNat (by omega)] at hle
        omega
    · rintro rfl
      rw [Utf8.encodeChar_of_ascii hs]
      exact List.mem_singleton_self _

theorem pieces_encodeChars_append (cs : List Char) (rest : Bytes) :
    Utf8.pieces (Utf8.encodeChars cs ++ rest) = cs.map some ++ Utf8.pieces rest := by
  induction cs with
  | nil => rfl
  | cons c cs ih =>
    rw [Utf8.encodeChars_cons, List.append_assoc, Utf8.pieces_encodeChar, ih]
    rfl

theorem prefix_encodeChars_iff : Utf8.encodeChars mark <+: Utf8.encodeChars cs ↔ mark <+: cs := by
  constructor
  · rintro ⟨rest, h⟩
    have hpieces := congrArg Utf8.pieces h
    rw [pieces_encodeChars_append, Utf8.pieces_encodeChars] at hpieces
    exact (List.prefix_map_iff_of_injective fun _ _ => Option.some.inj).1 ⟨_, hpieces⟩
  · rintro ⟨rest, rfl⟩
    exact ⟨_, (Utf8.encodeChars_append mark rest).symm⟩

theorem lastPlace?_encodeChars {front back : List Char} (hs : sep.toNat ≤ 0x7F)
    (hb : sep ∉ back) : lastPlace? (UInt8.ofNat sep.toNat) (Utf8.encodeChars (front ++ sep :: back))
      = some (Utf8.encodeChars front).length := by
  rw [Utf8.encodeChars_append, Utf8.encodeChars_cons, Utf8.encodeChar_of_ascii hs]
  exact lastPlace?_append (mt (mem_encodeChars_iff hs).1 hb) _

theorem exists_encodeChar (c : Char) : ∃ b bs, String.utf8EncodeChar c = b :: bs ∧
    ∀ d : Char, d.toNat ≤ 0x7F → UInt8.ofNat d.toNat ∉ bs := by
  by_cases hc : c.toNat ≤ 0x7F
  · exact ⟨_, [], Utf8.encodeChar_of_ascii hc, fun _ _ => List.not_mem_nil⟩
  · have hle := fun b => Utf8.le_of_mem_encodeChar (b := b) (Nat.lt_of_not_le hc)
    cases h : String.utf8EncodeChar c with
    | nil => exact absurd h (String.utf8EncodeChar_ne_nil)
    | cons b bs =>
      refine ⟨b, bs, rfl, fun d hd hm => ?_⟩
      have hd' := hle _ (h ▸ List.mem_cons_of_mem b hm)
      rw [Utf8.toNat_ofNat (by omega)] at hd'
      omega

/-- a text is cut at the same place as its bytes -/
theorem place?_encodeChars {c : Char} {more : List Char} (hc : c.toNat ≤ 0x7F) (cs : List Char) :
    place? (Utf8.encodeChars (c :: more)) (Utf8.encodeChars cs)
      = (cut? (c :: more) cs).map fun parts => (Utf8.encodeChars parts.1).length := by
  have hmark : Utf8.encodeChars (c :: more) = UInt8.ofNat c.toNat :: Utf8.encodeChars more := by
    rw [Utf8.encodeChars_cons, Utf8.encodeChar_of_ascii hc]
    rfl
  induction cs with
  | nil =>
    rw [hmark]
    rfl
  | cons d cs ih =>
    cases hs : stripStart? (c :: more) (d :: cs) with
    | some rest =>
      rw [cut?_of_front hs, place?_of_front
        (prefix_encodeChars_iff.2 ⟨rest, (stripStart?_eq_some_iff.1 hs).symm⟩)]
      rfl
    | none =>
      obtain ⟨b, bs, hd, hbs⟩ := exists_encodeChar d
      have htext : Utf8.encodeChars (d :: cs) = b :: (bs ++ Utf8.encodeChars cs) := by
        rw [Utf8.encodeChars_cons, hd, List.cons_append]
      have hne := mt prefix_encodeChars_iff.1 (stripStart?_eq_none_iff.1 hs)
      rw [htext, ← List.isPrefixOf_iff_prefix] at hne
      rw [cut?_cons hs, htext, place?, if_neg hne, hmark, place?_append (hbs c hc), ← hmark, ih]
      cases cut? (c :: more) cs with
      | none => rfl
      | some parts =>
        have hlen : (Utf8.encodeChars (d :: parts.1)).length
            = (Utf8.encodeChars parts.1).length + bs.length + 1 := by
          rw [Utf8.encodeChars_cons, hd, List.length_append, List.length_cons]
          omega
        exact congrArg some hlen.symm

end

end Federation.Text
