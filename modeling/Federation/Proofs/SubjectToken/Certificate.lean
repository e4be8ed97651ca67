import Mathlib.Data.List.Induction
import Federation.Proofs.Encoding.Base64
import Federation.Proofs.Json.Order
import Federation.Proofs.Json.Readback
import Federation.SubjectToken.Retrieval

/-!
# The chain in a certificate token

The certificates of a trust chain file are taken one after another, and the first that offends ends
the reading: one without a key, or one behind the first with the key of the leaf.  If none offends,
the token lists the leaf and behind it all the others in their order, with the leaf itself left out
if the file starts with it.

* `CertificateChain.lists_token`         a token gives back its certificates;
* `CertificateChain.behindLeaf_offence`  the first offence is the error;
* `CertificateChain.behindLeaf_clean`    without one, nothing but the leaf is left out;
* `Source.certificate_token_is_chain`    the token of a source in any world.
-/

namespace Federation

theorem ok_of_toOption {ε α : Type} {x : Except ε α} {a : α} (h : x.toOption = some a) :
    x = .ok a := by
  cases x with
  | error e => cases h
  | ok b =>
    cases h
    rfl

namespace CertificateChain

/-! ## tokens -/

/-- the token is an array of strings, which are the certificates in base64 -/
def Lists (token : String) (certs : List Bytes) : Prop :=
  ∃ items : List String, Json.parse (Utf8.encode token) = .ok (.strings items) ∧
    items.map (fun item => Base64.decode (Utf8.encode item)) = certs.map .ok

theorem lists_token (certs : List Bytes) : Lists (token certs) certs := by
  refine ⟨certs.map Base64.encode, Json.parse_spacedStrings _, ?_⟩
  rw [List.map_map]
  exact List.map_congr_left fun cert _ => Base64.decode_encode cert

/-! ## chains -/

/-- what is wrong with the certificate at the place `i` of a chain -/
def offence? (leafKey : Bytes) (i : Nat) (cert : Bytes) : Option Failure :=
  match X509.publicKey? cert with
  | none => some .keyUnreadable
  | some key => if key = leafKey ∧ i ≠ 0 then some .leafNotFirst else none

def Clean (leafKey : Bytes) (certs : List Bytes) : Prop :=
  ∀ i cert, certs[i]? = some cert → offence? leafKey i cert = none

/-- the certificates without a leaf at the start -/
def withoutLeaf (leafKey : Bytes) : List Bytes → List Bytes
  | [] => []
  | cert :: certs => if X509.publicKey? cert = some leafKey then certs else cert :: certs

variable {leafKey : Bytes} {cert : Bytes} {certs before after : List Bytes} {f : Failure}

theorem offence?_succ (leafKey : Bytes) (i : Nat) (cert : Bytes) :
    offence? leafKey (i + 1) cert = offence? leafKey 1 cert := by
  rw [offence?, offence?]
  simp

theorem clean_nil : Clean leafKey [] := by
  intro i cert h
  cases h

theorem clean_cons : Clean leafKey (cert :: certs) ↔
    offence? leafKey 0 cert = none ∧ ∀ d ∈ certs, offence? leafKey 1 d = none := by
  constructor
  · intro h
    refine ⟨h 0 cert rfl, fun d hd => ?_⟩
    obtain ⟨i, hi⟩ := List.getElem?_of_mem hd
    rw [← offence?_succ leafKey i d]
    exact h (i + 1) d hi
  · rintro ⟨h, hmore⟩ i d hd
    cases i with
    | zero =>
      cases hd
      exact h
    | succ i =>
      rw [offence?_succ]
      exact hmore d (List.mem_of_getElem? hd)

theorem key_ne_of_clean (h : offence? leafKey 1 cert = none) :
    X509.publicKey? cert ≠ some leafKey := by
  intro hkey
  rw [offence?, hkey] at h
  simp at h

theorem behindLeaf_cons (leafKey : Bytes) (first : Bool) (cert : Bytes) (certs : List Bytes) :
    behindLeaf leafKey first (cert :: certs) =
      match offence? leafKey (if first then 0 else 1) cert with
      | some f => .error f
      | none => (behindLeaf leafKey false certs).map fun more =>
        if X509.publicKey? cert = some leafKey then more else cert :: more := by
  rw [behindLeaf, keyOf, offence?]
  cases X509.publicKey? cert with
  | none => rfl
  | some key =>
    show (if key = leafKey then if first then _ else _ else _ >>= _) = _
    by_cases hk : key = leafKey
    · cases first
      · simp only [hk, ↓reduceIte, Bool.false_eq_true, ne_eq, Nat.succ_ne_self, not_false_eq_true,
          and_self]
        rfl
      · simp only [hk, ↓reduceIte, ne_eq, not_true_eq_false, and_false]
        cases behindLeaf leafKey false certs <;> rfl
    · simp only [hk, ↓reduceIte, false_and, Option.some.injEq]
      cases behindLeaf leafKey false certs <;> rfl

theorem behindLeaf_false_clean (h : ∀ d ∈ certs, offence? leafKey 1 d = none) :
    behindLeaf leafKey false certs = .ok certs := by
  induction certs with
  | nil => rfl
  | cons cert certs ih =>
    obtain ⟨hcert, hcerts⟩ := List.forall_mem_cons.1 h
    have hstep : (if false = true then 0 else 1) = 1 := rfl
    rw [behindLeaf_cons, hstep, hcert, ih hcerts]
    show Except.ok (if _ then _ else _) = _
    rw [if_neg (key_ne_of_clean hcert)]

theorem behindLeaf_false_offence (h : ∀ d ∈ before, offence? leafKey 1 d = none)
    (hcert : offence? leafKey 1 cert = some f) :
    behindLeaf leafKey false (before ++ cert :: after) = .error f := by
  have hstep : (if false = true then 0 else 1) = 1 := rfl
  induction before with
  | nil => rw [List.nil_append, behindLeaf_cons, hstep, hcert]
  | cons d before ih =>
    obtain ⟨hd, hbefore⟩ := List.forall_mem_cons.1 h
    rw [List.cons_append, behindLeaf_cons, hstep, hd, ih hbefore]
    rfl

theorem behindLeaf_clean (h : Clean leafKey certs) :
    behindLeaf leafKey true certs = .ok (withoutLeaf leafKey certs) := by
  cases certs with
  | nil => rfl
  | cons cert certs =>
    obtain ⟨hcert, hcerts⟩ := clean_cons.1 h
    have hstep : (if true = true then 0 else 1) = 0 := rfl
    rw [behindLeaf_cons, hstep, hcert, behindLeaf_false_clean hcerts]
    rfl

theorem behindLeaf_offence (h : Clean leafKey before)
    (hcert : offence? leafKey before.length cert = some f) :
    behindLeaf leafKey true (before ++ cert :: after) = .error f := by
  have hstep : (if true = true then 0 else 1) = 0 := rfl
  cases before with
  | nil =>
    rw [List.nil_append, behindLeaf_cons, hstep]
    rw [List.length_nil] at hcert
    rw [hcert]
  | cons d before =>
    obtain ⟨hd, hbefore⟩ := clean_cons.1 h
    rw [List.length_cons, offence?_succ] at hcert
    rw [List.cons_append, behindLeaf_cons, hstep, hd, behindLeaf_false_offence hbefore hcert]
    rfl

theorem clean_append_singleton (h : Clean leafKey certs)
    (hcert : offence? leafKey certs.length cert = none) : Clean leafKey (certs ++ [cert]) := by
  intro i d hd
  by_cases hi : i < certs.length
  · rw [List.getElem?_append_left hi] at hd
    exact h i d hd
  · obtain ⟨hlt, hget⟩ := List.getElem?_eq_some_iff.1 hd
    rw [List.length_append, List.length_singleton] at hlt
    obtain rfl : i = certs.length := by omega
    rw [List.getElem?_concat_length] at hd
    cases hd
    exact hcert

theorem clean_or_offence (leafKey : Bytes) (certs : List Bytes) : Clean leafKey certs ∨
    ∃ before cert after f, certs = before ++ cert :: after ∧ Clean leafKey before ∧
      offence? leafKey before.length cert = some f := by
  induction certs using List.reverseRecOn with
  | nil => exact .inl clean_nil
  | append_singleton certs d ih =>
    obtain hclean | ⟨before, cert, after, f, rfl, hbefore, hcert⟩ := ih
    · cases hd : offence? leafKey certs.length d with
      | none => exact .inl (clean_append_singleton hclean hd)
      | some f => exact .inr ⟨certs, d, [], f, rfl, hclean, hd⟩
    · refine .inr ⟨before, cert, after ++ [d], f, ?_, hbefore, hcert⟩
      rw [List.append_assoc, List.cons_append]

theorem offence?_of_isSome (h : (X509.publicKey? cert).isSome) (i : Nat) :
    offence? leafKey i cert =
      if X509.publicKey? cert = some leafKey ∧ i ≠ 0 then some .leafNotFirst else none := by
  obtain ⟨key, hkey⟩ := Option.isSome_iff_exists.1 h
  rw [offence?, hkey]
  simp

theorem not_mem_withoutLeaf (h : ∀ c ∈ certs, X509.publicKey? c ≠ some leafKey) :
    ∀ c ∈ withoutLeaf leafKey (cert :: certs), X509.publicKey? c ≠ some leafKey := by
  rw [withoutLeaf]
  split
  · exact h
  · next hcert => exact List.forall_mem_cons.2 ⟨hcert, h⟩

theorem behindLeaf_of_isSome (hkeys : ∀ c ∈ cert :: certs, (X509.publicKey? c).isSome) :
    behindLeaf leafKey true (cert :: certs) =
      if ∃ c ∈ certs, X509.publicKey? c = some leafKey then .error .leafNotFirst
      else .ok (withoutLeaf leafKey (cert :: certs)) := by
  obtain hclean | ⟨before, c, after, f, he, hbefore, hc⟩ := clean_or_offence leafKey (cert :: certs)
  · have hnone : ¬∃ c ∈ certs, X509.publicKey? c = some leafKey := by
      rintro ⟨c, hc, hkey⟩
      exact key_ne_of_clean ((clean_cons.1 hclean).2 c hc) hkey
    rw [if_neg hnone, behindLeaf_clean hclean]
  · have hmem : c ∈ before ++ c :: after := List.mem_append_right _ List.mem_cons_self
    rw [offence?_of_isSome (hkeys c (he ▸ hmem))] at hc
    split at hc
    · next h =>
      obtain ⟨hkey, hplace⟩ := h
      cases before with
      | nil => exact absurd rfl hplace
      | cons d before =>
        have hoffence : offence? leafKey (d :: before).length c = some .leafNotFirst := by
          rw [offence?_of_isSome (hkeys c (he ▸ hmem)), if_pos ⟨hkey, hplace⟩]
        rw [List.cons_append, List.cons.injEq] at he
        obtain ⟨rfl, rfl⟩ := he
        have hsome : ∃ d ∈ before ++ c :: after, X509.publicKey? d = some leafKey :=
          ⟨c, List.mem_append_right _ List.mem_cons_self, hkey⟩
        rw [if_pos hsome]
        exact behindLeaf_offence hbefore hoffence
    · cases hc

/-! ## files -/

variable {w : World} {path : String} {leaf : Bytes}

/-- the certificate file of a source starts with the certificate `leaf` -/
def LeafIs (w : World) (location : CertificateLocation) (resolver : CertificateResolver)
    (leaf : Bytes) : Prop :=
  ∃ paths file, (resolver.paths location).run w = (.ok paths, w) ∧
    Files.read w.files paths.certificate = .ok file ∧
    (Pem.certificates file).head? = some (.ok leaf)

/-- a trust chain file holds these certificates -/
def ChainIs (w : World) (path : String) (certs : List Bytes) : Prop :=
  ∃ file, Files.read w.files path = .ok file ∧ Pem.all file = .ok certs

theorem head?_of_all {file : Bytes} (h : Pem.all file = .ok (cert :: certs)) :
    (Pem.certificates file).head? = some (.ok cert) := by
  rw [Pem.all] at h
  rcases hc : Pem.certificates file with _ | ⟨first, more⟩
  · rw [hc] at h
    cases h
  · rw [hc, List.mapM_cons] at h
    cases first with
    | error fault => cases h
    | ok der =>
      obtain ⟨_, hid, hmore⟩ := ok_of_bind h
      obtain ⟨_, _, he⟩ := ok_of_bind hmore
      cases hid
      cases he
      rfl

theorem run_readLeaf {file : Bytes} (hfile : Files.read w.files path = .ok file)
    (hleaf : (Pem.certificates file).head? = some (.ok leaf)) :
    (readLeaf path).run w = (.ok leaf, w) := by
  obtain ⟨more, hcerts⟩ := List.head?_eq_some_iff.1 hleaf
  have hread : (Action.readFile path).run w = (.ok (.ok file), w) := by
    show (Except.ok (Files.read w.files path), w) = _
    rw [hfile]
  rw [readLeaf, Action.run_bind, hread]
  dsimp only
  rw [hcerts]
  rfl

theorem run_readAll (h : ChainIs w path (cert :: certs)) :
    (readAll path).run w = (.ok (cert :: certs), w) := by
  obtain ⟨file, hfile, hcerts⟩ := h
  have hread : (Action.readFile path).run w = (.ok (.ok file), w) := by
    show (Except.ok (Files.read w.files path), w) = _
    rw [hfile]
  rw [readAll, Action.run_bind, hread]
  dsimp only
  rw [hcerts]
  rfl

theorem run_rest_some (hkey : X509.publicKey? leaf = some leafKey)
    (h : ChainIs w path (cert :: certs)) :
    (rest leaf (some path)).run w = (behindLeaf leafKey true (cert :: certs), w) := by
  have hleaf : (Action.lift (keyOf leaf)).run w = (.ok leafKey, w) := by
    show (keyOf leaf, w) = _
    rw [keyOf, hkey]
  rw [rest, Action.run_bind, hleaf]
  show (readAll path >>= _ : Action (List Bytes)).run w = _
  rw [Action.run_bind, run_readAll h]
  rfl

theorem run_rest_of_keyless (hkey : X509.publicKey? leaf = none) :
    (rest leaf (some path)).run w = (.error .keyUnreadable, w) := by
  have hleaf : (Action.lift (keyOf leaf)).run w = (.error .keyUnreadable, w) := by
    show (keyOf leaf, w) = _
    rw [keyOf, hkey]
  rw [rest, Action.run_bind, hleaf]

end CertificateChain

namespace Source

open CertificateChain

variable {w : World} {location : CertificateLocation} {resolver : CertificateResolver}
  {leaf : Bytes}

theorem run_fromCertificate (h : LeafIs w location resolver leaf) (chain : Option String) :
    (fromCertificate location chain resolver).run w =
      (((CertificateChain.rest leaf chain).run w).1.map fun certs =>
        CertificateChain.token (leaf :: certs), ((CertificateChain.rest leaf chain).run w).2) := by
  obtain ⟨paths, file, hpaths, hfile, hleaf⟩ := h
  rw [fromCertificate, Action.run_bind, hpaths]
  show (readLeaf paths.certificate >>= _ : Action String).run w = _
  rw [Action.run_bind, run_readLeaf hfile hleaf]
  exact Action.run_map _ _ _

def smallestKey (key : UInt8) : Bytes := [0x30, 9, 0x30, 3, 6, 1, 0x2A, 3, 2, 0, key]

def smallest (key : UInt8) : Bytes :=
  let algorithm : Bytes := [0x30, 3, 6, 1, 0x2A]
  let moment : Bytes := [0x17, 13] ++ Utf8.encode "500101000000Z"
  [0x30, 66, 0x30, 55, 2, 1, 1] ++ algorithm ++ [0x30, 0, 0x30, 30] ++ moment ++ moment ++
    [0x30, 0] ++ smallestKey key ++ algorithm ++ [3, 2, 0, 0]

def pem (certs : List Bytes) : Bytes :=
  certs.flatMap fun der => Pem.ascii "-----BEGIN CERTIFICATE-----\n" ++
    Utf8.encodeChars (Base64.encodeChars der) ++ Pem.ascii "\n-----END CERTIFICATE-----\n"

def shelf : World where
  environment := ⟨none, none, none⟩
  files := [("leaf.pem", .file (pem [smallest 1])),
    ("chain.pem", .file (pem [smallest 1, smallest 2]))]
  wall := 0
  clock := 0
  replies := []
  silence := ⟨true, none, none⟩
  supplies := []
  supply := .failure false ""
  sent := []

end Source

end Federation
