import Federation.Encoding.Base64
import Federation.Http.Header

/-!
# The headers that credentials send

Access tokens and client secrets travel in `authorization`, flagged as sensitive.  A value that is
built from the outside may not be legal; `setEach` stops at the first such value, and what it has
set by then stays.
-/

namespace Federation.Http

def Header.open (name value : String) : Header := ⟨name, value, false⟩

def authorization : String := "authorization"

def bearer (token : String) : Header := ⟨authorization, "Bearer " ++ token, true⟩

def basic (id secret : String) : Header :=
  ⟨authorization, "Basic " ++ Base64.encode (Utf8.encode (id ++ ":" ++ secret)), true⟩

def contentType (kind : String) : Header := .open "content-type" kind

def quotaProject (project : String) : Header := .open "x-goog-user-project" project

/-- the locations where the token may be used, encoded -/
def allowedLocations (encoded : String) : Header := .open "x-allowed-locations" encoded

/-! ## metrics -/

def clientName : String := "gl-rust/RUSTC auth/0.1.0"

/-- what is counted about a request -/
def metrics (details : List String) : Header :=
  .open "x-goog-api-client" (" ".intercalate (clientName :: details))

/-! ## setting headers -/

/-- the headers after setting `planned` one after another, and whether all of them could be set -/
def Headers.setEach (hs : Headers) : List Header → Bool × Headers
  | [] => (true, hs)
  | h :: planned =>
    if isValue h.value then Headers.setEach (hs.set h) planned else (false, hs)

namespace Headers

theorem setEach_nil (hs : Headers) : hs.setEach [] = (true, hs) := rfl

theorem setEach_cons_of_isValue (hs : Headers) {h : Header} (planned : List Header)
    (hv : isValue h.value) : hs.setEach (h :: planned) = (hs.set h).setEach planned := by
  rw [setEach, if_pos hv]

/-- all headers can be set if and only if all values are legal -/
theorem setEach_fst (planned : List Header) :
    ∀ hs : Headers, (hs.setEach planned).1 = planned.all (isValue ·.value) := by
  induction planned with
  | nil => intro hs; rfl
  | cons h planned ih =>
    intro hs
    by_cases hv : isValue h.value = true
    · rw [setEach_cons_of_isValue hs planned hv, ih, List.all_cons, hv, Bool.true_and]
    · rw [setEach, if_neg hv, List.all_cons, Bool.eq_false_iff.2 hv, Bool.false_and]

theorem named_setEach_of_ne {name : String} (planned : List Header)
    (hn : ∀ h ∈ planned, name ≠ h.name) :
    ∀ hs : Headers, (hs.setEach planned).2.named name = hs.named name := by
  induction planned with
  | nil => intro hs; rfl
  | cons h planned ih =>
    intro hs
    by_cases hv : isValue h.value = true
    · have hrest : ∀ h' ∈ planned, name ≠ h'.name := fun h' hm => hn h' (List.mem_cons_of_mem _ hm)
      rw [setEach_cons_of_isValue hs planned hv, ih hrest,
        named_set_of_ne hs h (hn h List.mem_cons_self)]
    · rw [setEach, if_neg hv]

end Headers

end Federation.Http
