import Federation.Proofs.Endpoint.Labels
import Federation.Proofs.Endpoint.Layout

/-!
# Which URLs are endpoints

Of all that a URL is written from the host alone decides whether it is an endpoint: neither the
user nor the port nor the rest of the URL can make an endpoint of a host that is none.

* `Endpoint.isEndpointOf_iff`  the check of a URL as one of its host;
* `Endpoint.Service.accepts_iff_hostLabels`
                               which URLs a service accepts.
-/

namespace Federation.Endpoint

def Service.accepts : Service → String → Bool
  | .sts => isTokenUrl
  | .iamCredentials => isImpersonationUrl

theorem Service.accepts_eq (s : Service) : s.accepts = isEndpointOf s := by
  cases s <;> rfl

theorem isEndpointOf_iff (s : Service) (url : String) : isEndpointOf s url = true ↔
    ∃ host, host? url = some host ∧ HostLabels s.label (Text.splitAt '.' host) := by
  rw [isEndpointOf]
  cases host? url with
  | none => simp
  | some host => simp [isHostOf_iff]

theorem isEndpointOf_text (s : Service) {p : Parts} (h : ∀ c ∈ p.host, IsHostChar c) :
    isEndpointOf s p.text = isHostOf s (p.host.map Char.toLower) := by
  rw [isEndpointOf, p.host?_text, hostText?_plain h]

/-- a URL is accepted for the host that it is written with, slashes in front of it say nothing, and
no URL is accepted without a host of the service in the place of the host -/
theorem Service.accepts_iff_hostLabels (s : Service) :
    (∀ p : Parts, (∀ c ∈ p.host, IsHostChar c) → (s.accepts p.text = true ↔
      HostLabels s.label (Text.splitAt '.' (p.host.map Char.toLower)))) ∧
    (∀ front rest : List Char, front.map Char.toLower = "https://".toList →
      (∀ c ∈ front ++ rest, IsVisible c) →
      s.accepts (String.ofList (front ++ rest)) =
        s.accepts (String.ofList (front ++ rest.dropWhile isSlash))) ∧
    ∀ url, s.accepts url = true →
      (∀ c ∈ url.toList, IsVisible c) ∧ (url.toList.take 8).map Char.toLower = "https://".toList ∧
      ∃ (p : Parts) (host : List Char), p.text = url ∧ hostText? p.host = some host ∧
        HostLabels s.label (Text.splitAt '.' host) := by
  rw [s.accepts_eq]
  refine ⟨fun p h => ?_, fun front rest hfront hv => ?_, fun url h => ?_⟩
  · rw [isEndpointOf_text s h, isHostOf_iff]
  · rw [isEndpointOf, isEndpointOf, host?_dropSlashes hfront hv]
  · obtain ⟨host, hhost, hlabels⟩ := (isEndpointOf_iff s url).1 h
    obtain ⟨p, rfl, hp⟩ := exists_parts hhost
    refine ⟨p.visible_text, ?_, p, host, rfl, hp, hlabels⟩
    rw [p.take_text]
    exact p.front_eq

/-- a URL with a third slash in front of its host -/
def hollow : Parts where
  front := "https://".toList
  slashes := ['/']
  user := none
  host := "sts.googleapis.com".toList
  port := none
  suffix := []
  front_eq := by decide
  isSlash_slashes := List.forall_mem_singleton.2 rfl
  user_free := nofun
  host_free := Utf8.forall_of_all (by decide)
  isPort_port := nofun
  suffix_starts := nofun
  slashes_end := by
    rintro c ⟨⟩
    decide
  visible := Utf8.forall_of_all (by decide)

/-- without a host in front of it, a third slash belongs to the scheme -/
theorem hollow_accepted :
    "https://" ++ "" ++ "/sts.googleapis.com" = "https:///sts.googleapis.com" ∧
    ¬(Service.sts.accepts ("https://" ++ "" ++ "/sts.googleapis.com") = true ↔
      HostLabels Service.sts.label (Text.splitAt '.' ("".toList.map Char.toLower))) := by
  have htext : "https://" ++ "" ++ "/sts.googleapis.com" = hollow.text := by decide
  have hhost : ∀ c ∈ hollow.host, IsHostChar c := Utf8.forall_of_all (by decide)
  refine ⟨by decide, fun h => ?_⟩
  rw [htext, Service.accepts_eq, isEndpointOf_text .sts hhost] at h
  obtain ⟨name, m, _, _, hlabels⟩ := h.1 (by decide)
  have hlen := congrArg List.length hlabels
  rw [List.length_append] at hlen
  exact absurd (hlen.symm ▸ Nat.le_add_left 2 (name ++ m).length) (by decide)

end Federation.Endpoint
