import PaymentProcessing.Domain.Webhook
import PaymentProcessing.Python.Ipaddress

/-!
# Which targets the webhook guard lets through

The guard rejects a host by its name, or by its address where `ipaddress` can read one. Resolvers
read more spellings of an IPv4 address than `ipaddress` does, and those the guard takes for names.
-/

namespace PaymentProcessing

open Python Ipaddress

variable {py : Platform}

/-- The host the guard looks at. -/
def guardHost (parts : UrlParts) : String := rstripDots ((parts.hostname.getD "").toLower)

/-- The guard rejects this host. -/
def rejectsHost (py : Platform) (host : String) : Bool := isBlockedHost host || isBlockedIp py host

/-- What the guard asks of a url besides its host. -/
structure Presentable (parts : UrlParts) : Prop where
  scheme : parts.scheme = "http" ∨ parts.scheme = "https"
  username : truthy parts.username = false
  password : truthy parts.password = false
  hostname : truthy parts.hostname = true

theorem webhookUrl_ok_iff {url : String} {parts : UrlParts} (h : py.urlparse url = some parts) :
    webhookUrl py url = .ok url ↔ Presentable parts ∧ rejectsHost py (guardHost parts) = false := by
  unfold webhookUrl
  rw [h]
  dsimp only
  constructor
  · intro hok
    split_ifs at hok with hs hc hh hr
    refine ⟨⟨?_, ?_, ?_, ?_⟩, ?_⟩
    · by_cases hhttp : parts.scheme = "http"
      · exact .inl hhttp
      · exact .inr (by_contra fun hhttps => hs ⟨hhttp, hhttps⟩)
    · simp only [Bool.or_eq_true, not_or, Bool.not_eq_true] at hc
      exact hc.1
    · simp only [Bool.or_eq_true, not_or, Bool.not_eq_true] at hc
      exact hc.2
    · simpa using hh
    · simpa [rejectsHost, guardHost] using hr
  · rintro ⟨⟨hs, hu, hp, hh⟩, hr⟩
    rw [if_neg fun hn => hs.elim hn.1 hn.2, if_neg (by simp [hu, hp]), if_neg (by simp [hh])]
    rw [rejectsHost, guardHost] at hr
    rw [hr]
    rfl

/-! ## Variants of a host -/

theorem rstripDots_append (text : String) (n : Nat) :
    rstripDots (text ++ String.ofList (List.replicate n '.')) = rstripDots text := by
  unfold rstripDots
  rw [String.toList_append, String.toList_ofList, List.reverse_append, List.reverse_replicate]
  congr 2
  induction n with
  | zero => rfl
  | succ n ih =>
    rw [List.replicate_succ, List.cons_append, List.dropWhile_cons_of_pos (by simp)]
    exact ih

theorem toLower_eq (text : String) : text.toLower = text.map Char.toLower := rfl

theorem toLower_dots (n : Nat) :
    (String.ofList (List.replicate n '.')).toLower = String.ofList (List.replicate n '.') := by
  rw [← String.toList_inj]
  simp [toLower_eq]

/-- Changing letter case and appending dots does not change the host the guard looks at. -/
theorem guardHost_variant {parts parts' : UrlParts} {name name' : String} {n : Nat}
    (h : parts.hostname = some name) (h' : parts'.hostname =
      some (name' ++ String.ofList (List.replicate n '.'))) (hcase : name'.toLower = name.toLower) :
    guardHost parts' = guardHost parts := by
  have happend : (name' ++ String.ofList (List.replicate n '.')).toLower =
      name.toLower ++ String.ofList (List.replicate n '.') := by
    rw [← toLower_dots n, ← hcase]
    rw [← String.toList_inj]
    simp [toLower_eq]
  unfold guardHost
  rw [h, h', Option.getD_some, Option.getD_some, happend, rstripDots_append]

/-! ## Numeric hosts -/

/-- A numeric spelling is no blocked name. -/
theorem isBlockedHost_of_inetAton {host : String} {a : Nat} (h : inetAton host.toList = some a) :
    isBlockedHost host = false := by
  have hl := not_mem_of_inetAton h
  have hsuffix : ∀ suffix : String, 'l' ∈ suffix.toList → host.endsWith suffix = false := by
    intro suffix hs
    rw [Bool.eq_false_iff]
    intro he
    rw [String.endsWith_eq_endsWith_toSlice, String.Slice.endsWith_string_iff,
      String.copy_toSlice] at he
    exact hl (he.subset hs)
  have hname : host ∉ blockedHosts := by
    intro hm
    simp only [blockedHosts, List.mem_cons, List.not_mem_nil, or_false] at hm
    rcases hm with rfl | rfl | rfl
    · exact hl (by decide)
    · exact hl (by decide)
    · exact hl (by decide)
  simp [isBlockedHost, hname, hsuffix ".localhost" (by decide), hsuffix ".local" (by decide),
    hsuffix ".internal" (by decide)]

/-- What `ipaddress` says about numeric hosts: the canonical spelling is an address, which is
`routable` or not, and no other spelling is one. -/
structure ReadsIpv4 (py : Platform) (routable : Nat → Bool) : Prop where
  canonical : ∀ a, a < 2 ^ 32 → py.isGlobal (String.ofList (dottedQuad a)) = some (routable a)
  other : ∀ host a, inetAton host.toList = some a → host.toList ≠ dottedQuad a →
    py.isGlobal host = none

theorem inetAton_lt {host : List Char} {a : Nat} (h : inetAton host = some a) : a < 2 ^ 32 := by
  unfold inetAton at h
  split at h
  · split_ifs at h with hlt
    cases h
    exact hlt
  · split_ifs at h with hlt
    cases h
    omega
  · split_ifs at h with hlt
    cases h
    omega
  · split_ifs at h with hlt
    cases h
    omega
  · cases h

theorem rejectsHost_of_inetAton {routable : Nat → Bool} (hpy : ReadsIpv4 py routable)
    {host : String} {a : Nat} (h : inetAton host.toList = some a) :
    rejectsHost py host = (decide (host.toList = dottedQuad a) && !routable a) := by
  rw [rejectsHost, isBlockedHost_of_inetAton h, Bool.false_or, isBlockedIp]
  by_cases hq : host.toList = dottedQuad a
  · have hhost : host = String.ofList (dottedQuad a) := by
      rw [← hq, String.ofList_toList]
    rw [hhost, hpy.canonical a (inetAton_lt h)]
    simp
  · rw [hpy.other host a h hq]
    simp [hq]

/-- **Which IPv4 targets the guard lets through.** A numeric host it accepts denotes a routable
address if and only if it is the canonical spelling of its address or the address is routable
anyway; and a rejected host stays rejected in any letter case and with any dots appended. -/
theorem webhook_ipv4_targets {routable : Nat → Bool} (hpy : ReadsIpv4 py routable) :
    (∀ url parts, py.urlparse url = some parts →
      ((webhookUrl py url = .ok url → ∀ a, inetAton (guardHost parts).toList = some a →
          routable a = true) ↔
        (Presentable parts → ∀ a, inetAton (guardHost parts).toList = some a →
          (guardHost parts).toList = dottedQuad a ∨ routable a = true))) ∧
    ∀ url url' parts parts' name name' n, py.urlparse url = some parts →
      py.urlparse url' = some parts' → parts.hostname = some name →
      parts'.hostname = some (name' ++ String.ofList (List.replicate n '.')) →
      name'.toLower = name.toLower → rejectsHost py (guardHost parts) = true →
        webhookUrl py url ≠ .ok url ∧ webhookUrl py url' ≠ .ok url' := by
  refine ⟨fun url parts hurl => ⟨fun hsafe hp a ha => ?_, fun hcond hok a ha => ?_⟩, ?_⟩
  · by_cases hq : (guardHost parts).toList = dottedQuad a
    · exact .inl hq
    · refine .inr (hsafe ((webhookUrl_ok_iff hurl).2 ⟨hp, ?_⟩) a ha)
      rw [rejectsHost_of_inetAton hpy ha]
      simp [hq]
  · obtain ⟨hp, hr⟩ := (webhookUrl_ok_iff hurl).1 hok
    rw [rejectsHost_of_inetAton hpy ha] at hr
    rcases hcond hp a ha with hq | hroutable
    · simpa [hq] using hr
    · exact hroutable
  · intro url url' parts parts' name name' n hurl hurl' hname hname' hcase hrej
    refine ⟨fun hok => ?_, fun hok => ?_⟩
    · rw [((webhookUrl_ok_iff hurl).1 hok).2] at hrej
      cases hrej
    · rw [← guardHost_variant hname hname' hcase, ((webhookUrl_ok_iff hurl').1 hok).2] at hrej
      cases hrej

/-- A standard library that knows two urls. -/
def hostPlatform : Platform where
  urlparse url :=
    if url = "http://8.8.8.8/" then some ⟨"http", none, none, some "8.8.8.8"⟩
    else if url = "http://2130706433/" then some ⟨"http", none, none, some "2130706433"⟩
    else none
  isGlobal host := isGlobalHost host.toList
  isoformat _ := ""
  render _ := ""
  serializable _ := true
  successRate := .nan

theorem hostPlatform_readsIpv4 : ReadsIpv4 hostPlatform isGlobalIpv4 where
  canonical a ha := by
    simp [hostPlatform, isGlobalHost, inetAton_dottedQuad ha]
  other host a h hq := by
    simp [hostPlatform, isGlobalHost, h, hq]

theorem webhook_ipv4_targets_sample :
    webhookUrl hostPlatform "http://8.8.8.8/" = .ok "http://8.8.8.8/" ∧
      ∀ a, inetAton "8.8.8.8".toList = some a → isGlobalIpv4 a = true := by
  have hok : webhookUrl hostPlatform "http://8.8.8.8/" = .ok "http://8.8.8.8/" := by
    decide +kernel
  have hhost : guardHost ⟨"http", none, none, some "8.8.8.8"⟩ = "8.8.8.8" := by decide +kernel
  have hcanon : inetAton "8.8.8.8".toList = some (quad 8 8 8 8) ∧
      "8.8.8.8".toList = dottedQuad (quad 8 8 8 8) := by decide +kernel
  refine ⟨hok, fun a ha => ?_⟩
  have htargets := ((webhook_ipv4_targets hostPlatform_readsIpv4).1 "http://8.8.8.8/" _ rfl).2
  rw [hhost] at htargets
  refine htargets (fun _ b hb => .inl ?_) hok a ha
  rw [hcanon.1, Option.some.injEq] at hb
  rw [← hb]
  exact hcanon.2

/-- The loopback address written as one number passes the guard. -/
theorem webhook_loopback_accepted : ∃ parts,
    hostPlatform.urlparse "http://2130706433/" = some parts ∧
    webhookUrl hostPlatform "http://2130706433/" = .ok "http://2130706433/" ∧
    inetAton (guardHost parts).toList = some (quad 127 0 0 1) ∧
    isGlobalIpv4 (quad 127 0 0 1) = false := by
  refine ⟨⟨"http", none, none, some "2130706433"⟩, rfl, ?_⟩
  decide +kernel

end PaymentProcessing
