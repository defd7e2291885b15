import Mathlib.Data.Bool.AllAny
import Schemreg.Http.BaseUrl
import Schemreg.Lib.UrlStandard

/-
  Whether the builders let credentials out in clear text.

  The guards cut the base URL with their own searches: they look for the text `http://` at its
  very beginning, and for an `@` between the first `://` and the next `/`, `?` or `#`. The
  request goes to the URL that the URL Standard's parser reads. The two readings agree on every
  text that begins with `http://` (`confidential_of_http`), and they need not agree on others.
  `Overlooked` lists the spellings that come past the guards.

  Proved:
  * `cleartext_iff`: a builder keeps the law on a URL exactly when it does not overlook it.
  * `capitals_are_overlooked`: the law fails for `HTTP://registry.example.com`.
-/

namespace Schemreg

open UrlStandard Net

/-! ## What a host is -/

inductive Host where
  | domain (name : List Char)
  | address (ip : IpAddr)
  deriving DecidableEq, Repr

def Host.isLoopback : Host → Bool
  | .domain name => name = "localhost".toList
  | .address ip => ip.isLoopback

/-- What the client's host parser does with a loopback host: `localhost` in any case is the
    domain, four decimal octets are the IPv4 address, and in brackets there is an IPv6 address,
    the one that the standard library reads there if it reads any. -/
structure ReadsHosts (parseHost : HostParser Host) : Prop where
  localhost : ∀ cs, cs.map Char.toLower = "localhost".toList →
    parseHost cs = some (.domain "localhost".toList)
  ipv4 : ∀ cs octets, parse cs = some (.v4 octets) → parseHost cs = some (.address (.v4 octets))
  bracketed : ∀ cs host, parseHost ('[' :: cs) = some host →
    ∃ inner groups, cs = inner ++ [']'] ∧ (∀ c ∈ inner, InIpv6 c) ∧ ':' ∈ inner ∧
      host = .address (.v6 groups) ∧ ∀ ip, parse inner = some ip → ip = .v6 groups

/-- What a URL that gets credentials has to be. -/
structure Confidential (url : Url Host) : Prop where
  encrypted : url.scheme = .https ∨ url.host.isLoopback = true
  noUserInfo : url.userInfo = none

/-! ## The law -/

section Law

variable (parseHost : HostParser Host)

/-- Whatever the auth is, the Confluent builder accepts the URL only if it is confidential. -/
def ConfluentKeepsSecret (url : String) : Prop :=
  ∀ (Config Client : Type) (withConfig : Config → Result Client) (auth : Confluent.RegistryAuth)
    (config : Config) (built : Client × String), auth ≠ .none →
    Confluent.ConfluentSchemaRegistryBuilder.build withConfig ⟨some url, auth, config⟩ = .ok built →
    ∀ parsed, read parseHost url = some parsed → Confidential parsed

/-- Whatever the auth is, the Apicurio builder accepts the URL only if it is confidential. -/
def ApicurioKeepsSecret (url : String) : Prop :=
  ∀ (Config Client : Type) (withConfig : Config → Result Client) (auth : Apicurio.ApicurioAuth)
    (config : Config) (built : Client × String), auth ≠ .none →
    Apicurio.ApicurioSchemaRegistryBuilder.build withConfig ⟨some url, auth, config⟩ = .ok built →
    ∀ parsed, read parseHost url = some parsed → Confidential parsed

/-- The guards see neither `http://` at the beginning nor an `@` behind the first `://`, and the
    text spells `http` before a host that is no loopback host, or user information. -/
structure Overlooked (checked url : String) : Prop where
  notHttp : startsWithHttp checked = false
  noAt : ∀ cut, authoritySlice checked.toList = some cut → '@' ∉ cut
  spelled : ∃ (s : Spelling) (scheme : Scheme) (host : Host), s.Standard ∧
    clean url.toList = s.text ∧ s.name.map Char.toLower = scheme.name ∧
      parseHost s.host = some host ∧
        ((scheme = .http ∧ host.isLoopback = false) ∨ s.userInfo ≠ none)

end Law

/-! ## The characters of a loopback host -/

/-- A letter, a digit, a colon or a dot. -/
def HostChar (c : Char) : Prop :=
  c.toNat = 0x2E ∨ (0x30 ≤ c.toNat ∧ c.toNat ≤ 0x3A) ∨ (0x41 ≤ c.toNat ∧ c.toNat ≤ 0x5A) ∨
    (0x61 ≤ c.toNat ∧ c.toNat ≤ 0x7A)

instance : DecidablePred HostChar := fun _ => inferInstanceAs (Decidable (_ ∨ _))

theorem HostChar.ne {c d : Char} (h : HostChar c) (hd : ¬ HostChar d) : c ≠ d := by
  rintro rfl
  exact hd h

theorem HostChar.kept {c : Char} (h : HostChar c) : Kept c := by
  constructor
  · unfold HostChar at h
    unfold isBlank
    exact decide_eq_false (by omega)
  · simp [endsAuthority, isSlash, h.ne (d := '/') (by decide), h.ne (d := '\\') (by decide),
      h.ne (d := '?') (by decide), h.ne (d := '#') (by decide)]

theorem HostChar.of_inIpv6 {c : Char} (h : InIpv6 c) : HostChar c := by
  rcases h with h | rfl | rfl
  · unfold hexadecimal decimal at h
    unfold HostChar
    split at h
    · omega
    · split at h
      · omega
      · split at h
        · omega
        · cases h
  · decide
  · decide

theorem HostChar.of_toLower {c : Char} (h : HostChar c.toLower) : HostChar c := by
  unfold Char.toLower at h
  split at h
  · rename_i hupper
    exact Or.inr (Or.inr (Or.inl ⟨hupper.1, hupper.2⟩))
  · exact h

theorem localhost_chars {cs : List Char} (h : cs.map Char.toLower = "localhost".toList) :
    ∀ c ∈ cs, HostChar c ∧ c ≠ ':' := by
  intro c hc
  have hmem : c.toLower ∈ "localhost".toList := h ▸ List.mem_map_of_mem hc
  have hall : ∀ d ∈ "localhost".toList, HostChar d ∧ d ≠ ':' :=
    List.all_iff_forall_prop.mp (by decide)
  obtain ⟨hchar, hcolon⟩ := hall _ hmem
  refine ⟨.of_toLower hchar, ?_⟩
  rintro rfl
  exact hcolon rfl

/-- Digits and dots have no capitals. -/
theorem toLower_of_inIpv4 {c : Char} (h : InIpv4 c) : c.toLower = c := by
  have hsmall : c.toNat ≤ 0x39 := by
    rcases h with h | rfl
    · unfold decimal at h
      split at h
      · omega
      · cases h
    · decide
  unfold Char.toLower
  rw [dif_neg]
  rintro ⟨hupper, -⟩
  have hlarge : 0x41 ≤ c.toNat := hupper
  omega

/-- A host that the guard takes for a loopback host. -/
theorem isLoopback_cases {host : List Char} (h : isLoopback host = true) :
    host.map Char.toLower = "localhost".toList ∨
      ∃ ip, parse host = some ip ∧ ip.isLoopback = true := by
  unfold isLoopback at h
  rcases Bool.or_eq_true _ _ ▸ h with hname | hip
  · exact Or.inl (of_decide_eq_true hname)
  · split at hip
    · exact Or.inr ⟨_, ‹_›, hip⟩
    · cases hip

theorem isLoopback_chars {host : List Char} (h : isLoopback host = true) :
    host ≠ [] ∧ ∀ c ∈ host, HostChar c := by
  constructor
  · rintro rfl
    revert h
    decide +kernel
  · rcases isLoopback_cases h with hname | ⟨ip, hparse, -⟩
    · exact fun c hc => (localhost_chars hname c hc).1
    · cases ip with
      | v4 octets => exact fun c hc => .of_inIpv6 (chars_of_v4 hparse c hc).inIpv6
      | v6 groups => exact fun c hc => .of_inIpv6 ((chars_of_v6 hparse).1 c hc)

/-! ## The two readings of a text that begins with `http://` -/

theorem afterScheme_http (rest : List Char) :
    afterScheme ("http://".toList ++ rest) = some rest := rfl

theorem dropWhile_ne_head (c : Char) (cs : List Char) :
    (cs.dropWhile fun x => decide (x ≠ c)) = [] ∨
      ∃ tail, (cs.dropWhile fun x => decide (x ≠ c)) = c :: tail := by
  cases hdrop : cs.dropWhile fun x => decide (x ≠ c) with
  | nil => exact Or.inl rfl
  | cons d tail =>
    have hhead := List.head?_dropWhile_not (fun x => decide (x ≠ c)) cs
    rw [hdrop] at hhead
    have hd : d = c := by simpa using hhead
    exact Or.inr ⟨tail, by rw [hd]⟩

/-- What follows an authority, in a text that goes on with slashes. -/
theorem head_ends (rest : List Char) (slashes : Nat) {after : List Char}
    (hafter : (rest.dropWhile fun c => !endsSlice c) ++ List.replicate slashes '/' = after) :
    after = [] ∨ ∃ d tail, after = d :: tail ∧ endsAuthority d = true := by
  subst hafter
  cases hrest : rest.dropWhile fun c => !endsSlice c with
  | nil =>
    cases slashes with
    | zero => exact Or.inl rfl
    | succ n => exact Or.inr ⟨'/', List.replicate n '/', rfl, rfl⟩
  | cons d tail =>
    have hd : endsSlice d = true := by
      have hhead := List.head?_dropWhile_not (fun c => !endsSlice c) rest
      rw [hrest] at hhead
      simpa using hhead
    refine Or.inr ⟨d, tail ++ List.replicate slashes '/', rfl, ?_⟩
    simp only [endsSlice, Bool.or_eq_true, decide_eq_true_eq] at hd
    rcases hd with (rfl | rfl) | rfl <;> rfl

section Agreement

variable {parseHost : HostParser Host} {after more : List Char}

/-- Nothing but the authority's own text comes into the authority. -/
theorem mem_of_mem_restOfAuthority
    (hafter : after = [] ∨ ∃ d tail, after = d :: tail ∧ endsAuthority d = true) {c : Char}
    (h : c ∈ restOfAuthority (more ++ after)) : c ∈ more := by
  have hmem := mem_restOfAuthority h
  rcases hafter with rfl | ⟨d, tail, rfl, hd⟩
  · rw [List.append_nil] at hmem
    exact (List.takeWhile_sublist _).mem hmem
  · rw [List.takeWhile_append] at hmem
    split at hmem
    · rw [List.takeWhile_cons_of_neg (by simp [hd]), List.append_nil] at hmem
      exact hmem
    · exact (List.takeWhile_sublist _).mem hmem

/-- The authority goes on as the guard has seen it. -/
theorem head_restOfAuthority {d : Char} (hd : Kept d)
    (hafter : after = [] ∨ ∃ d tail, after = d :: tail ∧ endsAuthority d = true)
    (hmore : more = [] ∨ ∃ tail, more = d :: tail) :
    restOfAuthority (more ++ after) = [] ∨ ∃ tail, restOfAuthority (more ++ after) = d :: tail := by
  rcases hmore with rfl | ⟨tail, rfl⟩
  · left
    rcases hafter with rfl | ⟨e, tail, rfl, he⟩
    · rfl
    · exact restOfAuthority_ends he
  · exact Or.inr ⟨_, restOfAuthority_cons hd⟩

/-- A host without brackets that the guard takes for a loopback host is one. -/
theorem readAuthority_plain (documented : ReadsHosts parseHost) {host port : List Char}
    (hloop : isLoopback host = true) (hcolon : ':' ∉ host) (hat : '@' ∉ host ++ port)
    (hport : port = [] ∨ ∃ digits, port = ':' :: digits) {found : Option (List Char) × Host}
    (h : readAuthority parseHost (host ++ port) = some found) :
    found.1 = none ∧ found.2.isLoopback = true := by
  obtain ⟨hne, hchars⟩ := isLoopback_chars hloop
  have hplain : ∀ c ∈ host, c ≠ ':' ∧ c ≠ '[' ∧ c ≠ ']' := fun c hc =>
    ⟨fun heq => hcolon (heq ▸ hc), (hchars c hc).ne (by decide), (hchars c hc).ne (by decide)⟩
  unfold readAuthority at h
  rw [splitUserInfo_of_not_mem hat] at h
  dsimp only at h
  rw [splitPort_plain hplain hport] at h
  dsimp only at h
  split at h
  · cases h
  · obtain ⟨parsed, hparsed, rfl⟩ := Option.map_eq_some_iff.mp h
    refine ⟨rfl, ?_⟩
    rcases isLoopback_cases hloop with hname | ⟨ip, hparse, hip⟩
    · rw [documented.localhost host hname] at hparsed
      cases hparsed
      rfl
    · cases ip with
      | v4 octets =>
        rw [documented.ipv4 host octets hparse] at hparsed
        cases hparsed
        exact hip
      | v6 groups => exact absurd (chars_of_v6 hparse).2 hcolon

/-- A host in brackets that the guard takes for a loopback host is one. -/
theorem readAuthority_brackets (documented : ReadsHosts parseHost) {inner more : List Char}
    (hloop : isLoopback inner = true) (hat : '@' ∉ '[' :: (inner ++ more))
    (hmore : more = [] ∨ ∃ tail, more = ']' :: tail) {found : Option (List Char) × Host}
    (h : readAuthority parseHost ('[' :: (inner ++ more)) = some found) :
    found.1 = none ∧ found.2.isLoopback = true := by
  obtain ⟨-, hchars⟩ := isLoopback_chars hloop
  have hclose : ']' ∉ inner := fun hmem => absurd (hchars _ hmem) (by decide)
  have hsplit : splitPort false ('[' :: (inner ++ more)) =
      ('[' :: (inner ++ (splitPort true more).1), (splitPort true more).2) := by
    have hinner : splitPort true (inner ++ more) =
        (inner ++ (splitPort true more).1, (splitPort true more).2) :=
      splitPort_brackets more fun c hc => (hchars c hc).ne (by decide)
    conv_lhs => unfold splitPort
    rw [if_neg (by decide), if_pos rfl, hinner]
  unfold readAuthority at h
  rw [splitUserInfo_of_not_mem hat] at h
  dsimp only at h
  rw [hsplit] at h
  dsimp only at h
  split at h
  · cases h
  · obtain ⟨parsed, hparsed, rfl⟩ := Option.map_eq_some_iff.mp h
    refine ⟨rfl, ?_⟩
    obtain ⟨inner', groups, htext, hinner', hcolon, rfl, hsame⟩ := documented.bracketed _ _ hparsed
    have hclose' : ']' ∉ inner' := fun hmem =>
      absurd (HostChar.of_inIpv6 (hinner' _ hmem)) (by decide)
    -- the brackets hold what the guard has read
    obtain rfl : inner = inner' := by
      rcases hmore with rfl | ⟨tail, rfl⟩
      · have hmem : ']' ∈ inner := by
          rw [show splitPort true [] = ([], []) from rfl, List.append_nil] at htext
          rw [htext]
          simp
        exact absurd hmem hclose
      · have hhead : (splitPort true (']' :: tail)).1 = ']' :: (splitPort false tail).1 := rfl
        rw [hhead] at htext
        exact ((List.append_cons_inj_of_notMem hclose' List.not_mem_nil).mp htext.symm).1.symm
    rcases isLoopback_cases hloop with hname | ⟨ip, hparse, hip⟩
    · exact absurd rfl (localhost_chars hname ':' hcolon).2
    · rw [hsame ip hparse] at hip
      exact hip

/-- What follows `http://` up to the end of the authority is a host in brackets. -/
theorem confidential_of_brackets (documented : ReadsHosts parseHost) {tail after : List Char}
    (hends : after = [] ∨ ∃ d rest, after = d :: rest ∧ endsAuthority d = true)
    (hfree : '@' ∉ '[' :: tail) (hloop : isLoopback (tail.takeWhile (· ≠ ']')) = true)
    {parsed : Url Host}
    (h : read parseHost (String.ofList ("http://".toList ++ ('[' :: tail ++ after))) =
      some parsed) : Confidential parsed := by
  have htail := List.takeWhile_append_dropWhile (p := fun c => decide (c ≠ ']')) (l := tail)
  have hclose := dropWhile_ne_head ']' tail
  generalize tail.takeWhile (fun c => decide (c ≠ ']')) = inner at hloop htail
  generalize tail.dropWhile (fun c => decide (c ≠ ']')) = more at htail hclose
  subst htail
  have hkept : ∀ c ∈ '[' :: inner, Kept c := by
    intro c hc
    rcases List.mem_cons.mp hc with rfl | hc
    · exact ⟨by decide, by decide⟩
    · exact ((isLoopback_chars hloop).2 c hc).kept
  have hat' : '@' ∉ '[' :: (inner ++ restOfAuthority (more ++ after)) := by
    intro hmem
    rcases List.mem_cons.mp hmem with hopen | hmem
    · cases hopen
    · rcases List.mem_append.mp hmem with hinner | hmore
      · exact hfree (List.mem_cons_of_mem _ (List.mem_append_left _ hinner))
      · exact hfree (List.mem_cons_of_mem _
          (List.mem_append_right _ (mem_of_mem_restOfAuthority hends hmore)))
  have hread := read_http parseHost (more ++ after) (List.cons_ne_nil '[' inner) hkept
  rw [show '[' :: (inner ++ more) ++ after = ('[' :: inner) ++ (more ++ after) by simp, hread] at h
  obtain ⟨found, hfound, rfl⟩ := Option.map_eq_some_iff.mp h
  obtain ⟨huser, hhost⟩ := readAuthority_brackets documented hloop hat'
    (head_restOfAuthority ⟨by decide, by decide⟩ hends hclose) hfound
  exact ⟨Or.inr hhost, huser⟩

/-- What follows `http://` up to the end of the authority is a host without brackets. -/
theorem confidential_of_plain (documented : ReadsHosts parseHost) {cut after : List Char}
    (hends : after = [] ∨ ∃ d rest, after = d :: rest ∧ endsAuthority d = true)
    (hfree : '@' ∉ cut) (hloop : isLoopback (cut.takeWhile (· ≠ ':')) = true) {parsed : Url Host}
    (h : read parseHost (String.ofList ("http://".toList ++ (cut ++ after))) = some parsed) :
    Confidential parsed := by
  have hcut := List.takeWhile_append_dropWhile (p := fun c => decide (c ≠ ':')) (l := cut)
  have hcolon := dropWhile_ne_head ':' cut
  have hfreeColon : ':' ∉ cut.takeWhile fun c => decide (c ≠ ':') := by
    intro hmem
    have hne := List.mem_takeWhile_imp hmem
    simp at hne
  generalize cut.takeWhile (fun c => decide (c ≠ ':')) = host at hloop hcut hfreeColon
  generalize cut.dropWhile (fun c => decide (c ≠ ':')) = port at hcut hcolon
  subst hcut
  have hkept : ∀ c ∈ host, Kept c := fun c hc => ((isLoopback_chars hloop).2 c hc).kept
  have hat' : '@' ∉ host ++ restOfAuthority (port ++ after) := by
    intro hmem
    rcases List.mem_append.mp hmem with hhost | hport
    · exact hfree (List.mem_append_left _ hhost)
    · exact hfree (List.mem_append_right _ (mem_of_mem_restOfAuthority hends hport))
  have hread := read_http parseHost (port ++ after) (isLoopback_chars hloop).1 hkept
  rw [List.append_assoc, hread] at h
  obtain ⟨found, hfound, rfl⟩ := Option.map_eq_some_iff.mp h
  obtain ⟨huser, hhost⟩ := readAuthority_plain documented hloop hfreeColon hat'
    (head_restOfAuthority ⟨by decide, by decide⟩ hends hcolon) hfound
  exact ⟨Or.inr hhost, huser⟩

/-- What the guards accept of a text that begins with `http://` is confidential, also with
    more slashes at its end. -/
theorem confidential_of_http (documented : ReadsHosts parseHost) {rest : List Char} (slashes : Nat)
    (hat : rejectEmbeddedCredentials (String.ofList ("http://".toList ++ rest)) = .ok ())
    (hloop : isLoopbackHost (String.ofList ("http://".toList ++ rest)) = true) {parsed : Url Host}
    (h : read parseHost (String.ofList ("http://".toList ++ (rest ++ List.replicate slashes '/'))) =
      some parsed) : Confidential parsed := by
  have hslice : authoritySlice ("http://".toList ++ rest) =
      some (rest.takeWhile fun c => !endsSlice c) := by
    unfold authoritySlice
    rw [afterScheme_http]
    rfl
  unfold rejectEmbeddedCredentials at hat
  unfold isLoopbackHost at hloop
  rw [String.toList_ofList, hslice] at hat hloop
  dsimp only at hat hloop
  have hrest := List.takeWhile_append_dropWhile (p := fun c => !endsSlice c) (l := rest)
  generalize (rest.takeWhile fun c => !endsSlice c) = cut at hat hloop hrest
  generalize hafter : (rest.dropWhile fun c => !endsSlice c) ++ List.replicate slashes '/' = after
  have hends := head_ends rest slashes hafter
  have hfree : '@' ∉ cut := by
    intro hmem
    rw [if_pos hmem] at hat
    cases hat
  have htext : rest ++ List.replicate slashes '/' = cut ++ after := by
    rw [← hrest, List.append_assoc, hafter]
  have hhost : cut.rtakeWhile (· ≠ '@') = cut := by
    rw [List.rtakeWhile_eq_self_iff]
    intro c hc
    exact decide_eq_true fun heq => hfree (heq ▸ hc)
  unfold hostOf at hloop
  rw [hhost] at hloop
  rw [htext] at h
  -- with brackets or without
  split at hloop
  · exact confidential_of_brackets documented hends hfree hloop h
  · exact confidential_of_plain documented hends hfree hloop h

end Agreement

/-! ## When the builders keep the law -/

section Builders

variable {parseHost : HostParser Host} {checked url message : String}

theorem rejectEmbeddedCredentials_eq_ok : rejectEmbeddedCredentials url = .ok () ↔
    ∀ cut, authoritySlice url.toList = some cut → '@' ∉ cut := by
  unfold rejectEmbeddedCredentials
  cases hcut : authoritySlice url.toList with
  | none => exact iff_of_true rfl nofun
  | some cut =>
    dsimp only
    by_cases hat : '@' ∈ cut
    · rw [if_pos hat]
      exact iff_of_false nofun fun h => h cut rfl hat
    · rw [if_neg hat]
      refine iff_of_true rfl ?_
      rintro _ ⟨⟩
      exact hat

theorem checkBaseUrl_eq_ok : checkBaseUrl true message url = .ok () ↔
    rejectEmbeddedCredentials url = .ok () ∧
      (startsWithHttp url = true → isLoopbackHost url = true) := by
  unfold checkBaseUrl
  rw [Result.bind_eq_ok]
  constructor
  · rintro ⟨_, hat, h⟩
    refine ⟨hat, fun hhttp => ?_⟩
    cases hloop : isLoopbackHost url with
    | true => rfl
    | false =>
      rw [hhttp, hloop] at h
      cases h
  · rintro ⟨hat, hloop⟩
    refine ⟨(), hat, ?_⟩
    cases hhttp : startsWithHttp url with
    | false => rfl
    | true =>
      rw [hloop hhttp]
      rfl

theorem startsWithHttp_eq_true : startsWithHttp url = true ↔
    ∃ rest, url = String.ofList ("http://".toList ++ rest) := by
  unfold startsWithHttp
  rw [List.isPrefixOf_iff_prefix]
  constructor
  · rintro ⟨rest, h⟩
    exact ⟨rest, by rw [h, String.ofList_toList]⟩
  · rintro ⟨rest, rfl⟩
    exact ⟨rest, String.toList_ofList.symm⟩

/-- What the check accepts is confidential exactly when it does not overlook the URL. -/
theorem confidential_iff (message : String) (documented : ReadsHosts parseHost) (slashes : Nat)
    (hurl : url = String.ofList (checked.toList ++ List.replicate slashes '/')) :
    (checkBaseUrl true message checked = .ok () →
      ∀ parsed, read parseHost url = some parsed → Confidential parsed) ↔
    ¬ Overlooked parseHost checked url := by
  rw [checkBaseUrl_eq_ok, rejectEmbeddedCredentials_eq_ok]
  constructor
  · rintro hlaw ⟨hhttp, hat, s, scheme, host, hs, htext, hname, hhost, hspelled⟩
    have hread : read parseHost url = some ⟨scheme, s.userInfo, host⟩ :=
      read_eq_some_iff.mpr ⟨s, hs, htext, hname, hhost, rfl⟩
    have hsecret := hlaw ⟨hat, fun h => by rw [hhttp] at h; cases h⟩ _ hread
    rcases hspelled with ⟨rfl, hnetwork⟩ | huser
    · rcases hsecret.encrypted with hencrypted | hloop
      · cases hencrypted
      · rw [hnetwork] at hloop
        cases hloop
    · exact huser hsecret.noUserInfo
  · rintro hseen ⟨hat, hloop⟩ parsed hread
    cases hhttp : startsWithHttp checked with
    | true =>
      obtain ⟨rest, rfl⟩ := startsWithHttp_eq_true.mp hhttp
      rw [hurl, String.toList_ofList, List.append_assoc] at hread
      exact confidential_of_http documented slashes (rejectEmbeddedCredentials_eq_ok.mpr hat)
        (hloop hhttp) hread
    | false =>
      obtain ⟨s, hs, htext, hname, hhost, huser⟩ := read_eq_some_iff.mp hread
      have hnot := fun hspelled =>
        hseen ⟨hhttp, hat, s, _, _, hs, htext, hname, hhost, hspelled⟩
      rw [huser] at hnot
      constructor
      · cases hscheme : parsed.scheme with
        | https => exact Or.inl rfl
        | http =>
          right
          cases hloopback : parsed.host.isLoopback with
          | true => rfl
          | false => exact absurd (Or.inl ⟨hscheme, hloopback⟩) hnot
      · by_contra huser
        exact hnot (Or.inr huser)

variable {Config Client : Type} (withConfig : Config → Result Client) (config : Config)
  {built : Client × String}

theorem confluent_build_eq_ok {auth : Confluent.RegistryAuth} (hauth : auth ≠ .none) :
    Confluent.ConfluentSchemaRegistryBuilder.build withConfig ⟨some url, auth, config⟩ = .ok built ↔
      checkBaseUrl true Confluent.requiresHttps url = .ok () ∧
        ∃ client, withConfig config = .ok client ∧ (client, normalizeUrl url) = built := by
  unfold Confluent.ConfluentSchemaRegistryBuilder.build
  simp only [hauth, ne_eq, not_false_eq_true, decide_true, Result.bind_eq_ok, Except.ok.injEq,
    exists_eq_left', pure, Except.pure]
  constructor
  · rintro ⟨_, hcheck, hclient⟩
    exact ⟨hcheck, hclient⟩
  · rintro ⟨hcheck, hclient⟩
    exact ⟨(), hcheck, hclient⟩

theorem apicurio_build_eq_ok {auth : Apicurio.ApicurioAuth} (hauth : auth ≠ .none) :
    Apicurio.ApicurioSchemaRegistryBuilder.build withConfig ⟨some url, auth, config⟩ = .ok built ↔
      checkBaseUrl true Apicurio.requiresHttps (normalizeUrl url) = .ok () ∧
        ∃ client, withConfig config = .ok client ∧ (client, normalizeUrl url) = built := by
  unfold Apicurio.ApicurioSchemaRegistryBuilder.build
  simp only [hauth, ne_eq, not_false_eq_true, decide_true, Result.bind_eq_ok, Except.ok.injEq,
    exists_eq_left', pure, Except.pure]
  constructor
  · rintro ⟨_, hcheck, hclient⟩
    exact ⟨hcheck, hclient⟩
  · rintro ⟨hcheck, hclient⟩
    exact ⟨(), hcheck, hclient⟩

/-- The slashes that are stripped. -/
theorem normalizeUrl_slashes (url : String) :
    ∃ slashes, url = String.ofList ((normalizeUrl url).toList ++ List.replicate slashes '/') := by
  have hslashes : url.toList.rtakeWhile (· = '/') =
      List.replicate (url.toList.rtakeWhile (· = '/')).length '/' := by
    rw [List.eq_replicate_iff]
    exact ⟨rfl, fun c hc => of_decide_eq_true (List.mem_rtakeWhile_imp (p := (· = '/')) hc)⟩
  refine ⟨(url.toList.rtakeWhile (· = '/')).length, ?_⟩
  unfold normalizeUrl
  rw [String.toList_ofList, ← hslashes, List.rdropWhile_append_rtakeWhile, String.ofList_toList]

/-- When the builders accept only confidential URLs. -/
theorem cleartext_iff (documented : ReadsHosts parseHost) (url : String) :
    (ConfluentKeepsSecret parseHost url ↔ ¬ Overlooked parseHost url url) ∧
    (ApicurioKeepsSecret parseHost url ↔ ¬ Overlooked parseHost (normalizeUrl url) url) := by
  constructor
  · have hself : url = String.ofList (url.toList ++ List.replicate 0 '/') := by
      rw [List.replicate_zero, List.append_nil, String.ofList_toList]
    rw [← confidential_iff Confluent.requiresHttps documented 0 hself]
    constructor
    · intro h hcheck
      have hauth : Confluent.RegistryAuth.bearer "" ≠ .none := by decide
      exact h Unit Unit (fun _ => .ok ()) _ () ((), normalizeUrl url) hauth
        ((confluent_build_eq_ok _ _ hauth).mpr ⟨hcheck, (), rfl, rfl⟩)
    · intro h Config Client withConfig auth config built hauth hbuild
      exact h ((confluent_build_eq_ok _ _ hauth).mp hbuild).1
  · obtain ⟨slashes, hurl⟩ := normalizeUrl_slashes url
    rw [← confidential_iff Apicurio.requiresHttps documented slashes hurl]
    constructor
    · intro h hcheck
      have hauth : Apicurio.ApicurioAuth.bearer "" ≠ .none := by decide
      exact h Unit Unit (fun _ => .ok ()) _ () ((), normalizeUrl url) hauth
        ((apicurio_build_eq_ok _ _ hauth).mpr ⟨hcheck, (), rfl, rfl⟩)
    · intro h Config Client withConfig auth config built hauth hbuild
      exact h ((apicurio_build_eq_ok _ _ hauth).mp hbuild).1

end Builders

/-! ## Two spellings of `http` -/

/-- A host parser that knows names, IPv4 addresses and `[::1]`. -/
def plainHosts : HostParser Host := fun cs =>
  if cs.map Char.toLower = "localhost".toList then some (.domain "localhost".toList)
  else
    match parse cs with
    | some (.v4 octets) => some (.address (.v4 octets))
    | _ =>
        if cs = "[::1]".toList then some (.address (.v6 [0, 0, 0, 0, 0, 0, 0, 1]))
        else if cs.all fun c => c.isAlphanum || c = '.' || c = '-' then
          some (.domain (cs.map Char.toLower))
        else none

theorem plainHosts_reads : ReadsHosts plainHosts where
  localhost cs h := by
    unfold plainHosts
    rw [if_pos h]
  ipv4 cs octets h := by
    have hname : cs.map Char.toLower ≠ "localhost".toList := by
      intro hname
      have hl : 'l' ∈ cs.map Char.toLower := hname ▸ by decide
      obtain ⟨c, hc, hlower⟩ := List.mem_map.mp hl
      have hdigit := chars_of_v4 h c hc
      rw [toLower_of_inIpv4 hdigit] at hlower
      subst hlower
      revert hdigit
      unfold InIpv4
      decide
    unfold plainHosts
    rw [if_neg hname, h]
  bracketed cs host h := by
    have hname : ('[' :: cs).map Char.toLower ≠ "localhost".toList := by
      intro hname
      cases hname
    have hnot : ∀ octets, parse ('[' :: cs) ≠ some (.v4 octets) := by
      intro octets hparse
      have hopen := chars_of_v4 hparse '[' List.mem_cons_self
      revert hopen
      unfold InIpv4
      decide
    unfold plainHosts at h
    rw [if_neg hname] at h
    split at h
    · exact absurd ‹_› (hnot _)
    · split at h
      · rename_i hcs
        obtain rfl : cs = "::1]".toList := (List.cons.inj hcs).2
        cases h
        refine ⟨"::1".toList, _, rfl, ?_, by decide, rfl, ?_⟩
        · unfold InIpv6
          exact List.all_iff_forall_prop.mp (by decide)
        · intro ip hip
          have hone : parse "::1".toList = some (.v6 [0, 0, 0, 0, 0, 0, 0, 1]) := by decide +kernel
          rw [hone] at hip
          exact (Option.some.inj hip).symm
      · split at h
        · rename_i hall
          simp at hall
        · cases h

/-- Text that begins with `http://` is guarded, and user information without a name and a password
    is none. -/
theorem local_cleartext_is_kept :
    ConfluentKeepsSecret plainHosts "http://localhost:8081" ∧
      ApicurioKeepsSecret plainHosts "http://[::1]:8080/" ∧
      ConfluentKeepsSecret plainHosts "https:///@registry.example.com" := by
  refine ⟨(cleartext_iff plainHosts_reads _).1.mpr ?_, (cleartext_iff plainHosts_reads _).2.mpr ?_,
    (cleartext_iff plainHosts_reads _).1.mpr ?_⟩
  · rintro ⟨hhttp, -, -⟩
    revert hhttp
    decide
  · rintro ⟨hhttp, -, -⟩
    revert hhttp
    decide +kernel
  · rintro ⟨-, -, s, scheme, host, hs, htext, hname, hhost, hspelled⟩
    have hread : read plainHosts "https:///@registry.example.com" =
        some ⟨.https, none, .domain "registry.example.com".toList⟩ := by decide +kernel
    have hspelling : read plainHosts "https:///@registry.example.com" =
        some ⟨scheme, s.userInfo, host⟩ :=
      read_eq_some_iff.mpr ⟨s, hs, htext, hname, hhost, rfl⟩
    injection hspelling.symm.trans hread with hurl
    injection hurl with hscheme huser hdomain
    rcases hspelled with ⟨hhttp, -⟩ | hinfo
    · rw [hhttp] at hscheme
      cases hscheme
    · exact hinfo huser

/-- The scheme in capitals is not guarded: the credentials go to the network in clear text. -/
theorem capitals_are_overlooked :
    ¬ ∀ parseHost, ReadsHosts parseHost → ∀ url,
      ConfluentKeepsSecret parseHost url ∧ ApicurioKeepsSecret parseHost url := by
  intro h
  have hbuild : Confluent.ConfluentSchemaRegistryBuilder.build (fun _ : Unit => .ok ())
      ⟨some "HTTP://registry.example.com", .basic "user" "hunter2", ()⟩ =
        .ok ((), "HTTP://registry.example.com") := by decide +kernel
  have hread : read plainHosts "HTTP://registry.example.com" =
      some ⟨.http, none, .domain "registry.example.com".toList⟩ := by decide +kernel
  have hsecret := (h plainHosts plainHosts_reads "HTTP://registry.example.com").1 Unit Unit
    (fun _ => .ok ()) (.basic "user" "hunter2") () _ (by decide) hbuild _ hread
  rcases hsecret.encrypted with hencrypted | hloop
  · cases hencrypted
  · revert hloop
    decide

end Schemreg
