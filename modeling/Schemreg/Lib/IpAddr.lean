import Mathlib.Data.List.TakeWhile

/-
  IP addresses in text, as the Rust standard library reads them (`core::net::parser`).

  A reader takes what it can from the front of the text. An octet has no leading zero. An IPv6
  address may leave out one run of groups, and may end in an IPv4 address.

  Every reader takes only digits and separators (`Takes`), so an address is made of hexadecimal
  digits, colons and dots, and an IPv4 address has no colon.
-/

namespace Net

/-- `IpAddr`: the octets, or the groups. -/
inductive IpAddr where
  | v4 (octets : List Nat)
  | v6 (groups : List Nat)
  deriving DecidableEq, Repr

/-- `is_loopback`: `127.0.0.0/8` and `::1`. -/
def IpAddr.isLoopback : IpAddr → Bool
  | .v4 octets => octets.head? = some 127
  | .v6 groups => groups = [0, 0, 0, 0, 0, 0, 0, 1]

/-- `to_digit(10)`. -/
def decimal (c : Char) : Option Nat :=
  if 0x30 ≤ c.toNat ∧ c.toNat ≤ 0x39 then some (c.toNat - 0x30) else none

/-- `to_digit(16)`. -/
def hexadecimal (c : Char) : Option Nat :=
  if 0x61 ≤ c.toNat ∧ c.toNat ≤ 0x66 then some (c.toNat - 0x61 + 10)
  else if 0x41 ≤ c.toNat ∧ c.toNat ≤ 0x46 then some (c.toNat - 0x41 + 10)
  else decimal c

/-- The value of some digits. -/
def value (radix : Nat) (toDigit : Char → Option Nat) (digits : List Char) : Nat :=
  digits.foldl (fun n c => n * radix + (toDigit c).getD 0) 0

/-- `read_given_char`. -/
def readGivenChar (c : Char) : List Char → Option (List Char)
  | c' :: rest => if c' = c then some rest else none
  | [] => none

/-- An octet: `read_number(10, Some(3), false)`. -/
def readOctet (cs : List Char) : Option (Nat × List Char) :=
  let digits := cs.takeWhile fun c => (decimal c).isSome
  if digits = [] ∨ 3 < digits.length ∨ (digits.head? = some '0' ∧ 1 < digits.length) then none
  else if value 10 decimal digits < 256 then
    some (value 10 decimal digits, cs.dropWhile fun c => (decimal c).isSome)
  else none

/-- A group: `read_number(16, Some(4), true)`. -/
def readGroup (cs : List Char) : Option (Nat × List Char) :=
  let digits := cs.takeWhile fun c => (hexadecimal c).isSome
  if digits = [] ∨ 4 < digits.length then none
  else some (value 16 hexadecimal digits, cs.dropWhile fun c => (hexadecimal c).isSome)

/-- `read_separator`: the separator stands before every element but the first. -/
def readSeparator {α : Type} (c : Char) (first : Bool) (read : List Char → Option (α × List Char))
    (cs : List Char) : Option (α × List Char) :=
  if first then read cs else (readGivenChar c cs).bind read

/-- `n` more octets. -/
def readOctets (first : Bool) : Nat → List Char → Option (List Nat × List Char)
  | 0, cs => some ([], cs)
  | n + 1, cs => do
      let (octet, cs) ← readSeparator '.' first readOctet cs
      let (octets, cs) ← readOctets false n cs
      return (octet :: octets, cs)

/-- `read_ipv4_addr`. -/
def readIpv4 (cs : List Char) : Option (List Nat × List Char) := readOctets true 4 cs

/-- An IPv4 address as two groups. -/
def groupsOf : List Nat → List Nat
  | [a, b, c, d] => [a * 256 + b, c * 256 + d]
  | _ => []

/-- `read_groups`, with room for `n` more groups: the groups, and whether the last two are an
    IPv4 address. -/
def readGroups (first : Bool) : Nat → List Char → (List Nat × Bool) × List Char
  | 0, cs => (([], false), cs)
  | n + 1, cs =>
      match (if 0 < n then readSeparator ':' first readIpv4 cs else none) with
      | some (octets, cs) => ((groupsOf octets, true), cs)
      | none =>
          match readSeparator ':' first readGroup cs with
          | none => (([], false), cs)
          | some (group, cs) =>
              let ((groups, ipv4), cs) := readGroups false n cs
              ((group :: groups, ipv4), cs)

/-- `read_ipv6_addr`. -/
def readIpv6 (cs : List Char) : Option (List Nat × List Char) :=
  let ((head, ipv4), cs) := readGroups true 8 cs
  if head.length = 8 then some (head, cs)
  else if ipv4 then none
  else do
    let cs ← readGivenChar ':' cs
    let cs ← readGivenChar ':' cs
    let ((tail, _), cs) := readGroups true (8 - (head.length + 1)) cs
    return (head ++ List.replicate (8 - head.length - tail.length) 0 ++ tail, cs)

/-- `parse::<IpAddr>()`. -/
def parse (cs : List Char) : Option IpAddr :=
  match readIpv4 cs with
  | some (octets, []) => some (.v4 octets)
  | some (_, _ :: _) => none
  | none =>
      match readIpv6 cs with
      | some (groups, []) => some (.v6 groups)
      | _ => none

example : parse "::ffff:10.0.0.5".toList = some (.v6 [0, 0, 0, 0, 0, 0xFFFF, 0xA00, 5]) := by
  decide +kernel

/-! ## What an address is made of -/

/-- The text is read up to `rest`, and what was read consists of such characters. -/
def Takes (ok : Char → Prop) (cs rest : List Char) : Prop :=
  ∃ text, cs = text ++ rest ∧ ∀ c ∈ text, ok c

section Takes

variable {ok ok' : Char → Prop} {cs mid rest : List Char} {first : Bool}

theorem Takes.refl (cs : List Char) : Takes ok cs cs := ⟨[], rfl, by simp⟩

theorem Takes.trans (h : Takes ok cs mid) (h' : Takes ok mid rest) : Takes ok cs rest := by
  obtain ⟨text, rfl, hok⟩ := h
  obtain ⟨text', rfl, hok'⟩ := h'
  refine ⟨text ++ text', (List.append_assoc _ _ _).symm, ?_⟩
  intro c hc
  rcases List.mem_append.mp hc with hc | hc
  · exact hok c hc
  · exact hok' c hc

theorem Takes.mono (h : Takes ok cs rest) (himp : ∀ c, ok c → ok' c) : Takes ok' cs rest := by
  obtain ⟨text, rfl, hok⟩ := h
  exact ⟨text, rfl, fun c hc => himp c (hok c hc)⟩

theorem Takes.all (h : Takes ok cs []) : ∀ c ∈ cs, ok c := by
  obtain ⟨text, rfl, hok⟩ := h
  simpa using hok

/-- A digit or a dot. -/
def InIpv4 (c : Char) : Prop := (decimal c).isSome ∨ c = '.'

/-- A hexadecimal digit, a colon or a dot. -/
def InIpv6 (c : Char) : Prop := (hexadecimal c).isSome ∨ c = ':' ∨ c = '.'

theorem hexadecimal_of_decimal {c : Char} (h : (decimal c).isSome) : (hexadecimal c).isSome := by
  unfold hexadecimal
  split
  · rfl
  · split
    · rfl
    · exact h

theorem InIpv4.inIpv6 {c : Char} (h : InIpv4 c) : InIpv6 c := by
  rcases h with h | h
  · exact Or.inl (hexadecimal_of_decimal h)
  · exact Or.inr (Or.inr h)

theorem takes_takeWhile (p : Char → Bool) (hok : ∀ c, p c = true → ok c) :
    Takes ok cs (cs.dropWhile p) :=
  ⟨cs.takeWhile p, List.takeWhile_append_dropWhile.symm,
    fun c hc => hok c (List.mem_takeWhile_imp hc)⟩

theorem readGivenChar_eq_some {c : Char} : readGivenChar c cs = some rest ↔ cs = c :: rest := by
  cases cs with
  | nil => simp [readGivenChar]
  | cons c' cs => simp [readGivenChar]

theorem readOctet_takes {octet : Nat} (h : readOctet cs = some (octet, rest)) :
    Takes InIpv4 cs rest := by
  unfold readOctet at h
  dsimp only at h
  split at h
  · cases h
  · split at h
    · cases h
      exact takes_takeWhile _ fun c hc => Or.inl hc
    · cases h

theorem readGroup_takes {group : Nat} (h : readGroup cs = some (group, rest)) :
    Takes InIpv6 cs rest := by
  unfold readGroup at h
  dsimp only at h
  split at h
  · cases h
  · cases h
    exact takes_takeWhile _ fun c hc => Or.inl hc

theorem readSeparator_takes {α : Type} {c : Char} {read : List Char → Option (α × List Char)}
    {x : α} (hc : ok c)
    (hread : ∀ {cs rest}, read cs = some (x, rest) → Takes ok cs rest)
    (h : readSeparator c first read cs = some (x, rest)) :
    Takes ok cs rest ∧ (first = false → ∃ tail, cs = c :: tail ∧ Takes ok tail rest) := by
  unfold readSeparator at h
  split at h
  · rename_i hfirst
    refine ⟨hread h, fun hnot => ?_⟩
    rw [hnot] at hfirst
    cases hfirst
  · obtain ⟨tail, hgiven, htail⟩ := Option.bind_eq_some_iff.mp h
    obtain rfl := readGivenChar_eq_some.mp hgiven
    have htakes := hread htail
    exact ⟨Takes.trans ⟨[c], rfl, by simpa using hc⟩ htakes, fun _ => ⟨tail, rfl, htakes⟩⟩

theorem readOctets_takes : ∀ {n : Nat} {first : Bool} {cs rest : List Char} {octets : List Nat},
    readOctets first n cs = some (octets, rest) → Takes InIpv4 cs rest
  | 0, _, cs, rest, octets, h => by
      cases h
      exact Takes.refl _
  | n + 1, first, cs, rest, octets, h => by
      unfold readOctets at h
      obtain ⟨⟨octet, mid⟩, hone, h⟩ := Option.bind_eq_some_iff.mp h
      obtain ⟨⟨more, end'⟩, hmore, h⟩ := Option.bind_eq_some_iff.mp h
      cases h
      exact ((readSeparator_takes (Or.inr rfl) readOctet_takes hone).1).trans
        (readOctets_takes hmore)

theorem readIpv4_takes {octets : List Nat} (h : readIpv4 cs = some (octets, rest)) :
    Takes InIpv4 cs rest := readOctets_takes h

theorem length_groupsOf_le (octets : List Nat) : (groupsOf octets).length ≤ 2 := by
  unfold groupsOf
  split <;> simp

/-- Groups that do not come first begin with a colon. -/
theorem readGroups_takes : ∀ {n : Nat} {first : Bool} {cs rest : List Char} {groups : List Nat}
    {ipv4 : Bool}, readGroups first n cs = ((groups, ipv4), rest) →
    Takes InIpv6 cs rest ∧ (first = false → groups ≠ [] →
      ∃ tail, cs = ':' :: tail ∧ Takes InIpv6 tail rest)
  | 0, _, cs, rest, groups, ipv4, h => by
      cases h
      exact ⟨Takes.refl _, fun _ hne => absurd rfl hne⟩
  | n + 1, first, cs, rest, groups, ipv4, h => by
      unfold readGroups at h
      split at h
      · rename_i octets mid hipv4
        cases h
        split at hipv4
        · have hread : ∀ {cs rest}, readIpv4 cs = some (octets, rest) → Takes InIpv6 cs rest :=
            fun hr => (readIpv4_takes hr).mono fun _ => InIpv4.inIpv6
          obtain ⟨htakes, hcolon⟩ := readSeparator_takes (Or.inr (Or.inl rfl)) hread hipv4
          exact ⟨htakes, fun hfirst _ => hcolon hfirst⟩
        · cases hipv4
      · split at h
        · cases h
          exact ⟨Takes.refl _, fun _ hne => absurd rfl hne⟩
        · rename_i group mid hgroup
          cases hrest : readGroups false n mid with
          | mk found end' =>
            obtain ⟨more, ipv4'⟩ := found
            rw [hrest] at h
            cases h
            obtain ⟨htakes, hcolon⟩ :=
              readSeparator_takes (Or.inr (Or.inl rfl)) readGroup_takes hgroup
            have hmore := (readGroups_takes hrest).1
            refine ⟨htakes.trans hmore, fun hfirst _ => ?_⟩
            obtain ⟨tail, rfl, htail⟩ := hcolon hfirst
            exact ⟨tail, rfl, htail.trans hmore⟩

/-- More than two groups are separated. -/
theorem colon_of_groups {n : Nat} {groups : List Nat} {ipv4 : Bool}
    (h : readGroups first (n + 1) cs = ((groups, ipv4), rest)) (hmany : 2 < groups.length) :
    ':' ∈ cs := by
  unfold readGroups at h
  split at h
  · rename_i octets mid _
    cases h
    have hle := length_groupsOf_le octets
    omega
  · split at h
    · cases h
      cases hmany
    · rename_i group mid hgroup
      cases hrest : readGroups false n mid with
      | mk found end' =>
        obtain ⟨more, ipv4'⟩ := found
        rw [hrest] at h
        cases h
        have hmore : more ≠ [] := by
          rintro rfl
          simp at hmany
        obtain ⟨tail, rfl, -⟩ := (readGroups_takes hrest).2 rfl hmore
        obtain ⟨text, rfl, -⟩ :=
          (readSeparator_takes (Or.inr (Or.inl rfl)) readGroup_takes hgroup).1
        simp

theorem readIpv6_takes {groups : List Nat} (h : readIpv6 cs = some (groups, rest)) :
    Takes InIpv6 cs rest ∧ ':' ∈ cs := by
  unfold readIpv6 at h
  cases hhead : readGroups true 8 cs with
  | mk found mid =>
    obtain ⟨head, ipv4⟩ := found
    rw [hhead] at h
    dsimp only at h
    have htakes := (readGroups_takes hhead).1
    split at h
    · rename_i hlength
      cases h
      exact ⟨htakes, colon_of_groups hhead (by omega)⟩
    · split at h
      · cases h
      · obtain ⟨mid', hgiven, hback⟩ := Option.bind_eq_some_iff.mp h
        obtain ⟨mid'', hgiven', htail⟩ := Option.bind_eq_some_iff.mp hback
        have hmid := readGivenChar_eq_some.mp hgiven
        have hmid' := readGivenChar_eq_some.mp hgiven'
        cases htail
        have hback := (@readGroups_takes (8 - (head.length + 1)) true mid'' _ _ _ rfl).1
        have hcolons : Takes InIpv6 mid mid'' :=
          ⟨[':', ':'], by rw [hmid, hmid']; rfl, by simp [InIpv6]⟩
        refine ⟨(htakes.trans hcolons).trans hback, ?_⟩
        obtain ⟨text, rfl, -⟩ := htakes
        rw [hmid]
        simp

end Takes

/-- The text of an IPv4 address consists of digits and dots. -/
theorem chars_of_v4 {cs : List Char} {octets : List Nat} (h : parse cs = some (.v4 octets)) :
    ∀ c ∈ cs, InIpv4 c := by
  unfold parse at h
  split at h
  · rename_i hread
    exact (readIpv4_takes hread).all
  · cases h
  · split at h <;> cases h

/-- The text of an IPv6 address consists of hexadecimal digits, colons and dots, and has a
    colon. -/
theorem chars_of_v6 {cs : List Char} {groups : List Nat} (h : parse cs = some (.v6 groups)) :
    (∀ c ∈ cs, InIpv6 c) ∧ ':' ∈ cs := by
  unfold parse at h
  split at h
  · cases h
  · cases h
  · split at h
    · rename_i hread
      obtain ⟨htakes, hcolon⟩ := readIpv6_takes hread
      exact ⟨htakes.all, hcolon⟩
    · cases h

end Net
