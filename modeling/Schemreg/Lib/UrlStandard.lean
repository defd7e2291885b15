import Mathlib.Data.List.DropRight
import Mathlib.Data.List.TakeWhile

/-
  The scheme and the authority of an absolute URL, as the URL Standard's basic parser reads them
  for the schemes that an HTTP client accepts.

  The text is trimmed of blanks and controls, and tabs and newlines inside it are ignored. The
  scheme is matched in any case. Any number of slashes and backslashes, also none, may follow
  it, and then comes the authority, which a slash, a backslash, `?` or `#` ends. What stands
  before the last `@` of the authority is user information, unless it is empty. The host ends at
  the first colon outside brackets. What the text of a host means is a parameter (`HostParser`).

  `read_eq_some_iff` says which texts spell a URL.
-/

namespace UrlStandard

inductive Scheme where
  | http
  | https
  deriving DecidableEq, Repr

/-- A URL, up to its port. -/
structure Url (Host : Type) where
  scheme : Scheme
  userInfo : Option (List Char)
  host : Host
  deriving DecidableEq

abbrev HostParser (Host : Type) := List Char → Option Host

/-! ## The text -/

/-- A C0 control or a blank. -/
def isBlank (c : Char) : Bool := c.toNat ≤ 0x20

def isTabOrNewline (c : Char) : Bool := c = '\t' || c = '\n' || c = '\r'

/-- The text without surrounding blanks, and without tabs and newlines. -/
def clean (cs : List Char) : List Char :=
  ((cs.dropWhile isBlank).rdropWhile isBlank).filter fun c => !isTabOrNewline c

/-- A character of a scheme after the first. -/
def isSchemeChar (c : Char) : Bool := c.isAlphanum || c = '+' || c = '-' || c = '.'

/-- The scheme, and what follows its colon. -/
def readScheme (cs : List Char) : Option (Scheme × List Char) :=
  match cs.dropWhile isSchemeChar with
  | ':' :: rest =>
      let name := (cs.takeWhile isSchemeChar).map Char.toLower
      if name = "http".toList then some (.http, rest)
      else if name = "https".toList then some (.https, rest)
      else none
  | _ => none

def isSlash (c : Char) : Bool := c = '/' || c = '\\'

def endsAuthority (c : Char) : Bool := isSlash c || c = '?' || c = '#'

/-- The authority of what follows the scheme. -/
def authority (rest : List Char) : List Char :=
  (rest.dropWhile isSlash).takeWhile fun c => !endsAuthority c

/-- The user information of what stands before the `@`. An empty user name with an empty password
    is none. -/
def keptInfo (info : List Char) : Option (List Char) :=
  if info = [] ∨ info = [':'] then none else some info

/-- The user information before the last `@`, and what follows. -/
def splitUserInfo (authority : List Char) : Option (List Char) × List Char :=
  if '@' ∈ authority then
    (keptInfo (authority.rdropWhile (· ≠ '@')).dropLast, authority.rtakeWhile (· ≠ '@'))
  else (none, authority)

/-- The text of the host, and the port with its colon. -/
def splitPort : Bool → List Char → List Char × List Char
  | _, [] => ([], [])
  | brackets, c :: cs =>
      if c = ':' ∧ brackets = false then ([], c :: cs)
      else
        let split := splitPort (if c = '[' then true else if c = ']' then false else brackets) cs
        (c :: split.1, split.2)

/-- The value of a port. -/
def portNumber (digits : List Char) : Nat :=
  digits.foldl (fun n c => n * 10 + (c.toNat - 0x30)) 0

/-- No port, or digits that number one. -/
def validPort : List Char → Bool
  | [] => true
  | _ :: digits => digits.all Char.isDigit && portNumber digits ≤ 65535

variable {Host : Type}

/-- The user information and the host of an authority. -/
def readAuthority (parseHost : HostParser Host) (authority : List Char) :
    Option (Option (List Char) × Host) :=
  let (userInfo, hostPort) := splitUserInfo authority
  let (host, port) := splitPort false hostPort
  if host = [] ∨ validPort port = false then none
  else (parseHost host).map fun host => (userInfo, host)

/-- The URL that the text stands for. -/
def read (parseHost : HostParser Host) (text : String) : Option (Url Host) := do
  let (scheme, rest) ← readScheme (clean text.toList)
  let (userInfo, host) ← readAuthority parseHost (authority rest)
  return ⟨scheme, userInfo, host⟩

example : (read some " HTTP:\\\\a.example\t.com:80/x@y").map Url.host =
    some "a.example.com".toList := by decide +kernel

/-! ## Texts that begin with `http://` -/

section Http

variable {front tail : List Char} {d : Char}

/-- The rest of a text, without blanks at its end, and without tabs and newlines. -/
def trimEnd (cs : List Char) : List Char :=
  (cs.rdropWhile isBlank).filter fun c => !isTabOrNewline c

/-- What the rest of a text adds to an authority. -/
def restOfAuthority (tail : List Char) : List Char :=
  (trimEnd tail).takeWhile fun c => !endsAuthority c

/-- A character that neither the trimming nor the end of the authority takes away. -/
structure Kept (c : Char) : Prop where
  notBlank : isBlank c = false
  inside : endsAuthority c = false

theorem not_tab_of_not_blank {c : Char} (h : isBlank c = false) : isTabOrNewline c = false := by
  unfold isBlank at h
  unfold isTabOrNewline
  have hgt : ¬ c.toNat ≤ 0x20 := of_decide_eq_false h
  have htab : c ≠ '\t' := by
    rintro rfl
    exact hgt (by decide)
  have hnewline : c ≠ '\n' := by
    rintro rfl
    exact hgt (by decide)
  have hreturn : c ≠ '\r' := by
    rintro rfl
    exact hgt (by decide)
  simp [htab, hnewline, hreturn]

theorem not_blank_of_ends (h : endsAuthority d = true) : isBlank d = false := by
  simp only [endsAuthority, isSlash, Bool.or_eq_true, decide_eq_true_eq] at h
  rcases h with ((rfl | rfl) | rfl) | rfl <;> decide

theorem rdropWhile_append_cons {p : Char → Bool} (front back : List Char) (h : p d = false) :
    (front ++ d :: back).rdropWhile p = front ++ d :: back.rdropWhile p := by
  unfold List.rdropWhile
  rw [List.reverse_append, List.reverse_cons, List.append_assoc, List.dropWhile_append]
  split
  · rename_i hempty
    rw [List.isEmpty_iff] at hempty
    simp [h, hempty]
  · simp

theorem trimEnd_append_cons (front back : List Char) (h : isBlank d = false) :
    trimEnd (front ++ d :: back) =
      (front.filter fun c => !isTabOrNewline c) ++ d :: trimEnd back := by
  unfold trimEnd
  rw [rdropWhile_append_cons front back h, List.filter_append,
    List.filter_cons_of_pos (by simp [not_tab_of_not_blank h])]

theorem restOfAuthority_cons (h : Kept d) :
    restOfAuthority (d :: tail) = d :: restOfAuthority tail := by
  have htrim : trimEnd (d :: tail) = d :: trimEnd tail := trimEnd_append_cons [] tail h.notBlank
  unfold restOfAuthority
  rw [htrim]
  simp [h.inside]

theorem restOfAuthority_ends (h : endsAuthority d = true) : restOfAuthority (d :: tail) = [] := by
  have htrim : trimEnd (d :: tail) = d :: trimEnd tail :=
    trimEnd_append_cons [] tail (not_blank_of_ends h)
  unfold restOfAuthority
  rw [htrim]
  simp [h]

/-- What follows an authority. -/
theorem head_of_rest (rest : List Char) :
    (rest.dropWhile fun c => !endsAuthority c) = [] ∨ ∃ c tail,
      (rest.dropWhile fun c => !endsAuthority c) = c :: tail ∧ endsAuthority c = true := by
  cases hmore : rest.dropWhile fun c => !endsAuthority c with
  | nil => exact Or.inl rfl
  | cons c tail =>
    have hhead := List.head?_dropWhile_not (fun c => !endsAuthority c) rest
    rw [hmore] at hhead
    exact Or.inr ⟨c, tail, rfl, by simpa using hhead⟩

/-- Nothing comes into the authority from behind its end. -/
theorem mem_restOfAuthority {c : Char} (h : c ∈ restOfAuthority tail) :
    c ∈ tail.takeWhile fun c => !endsAuthority c := by
  have hsplit := List.takeWhile_append_dropWhile (p := fun c => !endsAuthority c) (l := tail)
  rcases head_of_rest tail with hrest | ⟨d, back, hrest, hd⟩
  · rw [hrest, List.append_nil] at hsplit
    rw [hsplit]
    have hmem := List.mem_of_mem_filter ((List.takeWhile_sublist _).mem h)
    exact (List.rdropWhile_prefix _ _).subset hmem
  · rw [hrest] at hsplit
    rw [← hsplit] at h
    unfold restOfAuthority at h
    have hfront : ∀ c ∈ (tail.takeWhile fun c => !endsAuthority c).filter
        fun c => !isTabOrNewline c, (!endsAuthority c) = true := by
      intro c' hc'
      exact List.mem_takeWhile_imp (p := fun c => !endsAuthority c) (List.mem_of_mem_filter hc')
    rw [trimEnd_append_cons _ _ (not_blank_of_ends hd), List.takeWhile_append_of_pos hfront,
      List.takeWhile_cons_of_neg (by simp [hd]), List.append_nil] at h
    exact List.mem_of_mem_filter h

/-- Trimming leaves a text that goes on with something kept. -/
theorem clean_http (hfront : front ≠ []) (hkept : ∀ c ∈ front, Kept c) :
    clean ("http://".toList ++ (front ++ tail)) = "http://".toList ++ (front ++ trimEnd tail) := by
  obtain ⟨init, last, rfl⟩ : ∃ init last, front = init ++ [last] :=
    ⟨_, _, (List.dropLast_append_getLast hfront).symm⟩
  have hlast : isBlank last = false := (hkept last (by simp)).notBlank
  have hinit : (init.filter fun c => !isTabOrNewline c) = init := by
    rw [List.filter_eq_self]
    intro c hc
    simp [not_tab_of_not_blank (hkept c (by simp [hc])).notBlank]
  have htrim := trimEnd_append_cons ("http://".toList ++ init) tail hlast
  have hhttp : ("http://".toList.filter fun c => !isTabOrNewline c) = "http://".toList := by decide
  rw [List.filter_append, hinit, hhttp] at htrim
  have hleading : ("http://".toList ++ (init ++ [last] ++ tail)).dropWhile isBlank =
      ("http://".toList ++ init) ++ last :: tail := by
    simp [isBlank]
  unfold clean
  rw [hleading]
  show trimEnd _ = _
  rw [htrim]
  simp

/-- The authority of a text that begins with `http://` and something kept. -/
theorem read_http (parseHost : HostParser Host) (tail : List Char) (hfront : front ≠ [])
    (hkept : ∀ c ∈ front, Kept c) :
    read parseHost (String.ofList ("http://".toList ++ (front ++ tail))) =
      (readAuthority parseHost (front ++ restOfAuthority tail)).map
        fun found => ⟨.http, found.1, found.2⟩ := by
  have hscheme : readScheme ("http://".toList ++ (front ++ trimEnd tail)) =
      some (.http, '/' :: '/' :: (front ++ trimEnd tail)) := rfl
  have hauthority : authority ('/' :: '/' :: (front ++ trimEnd tail)) =
      front ++ restOfAuthority tail := by
    have hkeep : ∀ c ∈ front, (!endsAuthority c) = true := fun c hc => by simp [(hkept c hc).inside]
    have hskip : ('/' :: '/' :: (front ++ trimEnd tail)).dropWhile isSlash =
        front ++ trimEnd tail := by
      obtain ⟨c, rest, rfl⟩ := List.exists_cons_of_ne_nil hfront
      have hc : isSlash c = false := by
        have hinside := (hkept c List.mem_cons_self).inside
        unfold endsAuthority at hinside
        simp only [Bool.or_eq_false_iff] at hinside
        exact hinside.1.1
      simp [List.dropWhile, hc, show isSlash '/' = true from rfl]
    unfold authority
    rw [hskip, List.takeWhile_append_of_pos hkeep]
    rfl
  unfold read
  rw [String.toList_ofList, clean_http hfront hkept, hscheme]
  dsimp only [bind, Option.bind]
  rw [hauthority]
  cases readAuthority parseHost (front ++ restOfAuthority tail) <;> rfl

end Http

/-! ## Hosts and ports -/

theorem splitUserInfo_of_not_mem {authority : List Char} (h : '@' ∉ authority) :
    splitUserInfo authority = (none, authority) := by
  unfold splitUserInfo
  rw [if_neg h]

/-- A host without brackets ends at the colon. -/
theorem splitPort_plain : ∀ {host port : List Char}, (∀ c ∈ host, c ≠ ':' ∧ c ≠ '[' ∧ c ≠ ']') →
    port = [] ∨ (∃ digits, port = ':' :: digits) → splitPort false (host ++ port) = (host, port)
  | [], port, _, hport => by
      rcases hport with rfl | ⟨digits, rfl⟩
      · rfl
      · rfl
  | c :: host, port, hhost, hport => by
      obtain ⟨hcolon, hopen, hclose⟩ := hhost c List.mem_cons_self
      have ih := splitPort_plain (fun c' hc' => hhost c' (List.mem_cons_of_mem _ hc')) hport
      rw [List.cons_append]
      unfold splitPort
      rw [if_neg fun h => hcolon h.1, if_neg hopen, if_neg hclose, ih]

/-- Inside brackets there is no port. -/
theorem splitPort_brackets (rest : List Char) : ∀ {inner : List Char}, (∀ c ∈ inner, c ≠ ']') →
    splitPort true (inner ++ rest) = (inner ++ (splitPort true rest).1, (splitPort true rest).2)
  | [], _ => rfl
  | c :: inner, hinner => by
      have hclose := hinner c List.mem_cons_self
      have ih := splitPort_brackets rest fun c' hc' => hinner c' (List.mem_cons_of_mem _ hc')
      rw [List.cons_append]
      conv_lhs => unfold splitPort
      rw [if_neg (by simp), if_neg hclose, ite_self, ih]
      rfl

/-! ## Spellings -/

def Scheme.name : Scheme → List Char
  | .http => "http".toList
  | .https => "https".toList

/-- The parts that a URL is written in. What stands before the `@` comes with it, and the port with
    its colon. -/
structure Spelling where
  name : List Char
  slashes : List Char
  user : List Char
  host : List Char
  port : List Char
  rest : List Char

namespace Spelling

def text (s : Spelling) : List Char :=
  s.name ++ ':' :: (s.slashes ++ (s.user ++ (s.host ++ (s.port ++ s.rest))))

/-- The user information, if it is not empty. -/
def userInfo (s : Spelling) : Option (List Char) := keptInfo s.user.dropLast

/-- The parts are where the standard looks for them. -/
structure Standard (s : Spelling) : Prop where
  slashes : ∀ c ∈ s.slashes, isSlash c = true
  inside : ∀ c ∈ s.user ++ (s.host ++ s.port), endsAuthority c = false
  user : s.user = [] ∨ ∃ info, s.user = info ++ ['@']
  noAt : '@' ∉ s.host ++ s.port
  host_ne : s.host ≠ []
  split : splitPort false (s.host ++ s.port) = (s.host, s.port)
  port : validPort s.port = true
  rest : s.rest = [] ∨ ∃ c tail, s.rest = c :: tail ∧ endsAuthority c = true

end Spelling

theorem schemeChar_of_toLower {c : Char} {scheme : Scheme} (h : c.toLower ∈ scheme.name) :
    isSchemeChar c = true := by
  have hletters : ∀ d ∈ scheme.name, isSchemeChar d = true := by
    cases scheme <;> exact List.all_eq_true.mp (by decide)
  have hlower := hletters _ h
  unfold Char.toLower at hlower
  split at hlower
  · rename_i hupper
    have halpha : c.isUpper = true := by
      unfold Char.isUpper
      simpa using hupper
    have halnum : c.isAlphanum = true := by
      show ((c.isUpper || c.isLower) || c.isDigit) = true
      rw [halpha]
      rfl
    unfold isSchemeChar
    rw [halnum]
    rfl
  · exact hlower

/-- A scheme is a name, in any case, before the first colon. -/
theorem readScheme_eq_some {cs rest : List Char} {scheme : Scheme} :
    readScheme cs = some (scheme, rest) ↔
      ∃ name, cs = name ++ ':' :: rest ∧ name.map Char.toLower = scheme.name := by
  constructor
  · intro h
    have hcs := List.takeWhile_append_dropWhile (p := isSchemeChar) (l := cs)
    unfold readScheme at h
    split at h
    · rename_i tail htail
      rw [htail] at hcs
      dsimp only at h
      split at h
      · rename_i hname
        cases h
        exact ⟨_, hcs.symm, hname⟩
      · split at h
        · rename_i hname
          cases h
          exact ⟨_, hcs.symm, hname⟩
        · cases h
    · cases h
  · rintro ⟨name, rfl, hname⟩
    have hchars : ∀ c ∈ name, isSchemeChar c = true := by
      intro c hc
      have hlower : c.toLower ∈ scheme.name := hname ▸ List.mem_map_of_mem hc
      exact schemeChar_of_toLower hlower
    unfold readScheme
    rw [List.dropWhile_append_of_pos hchars, List.takeWhile_append_of_pos hchars,
      List.dropWhile_cons_of_neg (by decide), List.takeWhile_cons_of_neg (by decide)]
    dsimp only
    rw [List.append_nil, hname]
    cases scheme <;> rfl

theorem splitPort_append : ∀ (brackets : Bool) (cs : List Char),
    (splitPort brackets cs).1 ++ (splitPort brackets cs).2 = cs
  | _, [] => rfl
  | brackets, c :: cs => by
      unfold splitPort
      split
      · rfl
      · exact congrArg (c :: ·) (splitPort_append _ cs)

/-- What is split at the last `@`. -/
theorem splitUserInfo_append {user hostPort : List Char}
    (huser : user = [] ∨ ∃ info, user = info ++ ['@']) (hfree : '@' ∉ hostPort) :
    splitUserInfo (user ++ hostPort) = (keptInfo user.dropLast, hostPort) := by
  rcases huser with rfl | ⟨info, rfl⟩
  · exact splitUserInfo_of_not_mem hfree
  · have hall : ∀ c ∈ hostPort, decide (c ≠ '@') = true := fun c hc =>
      decide_eq_true fun h => hfree (h ▸ hc)
    have hdrop : (info ++ ['@'] ++ hostPort).rdropWhile (· ≠ '@') = info ++ ['@'] := by
      rw [List.append_assoc, List.singleton_append, rdropWhile_append_cons _ _ (by decide),
        List.rdropWhile_eq_nil_iff.mpr hall]
    have hboth := List.rdropWhile_append_rtakeWhile (p := fun c => decide (c ≠ '@'))
      (l := info ++ ['@'] ++ hostPort)
    rw [hdrop] at hboth
    unfold splitUserInfo
    rw [if_pos (by simp), hdrop, List.append_cancel_left hboth]

/-- Every authority has a last `@`, or none. -/
theorem exists_lastAt (authority : List Char) : ∃ user hostPort, authority = user ++ hostPort ∧
    (user = [] ∨ ∃ info, user = info ++ ['@']) ∧ '@' ∉ hostPort := by
  refine ⟨authority.rdropWhile (· ≠ '@'), authority.rtakeWhile (· ≠ '@'),
    List.rdropWhile_append_rtakeWhile.symm, ?_, fun hmem => ?_⟩
  · by_cases hnil : authority.rdropWhile (· ≠ '@') = []
    · exact Or.inl hnil
    · have hlast := List.rdropWhile_last_not (fun c => decide (c ≠ '@')) authority hnil
      have hat : (authority.rdropWhile (· ≠ '@')).getLast hnil = '@' := by simpa using hlast
      refine Or.inr ⟨(authority.rdropWhile (· ≠ '@')).dropLast, ?_⟩
      conv_lhs => rw [← List.dropLast_append_getLast hnil, hat]
  · have hne := List.mem_rtakeWhile_imp hmem
    simp at hne

namespace Spelling.Standard

variable {s : Spelling} (hs : s.Standard)
include hs

theorem authority_eq :
    authority (s.slashes ++ (s.user ++ (s.host ++ (s.port ++ s.rest)))) =
      s.user ++ (s.host ++ s.port) := by
  have hinside : ∀ c ∈ s.user ++ (s.host ++ s.port), (!endsAuthority c) = true := fun c hc => by
    simp [hs.inside c hc]
  obtain ⟨first, tail, htail⟩ := List.exists_cons_of_ne_nil
    (show s.user ++ (s.host ++ s.port) ≠ [] by simp [hs.host_ne])
  have hfirst : isSlash first = false := by
    have h := hs.inside first (by simp [htail])
    unfold endsAuthority at h
    simp only [Bool.or_eq_false_iff] at h
    exact h.1.1
  have htext : s.user ++ (s.host ++ (s.port ++ s.rest)) =
      s.user ++ (s.host ++ s.port) ++ s.rest := by simp
  have hskip : (s.slashes ++ (s.user ++ (s.host ++ (s.port ++ s.rest)))).dropWhile isSlash =
      s.user ++ (s.host ++ s.port) ++ s.rest := by
    rw [List.dropWhile_append_of_pos hs.slashes, htext, htail, List.cons_append,
      List.dropWhile_cons_of_neg (by simp [hfirst])]
  unfold authority
  rw [hskip, List.takeWhile_append_of_pos hinside]
  rcases hs.rest with hrest | ⟨c, tail, hrest, hc⟩
  · rw [hrest, List.takeWhile_nil, List.append_nil]
  · rw [hrest, List.takeWhile_cons_of_neg (by simp [hc]), List.append_nil]

theorem readAuthority_eq {parseHost : HostParser Host} {host : Host}
    (hhost : parseHost s.host = some host) :
    readAuthority parseHost (s.user ++ (s.host ++ s.port)) = some (s.userInfo, host) := by
  unfold readAuthority
  rw [splitUserInfo_append hs.user hs.noAt]
  dsimp only
  rw [hs.split]
  dsimp only
  rw [if_neg (by simp [hs.host_ne, hs.port]), hhost]
  rfl

end Spelling.Standard

/-- The parts of an authority that is read. -/
theorem exists_of_readAuthority {parseHost : HostParser Host} {authority : List Char}
    {userInfo : Option (List Char)} {host : Host}
    (h : readAuthority parseHost authority = some (userInfo, host)) :
    ∃ user text port, authority = user ++ (text ++ port) ∧
      (user = [] ∨ ∃ info, user = info ++ ['@']) ∧ '@' ∉ text ++ port ∧ text ≠ [] ∧
      splitPort false (text ++ port) = (text, port) ∧ validPort port = true ∧
      parseHost text = some host ∧ keptInfo user.dropLast = userInfo := by
  obtain ⟨user, hostPort, rfl, huser, hfree⟩ := exists_lastAt authority
  unfold readAuthority at h
  rw [splitUserInfo_append huser hfree] at h
  dsimp only at h
  split at h
  · cases h
  · rename_i hvalid
    obtain ⟨parsed, hparsed, heq⟩ := Option.map_eq_some_iff.mp h
    cases heq
    have hport := splitPort_append false hostPort
    refine ⟨user, (splitPort false hostPort).1, (splitPort false hostPort).2, by rw [hport], huser,
      by rwa [hport], fun hnil => hvalid (Or.inl hnil), by rw [hport], ?_, hparsed, rfl⟩
    by_contra hbad
    exact hvalid (Or.inr (Bool.eq_false_iff.mpr hbad))

/-- The texts that a URL has: its parts are where the standard looks for them, and the host parser
    accepts the host. -/
theorem read_eq_some_iff {parseHost : HostParser Host} {text : String} {url : Url Host} :
    read parseHost text = some url ↔ ∃ s : Spelling, s.Standard ∧ clean text.toList = s.text ∧
      s.name.map Char.toLower = url.scheme.name ∧ parseHost s.host = some url.host ∧
        s.userInfo = url.userInfo := by
  constructor
  · intro h
    obtain ⟨⟨scheme, rest⟩, hscheme, h⟩ := Option.bind_eq_some_iff.mp h
    obtain ⟨⟨userInfo, host⟩, hauthority, h⟩ := Option.bind_eq_some_iff.mp h
    cases h
    obtain ⟨name, hclean, hname⟩ := readScheme_eq_some.mp hscheme
    obtain ⟨user, host, port, hparts, huser, hfree, hne, hsplit, hport, hhost, hinfo⟩ :=
      exists_of_readAuthority hauthority
    have hslashes := List.takeWhile_append_dropWhile (p := isSlash) (l := rest)
    have hafter := List.takeWhile_append_dropWhile (p := fun c => !endsAuthority c)
      (l := rest.dropWhile isSlash)
    have hinside : ∀ c ∈ user ++ (host ++ port), endsAuthority c = false := by
      intro c hc
      rw [← hparts] at hc
      simpa using List.mem_takeWhile_imp (p := fun c => !endsAuthority c) hc
    refine ⟨⟨name, rest.takeWhile isSlash, user, host, port,
      (rest.dropWhile isSlash).dropWhile fun c => !endsAuthority c⟩,
      ⟨fun c hc => List.mem_takeWhile_imp hc, hinside, huser, hfree, hne, hsplit, hport,
        head_of_rest _⟩, ?_, hname, hhost, hinfo⟩
    have hrest : rest = rest.takeWhile isSlash ++ (user ++ (host ++ port) ++
        (rest.dropWhile isSlash).dropWhile fun c => !endsAuthority c) := by
      conv_lhs => rw [← hslashes, ← hafter]
      rw [← hparts]
      rfl
    rw [hclean]
    conv_lhs => rw [hrest, List.append_assoc, List.append_assoc]
    rfl
  · rintro ⟨s, hs, hclean, hname, hhost, huser⟩
    have hscheme := readScheme_eq_some.mpr ⟨s.name, hclean, hname⟩
    unfold read
    rw [hscheme]
    dsimp only [bind, Option.bind]
    rw [hs.authority_eq, hs.readAuthority_eq hhost]
    dsimp only
    rw [huser]
    rfl

end UrlStandard
