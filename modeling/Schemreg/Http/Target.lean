import Std.Data.String.ToNat
import Schemreg.Http.PathSegment
import Schemreg.Lib.RequestTarget

/-
  What a server reads in a URL that a client has put together.

  It splits the path, decodes the segments once and resolves dot segments. A segment that was
  written for a meaning (`Encodes`) is read as that meaning: a validated subject in its encoding,
  and a text that needs none (`Verbatim`).

  Proved:
  * `Spells.read`: what was put together behind a base URL is read below the place that the base
    URL leads to, if it has no query and no fragment of its own (`LeadsTo`).
  * `Spells.unique`: behind one base URL, whatever it is, one URL is put together from one path
    and one query.
-/

namespace Schemreg.Target

open RequestTarget Utf8

inductive Method where
  | get
  | post
  | put
  | delete
  deriving DecidableEq

/-- A segment of the path, decoded once. -/
def decodeSegment (segment : List Char) : Option String :=
  (fromUtf8 (percentDecode (toUtf8 (String.ofList segment)))).toOption

/-- The segments of the path, decoded and without dot segments, and the query. Nothing stands in
    front of the first slash. -/
def readTarget (target : List Char) : Option (List String × List Char) := do
  let (segments, query) := split target
  let decoded ← (segments.drop 1).mapM decodeSegment
  return (resolveDots "." ".." [] decoded, query)

def readUrl (url : String) : Option (List String × List Char) := readTarget (ofUrl url.toList)

/-- A number below the bound. -/
def readNumber (bound : Nat) (segment : String) : Option Nat :=
  segment.toNat?.filter fun number => number < bound

def readId (segment : String) : Option SchemaId :=
  (readNumber 4294967296 segment).map fun number => ⟨UInt32.ofNat number⟩

/-! ## Segments -/

/-- A segment as it is written, and what it is read as. -/
structure Encodes (written : List Char) (meaning : String) : Prop where
  plain : ∀ c ∈ written, Plain c
  decodes : decodeSegment written = some meaning
  notDots : meaning ≠ "." ∧ meaning ≠ ".."

/-- A text that means itself. -/
structure Verbatim (s : String) : Prop where
  plain : ∀ c ∈ s.toList, Plain c ∧ c ≠ '%'
  notDots : s ≠ "." ∧ s ≠ ".."

theorem Verbatim.of_all {s : String} (plain : s.toList.all fun c => Plain c ∧ c ≠ '%')
    (notDots : s ≠ "." ∧ s ≠ "..") : Verbatim s where
  plain c hc := of_decide_eq_true (List.all_eq_true.mp plain c hc)
  notDots := notDots

theorem Verbatim.encodes {s : String} (h : Verbatim s) : Encodes s.toList s where
  plain c hc := (h.plain c hc).1
  decodes := by
    have hpercent : '%' ∉ s.toList := fun hmem => (h.plain '%' hmem).2 rfl
    unfold decodeSegment
    rw [String.ofList_toList, percentDecode_of_plain (percent_not_mem hpercent), fromUtf8_toUtf8]
    rfl
  notDots := h.notDots

theorem digit_of_mem_repr {n : Nat} {c : Char} (hc : c ∈ n.repr.toList) : c.isDigit = true := by
  rw [Nat.toList_repr] at hc
  exact Nat.isDigit_of_mem_toDigits (by decide) (by decide) hc

theorem repr_ne {n : Nat} {s : String} {c : Char} (hmem : c ∈ s.toList)
    (hdigit : c.isDigit = false) : n.repr ≠ s := by
  rintro rfl
  rw [digit_of_mem_repr hmem] at hdigit
  cases hdigit

theorem readNumber_repr {n bound : Nat} (h : n < bound) : readNumber bound n.repr = some n := by
  unfold readNumber
  rw [Nat.toNat?_repr, Option.filter_some, if_pos (decide_eq_true h)]

theorem readId_toString (id : SchemaId) : readId id.toString = some id := by
  unfold readId SchemaId.toString
  rw [readNumber_repr id.asU32.toNat_lt, Option.map_some, UInt32.ofNat_toNat]

theorem word (s : String) (plain : s.toList.all fun c => Plain c ∧ c ≠ '%')
    (notDots : s ≠ "." ∧ s ≠ "..") : Encodes s.toList s :=
  (Verbatim.of_all plain notDots).encodes

/-! ## Targets -/

section Targets

variable {written : List (List Char)} {meanings mount : List String} {base url : String}
  {query : List Char}

theorem Encodes.all_plain (h : List.Forall₂ Encodes written meanings) :
    ∀ segment ∈ written, ∀ c ∈ segment, Plain c := by
  intro segment hmem
  obtain ⟨meaning, -, hencodes⟩ := exists_right h hmem
  exact hencodes.plain

theorem Encodes.all_decode (h : List.Forall₂ Encodes written meanings) :
    written.mapM decodeSegment = some meanings := by
  induction h with
  | nil => rfl
  | cons hfirst _ ih =>
    rw [List.mapM_cons, hfirst.decodes, ih]
    rfl

theorem Encodes.none_dots (h : List.Forall₂ Encodes written meanings) :
    ∀ meaning ∈ meanings, meaning ≠ "." ∧ meaning ≠ ".." := by
  intro meaning hmem
  obtain ⟨segment, -, hencodes⟩ := exists_right h.flip hmem
  exact hencodes.notDots

theorem readTarget_join (h : List.Forall₂ Encodes written meanings) (query : List Char) :
    readTarget (join written ++ mark query) = some (meanings, query) := by
  unfold readTarget
  rw [split_join_query (Encodes.all_plain h)]
  dsimp only
  rw [List.drop_one, List.tail_cons, Encodes.all_decode h]
  show some (resolveDots "." ".." [] meanings, query) = _
  rw [resolveDots_of_none (Encodes.none_dots h), List.nil_append]

/-- A base URL without a query and a fragment, and the place on the server that it leads to. -/
def LeadsTo (base : String) (mount : List String) : Prop :=
  ∃ scheme authority path, ':' ∉ scheme ∧ (∀ c ∈ authority, Plain c) ∧
    List.Forall₂ Encodes path mount ∧
      base.toList = scheme ++ (':' :: '/' :: '/' :: (authority ++ join path))

/-- A base URL without a path. -/
theorem LeadsTo.root {base : String} (scheme authority : String) (hscheme : ':' ∉ scheme.toList)
    (hauthority : authority.toList.all (fun c => Plain c) = true)
    (hbase : base.toList = scheme.toList ++ ':' :: '/' :: '/' :: authority.toList) :
    LeadsTo base [] :=
  ⟨scheme.toList, authority.toList, [], hscheme,
    fun c hc => of_decide_eq_true (List.all_eq_true.mp hauthority c hc), .nil,
    hbase.trans (by simp [join])⟩

/-- A URL that was put together behind `base`. -/
def Spells (base url : String) (meanings : List String) (query : List Char) : Prop :=
  ∃ written, List.Forall₂ Encodes written meanings ∧ '#' ∉ query ∧
    url.toList = base.toList ++ (join written ++ mark query)

/-- A URL of a path. -/
theorem Spells.path (h : List.Forall₂ Encodes written meanings)
    (hurl : url.toList = base.toList ++ join written) : Spells base url meanings [] :=
  ⟨written, h, List.not_mem_nil, by rw [hurl]; exact (congrArg _ (List.append_nil _)).symm⟩

/-- What is put together behind a base URL is read below the place that this leads to. -/
theorem Spells.read (h : Spells base url meanings query) (hbase : LeadsTo base mount) :
    readUrl url = some (mount ++ meanings, query) := by
  obtain ⟨written, hwritten, hquery, hurl⟩ := h
  obtain ⟨scheme, authority, path, hscheme, hauthority, hpath, htext⟩ := hbase
  have hall := List.rel_append hpath hwritten
  have hjoin : url.toList = scheme ++
      (':' :: '/' :: '/' :: (authority ++ (join (path ++ written) ++ mark query))) := by
    rw [hurl, htext]
    simp [join]
  unfold readUrl
  rw [hjoin, ofUrl_append hscheme hauthority (Encodes.all_plain hall) hquery,
    readTarget_join hall]

/-- A URL was put together from one path and one query. -/
theorem Spells.unique {others : List String} {other : List Char}
    (first : Spells base url meanings query) (second : Spells base url others other) :
    meanings = others ∧ query = other := by
  obtain ⟨written, hwritten, -, hurl⟩ := first
  obtain ⟨again, hagain, -, hurl'⟩ := second
  have htarget := List.append_cancel_left (hurl.symm.trans hurl')
  have hread := readTarget_join hwritten query
  rw [htarget, readTarget_join hagain other] at hread
  exact Prod.mk.inj (Option.some.inj hread.symm)

end Targets

end Schemreg.Target
