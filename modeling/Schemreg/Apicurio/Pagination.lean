import Schemreg.Apicurio.Registry
import Schemreg.Lib.Ascii

/-
  The two listings of the Apicurio client, page by page.

  Both loops keep that what they have collected is what comes of the first `offset` entries
  (`listSubjects_run`, `listVersions_run`): a page is the slice of the list at the offset, and
  the next offset is behind it. They stop at a page that is short, at one that is empty, at
  the reported count or at the ceiling of the caller, and each of these means that nothing is
  left to collect. A listing of `n` entries takes at most `n / pageSize + 1` requests.
-/

namespace Schemreg.Apicurio

open Retry

/-! ## Listing artifacts -/

/-- `SearchedArtifact`. -/
structure SearchedArtifact where
  artifactId : String
  groupId : Option String
  deriving DecidableEq

/-- `ArtifactSearchResults`. -/
structure ArtifactSearchResults where
  artifacts : List SearchedArtifact
  count : Option Int64
  deriving DecidableEq

/-- `/search/artifacts?limit={limit}&offset={offset}`. -/
structure SearchArtifacts where
  limit : Nat
  offset : Nat
  deriving DecidableEq

/-- The decoders of the listings. -/
structure ListingSerde extends OperationSerde where
  artifactSearchResults : List UInt8 → Except String ArtifactSearchResults

/-- `usize::MAX`. -/
def usizeMax : Nat := 2 ^ 64 - 1

def defaultGroup : String := "default"

/-- The artifact that the server reports: without a group it is in the default one. -/
def SearchedArtifact.id (a : SearchedArtifact) : ArtifactId :=
  ⟨a.groupId.getD defaultGroup, a.artifactId⟩

/-- The subject of a listed artifact. -/
def listedSubject (a : SearchedArtifact) : String :=
  let group := a.groupId.getD defaultGroup
  group ++ "/" ++ a.artifactId

/-- A listing of subjects, `none` if it has not returned. -/
abbrev Listing := Program SearchArtifacts HttpResponse SchemaRegError
  (Option (Result (List String)))

section

variable (serde : ListingSerde) (maxResults : Nat)

/-- The loop of `list_subjects`, of at most so many pages. The warning that it logs is left
    out. -/
def listSubjects : Nat → Nat → List String → Listing
  | 0, _, out => if out.length < maxResults then .done none else .done (some (.ok out))
  | pages + 1, offset, out =>
    if out.length < maxResults then
      let limit := min pageSize (maxResults - out.length)
      .send ⟨limit, offset⟩ fun answer =>
        match answer >>= handleJsonAs serde.toOperationSerde serde.artifactSearchResults with
        | .error err => .done (some (.error err))
        | .ok page =>
          let returned := page.artifacts.length
          if returned = 0 then .done (some (.ok out))
          else
            let out := out ++ page.artifacts.map listedSubject
            let offset := offset + returned
            if returned < limit then .done (some (.ok out))
            else listSubjects pages offset out
    else .done (some (.ok out))

end

/-- `get_subjects`. -/
def getSubjects (serde : ListingSerde) (pages : Nat) : Listing :=
  listSubjects serde usizeMax pages 0 []

/-- `list_versions`, of at most so many pages. -/
def getVersions (serde : OperationSerde) (pages : Nat) (subject : String) : Requests Request :=
  match artifactId subject with
  | .error err => .done (some (.error err))
  | .ok artifact =>
      listVersions serde artifact (fun versions => .done (some (versions.map .versions))) pages 0 []

/-! ## A server that holds a list -/

section

variable {σ : Type} {α β : Type}

/-- The slice of a list at an offset. -/
def page (L : List α) (offset limit : Nat) : List α := (L.drop offset).take limit

/-- A count that is absent, or the length of the list. -/
def Truthful (L : List α) (count : Option Int64) : Prop :=
  ∀ n, count = some n → n.toInt = L.length

theorem length_page (L : List α) (offset limit : Nat) :
    (page L offset limit).length = min limit (L.length - offset) := by
  rw [page, List.length_take, List.length_drop]

/-- The entries before a page and the page are the entries before the next one. -/
theorem take_append_page (L : List α) (offset limit : Nat) :
    L.take offset ++ page L offset limit = L.take (offset + limit) := List.take_add.symm

/-- A page that is not full is the last one. -/
theorem take_of_short {L : List α} {offset limit : Nat}
    (h : (page L offset limit).length < limit) : L.take (offset + limit) = L := by
  rw [length_page] at h
  exact List.take_of_length_le (by omega)

/-- The server answers every search with a page of the list. -/
def ServesArtifacts (serde : ListingSerde)
    (exchange : Program.Exchange SearchArtifacts HttpResponse σ SchemaRegError)
    (L : List SearchedArtifact) : Prop :=
  ∀ req losses s, ∃ resp s' count, exchange req losses s = (.ok resp, s') ∧
    handleJsonAs serde.toOperationSerde serde.artifactSearchResults resp =
      .ok ⟨page L req.offset req.limit, count⟩ ∧ Truthful L count

/-- The server answers every listing of the artifact's versions with a page of the list. -/
def ServesVersions (serde : OperationSerde)
    (exchange : Program.Exchange Request HttpResponse σ SchemaRegError) (artifact : ArtifactId)
    (L : List (Option Value)) : Prop :=
  ∀ offset losses s, ∃ resp s' count,
    exchange (.listVersions artifact offset) losses s = (.ok resp, s') ∧
    handleJsonAs serde serde.artifactVersionList resp = .ok ⟨page L offset pageSize, count⟩ ∧
    Truthful L count

variable {serde : ListingSerde} {exchange : Program.Exchange SearchArtifacts HttpResponse σ
  SchemaRegError} {L : List SearchedArtifact}

theorem length_subjects {offset : Nat} (h : offset ≤ L.length) :
    ((L.take offset).map listedSubject).length = offset := by
  rw [List.length_map, List.length_take]
  omega

/-- The loop from an offset on. The induction is on the pages that are left; what is collected
    are the subjects of the first `offset` artifacts. -/
theorem listSubjects_run (hserves : ServesArtifacts serde exchange L) (maxResults : Nat)
    (pattern : Program.Pattern SearchArtifacts HttpResponse SchemaRegError) (s : σ)
    {pages offset : Nat} (hoffset : offset ≤ L.length) (hmax : offset ≤ maxResults)
    (hpages : offset < maxResults → (min maxResults L.length - offset) / pageSize < pages) :
    ((listSubjects serde maxResults pages offset ((L.take offset).map listedSubject)).run exchange
      pattern s).1 = some (.ok ((L.take maxResults).map listedSubject)) := by
  have hsize : pageSize = 500 := rfl
  induction pages generalizing offset s with
  | zero =>
    have hdone : ¬ offset < maxResults := fun h => absurd (hpages h) (Nat.not_lt_zero _)
    rw [listSubjects, length_subjects hoffset, if_neg hdone, show offset = maxResults by omega]
    rfl
  | succ pages ih =>
    rw [listSubjects, length_subjects hoffset]
    by_cases hmore : offset < maxResults
    · rw [if_pos hmore]
      have hfew := hpages hmore
      have hfull : min pageSize (maxResults - offset) = 500 ∨
          min pageSize (maxResults - offset) = maxResults - offset := by omega
      have hle : min pageSize (maxResults - offset) ≤ maxResults - offset := by omega
      rw [hsize] at hfew
      generalize min pageSize (maxResults - offset) = limit at *
      obtain ⟨resp, s', count, hexchange, hpage, -⟩ :=
        hserves ⟨limit, offset⟩ (pattern ⟨limit, offset⟩) s
      have hreturned := length_page L offset limit
      have hbind : (Except.ok resp >>= handleJsonAs serde.toOperationSerde
          serde.artifactSearchResults) = .ok ⟨page L offset limit, count⟩ := hpage
      dsimp only
      rw [Program.run, hexchange]
      dsimp only
      rw [hbind]
      dsimp only
      by_cases hempty : (page L offset limit).length = 0
      · rw [if_pos hempty]
        have hall : L.length = offset := by omega
        rw [← hall, List.take_length, List.take_of_length_le (by omega)]
        rfl
      · rw [if_neg hempty, ← List.map_append, take_append_page]
        by_cases hshort : (page L offset limit).length < limit
        · rw [if_pos hshort, take_of_short hshort, List.take_of_length_le (by omega)]
          rfl
        · rw [if_neg hshort, show (page L offset limit).length = limit by omega]
          refine ih s' (by omega) (by omega) ?_
          intro hleft
          rw [hsize]
          omega
    · rw [if_neg hmore, show offset = maxResults by omega]
      rfl

section

variable {serde : OperationSerde} {exchange : Program.Exchange Request HttpResponse σ
  SchemaRegError} {artifact : ArtifactId} {L : List (Option Value)}

/-- The versions of some entries: those that have one that parses. -/
def versionsOf (entries : List (Option Value)) : List SchemaVersion :=
  entries.filterMap fun v => v.bind parseVersion

theorem versionsOf_append (xs ys : List (Option Value)) :
    versionsOf (xs ++ ys) = versionsOf xs ++ versionsOf ys := List.filterMap_append

/-- The loop from an offset on, by induction on the pages that are left. It ends with the
    versions of the whole list. -/
theorem listVersions_run (hserves : ServesVersions serde exchange artifact L)
    (next : Result (List SchemaVersion) → Requests Request)
    (pattern : Program.Pattern Request HttpResponse SchemaRegError) (s : σ) {pages offset : Nat}
    (hoffset : offset ≤ L.length) (hpages : (L.length - offset) / pageSize < pages) :
    ∃ s', (listVersions serde artifact next pages offset (versionsOf (L.take offset))).run exchange
      pattern s = (next (.ok (versionsOf L))).run exchange pattern s' := by
  have hsize : pageSize = 500 := rfl
  induction pages generalizing offset s with
  | zero => exact absurd hpages (Nat.not_lt_zero _)
  | succ pages ih =>
    obtain ⟨resp, s', count, hexchange, hpage, htruthful⟩ :=
      hserves offset (pattern (.listVersions artifact offset)) s
    have hreturned := length_page L offset pageSize
    have hnext : versionsOf (L.take offset) ++
        (page L offset pageSize).filterMap (fun v => v.bind parseVersion) =
          versionsOf (L.take (offset + pageSize)) := by
      rw [← take_append_page, versionsOf_append]
      rfl
    have hbind : (Except.ok resp >>= handleJsonAs serde serde.artifactVersionList) =
        .ok ⟨page L offset pageSize, count⟩ := hpage
    rw [listVersions, Program.run, hexchange]
    dsimp only
    rw [hbind]
    dsimp only
    rw [hnext, hsize]
    rw [hsize] at hreturned hpages
    by_cases hempty : (page L offset 500).length = 0
    · have hall : L.length = offset := by omega
      rw [if_pos hempty, ← hall, List.take_length]
      exact ⟨s', rfl⟩
    · rw [if_neg hempty]
      by_cases hshort : (page L offset 500).length < 500
      · rw [if_pos hshort, take_of_short hshort]
        exact ⟨s', rfl⟩
      · rw [if_neg hshort, show (page L offset 500).length = 500 by omega]
        cases count with
        | some total =>
          have htotal := htruthful total rfl
          dsimp only
          by_cases hreached : total.toInt ≤ (offset + 500 : Nat)
          · rw [if_pos hreached, List.take_of_length_le (by omega)]
            exact ⟨s', rfl⟩
          · rw [if_neg hreached]
            exact ih s' (by omega) (by rw [hsize]; omega)
        | none => exact ih s' (by omega) (by rw [hsize]; omega)

end

/-- Both listings are exact, within a request for each page and one more. -/
theorem listings_exact :
    (∀ (serde : ListingSerde) (exchange : Program.Exchange SearchArtifacts HttpResponse σ
        SchemaRegError) (L : List SearchedArtifact), ServesArtifacts serde exchange L →
      ∀ (maxResults pages : Nat) (pattern : Program.Pattern SearchArtifacts HttpResponse
        SchemaRegError) (s : σ), min maxResults L.length / pageSize < pages →
      ((listSubjects serde maxResults pages 0 []).run exchange pattern s).1 =
        some (.ok ((L.take maxResults).map listedSubject))) ∧
    ∀ (serde : OperationSerde) (exchange : Program.Exchange Request HttpResponse σ SchemaRegError)
      (subject : String) (artifact : ArtifactId) (L : List (Option Value)),
      artifactId subject = .ok artifact → ServesVersions serde exchange artifact L →
      ∀ (pages : Nat) (pattern : Program.Pattern Request HttpResponse SchemaRegError) (s : σ),
        L.length / pageSize < pages →
        ((getVersions serde pages subject).run exchange pattern s).1 =
          some (.ok (.versions (versionsOf L))) := by
  constructor
  · intro serde exchange L hserves maxResults pages pattern s hpages
    exact listSubjects_run hserves maxResults pattern s (Nat.zero_le _) (Nat.zero_le _)
      (fun _ => hpages)
  · intro serde exchange subject artifact L hid hserves pages pattern s hpages
    obtain ⟨s', hrun⟩ := listVersions_run hserves
      (fun versions => .done (some (versions.map .versions))) pattern s (Nat.zero_le _) hpages
    unfold getVersions
    rw [hid]
    exact congrArg Prod.fst hrun

end

/-! ## Versions in decimal -/

theorem foldlM_digit {cs : List Char} (h : ∀ c ∈ cs, c.isDigit = true) (n : Nat) :
    cs.foldlM (fun n c => (digit c).map (n * 10 + ·)) n = some (Nat.ofDigitChars 10 cs n) := by
  induction cs generalizing n with
  | nil =>
    rw [Nat.ofDigitChars_nil]
    rfl
  | cons c cs ih =>
    have hdigit := h c List.mem_cons_self
    have hc : digit c = some (c.toNat - '0'.toNat) := by
      unfold Char.isDigit at hdigit
      rw [Bool.and_eq_true, decide_eq_true_iff, decide_eq_true_iff] at hdigit
      exact if_pos hdigit
    rw [List.foldlM_cons, hc, Nat.ofDigitChars_cons, Nat.mul_comm 10 n]
    exact ih (fun d hd => h d (List.mem_cons_of_mem _ hd)) _

theorem digits_repr (n : Nat) : digits n.repr.toList = some n := by
  have hdigits : ∀ c ∈ n.repr.toList, c.isDigit = true := by
    intro c hc
    rw [Nat.toList_repr] at hc
    exact Nat.isDigit_of_mem_toDigits (by decide) (by decide) hc
  have hfold := foldlM_digit hdigits 0
  rw [Nat.toList_repr] at hfold ⊢
  rw [Nat.ofDigitChars_ten_toDigits] at hfold
  rw [digits]
  · exact hfold
  · exact Nat.toDigits_ne_nil

theorem not_mem_repr {c : Char} (h : c.isDigit = false) (n : Nat) : c ∉ n.repr.toList := by
  intro hc
  rw [Nat.toList_repr] at hc
  have hdigit := Nat.isDigit_of_mem_toDigits (by decide) (by decide) hc
  rw [h] at hdigit
  cases hdigit

/-- A version in decimal is its number. -/
theorem parseVersion_repr {n : Nat} (h : n ≤ 2147483647) :
    parseVersion (.string n.repr) = some ⟨Int32.ofInt n⟩ := by
  have hparse : parseI32 n.repr = some (Int32.ofInt n) := by
    unfold parseI32
    split
    · rename_i cs hminus
      exact absurd (by rw [hminus]; exact List.mem_cons_self) (not_mem_repr (c := '-') rfl n)
    · rename_i cs hplus
      exact absurd (by rw [hplus]; exact List.mem_cons_self) (not_mem_repr (c := '+') rfl n)
    · rw [digits_repr]
      have hfits : -2147483648 ≤ (n : Int) ∧ (n : Int) ≤ 2147483647 := by omega
      exact if_pos hfits
  show (parseI32 n.repr).map SchemaVersion.mk = _
  rw [hparse]
  rfl

/-! ## A server of two pages -/

/-- How a server writes a page of names: an object for each, with commas between. -/
structure PageText where
  front : List UInt8
  opening : List UInt8
  closing : List UInt8
  back : List UInt8
  opening_ne : opening ≠ []
  opening_free : 0x2C ∉ opening
  closing_free : 0x2C ∉ closing

namespace PageText

variable {f : PageText}

def writeEntry (f : PageText) (name : String) : List UInt8 :=
  f.opening ++ Utf8.toUtf8 name ++ f.closing

def write (f : PageText) (names : List String) : List UInt8 :=
  f.front ++ [0x2C].intercalate (names.map f.writeEntry) ++ f.back

def readEntry (f : PageText) (text : List UInt8) : Option String :=
  (Utf8.fromUtf8 ((text.drop f.opening.length).take
    (text.length - f.opening.length - f.closing.length))).toOption

/-- What a decoder makes of a page: the names between its front and its back. -/
def read (f : PageText) (body : List UInt8) : Except String (List String) :=
  if f.front <+: body ∧ f.back <:+ body then
    let entries := (body.drop f.front.length).take
      (body.length - f.front.length - f.back.length)
    if entries = [] then .ok [] else .ok ((entries.splitOn 0x2C).filterMap f.readEntry)
  else .error "expected value at line 1 column 1"

theorem readEntry_writeEntry (name : String) : f.readEntry (f.writeEntry name) = some name := by
  have hlength : (f.writeEntry name).length - f.opening.length - f.closing.length =
      (Utf8.toUtf8 name).length := by
    simp only [writeEntry, List.length_append]
    omega
  unfold readEntry
  rw [hlength, writeEntry, List.append_assoc, List.drop_left, List.take_left,
    Utf8.fromUtf8_toUtf8]
  rfl

/-- A page of names without commas is read as it was written. -/
theorem read_write {names : List String} (hnames : ∀ name ∈ names, ',' ∉ name.toList) :
    f.read (f.write names) = .ok names := by
  have hentries : ((f.write names).drop f.front.length).take
      ((f.write names).length - f.front.length - f.back.length) =
        [0x2C].intercalate (names.map f.writeEntry) := by
    have hlength : (f.write names).length - f.front.length - f.back.length =
        ([0x2C].intercalate (names.map f.writeEntry)).length := by
      simp only [write, List.length_append]
      omega
    rw [hlength, write, List.append_assoc, List.drop_left, List.take_left]
  have hfits : f.front <+: f.write names ∧ f.back <:+ f.write names :=
    ⟨⟨_, (List.append_assoc ..).symm⟩, ⟨_, rfl⟩⟩
  unfold read
  rw [if_pos hfits, hentries]
  dsimp only
  cases names with
  | nil => rfl
  | cons name names =>
    have hcomma : ∀ text ∈ (name :: names).map f.writeEntry, 0x2C ∉ text := by
      intro text htext
      obtain ⟨name, hname, rfl⟩ := List.mem_map.mp htext
      have hfree : 0x2C ∉ Utf8.toUtf8 name := fun h =>
        hnames name hname ((Utf8.mem_toUtf8 (c := ',') (by decide)).mp h)
      simp [writeEntry, f.opening_free, f.closing_free, hfree]
    have hsplit := List.splitOn_intercalate (0x2C : UInt8) hcomma (by simp)
    have hsome : [0x2C].intercalate ((name :: names).map f.writeEntry) ≠ [] := by
      intro hnil
      rw [hnil] at hsplit
      have hfirst : f.writeEntry name = [] := by
        cases names with
        | nil => exact (List.cons.inj hsplit).1.symm
        | cons next names => cases (List.cons.inj hsplit).2
      exact f.opening_ne (List.append_eq_nil_iff.mp (List.append_eq_nil_iff.mp hfirst).1).1
    rw [if_neg hsome, hsplit, List.filterMap_map]
    have hread : f.readEntry ∘ f.writeEntry = some := funext readEntry_writeEntry
    rw [hread, List.filterMap_some]

end PageText

theorem page_map {α β : Type} (f : α → β) (L : List α) (offset limit : Nat) :
    page (L.map f) offset limit = (page L offset limit).map f := by
  rw [page, page, ← List.map_drop, ← List.map_take]

def artifactsText : PageText where
  front := Utf8.toUtf8 "\x7b\"artifacts\":["
  opening := Utf8.toUtf8 "\x7b\"artifactId\":\""
  closing := Utf8.toUtf8 "\"\x7d"
  back := Utf8.toUtf8 "],\"count\":501\x7d"
  opening_ne := by decide +kernel
  opening_free := by decide +kernel
  closing_free := by decide +kernel

def versionsText : PageText where
  front := Utf8.toUtf8 "\x7b\"versions\":["
  opening := Utf8.toUtf8 "\x7b\"version\":\""
  closing := Utf8.toUtf8 "\"\x7d"
  back := Utf8.toUtf8 "],\"count\":501\x7d"
  opening_ne := by decide +kernel
  opening_free := by decide +kernel
  closing_free := by decide +kernel

def ordersSerde : ListingSerde where
  versionMetaData _ := .error "missing field"
  apicurioError _ := none
  createArtifactResponse _ := .error "missing field"
  versionSearchResults _ := .error "missing field"
  artifactVersionList body := (versionsText.read body).map fun names =>
    ⟨names.map fun name => some (.string name), some 501⟩
  value _ := .error "missing field"
  artifactSearchResults body := (artifactsText.read body).map fun names =>
    ⟨names.map fun name => ⟨name, none⟩, some 501⟩

/-- The artifacts of the server, one more than a page has. -/
def orders : List String := (List.range 501).map fun n => "orders-" ++ n.repr

/-- As many versions of one artifact. -/
def ordersVersions : List String := (List.range 501).map Nat.repr

theorem comma_not_mem_page {L : List String} (h : ∀ name ∈ L, ',' ∉ name.toList)
    (offset limit : Nat) : ∀ name ∈ page L offset limit, ',' ∉ name.toList :=
  fun name hname => h name (List.mem_of_mem_drop (List.mem_of_mem_take hname))

theorem comma_not_mem_orders : ∀ name ∈ orders, ',' ∉ name.toList := by
  intro name hname
  obtain ⟨n, -, rfl⟩ := List.mem_map.mp hname
  rw [String.toList_append, List.mem_append, not_or]
  exact ⟨by decide, not_mem_repr rfl n⟩

theorem comma_not_mem_ordersVersions : ∀ name ∈ ordersVersions, ',' ∉ name.toList := by
  intro name hname
  obtain ⟨n, -, rfl⟩ := List.mem_map.mp hname
  exact not_mem_repr rfl n

def ordersExchange : Program.Exchange SearchArtifacts HttpResponse Unit SchemaRegError :=
  fun req _ s => (.ok ⟨200, [], artifactsText.write (page orders req.offset req.limit)⟩, s)

def ordersVersionsExchange : Program.Exchange Request HttpResponse Unit SchemaRegError :=
  fun req _ s => (.ok ⟨200, [], match req with
    | .listVersions _ offset => versionsText.write (page ordersVersions offset pageSize)
    | _ => []⟩, s)

theorem ordersExchange_serves :
    ServesArtifacts ordersSerde ordersExchange (orders.map fun name => ⟨name, none⟩) := by
  intro req losses s
  refine ⟨_, _, some 501, rfl, ?_, ?_⟩
  · unfold handleJsonAs ordersSerde
    dsimp only
    rw [artifactsText.read_write (comma_not_mem_page comma_not_mem_orders _ _), page_map]
    rfl
  · intro n hn
    cases hn
    rw [orders, List.length_map, List.length_map, List.length_range]
    rfl

theorem ordersVersionsExchange_serves (artifact : ArtifactId) :
    ServesVersions ordersSerde.toOperationSerde ordersVersionsExchange artifact
      (ordersVersions.map fun name => some (.string name)) := by
  intro offset losses s
  refine ⟨_, _, some 501, rfl, ?_, ?_⟩
  · unfold handleJsonAs ordersSerde
    dsimp only
    rw [versionsText.read_write (comma_not_mem_page comma_not_mem_ordersVersions _ _), page_map]
    rfl
  · intro n hn
    cases hn
    rw [ordersVersions, List.length_map, List.length_map, List.length_range]
    rfl

theorem versionsOf_ordersVersions :
    versionsOf (ordersVersions.map fun name => some (.string name)) =
      (List.range 501).map fun n : Nat => ⟨Int32.ofInt n⟩ := by
  rw [versionsOf, ordersVersions, List.map_map, List.filterMap_map, ← List.filterMap_eq_map]
  refine List.filterMap_congr fun n hn => ?_
  have hn := List.mem_range.mp hn
  exact parseVersion_repr (by omega)

/-- Both listings of that server: the second page has one entry. -/
theorem orders_listed :
    ((getSubjects ordersSerde 2).run ordersExchange (fun _ => []) ()).1 =
      some (.ok (orders.map fun name => "default/" ++ name)) ∧
    ((getVersions ordersSerde.toOperationSerde 2 "orders").run ordersVersionsExchange
        (fun _ => []) ()).1 =
      some (.ok (.versions ((List.range 501).map fun n : Nat => ⟨Int32.ofInt n⟩))) := by
  have hsubjects := listings_exact.1 ordersSerde ordersExchange _ ordersExchange_serves usizeMax 2
    (fun _ => []) () (by rw [orders, List.length_map, List.length_map, List.length_range]; decide)
  have hversions := listings_exact.2 ordersSerde.toOperationSerde ordersVersionsExchange "orders"
    ⟨"default", "orders"⟩ _ (by decide +kernel) (ordersVersionsExchange_serves _) 2
    (fun _ => []) () (by rw [ordersVersions, List.length_map, List.length_map,
      List.length_range]; decide)
  have hall : (orders.map fun name => (⟨name, none⟩ : SearchedArtifact)).length ≤ usizeMax := by
    rw [orders, List.length_map, List.length_map, List.length_range]
    decide
  have hdefault : listedSubject ∘ (fun name => (⟨name, none⟩ : SearchedArtifact)) =
      fun name => "default/" ++ name := by
    funext name
    show "default" ++ "/" ++ name = "default/" ++ name
    rw [show "default" ++ "/" = "default/" by decide +kernel]
  rw [List.take_of_length_le hall, List.map_map, hdefault] at hsubjects
  rw [versionsOf_ordersVersions] at hversions
  exact ⟨hsubjects, hversions⟩

end Schemreg.Apicurio
