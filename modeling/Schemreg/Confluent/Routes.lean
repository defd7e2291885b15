import Schemreg.Confluent.Registry
import Schemreg.Http.Target

/-
  The requests of the Confluent client, as they go over the wire, and what a registry reads.

  Each method of the client splices its arguments into a URL. A registry cuts the URL up again: it
  splits the path, decodes the segments once and resolves dot segments. What it then takes the
  request for is its own business, and a parameter (`Interface`): `RestInterface` says what is
  documented of it, resource by resource.

  Proved (`routes_are_faithful`): such a registry finds exactly what the method has named, whatever
  the subject is, and so the requests of `Registry` are what the URLs of the client say. Two calls
  with one request name one resource, whatever the base URL is.
-/

namespace Schemreg.Confluent

open RequestTarget Target Utf8

/-- The JSON body of a request. -/
inductive Body where
  | none
  | schema (request : RegisterSchemaRequest)
  | compatibility (level : CompatibilityLevel)
  deriving DecidableEq

structure HttpRequest where
  method : Method
  url : String
  body : Body

/-! ## The client -/

/-- `ConfluentSchemaRegistry`: where its URLs start, and whether it asks for normal forms. -/
structure ConfluentSchemaRegistry where
  baseUrl : String
  normalize : Bool

/-- The text of `version_path_segment`. -/
def versionSegment (version : SchemaVersion) : String :=
  match versionPathSegment version with
  | none => "latest"
  | some number => Int.repr number.toInt

namespace ConfluentSchemaRegistry

variable (self : ConfluentSchemaRegistry)

def checkCompatibility (subject : String) (body : RegisterSchemaRequest) : Result HttpRequest := do
  validateSubject subject
  return ⟨.post, self.baseUrl ++ "/compatibility/subjects/" ++ percentEncode subject ++
    "/versions/latest", .schema body⟩

def getSubjects : Result HttpRequest := .ok ⟨.get, self.baseUrl ++ "/subjects", .none⟩

def getVersions (subject : String) : Result HttpRequest := do
  validateSubject subject
  return ⟨.get, self.baseUrl ++ "/subjects/" ++ percentEncode subject ++ "/versions", .none⟩

def healthCheck : Result HttpRequest := .ok ⟨.get, self.baseUrl ++ "/subjects?limit=1", .none⟩

def setCompatibility (subject : String) (level : CompatibilityLevel) : Result HttpRequest := do
  if subject.isEmpty then return ⟨.put, self.baseUrl ++ "/config", .compatibility level⟩
  validateSubject subject
  return ⟨.put, self.baseUrl ++ "/config/" ++ percentEncode subject, .compatibility level⟩

def getCompatibility (subject : String) : Result HttpRequest := do
  if subject.isEmpty then return ⟨.get, self.baseUrl ++ "/config", .none⟩
  validateSubject subject
  return ⟨.get, self.baseUrl ++ "/config/" ++ percentEncode subject ++ "?defaultToGlobal=true",
    .none⟩

def deleteSubject (subject : String) (permanent : Bool) : Result HttpRequest := do
  validateSubject subject
  let url := self.baseUrl ++ "/subjects/" ++ percentEncode subject
  return ⟨.delete, if permanent then url ++ "?permanent=true" else url, .none⟩

def deleteVersion (subject : String) (version : SchemaVersion) (permanent : Bool) :
    Result HttpRequest := do
  validateSubject subject
  let url := self.baseUrl ++ "/subjects/" ++ percentEncode subject ++ "/versions/" ++
    versionSegment version
  return ⟨.delete, if permanent then url ++ "?permanent=true" else url, .none⟩

def lookupSchema (subject : String) (body : RegisterSchemaRequest) : Result HttpRequest := do
  validateSubject subject
  let url := self.baseUrl ++ "/subjects/" ++ percentEncode subject
  return ⟨.post, if self.normalize then url ++ "?normalize=true" else url, .schema body⟩

def getSchemaByGuid (guid : SchemaGuid) : Result HttpRequest :=
  .ok ⟨.get, self.baseUrl ++ "/schemas/guids/" ++ guid.toString, .none⟩

def getSchemaById (id : SchemaId) : Result HttpRequest :=
  .ok ⟨.get, self.baseUrl ++ "/schemas/ids/" ++ id.toString, .none⟩

def getLatestSchema (subject : String) : Result HttpRequest := do
  validateSubject subject
  return ⟨.get, self.baseUrl ++ "/subjects/" ++ percentEncode subject ++ "/versions/latest", .none⟩

def getSchemaByVersion (subject : String) (version : SchemaVersion) : Result HttpRequest := do
  validateSubject subject
  return ⟨.get, self.baseUrl ++ "/subjects/" ++ percentEncode subject ++ "/versions/" ++
    versionSegment version, .none⟩

def registerSchema (subject : String) (body : RegisterSchemaRequest) : Result HttpRequest := do
  validateSubject subject
  let url := if self.normalize then
      self.baseUrl ++ "/subjects/" ++ percentEncode subject ++ "/versions?normalize=true"
    else self.baseUrl ++ "/subjects/" ++ percentEncode subject ++ "/versions"
  return ⟨.post, url, .schema body⟩

end ConfluentSchemaRegistry

/-- A call of one of the methods. -/
inductive Call where
  | checkCompatibility (subject : String) (body : RegisterSchemaRequest)
  | getSubjects
  | getVersions (subject : String)
  | healthCheck
  | setCompatibility (subject : String) (level : CompatibilityLevel)
  | getCompatibility (subject : String)
  | deleteSubject (subject : String) (permanent : Bool)
  | deleteVersion (subject : String) (version : SchemaVersion) (permanent : Bool)
  | lookupSchema (subject : String) (body : RegisterSchemaRequest)
  | getSchemaByGuid (guid : SchemaGuid)
  | getSchemaById (id : SchemaId)
  | getLatestSchema (subject : String)
  | getSchemaByVersion (subject : String) (version : SchemaVersion)
  | registerSchema (subject : String) (body : RegisterSchemaRequest)

/-- The request of a call. -/
def Call.request (self : ConfluentSchemaRegistry) : Call → Result HttpRequest
  | .checkCompatibility subject body => self.checkCompatibility subject body
  | .getSubjects => self.getSubjects
  | .getVersions subject => self.getVersions subject
  | .healthCheck => self.healthCheck
  | .setCompatibility subject level => self.setCompatibility subject level
  | .getCompatibility subject => self.getCompatibility subject
  | .deleteSubject subject permanent => self.deleteSubject subject permanent
  | .deleteVersion subject version permanent => self.deleteVersion subject version permanent
  | .lookupSchema subject body => self.lookupSchema subject body
  | .getSchemaByGuid guid => self.getSchemaByGuid guid
  | .getSchemaById id => self.getSchemaById id
  | .getLatestSchema subject => self.getLatestSchema subject
  | .getSchemaByVersion subject version => self.getSchemaByVersion subject version
  | .registerSchema subject body => self.registerSchema subject body

/-! ## The registry -/

/-- What a request asks a registry for. A version that is not named is `latest`. -/
inductive Resource where
  | write (request : Request)
  | testCompatibility (subject : String) (version : Option Int32) (body : RegisterSchemaRequest)
  | subjects (limit : Option Nat)
  | versions (subject : String)
  | version (subject : String) (version : Option Int32)
  | schemaById (id : SchemaId)
  | schemaByGuid (guid : SchemaGuid)
  | config (subject : Option String) (defaultToGlobal : Bool)

/-- What a registry takes a request for, after it has cut up the URL. -/
abbrev Interface :=
  Method → List String → Body → List (List Char × List Char) → Option Resource

/-- What a registry reads in a request. -/
def route (interface : Interface) (req : HttpRequest) : Option Resource := do
  let (segments, query) ← readUrl req.url
  interface req.method segments req.body (params query)

/-- A parameter that is there or not. -/
def switched (name : String) (on : Bool) : List (List Char × List Char) :=
  if on then [(name.toList, "true".toList)] else []

/-- A version is named by its number, or as the latest one. -/
inductive NamesVersion : String → Option Int32 → Prop where
  | latest : NamesVersion "latest" none
  | number (n : Nat) (h : n < 2147483648) : NamesVersion n.repr (some (Int32.ofNat n))

/-- The REST interface of a registry that stands at `mount`, as far as the client makes use of
    it. -/
structure RestInterface (mount : List String) (interface : Interface) : Prop where
  subjects : interface .get (mount ++ ["subjects"]) .none [] = some (.subjects none)
  limitedSubjects (limit : Nat) :
    interface .get (mount ++ ["subjects"]) .none [("limit".toList, limit.repr.toList)] =
      some (.subjects (some limit))
  versions {subject : String} (h : subject ≠ "") :
    interface .get (mount ++ ["subjects", subject, "versions"]) .none [] =
      some (.versions subject)
  version {subject text : String} {version : Option Int32} (h : subject ≠ "")
    (named : NamesVersion text version) :
    interface .get (mount ++ ["subjects", subject, "versions", text]) .none [] =
      some (.version subject version)
  schemaById (id : SchemaId) :
    interface .get (mount ++ ["schemas", "ids", id.toString]) .none [] = some (.schemaById id)
  schemaByGuid (guid : SchemaGuid) :
    interface .get (mount ++ ["schemas", "guids", guid.toString]) .none [] =
      some (.schemaByGuid guid)
  globalConfig : interface .get (mount ++ ["config"]) .none [] = some (.config none false)
  config {subject : String} (h : subject ≠ "") (defaultToGlobal : Bool) :
    interface .get (mount ++ ["config", subject]) .none
      (switched "defaultToGlobal" defaultToGlobal) = some (.config (some subject) defaultToGlobal)
  testCompatibility {subject text : String} {version : Option Int32} (h : subject ≠ "")
    (named : NamesVersion text version) (body : RegisterSchemaRequest) :
    interface .post (mount ++ ["compatibility", "subjects", subject, "versions", text])
      (.schema body) [] = some (.testCompatibility subject version body)
  lookup {subject : String} (h : subject ≠ "") (normalize : Bool) (body : RegisterSchemaRequest) :
    interface .post (mount ++ ["subjects", subject]) (.schema body)
      (switched "normalize" normalize) = some (.write (.lookup subject normalize body))
  register {subject : String} (h : subject ≠ "") (normalize : Bool)
    (body : RegisterSchemaRequest) :
    interface .post (mount ++ ["subjects", subject, "versions"]) (.schema body)
      (switched "normalize" normalize) = some (.write (.register subject normalize body))
  putGlobalConfig (level : CompatibilityLevel) :
    interface .put (mount ++ ["config"]) (.compatibility level) [] =
      some (.write (.putConfig none level))
  putConfig {subject : String} (h : subject ≠ "") (level : CompatibilityLevel) :
    interface .put (mount ++ ["config", subject]) (.compatibility level) [] =
      some (.write (.putConfig (some subject) level))
  deleteSubject {subject : String} (h : subject ≠ "") (permanent : Bool) :
    interface .delete (mount ++ ["subjects", subject]) .none (switched "permanent" permanent) =
      some (.write (.deleteSubject subject permanent))
  deleteVersion {subject text : String} {version : Option Int32} (h : subject ≠ "")
    (named : NamesVersion text version) (permanent : Bool) :
    interface .delete (mount ++ ["subjects", subject, "versions", text]) .none
      (switched "permanent" permanent) = some (.write (.deleteVersion subject version permanent))

def flag (name : String) (params : List (List Char × List Char)) : Bool :=
  params.lookup name.toList = some "true".toList

def number (name : String) (params : List (List Char × List Char)) : Option Nat :=
  (params.lookup name.toList).bind fun value => (String.ofList value).toNat?

def readVersion (segment : String) : Option (Option Int32) :=
  if segment = "latest" then some none
  else (readNumber 2147483648 segment).map fun number => some (Int32.ofNat number)

/-- Two hexadecimal digits for each byte. -/
def hexPairs : List Char → Option (List UInt8)
  | [] => some []
  | h :: l :: rest => do
      let high ← hexDigit (UInt8.ofNat h.toNat)
      let low ← hexDigit (UInt8.ofNat l.toNat)
      return (high * 16 + low) :: (← hexPairs rest)
  | [_] => none

def readGuid (segment : String) : Option SchemaGuid := do
  let bytes ← hexPairs (segment.toList.filter fun c => c ≠ '-')
  if h : bytes.length = 16 then some ⟨bytes, h⟩ else none

/-- One such interface, at the root of its server. -/
def table (method : Method) (segments : List String) (body : Body)
    (params : List (List Char × List Char)) : Option Resource :=
  match method, segments, body with
  | .get, ["subjects"], .none => some (.subjects (number "limit" params))
  | .get, ["subjects", subject, "versions"], .none => some (.versions subject)
  | .get, ["subjects", subject, "versions", version], .none =>
      (readVersion version).map (.version subject)
  | .get, ["schemas", "ids", id], .none => (readId id).map .schemaById
  | .get, ["schemas", "guids", guid], .none => (readGuid guid).map .schemaByGuid
  | .get, ["config"], .none => some (.config none (flag "defaultToGlobal" params))
  | .get, ["config", subject], .none =>
      some (.config (some subject) (flag "defaultToGlobal" params))
  | .post, ["compatibility", "subjects", subject, "versions", version], .schema body =>
      (readVersion version).map fun version => .testCompatibility subject version body
  | .post, ["subjects", subject], .schema body =>
      some (.write (.lookup subject (flag "normalize" params) body))
  | .post, ["subjects", subject, "versions"], .schema body =>
      some (.write (.register subject (flag "normalize" params) body))
  | .put, ["config"], .compatibility level => some (.write (.putConfig none level))
  | .put, ["config", subject], .compatibility level =>
      some (.write (.putConfig (some subject) level))
  | .delete, ["subjects", subject], .none =>
      some (.write (.deleteSubject subject (flag "permanent" params)))
  | .delete, ["subjects", subject, "versions", version], .none =>
      (readVersion version).map fun version =>
        .write (.deleteVersion subject version (flag "permanent" params))
  | _, _, _ => none

/-- What a call names. An empty subject is the registry as a whole. -/
def Call.resource (normalize : Bool) : Call → Resource
  | .checkCompatibility subject body => .testCompatibility subject none body
  | .getSubjects => .subjects none
  | .getVersions subject => .versions subject
  | .healthCheck => .subjects (some 1)
  | .setCompatibility subject level =>
      .write (.putConfig (if subject.isEmpty then none else some subject) level)
  | .getCompatibility subject =>
      if subject.isEmpty then .config none false else .config (some subject) true
  | .deleteSubject subject permanent => .write (.deleteSubject subject permanent)
  | .deleteVersion subject version permanent =>
      .write (.deleteVersion subject (versionPathSegment version) permanent)
  | .lookupSchema subject body => .write (.lookup subject normalize body)
  | .getSchemaByGuid guid => .schemaByGuid guid
  | .getSchemaById id => .schemaById id
  | .getLatestSchema subject => .version subject none
  | .getSchemaByVersion subject version => .version subject (versionPathSegment version)
  | .registerSchema subject body => .write (.register subject normalize body)

/-- What a call writes: the path with its segments, and the query. -/
structure Line where
  method : Method
  segments : List String
  query : String
  body : Body

theorem hexDigit_digitChar : ∀ n < 16,
    hexDigit (UInt8.ofNat (Nat.digitChar n).toNat) = some (UInt8.ofNat n) := by decide

theorem digitChar_plain : ∀ n < 16,
    (Plain (Nat.digitChar n) ∧ Nat.digitChar n ≠ '%') ∧ Nat.digitChar n ∉ ['-', '.'] := by decide

theorem hexPairs_flatMap : ∀ bytes : List UInt8,
    hexPairs (bytes.flatMap SchemaGuid.hexByte) = some bytes
  | [] => rfl
  | b :: bytes => by
    obtain ⟨hhigh, hlow⟩ := nibbles_lt b
    have hvalue : UInt8.ofNat (b.toNat / 16) * 16 + UInt8.ofNat (b.toNat % 16) = b := by
      rw [← UInt8.toNat_inj]
      simp
      omega
    rw [List.flatMap_cons]
    show hexPairs (_ :: _ :: _) = _
    rw [hexPairs, hexDigit_digitChar _ hhigh, hexDigit_digitChar _ hlow]
    show (hexPairs (bytes.flatMap SchemaGuid.hexByte)).bind _ = _
    rw [hexPairs_flatMap bytes]
    show some (_ :: bytes) = _
    rw [hvalue]

theorem plain_of_mem_hex {bytes : List UInt8} {c : Char}
    (hc : c ∈ bytes.flatMap SchemaGuid.hexByte) :
    (Plain c ∧ c ≠ '%') ∧ c ∉ ['-', '.'] := by
  obtain ⟨b, -, hc⟩ := List.mem_flatMap.mp hc
  obtain ⟨hhigh, hlow⟩ := nibbles_lt b
  rcases List.mem_cons.mp hc with rfl | hc
  · exact digitChar_plain _ hhigh
  · rw [List.mem_singleton.mp hc]
    exact digitChar_plain _ hlow

theorem filter_hex (bytes : List UInt8) :
    (bytes.flatMap SchemaGuid.hexByte).filter (fun c => c ≠ '-') =
      bytes.flatMap SchemaGuid.hexByte := by
  refine List.filter_eq_self.mpr fun c hc => decide_eq_true ?_
  rintro rfl
  exact (plain_of_mem_hex hc).2 (by decide)

/-- The groups of a GUID are all of it. -/
theorem guid_groups (guid : SchemaGuid) :
    (guid.asBytes.drop 0).take 4 ++ (guid.asBytes.drop 4).take 2 ++ (guid.asBytes.drop 6).take 2 ++
      (guid.asBytes.drop 8).take 2 ++ (guid.asBytes.drop 10).take 6 = guid.asBytes := by
  have hlength := guid.length_eq
  rw [List.drop_zero, ← List.take_add, ← List.take_add, ← List.take_add, ← List.take_add]
  exact List.take_of_length_le (by omega)

theorem digits_toString (guid : SchemaGuid) :
    guid.toString.toList.filter (fun c => c ≠ '-') =
      guid.asBytes.flatMap SchemaGuid.hexByte := by
  have hhyphen : (['-'] : List Char).filter (fun c => c ≠ '-') = [] := rfl
  unfold SchemaGuid.toString
  rw [String.toList_ofList]
  simp only [List.filter_append, filter_hex, hhyphen, List.append_nil]
  rw [← List.flatMap_append, ← List.flatMap_append, ← List.flatMap_append, ← List.flatMap_append,
    guid_groups]

theorem readGuid_toString (guid : SchemaGuid) : readGuid guid.toString = some guid := by
  unfold readGuid
  rw [digits_toString, hexPairs_flatMap]
  exact dif_pos guid.length_eq

section Requests

variable {self : ConfluentSchemaRegistry} {req : HttpRequest} {subject : String}

end Requests

/-! ## What the registry reads -/

section Reading

variable {self : ConfluentSchemaRegistry} {req : HttpRequest} {mount : List String}
  {interface : Interface} {subject : String}

theorem readVersion_names {text : String} {version : Option Int32}
    (h : NamesVersion text version) : readVersion text = some version := by
  cases h with
  | latest => rfl
  | number n hlt =>
    unfold readVersion
    rw [if_neg (repr_ne (c := 'l') (by decide) rfl), readNumber_repr hlt, Option.map_some]

theorem flag_switched (name : String) (on : Bool) : flag name (switched name on) = on := by
  cases on with
  | false => rfl
  | true =>
    unfold flag switched
    rw [if_pos rfl, List.lookup_cons_self]
    exact decide_eq_true rfl

/-- The interface of `table` is one. -/
theorem restInterface_table : RestInterface [] table where
  subjects := rfl
  limitedSubjects limit := by
    show some (Resource.subjects ((List.lookup _ [_]).bind _)) = _
    rw [List.lookup_cons_self, Option.bind_some, String.ofList_toList, Nat.toNat?_repr]
  versions _ := rfl
  version {subject text version} _ named := by
    show (readVersion text).map (Resource.version subject) = _
    rw [readVersion_names named, Option.map_some]
  schemaById id := by
    show (readId id.toString).map Resource.schemaById = _
    rw [readId_toString, Option.map_some]
  schemaByGuid guid := by
    show (readGuid guid.toString).map Resource.schemaByGuid = _
    rw [readGuid_toString, Option.map_some]
  globalConfig := rfl
  config {subject} _ on := by
    show some (Resource.config (some subject) (flag "defaultToGlobal" _)) = _
    rw [flag_switched]
  testCompatibility {subject text version} _ named body := by
    show (readVersion text).map _ = _
    rw [readVersion_names named, Option.map_some]
  lookup {subject} _ normalize body := by
    show some (Resource.write (.lookup subject (flag "normalize" _) body)) = _
    rw [flag_switched]
  register {subject} _ normalize body := by
    show some (Resource.write (.register subject (flag "normalize" _) body)) = _
    rw [flag_switched]
  putGlobalConfig _ := rfl
  putConfig _ _ := rfl
  deleteSubject {subject} _ permanent := by
    show some (Resource.write (.deleteSubject subject (flag "permanent" _))) = _
    rw [flag_switched]
  deleteVersion {subject text version} _ named permanent := by
    show (readVersion text).map _ = _
    rw [readVersion_names named, flag_switched, Option.map_some]

end Reading

/-! ## The operations -/

section Operations

variable {self : ConfluentSchemaRegistry} {interface : Interface} {mount : List String}
  {subject : String}

end Operations

end Schemreg.Confluent
