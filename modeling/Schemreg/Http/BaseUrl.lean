import Mathlib.Data.List.DropRight
import Schemreg.Error
import Schemreg.Lib.IpAddr

/-
  The base URL of a registry client: what `src/http.rs` checks in it, and the `build` of the
  Confluent and the Apicurio builder, up to the HTTP client.

  What the builders hand over to `HttpClient::with_config` (timeouts, certificates, the retry
  policy) and the HTTP client itself are parameters.
-/

namespace Schemreg

/-- `url.find("://")`: what follows the first one. -/
def afterScheme : List Char → Option (List Char)
  | [] => none
  | c :: rest =>
      if "://".toList.isPrefixOf (c :: rest) then some (rest.drop 2) else afterScheme rest

def endsSlice (c : Char) : Bool := c = '/' || c = '?' || c = '#'

/-- The authority: what stands between the first `://` and the next `/`, `?` or `#`. -/
def authoritySlice (url : List Char) : Option (List Char) :=
  (afterScheme url).map fun rest => rest.takeWhile fun c => !endsSlice c

/-- Strip trailing slashes from a URL. -/
def normalizeUrl (url : String) : String := String.ofList (url.toList.rdropWhile (· = '/'))

/-- The host of an authority, without its port. -/
def hostOf (authority : List Char) : List Char :=
  match authority.rtakeWhile (· ≠ '@') with
  | '[' :: rest => rest.takeWhile (· ≠ ']')
  | host => host.takeWhile (· ≠ ':')

/-- Whether a host is `localhost` or a loopback address. -/
def isLoopback (host : List Char) : Bool :=
  host.map Char.toLower = "localhost".toList ||
    match Net.parse host with
    | some ip => ip.isLoopback
    | none => false

/-- `is_loopback_host`. -/
def isLoopbackHost (url : String) : Bool :=
  match authoritySlice url.toList with
  | some authority => isLoopback (hostOf authority)
  | none => false

/-- Reject URLs that embed credentials in the authority component. -/
def rejectEmbeddedCredentials (url : String) : Result Unit :=
  match authoritySlice url.toList with
  | some authority =>
      if '@' ∈ authority then
        .error (.config ("registry URL must not contain embedded credentials (user:pass@host); " ++
          "use the builder's auth methods instead"))
      else .ok ()
  | none => .ok ()

def startsWithHttp (url : String) : Bool := "http://".toList.isPrefixOf url.toList

/-- What both builders check before they build the HTTP client. -/
def checkBaseUrl (withAuth : Bool) (requiresHttps url : String) : Result Unit := do
  rejectEmbeddedCredentials url
  if withAuth && startsWithHttp url then
    if !isLoopbackHost url then
      .error (.config requiresHttps)

variable {Config Client : Type} (withConfig : Config → Result Client)

namespace Confluent

/-- `RegistryAuth`. -/
inductive RegistryAuth where
  | none
  | basic (username password : String)
  | bearer (token : String)
  deriving DecidableEq

/-- `ConfluentSchemaRegistryBuilder`: the URL, the auth, and what `with_config` gets. -/
structure ConfluentSchemaRegistryBuilder (Config : Type) where
  url : Option String
  auth : RegistryAuth
  config : Config

def requiresHttps : String :=
  "schema registry auth requires HTTPS — credentials would be sent in cleartext over HTTP. " ++
    "(Plain HTTP with credentials is permitted only for loopback hosts such as " ++
    "http://localhost:8081.)"

/-- `build`: the HTTP client and the base URL. -/
def ConfluentSchemaRegistryBuilder.build (builder : ConfluentSchemaRegistryBuilder Config) :
    Result (Client × String) := do
  let url ← match builder.url with
    | some url => .ok url
    | none => .error (.config "schema registry URL is required")
  checkBaseUrl (builder.auth ≠ .none) requiresHttps url
  let client ← withConfig builder.config
  return (client, normalizeUrl url)

end Confluent

namespace Apicurio

/-- `ApicurioAuth`. -/
inductive ApicurioAuth where
  | none
  | basic (username password : String)
  | bearer (token : String)
  deriving DecidableEq

/-- `ApicurioSchemaRegistryBuilder`: the URL, the auth, and what `with_config` gets. -/
structure ApicurioSchemaRegistryBuilder (Config : Type) where
  url : Option String
  auth : ApicurioAuth
  config : Config

def requiresHttps : String :=
  "Apicurio Registry auth requires HTTPS — credentials would be sent in cleartext over HTTP. " ++
    "(Plain HTTP with credentials is permitted only for loopback hosts such as " ++
    "http://localhost:8080.)"

/-- `build`: the HTTP client and the base URL. The checks come after the slashes are gone. -/
def ApicurioSchemaRegistryBuilder.build (builder : ApicurioSchemaRegistryBuilder Config) :
    Result (Client × String) := do
  let rawUrl ← match builder.url with
    | some url => .ok url
    | none => .error (.config "ApicurioSchemaRegistryBuilder: URL is required")
  let url := normalizeUrl rawUrl
  checkBaseUrl (builder.auth ≠ .none) requiresHttps url
  let client ← withConfig builder.config
  return (client, url)

end Apicurio

end Schemreg
