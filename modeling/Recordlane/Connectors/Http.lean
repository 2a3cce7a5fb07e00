import Recordlane.Runtime

/-! The paginated HTTP connector and its OData variant. -/
namespace Recordlane

/-- `urlparse(url)`, as far as the connector reads it. -/
structure ParsedUrl where
  scheme : String
  hostname : Option String
  port : Py (Option Nat)
  username : Option String
  password : Option String

/-- `ipaddress.ip_address(value)`: the address and its kinds. -/
structure IpAddress where
  address : String
  isLoopback : Bool
  isLinkLocal : Bool
  isPrivate : Bool
  isReserved : Bool
  isMulticast : Bool
  deriving DecidableEq

/-- Whether the address is not of the public network. -/
def IpAddress.isUnsafe (address : IpAddress) : Bool :=
  address.isLoopback || address.isLinkLocal || address.isPrivate || address.isReserved ||
    address.isMulticast

/-- What the connector uses of `urllib.parse` and of the resolver, whose answers may change from one
question to the next. -/
structure Network where
  urlparse : String → Py ParsedUrl
  urljoin : String → String → Py String
  getaddrinfo : Nat → String → Nat → Py (List IpAddress)

/-- `bool(text)` of an optional text. -/
def ParsedUrl.given (text : Option String) : Bool := text.isSome && text ≠ some ""

namespace ParsedUrl

variable (url : ParsedUrl)

/-- A web address of an allowed host, without credentials. -/
def allowed (allowedHosts : List String) : Bool :=
  ["http", "https"].contains url.scheme &&
    (match url.hostname with
      | some host => host ≠ "" && allowedHosts.contains host
      | none => false) &&
    !given url.username && !given url.password

/-- Whether the address is encrypted or local. -/
def encrypted : Bool :=
  url.scheme = "https" || url.hostname = some "127.0.0.1" || url.hostname = some "localhost"

/-- `parsed.port or (443 if parsed.scheme == "https" else 80)`. -/
def portNumber : Py Nat := do
  match ← url.port with
  | some (port + 1) => return port + 1
  | _ => return if url.scheme = "https" then 443 else 80

end ParsedUrl

structure HttpConnector where
  baseUrl : String
  allowedHosts : List String
  maxPages : Int
  allowPrivateNetworks : Bool

namespace HttpConnector

/-- `_validate_resolution`. -/
def validateResolution (net : Network) (allowPrivateNetworks : Bool) (time : Nat) (hostname : String)
    (port : Nat) : Py Unit := do
  let addresses ← net.getaddrinfo time hostname port
  if addresses.isEmpty then throw (.python "ValueError")
  else addresses.forM fun address =>
    if address.address = "169.254.169.254" || address.address = "fd00:ec2::254" then
      throw (.python "ValueError")
    else if address.isUnsafe && !allowPrivateNetworks then throw (.python "ValueError")
    else return ()

/-- `__init__`. -/
def create (net : Network) (time : Nat) (baseUrl : String) (allowedHosts : List String)
    (maxPages : Int) (allowPrivateNetworks : Bool) : Py HttpConnector := do
  let parsed ← net.urlparse baseUrl
  if !parsed.allowed allowedHosts then throw (.python "ValueError")
  else if !parsed.encrypted && !allowPrivateNetworks then throw (.python "ValueError")
  else
    let port ← parsed.portNumber
    validateResolution net allowPrivateNetworks time (parsed.hostname.getD "") port
    return ⟨baseUrl, allowedHosts, maxPages, allowPrivateNetworks⟩

variable (self : HttpConnector)

/-- `_validate_url`. -/
def validateUrl (net : Network) (time : Nat) (url : String) : Py Unit := do
  let parsed ← net.urlparse url
  if !parsed.allowed self.allowedHosts then
    throw (.runtime "connector URL escaped the administrator allowlist")
  else
    let port ← parsed.portNumber
    validateResolution net self.allowPrivateNetworks time (parsed.hostname.getD "") port

def dropSlashes (text : String) : String := String.ofList (text.toList.dropWhile (· = '/'))

def dropLastSlashes (text : String) : String :=
  String.ofList ((text.toList.reverse.dropWhile (· = '/')).reverse)

/-- The URL of a path. -/
def joined (net : Network) (path : String) : Py String :=
  net.urljoin (dropLastSlashes self.baseUrl ++ "/") (dropSlashes path)

end HttpConnector

/-- A page cursor: absent, a text or a number. -/
inductive Cursor
  | absent
  | text (value : String)
  | number (value : Int)
  deriving DecidableEq

/-- `str(cursor)`. -/
def Cursor.str : Cursor → String
  | .absent => "None"
  | .text value => value
  | .number value => toString value

structure HttpPage where
  items : List Dict
  nextCursor : Cursor
  complete : Bool

/-- The body of a response. -/
structure PagePayload where
  items : List Dict
  nextCursor : Cursor
  snapshotComplete : Option Json

def PagePayload.page (payload : PagePayload) : HttpPage where
  items := payload.items
  nextCursor := payload.nextCursor
  complete := (payload.snapshotComplete.getD (.bool (payload.nextCursor = .absent))).truthy

/-- What reading leaves: the requests, the pages that are yielded, and the exception at the end. -/
structure Yielded (ρ π : Type) where
  requests : List ρ
  pages : List π
  raised : Option Raised

namespace Yielded

variable {ρ π : Type}

def failed (e : Raised) : Yielded ρ π := ⟨[], [], some e⟩

/-- A request and its page come first. -/
def after (request : ρ) (page : π) (rest : Yielded ρ π) : Yielded ρ π :=
  ⟨request :: rest.requests, page :: rest.pages, rest.raised⟩

end Yielded

namespace HttpConnector

variable (self : HttpConnector) (net : Network)

/-- The loop of `read`, with the pages left, the number of the iteration and the markers seen. -/
def readFrom (path : String) (server : Nat → String → Cursor → Py PagePayload) :
    Nat → Nat → List String → Cursor → Yielded (String × Cursor) HttpPage
  | 0, _, _, _ => .failed (.runtime "maximum page count exceeded")
  | left + 1, time, seen, cursor =>
    match self.joined net path with
    | .error e => .failed e
    | .ok url =>
      match self.validateUrl net time url with
      | .error e => .failed e
      | .ok () =>
        if cursor.str ∈ seen then .failed (.runtime "pagination loop detected")
        else
          match server time url cursor with
          | .error e => ⟨[(url, cursor)], [], some e⟩
          | .ok payload =>
            if payload.nextCursor = .absent then ⟨[(url, cursor)], [payload.page], none⟩
            else .after (url, cursor) payload.page
              (readFrom path server left (time + 1) (cursor.str :: seen) payload.nextCursor)

/-- `read`. -/
def read (path : String) (cursor : Cursor) (server : Nat → String → Cursor → Py PagePayload) :
    Yielded (String × Cursor) HttpPage :=
  self.readFrom net path server self.maxPages.toNat 0 [] cursor

end HttpConnector

/-- The body of an OData response. -/
structure ODataPayload where
  value : List Dict
  nextLink : Json

structure ODataPage where
  items : List Dict
  nextCursor : Json
  complete : Bool

namespace HttpConnector

variable (self : HttpConnector) (net : Network)

/-- The loop of `read_odata`. -/
def readODataFrom (server : Nat → String → Py ODataPayload) :
    Nat → Nat → List String → String → Yielded String ODataPage
  | 0, _, _, _ => .failed (.runtime "maximum page count exceeded")
  | left + 1, time, seen, url =>
    if url ∈ seen then .failed (.runtime "OData nextLink loop detected")
    else
      match self.validateUrl net time url with
      | .error e => .failed e
      | .ok () =>
        match server time url with
        | .error e => ⟨[url], [], some e⟩
        | .ok payload =>
          let page : ODataPage := ⟨payload.value, payload.nextLink, payload.nextLink = .null⟩
          if !payload.nextLink.truthy then ⟨[url], [page], none⟩
          else
            match payload.nextLink with
            | .str next => .after url page (readODataFrom server left (time + 1) (url :: seen) next)
            -- what is no text is refused by the set of seen links or by the parser, if a page is left
            | link => ⟨[url], [page], some (if left = 0 then .runtime "maximum page count exceeded"
                else .python (match link with
                  | .arr _ | .obj _ => "TypeError"
                  | _ => "AttributeError"))⟩

/-- `read_odata`. -/
def readOData (path : String) (server : Nat → String → Py ODataPayload) : Yielded String ODataPage :=
  match self.joined net path with
  | .error e => .failed e
  | .ok url => self.readODataFrom net server self.maxPages.toNat 0 [] url

end HttpConnector

end Recordlane
