import Mathlib.Data.String.Basic
import Stouter.Lists.Basic

/-! # The configuration

Services, routes and the versioned dynamic configuration that gossip
replicates, with the checks that look at one route list or one path.
Machine integers keep their width; label maps are ordered maps with
extensional equality, so two configurations are equal exactly when the
source's derived comparison says so.
-/

namespace Stouter

inductive Mode
  | node
  | subscribe
  | nodeSubscribe
  deriving DecidableEq, Repr

inductive Protocol
  | tcp
  | http
  deriving DecidableEq, Repr

abbrev Labels := Std.ExtTreeMap String String

/-- A single service instance exposed by a node. -/
structure Service where
  name : String
  nodeId : String
  nodePort : UInt16
  domains : List String
  weight : UInt32
  maxConnections : Option UInt32
  protocol : Protocol
  requestTimeoutMs : Option UInt64
  healthPath : Option String
  labels : Labels
  metadata : Labels
  localPort : Option UInt16
  deriving DecidableEq

/-- `labels` include every key/value in `selector`. -/
def labelsMatch (labels selector : Labels) : Bool :=
  selector.toList.all fun kv => labels.get? kv.1 == some kv.2

structure RouteMatch where
  pathPrefix : Option String
  method : Option String
  headers : Labels
  deriving DecidableEq

structure RouteBackend where
  labels : Labels
  weight : UInt32
  deriving DecidableEq

structure Route where
  name : Option String
  service : String
  routeMatch : RouteMatch
  backends : List RouteBackend
  deriving DecidableEq

/-- The name, or the position of the route in its list. -/
def Route.label (r : Route) (index : ℕ) : String := r.name.getD s!"#{index}"

structure ServiceGroup where
  name : String
  services : List Service
  deriving DecidableEq

/-- Limits which services a subscriber proxies. -/
structure SubscribeFilter where
  serviceGroups : List String
  services : List String
  deriving DecidableEq

/-- Versioned, gossip-replicated configuration shared across the cluster. -/
structure DynamicConfig where
  version : UInt64
  serviceGroups : List ServiceGroup
  routes : List Route
  deriving DecidableEq

namespace DynamicConfig

def default : DynamicConfig := ⟨0, [], []⟩

def instances (dc : DynamicConfig) : List Service := dc.serviceGroups.flatMap (·.services)

end DynamicConfig

structure TracingConfig where
  otlpEndpoint : String
  sampleRatio : Float
  serviceName : String

/-- Top-level on-disk configuration of a daemon. -/
structure Config where
  mode : Mode
  bind : String
  advertiseAddr : Option String
  nodeId : String
  outboundOnly : Bool
  reversePoolSize : Option UInt16
  knownNodes : List String
  dynamicConfig : DynamicConfig
  subscribeFilter : Option SubscribeFilter
  tlsDir : Option String
  adminCns : List String
  apiPort : Option UInt16
  tracing : Option TracingConfig
  httpListen : Option String

namespace Config

def default : Config where
  mode := .node
  bind := "0.0.0.0:8080"
  advertiseAddr := none
  nodeId := ""
  outboundOnly := false
  reversePoolSize := none
  knownNodes := []
  dynamicConfig := .default
  subscribeFilter := none
  tlsDir := none
  adminCns := []
  apiPort := none
  tracing := none
  httpListen := none

/-- The address peers should use to reach this node. -/
def peerAddr (cfg : Config) : String := cfg.advertiseAddr.getD cfg.bind

/-- Port of the subscribe-mode REST API on `127.0.0.1`. -/
def apiPortOr (cfg : Config) : UInt16 := cfg.apiPort.getD 5381

end Config

/-! ## The `http` crate -/

/-- The parts of a parsed URI the code reads. -/
structure Uri where
  scheme : Option String
  host : Option String
  pathAndQuery : Option String
  deriving DecidableEq, Repr

/-- The functions of the `http` crate that configuration checks and request routing call. -/
structure HttpCrate where
  /-- `HeaderName::from_bytes` accepts the name. -/
  validHeaderName : String → Bool
  /-- `str::parse::<Uri>`, with the text of its error. -/
  parseUri : String → Except String Uri

/-- A token character of RFC 9110. -/
def isTokenChar (c : Char) : Bool := c.isAlphanum || "!#$%&'*+-.^_|~".toList.contains c

/-- A crate that takes tokens as header names and plain `http://host/path` texts as URIs. -/
def plainHttp : HttpCrate where
  validHeaderName name := !name.isEmpty && name.toList.all isTokenChar
  parseUri text :=
    if text.toList.take 7 = "http://".toList then
      let rest := text.toList.drop 7
      .ok ⟨some "http", some (String.ofList (rest.takeWhile (· ≠ '/'))),
        some (String.ofList (rest.dropWhile (· ≠ '/')))⟩
    else
      .error "invalid uri character"

/-! ## Checks of one value -/

def startsWithSlash (s : String) : Bool := s.toList.head? == some '/'

/-- One route of `validate_routes`, at its index in the list of its service. -/
def validateRoute (http : HttpCrate) (service : String) (i : ℕ) (route : Route) :
    Except String Unit :=
  let at_ := s!"route {route.label i} of service '{service}'"
  if route.service ≠ service then
    .error s!"{at_} names service '{route.service}'"
  else if route.backends.isEmpty then
    .error s!"{at_} has no backends"
  else if route.backends.all fun b => b.weight == 0 then
    .error s!"{at_} has no backend with a non-zero weight"
  else do
    match route.routeMatch.pathPrefix with
    | some pathPrefix =>
      if !startsWithSlash pathPrefix then
        .error s!"{at_}: pathPrefix '{pathPrefix}' must start with '/'"
    | none => pure ()
    match route.routeMatch.method with
    | some method =>
      if method.isEmpty || !method.toList.all Char.isUpper then
        .error s!"{at_}: method '{method}' must be an uppercase token like GET"
    | none => pure ()
    match route.routeMatch.headers.keys.find? fun name => !http.validHeaderName name with
    | some name => .error s!"{at_}: '{name}' is not a valid header name"
    | none => pure ()

/-- The loop of `validate_routes` from index `i` on. -/
def validateRoutesFrom (http : HttpCrate) (service : String) : ℕ → List Route → Except String Unit
  | _, [] => .ok ()
  | i, route :: routes => do
    validateRoute http service i route
    validateRoutesFrom http service (i + 1) routes

def validateRoutes (http : HttpCrate) (service : String) (routes : List Route) :
    Except String Unit :=
  validateRoutesFrom http service 0 routes

/-- `u8::is_ascii_whitespace() || u8::is_ascii_control() || !u8::is_ascii()`, for a character:
a character outside ASCII has only bytes outside ASCII. -/
def forbiddenInPath (c : Char) : Bool := c.val ≤ 0x20 || 0x7f ≤ c.val

/-- Check that `path` can be sent verbatim as an HTTP request target. -/
def validateHealthPath (path : String) : Except String Unit :=
  if !startsWithSlash path then
    .error s!"healthPath '{path}' must start with '/'"
  else if path.toList.any forbiddenInPath then
    .error s!"healthPath '{path}' may not contain whitespace, control or non-ASCII characters"
  else
    .ok ()

end Stouter
