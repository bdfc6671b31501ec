import LifecycleTelemetry.Address.Host

/-!
# Addresses

Where requests are sent: a scheme, the machine with who asks and for which service, a path, a query and a
fragment. An address is kept in the form in which it is written, so that two spellings of one address
are the same value.
-/

namespace LifecycleTelemetry
namespace Address

/-- The schemes that have rules of their own. -/
inductive Scheme where
  | http
  | https
  | ws
  | wss
  | ftp
  | file
  | other (name : List Char)
deriving DecidableEq

namespace Scheme

/-- A scheme by its name. -/
def ofName (name : List Char) : Scheme :=
  if name = "http".toList then .http
  else if name = "https".toList then .https
  else if name = "ws".toList then .ws
  else if name = "wss".toList then .wss
  else if name = "ftp".toList then .ftp
  else if name = "file".toList then .file
  else .other name

/-- The name of a scheme. -/
def name : Scheme → List Char
  | .http => "http".toList
  | .https => "https".toList
  | .ws => "ws".toList
  | .wss => "wss".toList
  | .ftp => "ftp".toList
  | .file => "file".toList
  | .other name => name

/-- Whether the addresses of a scheme are always hierarchical, with backslashes for slashes. -/
def isHierarchical : Scheme → Bool
  | .other _ => false
  | _ => true

/-- The number of the service that an address of a scheme means when it names none. -/
def service? : Scheme → Option Nat
  | .http | .ws => some 80
  | .https | .wss => some 443
  | .ftp => some 21
  | .file | .other _ => none

/-- Whether requests can be sent by a scheme. -/
def carriesRequests : Scheme → Bool
  | .http | .https => true
  | _ => false

end Scheme

/-- The machine of an address, who asks, and for which service unless it is the usual one. -/
structure Authority where
  user : List Char
  password : Option (List Char)
  host : Host
  service : Option Nat
deriving DecidableEq

/-- What an address names on its machine: steps from a root, or a text without structure. -/
inductive Route where
  | steps (segments : List (List Char))
  | flat (text : List Char)
deriving DecidableEq

end Address

/-- An address of the network. -/
structure Address where
  scheme : Address.Scheme
  authority : Option Address.Authority
  route : Address.Route
  query : Option (List Char)
  fragment : Option (List Char)
deriving DecidableEq

namespace Address

/-- Who asks, as it is written in front of a host. -/
def Authority.userChars (a : Authority) : List Char :=
  match a.user, a.password with
  | [], none => []
  | user, none => user ++ ['@']
  | user, some password => user ++ [':'] ++ password ++ ['@']

/-- An authority as it is written. -/
def Authority.chars (a : Authority) : List Char :=
  ['/', '/'] ++ a.userChars ++ a.host.chars ++
    (match a.service with
      | some service => ':' :: Nat.toDigits 10 service
      | none => [])

/-- A route as it is written. -/
def Route.chars : Route → List Char
  | .steps segments => segments.flatMap ('/' :: ·)
  | .flat text => text

/-- The mark that keeps a route which starts with an empty step from being read as a machine. -/
def routeGuard (a : Address) : List Char :=
  match a.authority, a.route with
  | none, .steps ([] :: _ :: _) => ['/', '.']
  | _, _ => []

/-- An address as it is written. -/
def chars (a : Address) : List Char :=
  a.scheme.name ++ [':'] ++ (a.authority.map Authority.chars).getD [] ++ a.routeGuard ++
    a.route.chars ++ (a.query.map ('?' :: ·)).getD [] ++ (a.fragment.map ('#' :: ·)).getD []

/-- An address as it is written. -/
def text (a : Address) : String :=
  String.ofList a.chars

/-- Whether an address names a machine. -/
def hasHost (a : Address) : Bool :=
  match a.authority with
  | some authority => authority.host != .unnamed
  | none => false

/-- An address without who asks. -/
def anonymous (a : Address) : Address :=
  { a with authority := a.authority.map fun authority =>
      { authority with user := [], password := none } }

end Address
end LifecycleTelemetry
