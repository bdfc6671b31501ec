import LifecycleTelemetry.Address.Basic

/-!
# Reading addresses

An address is read from left to right: the scheme up to the first colon, the machine after two
slashes, then the route up to a question mark or a number sign, the query and the fragment. On the way
it takes its written form: letters of the scheme and of the machine become small, the usual service
disappears, steps that lead back are followed, and characters that may not stand for themselves are
escaped. Line breaks and tabs are skipped wherever they are.
-/

namespace LifecycleTelemetry
namespace Address

/-- A text without what is skipped in an address: control characters and spaces on either side, tabs
and line breaks everywhere. -/
def cleaned (cs : List Char) : List Char :=
  let isEdge (c : Char) : Bool := decide (c.toNat ≤ 0x20)
  let inner := ((cs.dropWhile isEdge).reverse.dropWhile isEdge).reverse
  inner.filter fun c => c != '\t' && c != '\n' && c != '\r'

/-- Whether a character can stand in the name of a scheme after the first one. -/
def isSchemeChar (c : Char) : Bool :=
  c.isAlphanum || c == '+' || c == '-' || c == '.'

/-- The scheme of an address, and what follows its colon. -/
def readScheme? (cs : List Char) : Option (Scheme × List Char) :=
  match cs with
  | [] => none
  | c :: _ =>
      match cs.dropWhile isSchemeChar with
      | ':' :: rest =>
          if c.isAlpha then some (.ofName ((cs.takeWhile isSchemeChar).map Char.toLower), rest)
          else none
      | _ => none

/-- Whether a character separates the steps of a route. -/
def isSlash (hierarchical : Bool) (c : Char) : Bool :=
  c == '/' || (hierarchical && c == '\\')

/-- Whether a character ends the machine of an address. -/
def endsAuthority (hierarchical : Bool) (c : Char) : Bool :=
  isSlash hierarchical c || c == '?' || c == '#'

/-- A text split at the last at sign. -/
def atLastAt (cs : List Char) : Option (List Char) × List Char :=
  let host := (cs.reverse.takeWhile (· != '@')).reverse
  if cs.contains '@' then (some (cs.take (cs.length - host.length - 1)), host) else (none, cs)

/-- The host of a machine up to the colon of its service, brackets being kept together. -/
def atService (inBrackets : Bool) : List Char → List Char × Option (List Char)
  | [] => ([], none)
  | c :: rest =>
      if c = ':' ∧ inBrackets = false then ([], some rest)
      else
        let inBrackets := if c = '[' then true else if c = ']' then false else inBrackets
        let (host, service) := atService inBrackets rest
        (c :: host, service)

/-- The number of a service. None is as good as the usual one. -/
def service? (scheme : Scheme) (digits : List Char) : Option (Option Nat) :=
  if digits.all Char.isDigit then
    let service := digitsValue 10 digits
    if digits = [] ∨ some service = scheme.service? then some none
    else if service ≤ 65535 then some (some service) else none
  else none

/-- A machine. Who asks is written in front of the last at sign, the password after the first
colon of that. -/
def authority? (scheme : Scheme) (cs : List Char) : Option Authority := do
  let (who, machine) := atLastAt cs
  let (hostText, serviceText) := atService false machine
  let host ← if scheme.isHierarchical then Host.ofChars? hostText else Host.ofFlatChars? hostText
  if host = .unnamed ∧ (who.isSome ∨ serviceText.isSome) then none
  let service ← service? scheme (serviceText.getD [])
  let who := who.getD []
  let password := match who.dropWhile (· != ':') with
    | _ :: password => if password = [] then none else some (Place.userInfo.escape password)
    | [] => none
  return { user := Place.userInfo.escape (who.takeWhile (· != ':')), password, host, service }

/-- Whether a step stays where it is. -/
def isHere (step : List Char) : Bool :=
  let step := step.map Char.toLower
  step == ['.'] || step == ['%', '2', 'e']

/-- Whether a step leads back. -/
def isBack (step : List Char) : Bool :=
  let step := step.map Char.toLower
  let dots := [['.'], ['%', '2', 'e']]
  dots.any fun a => dots.any fun b => step == a ++ b

/-- Follows the steps of a route, after those taken so far. A route that ends with a step that goes
nowhere new ends with an empty one. -/
def follow (taken : List (List Char)) : List (List Char) → List (List Char)
  | [] => taken
  | step :: rest =>
      let kept := if isBack step then taken.dropLast else taken
      if isBack step || isHere step then
        if rest.isEmpty then kept ++ [[]] else follow kept rest
      else follow (kept ++ [Place.path.escape step]) rest

/-- The route of a hierarchical address. It starts at the root even if no slash says so. -/
def steps (hierarchical : Bool) (cs : List Char) : Route :=
  match cs with
  | [] => .steps (if hierarchical then [[]] else [])
  | c :: rest =>
      let below := if isSlash hierarchical c then rest else cs
      .steps (follow [] (splitOn (isSlash hierarchical) below))

/-- An address from its parts, of which the route is still followed by the query and the fragment. -/
def ofRoute (scheme : Scheme) (authority : Option Authority) (route : List Char → Route)
    (cs : List Char) : Address :=
  let path := cs.takeWhile fun c => c != '?' && c != '#'
  let rest := cs.drop path.length
  let fragment := rest.dropWhile (· != '#')
  let query := rest.takeWhile (· != '#')
  { scheme
    authority
    route := route path
    query := query.head?.map fun _ => (Place.query scheme.isHierarchical).escape query.tail
    fragment := fragment.head?.map fun _ => Place.fragment.escape fragment.tail }

/-- The part of a text that names a machine, and the rest. -/
def atRoute (hierarchical : Bool) (cs : List Char) : List Char × List Char :=
  (cs.takeWhile fun c => !endsAuthority hierarchical c,
    cs.dropWhile fun c => !endsAuthority hierarchical c)

/-- The machine of a file, which is left out if it is the own one. -/
def fileAuthority? (cs : List Char) : Option Authority := do
  let host ← if cs = [] then some .unnamed else Host.ofChars? cs
  return ⟨[], none, if host = .named "localhost".toList then .unnamed else host, none⟩

/-- Reads what follows the scheme. -/
def ofRest? (scheme : Scheme) (rest : List Char) : Option Address :=
  match scheme, rest with
  | .file, a :: b :: below =>
      if isSlash true a && isSlash true b then do
        let (machine, route) := atRoute true below
        return ofRoute .file (some (← fileAuthority? machine)) (steps true) route
      else some (ofRoute .file (some ⟨[], none, .unnamed, none⟩) (steps true) rest)
  | .file, rest => some (ofRoute .file (some ⟨[], none, .unnamed, none⟩) (steps true) rest)
  | .other name, '/' :: '/' :: below => do
      let (machine, route) := atRoute false below
      return ofRoute (.other name) (some (← authority? (.other name) machine)) (steps false) route
  | .other name, '/' :: below => some (ofRoute (.other name) none (steps false) ('/' :: below))
  | .other name, rest =>
      some (ofRoute (.other name) none (fun path => .flat (Place.flat.escape path)) rest)
  | scheme, rest => do
      let (machine, route) := atRoute true (rest.dropWhile (isSlash true))
      return ofRoute scheme (some (← authority? scheme machine)) (steps true) route

/-- The address that a text is. -/
def ofText? (s : String) : Option Address := do
  let (scheme, rest) ← readScheme? (cleaned s.toList)
  ofRest? scheme rest

end Address
end LifecycleTelemetry
