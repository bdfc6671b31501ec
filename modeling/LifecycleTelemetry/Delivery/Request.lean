import LifecycleTelemetry.Address.Reader
import LifecycleTelemetry.Delivery.Payload
import LifecycleTelemetry.Failure.Basic

/-!
# Requests to a collector

A payload is sent to a collector as one request: the address it goes to, the source key in a header
and the text of the payload as its body. A request that cannot be built is never sent, and one whose
collector cannot be reached fails. A collector that answers is satisfied, whatever it answers.
-/

namespace LifecycleTelemetry

/-- A request to a collector. -/
structure CollectorRequest where
  address : Address
  sourceKey : String
  body : String
deriving DecidableEq

/-- Why a request does not reach its collector. -/
inductive RequestError where
  | unbuildable
  | unsupported (a : Address)
  | unreachable (a : Address)
deriving DecidableEq

/-- The message of a request error. -/
def RequestError.message : RequestError → String
  | .unbuildable => "builder error"
  | .unsupported a => "builder error for url (" ++ a.text ++ ")"
  | .unreachable a => "error sending request for url (" ++ a.text ++ ")"

namespace CollectorRequest

/-- The headers that are set on a request: whose events these are, and of what type the body is. -/
def headers (request : CollectorRequest) : List (String × String) :=
  [("X-Sparrow-Source-Key", request.sourceKey), ("Content-Type", "application/json")]

/-- Whether a text can be the value of a header: no control character but the tab. -/
def isHeaderValue (s : String) : Bool :=
  s.toList.all fun c => (decide (0x20 ≤ c.toNat) && c.toNat != 0x7F) || c == '\t'

/-- Whether requests can be sent to an address: by its scheme, with a name that needs no escapes, and
with a text that is not too long. -/
def isReachable (a : Address) : Bool :=
  let quiet := match a.authority.map (·.host) with
    | some (.named name) => name.all fun c => !Address.Place.path.reserved.contains c
    | _ => true
  a.scheme.carriesRequests && quiet && decide (a.text.utf8ByteSize ≤ 65534)

/-- The request that carries a payload. -/
def build (endpoint sourceKey : String) (payload : Payload) :
    Except RequestError CollectorRequest :=
  match Address.ofText? endpoint with
  | none => .error .unbuildable
  | some a =>
      if !a.hasHost then .error (.unsupported a)
      else if !isHeaderValue sourceKey then .error .unbuildable
      else if !isReachable a.anonymous then .error (.unsupported a.anonymous)
      else .ok ⟨a.anonymous, sourceKey, payload.text⟩

/-- Sends a payload, given which addresses are answered. -/
def send (answers : Address → Bool) (endpoint sourceKey : String) (payload : Payload) :
    Except Failure.TelemetryError CollectorRequest :=
  let sent := do
    let request ← build endpoint sourceKey payload
    if answers request.address then .ok request else .error (RequestError.unreachable request.address)
  sent.mapError fun e => .delivery endpoint e.message

/-- A request that has been built carries the key it was built with and the text of its payload. -/
theorem build_eq_ok
    {endpoint sourceKey : String}
    {payload : Payload}
    {request : CollectorRequest}
    (h : build endpoint sourceKey payload = .ok request) :
    request.sourceKey = sourceKey ∧ request.body = payload.text := by
  unfold build at h
  split at h
  · simp at h
  · split at h
    · simp at h
    · split at h
      · simp at h
      · split at h
        · simp at h
        · simp only [Except.ok.injEq] at h
          subst h
          exact ⟨rfl, rfl⟩

end CollectorRequest
end LifecycleTelemetry
