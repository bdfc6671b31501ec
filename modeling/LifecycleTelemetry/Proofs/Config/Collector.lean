import LifecycleTelemetry.Config.Collector
import LifecycleTelemetry.Proofs.Text.Blank

/-!
# The key and the endpoint that count

A source key is looked at three times: when the environment is read, when a collector is asked for a key
that can be used, and when a client is made. All three go by the core of a text, and a core is its own
core, so that the environment has the first say and the collector the last: `resolves_withEnvironment`.
-/

namespace LifecycleTelemetry

theorem Environment.trimmed?_eq_iff
    {env : Environment}
    {name : String}
    {left : Option String} :
    Environment.trimmed? env name = left ↔ Text.Leaves (Environment.text? env name) left :=
  Text.bind_core?_eq_iff

namespace Collector

/-- The source key that is to be used: what the environment leaves of one, and if that is nothing, what is
left of the collector's own. -/
inductive Entitled (c : Collector) (env : Environment) : Option String → Prop where
  | given
      {key : String}
      (h : Text.Leaves (Environment.text? env "SPARROW_SOURCE_KEY") (some key)) :
      Entitled c env (some key)
  | kept
      {key : Option String}
      (h : Text.Leaves (Environment.text? env "SPARROW_SOURCE_KEY") none)
      (hown : Text.Leaves c.sourceKey key) :
      Entitled c env key

/-- The endpoint that is to be used: what the environment leaves of one, and if that is nothing, the
collector's own as it is. -/
inductive Addressed (c : Collector) (env : Environment) : String → Prop where
  | given
      {endpoint : String}
      (h : Text.Leaves (Environment.text? env "C3_TELEMETRY_ENDPOINT") (some endpoint)) :
      Addressed c env endpoint
  | kept
      (h : Text.Leaves (Environment.text? env "C3_TELEMETRY_ENDPOINT") none) :
      Addressed c env c.endpoint

/-- A collector has just the key and the endpoint that are to be used, and the rest of another one. -/
structure Resolves (c : Collector) (env : Environment) (r : Collector) : Prop where
  credential : ∀ key, r.credential? = key ↔ Entitled c env key
  endpoint : ∀ endpoint, r.endpoint = endpoint ↔ Addressed c env endpoint
  timeout : r.timeoutSeconds = c.timeoutSeconds
  again : r.withEnvironment env = r

variable (c : Collector) (env : Environment)

/-- A key from the environment can be used as it is. -/
theorem credential?_withEnvironment :
    (c.withEnvironment env).credential? =
      (Environment.trimmed? env "SPARROW_SOURCE_KEY").or c.credential? := by
  show (((Environment.trimmed? env "SPARROW_SOURCE_KEY").or c.sourceKey).bind Text.core?) = _
  cases hkey : Environment.trimmed? env "SPARROW_SOURCE_KEY" with
  | none =>
      rfl
  | some key =>
      have hleft := Environment.trimmed?_eq_iff.mp hkey
      generalize Environment.text? env "SPARROW_SOURCE_KEY" = value at hleft
      cases hleft with
      | core h =>
          rw [Option.some_or, Option.bind_some, Option.some_or, Text.core?_eq_some_iff]
          exact h.self

theorem credential?_withEnvironment_iff
    (key : Option String) :
    (c.withEnvironment env).credential? = key ↔ Entitled c env key := by
  rw [credential?_withEnvironment]
  constructor
  · rintro rfl
    cases hgiven : Environment.trimmed? env "SPARROW_SOURCE_KEY" with
    | none =>
        exact .kept (Environment.trimmed?_eq_iff.mp hgiven) (Text.bind_core?_eq_iff.mp rfl)
    | some key =>
        exact .given (Environment.trimmed?_eq_iff.mp hgiven)
  · intro h
    cases h with
    | given h =>
        rw [Environment.trimmed?_eq_iff.mpr h, Option.some_or]
    | kept h hown =>
        rw [Environment.trimmed?_eq_iff.mpr h, Option.none_or]
        exact Text.bind_core?_eq_iff.mpr hown

theorem endpoint_withEnvironment_iff
    (endpoint : String) :
    (c.withEnvironment env).endpoint = endpoint ↔ Addressed c env endpoint := by
  rw [withEnvironment]
  constructor
  · rintro rfl
    cases hgiven : Environment.trimmed? env "C3_TELEMETRY_ENDPOINT" with
    | none =>
        exact .kept (Environment.trimmed?_eq_iff.mp hgiven)
    | some endpoint =>
        exact .given (Environment.trimmed?_eq_iff.mp hgiven)
  · intro h
    cases h with
    | given h =>
        rw [Environment.trimmed?_eq_iff.mpr h, Option.getD_some]
    | kept h =>
        rw [Environment.trimmed?_eq_iff.mpr h, Option.getD_none]

/-- The environment of a process decides about the key and the endpoint of a collector once and for
all. -/
theorem resolves_withEnvironment :
    Resolves c env (c.withEnvironment env) where
  credential := c.credential?_withEnvironment_iff env
  endpoint := c.endpoint_withEnvironment_iff env
  timeout := c.withEnvironment_timeoutSeconds env
  again := c.withEnvironment_idem env

end Collector
end LifecycleTelemetry
