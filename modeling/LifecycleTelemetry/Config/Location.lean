import LifecycleTelemetry.Config.Environment
import LifecycleTelemetry.Config.Path

/-!
# Where the metrics file is

The environment may name the file outright. Otherwise it lies in a directory of its own below the
user's configuration directory, which is named by the environment too if the name is absolute, and
else lies in the user's home. A user without a home has no configuration directory.
-/

namespace LifecycleTelemetry
namespace Location

/-- The home of the user: the one that the environment names, and else the one that goes with the
account. -/
def home? (account : Option String) (env : Environment) : Option String :=
  let named (home : Option String) : Option String := home.filter fun path => !path.isEmpty
  (named (Environment.text? env "HOME")).or (named account)

/-- The directory in which the user's configuration lies. -/
def configDirectory? (account : Option String) (env : Environment) : Option String :=
  (home? account env).map fun home =>
    ((Environment.text? env "XDG_CONFIG_HOME").filter Path.isAbsolute).getD (Path.join home ".config")

/-- The path of the metrics file. -/
def metricsFile? (account : Option String) (env : Environment) : Option String :=
  let usual := (configDirectory? account env).map fun directory =>
    Path.join (Path.join directory ".wrangler") "metrics.json"
  match Environment.text? env "C3_METRICS_CONFIG_PATH" with
  | some path => if Text.isAllBlank path then usual else some path
  | none => usual

end Location
end LifecycleTelemetry
