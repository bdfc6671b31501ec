import LifecycleTelemetry.Config.PermissionCommand

/-!
# Topics of the command line

The commands of the program form a tree: two groups that only hold further commands, the commands
about the permission, the command that runs a session, and one help command in each group. Every
place in the tree is a topic, and every topic has a page of help.
-/

namespace LifecycleTelemetry
namespace CommandLine

/-- A command that only holds further commands. -/
inductive CommandGroup where
  | program
  | telemetry
deriving DecidableEq

/-- A place in the tree of commands. -/
inductive Topic where
  | group (g : CommandGroup)
  | permission (c : PermissionCommand)
  | run
  | help (g : CommandGroup)
deriving DecidableEq

/-- The command that a word names inside a group. -/
def CommandGroup.member? : CommandGroup → String → Option Topic
  | .program, "telemetry" => some (.group .telemetry)
  | .program, "run" => some .run
  | .program, "help" => some (.help .program)
  | .telemetry, "status" => some (.permission .status)
  | .telemetry, "enable" => some (.permission .enable)
  | .telemetry, "disable" => some (.permission .disable)
  | .telemetry, "help" => some (.help .telemetry)
  | _, _ => none

/-- The command that a word names below a topic. Nothing lies below a command that does something. -/
def Topic.below? : Topic → String → Option Topic
  | .group g, word => g.member? word
  | _, _ => none

/-- The name and version that the program prints about itself. -/
def versionText : String :=
  "c3 0.1.0\n"

/-- A table of a help page: a heading, and terms with what they mean. -/
structure HelpTable where
  heading : String
  rows : List (String × String)

/-- A page of help. -/
structure HelpPage where
  about : String
  usage : String
  tables : List HelpTable

namespace HelpTable

/-- The width of the longest term. -/
def width (t : HelpTable) : Nat :=
  t.rows.foldl (fun w row => max w row.1.length) 0

/-- A line of a table: the meaning starts two columns after the longest term. -/
def line (width : Nat) (row : String × String) : String :=
  "  " ++ row.1 ++ String.ofList (List.replicate (width + 2 - row.1.length) ' ') ++ row.2 ++ "\n"

/-- A table as it is printed. -/
def text (t : HelpTable) : String :=
  "\n" ++ t.heading ++ ":\n" ++ String.join (t.rows.map (line t.width))

end HelpTable

/-- A page as it is printed. -/
def HelpPage.text (p : HelpPage) : String :=
  p.about ++ "\n\nUsage: " ++ p.usage ++ "\n" ++ String.join (p.tables.map HelpTable.text)

/-- What the permission commands do. -/
def permissionAbout : PermissionCommand → String
  | .status => "Show whether telemetry is collected"
  | .enable => "Allow anonymous telemetry"
  | .disable => "Stop collecting telemetry"

/-- The word for a permission command. -/
def permissionWord : PermissionCommand → String
  | .status => "status"
  | .enable => "enable"
  | .disable => "disable"

namespace CommandGroup

/-- The words that lead to a group. -/
def words : CommandGroup → String
  | .program => "c3"
  | .telemetry => "c3 telemetry"

/-- What the commands of a group have in common. -/
def about : CommandGroup → String
  | .program => "Run instrumented sessions and manage anonymous telemetry."
  | .telemetry => "Manage anonymous telemetry collection"

end CommandGroup

/-- What running a session is. -/
def runAbout : String :=
  "Run a command as an instrumented session"

/-- What the help command of a group does. -/
def helpAbout : String :=
  "Print this message or the help of the given subcommand(s)"

namespace Topic

/-- The options of a topic that has nothing but help. -/
def helpOption : HelpTable :=
  ⟨"Options", [("-h, --help", "Print help")]⟩

/-- The page of help on a topic. -/
def page : Topic → HelpPage
  | .group .program =>
      { about := CommandGroup.about .program
        usage := "c3 <COMMAND>"
        tables :=
          [⟨"Commands",
            [("telemetry", CommandGroup.about .telemetry), ("run", runAbout), ("help", helpAbout)]⟩,
           ⟨"Options", [("-h, --help", "Print help"), ("-V, --version", "Print version")]⟩] }
  | .group .telemetry =>
      { about := CommandGroup.about .telemetry
        usage := "c3 telemetry <COMMAND>"
        tables :=
          [⟨"Commands",
            [("status", permissionAbout .status), ("enable", permissionAbout .enable),
             ("disable", permissionAbout .disable), ("help", helpAbout)]⟩,
           helpOption] }
  | .permission c =>
      { about := permissionAbout c
        usage := "c3 telemetry " ++ permissionWord c
        tables := [helpOption] }
  | .run =>
      { about := runAbout
        usage := "c3 run [OPTIONS] <COMMAND>..."
        tables :=
          [⟨"Arguments", [("<COMMAND>...", "Program and arguments to run")]⟩,
           ⟨"Options",
            [("    --project-name <PROJECT_NAME>", "Project name recorded with the session"),
             ("-h, --help", "Print help")]⟩] }
  | .help g =>
      { about := helpAbout
        usage := g.words ++ " help [COMMAND]..."
        tables := [⟨"Arguments", [("[COMMAND]...", "Print help for the subcommand(s)")]⟩] }

end Topic
end CommandLine
end LifecycleTelemetry
