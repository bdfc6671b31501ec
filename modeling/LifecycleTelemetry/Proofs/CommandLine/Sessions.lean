import LifecycleTelemetry.CommandLine.Request

/-!
# Sessions on the command line

The words of a command line that asks for a session are the word `run`, the words that name the project if
there is one, and the command. The command stands behind the separator, or it stands by itself; then it must
not begin with a word that a session keeps for itself. From its first word on nothing is looked at any more.

`Spells` says so without reading anything, and `ofWords_eq_run_iff` shows that the program reads a command
line as a session exactly when its words are spelled like this. So whatever is passed on stands at the end of
the words as it was written, and every command can be passed on.
-/

namespace LifecycleTelemetry
namespace CommandLine

/-- The words that a session keeps for itself where its command may begin: the separator, its two long options
with a value or without, and its only short option, any number of times. -/
inductive Reserved : String → Prop where
  | separator : Reserved "--"
  | help : Reserved "--help"
  | helpValue (value : String) : Reserved ("--help=" ++ value)
  | project : Reserved "--project-name"
  | projectValue (value : String) : Reserved ("--project-name=" ++ value)
  | short (n : Nat) : Reserved (String.ofList ('-' :: List.replicate (n + 1) 'h'))

/-- The words that name a project: none where there is none, else the option with the name attached to it, or
the option and then the name, unless that is a word that a session keeps for itself. -/
inductive Names : Option String → List String → Prop where
  | unnamed : Names none []
  | attached (name : String) : Names (some name) ["--project-name=" ++ name]
  | apart {name : String} (hfree : ¬Reserved name) : Names (some name) ["--project-name", name]

/-- The words by which a command is passed on. No command is without a word. -/
inductive Passes : List String → List String → Prop where
  | separated
      (first : String)
      (rest : List String) :
      Passes (first :: rest) ("--" :: first :: rest)
  | bare
      {first : String}
      (hfree : ¬Reserved first)
      (rest : List String) :
      Passes (first :: rest) (first :: rest)

/-- The words of a command line that asks for a session. -/
def Spells (project : Option String) (command words : List String) : Prop :=
  ∃ options passed, Names project options ∧ Passes command passed ∧ words = "run" :: options ++ passed

/-! ## The look of a word -/

/-- How a word is made up that looks in some way. -/
inductive Looks (word : String) : Word → Prop where
  | separator (hword : word = "--") : Looks word .separator
  | long
      {name : List Char}
      {value : Option (List Char)}
      (hword : word.toList = '-' :: '-' :: (name ++ value.elim [] ('=' :: ·))) :
      Looks word (.long name value)
  | short
      {c : Char}
      {letters : List Char}
      (hword : word.toList = '-' :: c :: letters) :
      Looks word (.short (c :: letters))
  | plain : Looks word .plain

/-- The letters of a long option are those of its name, and of its value behind an equals sign. -/
theorem exists_longParts
    (letters : List Char) :
    ∃ name value, Word.longParts letters = .long name value ∧
      letters = name ++ value.elim [] ('=' :: ·) := by
  cases hdrop : letters.dropWhile (· != '=') with
  | nil =>
      exact ⟨letters, none, by simp [Word.longParts, hdrop], by simp⟩
  | cons c value =>
      have hne : letters.dropWhile (· != '=') ≠ [] := by simp [hdrop]
      have hc : c = '=' := by
        simpa [hdrop] using List.head_dropWhile_not (· != '=') hne
      subst hc
      refine ⟨letters.takeWhile (· != '='), some value, by simp [Word.longParts, hdrop], ?_⟩
      rw [Option.elim_some, ← hdrop, List.takeWhile_append_dropWhile]

theorem looks_ofText
    (word : String) :
    Looks word (Word.ofText word) := by
  unfold Word.ofText
  split
  · rename_i hword
    exact .separator (String.toList_inj.mp hword)
  · rename_i letters _ hword
    obtain ⟨name, value, hparts, hletters⟩ := exists_longParts letters
    rw [hparts]
    exact .long (hletters ▸ hword)
  · rename_i hword
    exact .short hword
  · exact .plain

theorem ofText_separator :
    Word.ofText "--" = .separator := by
  decide

/-- A word that does not begin with a dash is plain. -/
theorem ofText_plain
    {word : String}
    (h : word.toList.head? ≠ some '-') :
    Word.ofText word = .plain := by
  have hlooks := looks_ofText word
  generalize Word.ofText word = look at hlooks
  cases hlooks with
  | separator hword => simp [hword] at h
  | long hword => simp [hword] at h
  | short hword => simp [hword] at h
  | plain => rfl

/-- What stands behind the first equals sign is the value of a long option. -/
theorem ofText_long_value
    {word : String}
    {name value : List Char}
    (hword : word.toList = '-' :: '-' :: (name ++ '=' :: value))
    (hplain : '=' ∉ name) :
    Word.ofText word = .long name (some value) := by
  have hall : ∀ d ∈ name, (d != '=') = true := by
    intro d hd
    simpa using ne_of_mem_of_not_mem hd hplain
  have hdrop : (name ++ '=' :: value).dropWhile (· != '=') = '=' :: value := by
    rw [List.dropWhile_append_of_pos hall]
    rfl
  have htake : (name ++ '=' :: value).takeWhile (· != '=') = name := by
    rw [List.takeWhile_append_of_pos hall]
    simp
  have hofText : Word.ofText word = Word.longParts (name ++ '=' :: value) := by
    cases name <;> simp [Word.ofText, hword]
  simp [hofText, Word.longParts, hdrop, htake]

/-! ## Reserved words -/

theorem toList_helpValue
    (value : String) :
    ("--help=" ++ value).toList = '-' :: '-' :: (helpName ++ '=' :: value.toList) := by
  rw [String.toList_append]
  rfl

theorem toList_projectValue
    (value : String) :
    ("--project-name=" ++ value).toList = '-' :: '-' :: (projectName ++ '=' :: value.toList) := by
  rw [String.toList_append]
  rfl

theorem ofText_help :
    Word.ofText "--help" = .long helpName none := by
  decide

theorem ofText_helpValue
    (value : String) :
    Word.ofText ("--help=" ++ value) = .long helpName (some value.toList) :=
  ofText_long_value (toList_helpValue value) (by decide)

theorem ofText_project :
    Word.ofText "--project-name" = .long projectName none := by
  decide

theorem ofText_projectValue
    (value : String) :
    Word.ofText ("--project-name=" ++ value) = .long projectName (some value.toList) :=
  ofText_long_value (toList_projectValue value) (by decide)

theorem ofText_short
    (n : Nat) :
    Word.ofText (String.ofList ('-' :: List.replicate (n + 1) 'h')) =
      .short (List.replicate (n + 1) 'h') := by
  rw [Word.ofText, String.toList_ofList, List.replicate_succ]
  simp

theorem onlyHelp_replicate
    (n : Nat) :
    onlyHelp (List.replicate n 'h') = true := by
  simp [onlyHelp]

/-- Whether a session keeps the words that look like this for itself. -/
def Word.isReserved : Word → Bool
  | .separator => true
  | .long name _ => name == helpName || name == projectName
  | .short letters => onlyHelp letters
  | .plain => false

/-- A reserved word is known by its look. -/
theorem reserved_iff
    (word : String) :
    Reserved word ↔ (Word.ofText word).isReserved = true := by
  constructor
  · intro h
    cases h with
    | separator => rw [ofText_separator]; rfl
    | help => rw [ofText_help]; rfl
    | helpValue value => rw [ofText_helpValue]; rfl
    | project => rw [ofText_project]; rfl
    | projectValue value => rw [ofText_projectValue]; rfl
    | short n => rw [ofText_short]; exact onlyHelp_replicate (n + 1)
  · intro hkept
    have hlooks := looks_ofText word
    generalize Word.ofText word = look at hlooks hkept
    cases hlooks with
    | separator hword =>
        exact hword ▸ .separator
    | @long name value hword =>
        have hname : name = helpName ∨ name = projectName := by
          simpa [Word.isReserved] using hkept
        rcases hname with rfl | rfl
        · cases value with
          | none =>
              obtain rfl : word = "--help" := String.toList_inj.mp hword
              exact .help
          | some value =>
              obtain rfl : word = "--help=" ++ String.ofList value := by
                rw [← String.toList_inj, hword, toList_helpValue, String.toList_ofList]
                rfl
              exact .helpValue _
        · cases value with
          | none =>
              obtain rfl : word = "--project-name" := String.toList_inj.mp hword
              exact .project
          | some value =>
              obtain rfl : word = "--project-name=" ++ String.ofList value := by
                rw [← String.toList_inj, hword, toList_projectValue, String.toList_ofList]
                rfl
              exact .projectValue _
    | @short c letters hword =>
        have hletters : c :: letters = List.replicate (letters.length + 1) 'h' := by
          simpa [Word.isReserved, onlyHelp, List.eq_replicate_iff] using hkept
        obtain rfl : word = String.ofList ('-' :: List.replicate (letters.length + 1) 'h') := by
          rw [← String.toList_inj, hword, hletters, String.toList_ofList]
        exact .short letters.length
    | plain =>
        cases hkept

/-- A word that does not begin with a dash is not reserved. -/
theorem not_reserved_of_head?
    {word : String}
    (h : word.toList.head? ≠ some '-') :
    ¬Reserved word := by
  rw [reserved_iff, ofText_plain h]
  simp [Word.isReserved]

/-- The reserved words are those that cannot be the value of an option in front of them. -/
theorem refusalAsValue?_eq_none_iff
    (word : String) :
    refusalAsValue? word = none ↔ ¬Reserved word := by
  rw [reserved_iff, refusalAsValue?]
  cases Word.ofText word with
  | separator =>
      simp [Word.isReserved]
  | long name value =>
      by_cases hhelp : name = helpName
      · simp [Word.isReserved, hhelp]
      · simp [Word.isReserved, hhelp]
  | short letters =>
      simp [Word.isReserved]
  | plain =>
      simp [Word.isReserved]

/-! ## Reading a session -/

/-- A command begins with the first word that is not reserved. -/
theorem runRequest_of_not_reserved
    {word : String}
    (h : ¬Reserved word)
    (project : Option String)
    (rest : List String) :
    runRequest project (word :: rest) = .ok (.run project (word :: rest)) := by
  rw [reserved_iff] at h
  rw [runRequest]
  cases hlook : Word.ofText word with
  | separator =>
      simp [hlook, Word.isReserved] at h
  | long name value =>
      obtain ⟨hhelp, hproject⟩ : name ≠ helpName ∧ name ≠ projectName := by
        simpa [hlook, Word.isReserved] using h
      simp [hhelp, hproject]
  | short letters =>
      simp [hlook, Word.isReserved] at h
      simp [h]
  | plain =>
      rfl

theorem projectName_ne_helpName :
    projectName ≠ helpName := by
  decide

/-- A request for help is no session. -/
theorem runRequest_help
    {word : String}
    {value : Option (List Char)}
    (h : Word.ofText word = .long helpName value)
    (project : Option String)
    (rest : List String)
    (request : Request) :
    runRequest project (word :: rest) ≠ .ok request := by
  simp [runRequest, h]

theorem runRequest_short
    (n : Nat)
    (project : Option String)
    (rest : List String)
    (request : Request) :
    runRequest project (String.ofList ('-' :: List.replicate (n + 1) 'h') :: rest) ≠ .ok request := by
  rw [runRequest, ofText_short]
  simp [onlyHelp_replicate]

/-- A name that is attached to its option is the name of the project, unless there is one already. -/
theorem runRequest_attached
    (project : Option String)
    (name : String)
    (rest : List String) :
    runRequest project (("--project-name=" ++ name) :: rest) =
      if project.isSome then .error .argumentRepeated else runRequest (some name) rest := by
  rw [runRequest, ofText_projectValue]
  simp [projectName_ne_helpName]

/-- So is the word behind the option, if it is not reserved. -/
theorem runRequest_apart
    {name : String}
    (h : ¬Reserved name)
    (project : Option String)
    (rest : List String) :
    runRequest project ("--project-name" :: name :: rest) =
      if project.isSome then .error (repeatedProject rest) else runRequest (some name) rest := by
  have hvalue := (refusalAsValue?_eq_none_iff name).mpr h
  rw [runRequest, ofText_project]
  simp [projectName_ne_helpName, hvalue]

/-- Where the option is followed by a reserved word, or by nothing, there is no session. -/
theorem runRequest_project_ne_ok
    {rest : List String}
    (h : ∀ name ∈ rest.head?, Reserved name)
    (project : Option String)
    (request : Request) :
    runRequest project ("--project-name" :: rest) ≠ .ok request := by
  rw [runRequest, ofText_project]
  cases rest with
  | nil =>
      simp [projectName_ne_helpName]
  | cons name behind =>
      have hreserved := h name rfl
      cases hrefusal : refusalAsValue? name with
      | none => exact absurd hreserved ((refusalAsValue?_eq_none_iff name).mp hrefusal)
      | some refusal => simp [projectName_ne_helpName, hrefusal]

theorem runRequest_of_passes
    {command words : List String}
    (h : Passes command words)
    (project : Option String) :
    runRequest project words = .ok (.run project command) := by
  cases h with
  | separated first rest =>
      exact runRequest_separator project (by simp)
  | bare hfree rest =>
      exact runRequest_of_not_reserved hfree project rest

/-- What the words of a session begin with: the command is passed on, or the project is named. -/
theorem runRequest_cases
    {project named : Option String}
    {words command : List String}
    (h : runRequest project words = .ok (.run named command)) :
    (named = project ∧ Passes command words) ∨
      (project = none ∧ ∃ name options rest, Names (some name) options ∧ words = options ++ rest ∧
        runRequest (some name) rest = .ok (.run named command)) := by
  cases words with
  | nil =>
      simp [runRequest] at h
  | cons word rest =>
      by_cases hreserved : Reserved word
      · cases hreserved with
        | separator =>
            cases rest with
            | nil =>
                simp [runRequest, ofText_separator] at h
            | cons first rest =>
                rw [runRequest_separator project (by simp)] at h
                cases h
                exact .inl ⟨rfl, .separated first rest⟩
        | help =>
            exact absurd h (runRequest_help ofText_help project rest _)
        | helpValue value =>
            exact absurd h (runRequest_help (ofText_helpValue value) project rest _)
        | short n =>
            exact absurd h (runRequest_short n project rest _)
        | projectValue name =>
            rw [runRequest_attached] at h
            cases project with
            | some other => cases h
            | none => exact .inr ⟨rfl, name, _, rest, .attached name, rfl, h⟩
        | project =>
            cases rest with
            | nil =>
                exact absurd h (runRequest_project_ne_ok (by simp) project _)
            | cons name behind =>
                by_cases hname : Reserved name
                · exact absurd h (runRequest_project_ne_ok (by simpa using hname) project _)
                · rw [runRequest_apart hname] at h
                  cases project with
                  | some other => cases h
                  | none => exact .inr ⟨rfl, name, _, behind, .apart hname, rfl, h⟩
      · rw [runRequest_of_not_reserved hreserved] at h
        cases h
        exact .inl ⟨rfl, .bare hreserved rest⟩

/-- Behind a name nothing can be read but a command. -/
theorem runRequest_some_iff
    {name : String}
    {words : List String}
    {project : Option String}
    {command : List String} :
    runRequest (some name) words = .ok (.run project command) ↔
      project = some name ∧ Passes command words := by
  constructor
  · intro h
    rcases runRequest_cases h with hpasses | ⟨hnone, -⟩
    · exact hpasses
    · cases hnone
  · rintro ⟨rfl, hpasses⟩
    exact runRequest_of_passes hpasses (some name)

/-- What is read as a session is what is spelled like one. -/
theorem runRequest_none_iff
    {words : List String}
    {project : Option String}
    {command : List String} :
    runRequest none words = .ok (.run project command) ↔
      ∃ options passed, Names project options ∧ Passes command passed ∧ words = options ++ passed := by
  constructor
  · intro h
    rcases runRequest_cases h with ⟨rfl, hpasses⟩ | ⟨-, name, options, rest, hnames, rfl, hrest⟩
    · exact ⟨[], words, .unnamed, hpasses, rfl⟩
    · obtain ⟨rfl, hpasses⟩ := runRequest_some_iff.mp hrest
      exact ⟨options, rest, hnames, hpasses, rfl⟩
  · rintro ⟨options, passed, hnames, hpasses, rfl⟩
    cases hnames with
    | unnamed =>
        exact runRequest_of_passes hpasses none
    | attached name =>
        exact (runRequest_attached none name passed).trans (runRequest_of_passes hpasses (some name))
    | @apart name hfree =>
        exact (runRequest_apart hfree none passed).trans (runRequest_of_passes hpasses (some name))

/-! ## Reading a command line -/

theorem permissionRequest_ne_run
    (c : PermissionCommand)
    (words : List String)
    (project : Option String)
    (command : List String) :
    permissionRequest c words ≠ .ok (.run project command) := by
  cases words with
  | nil =>
      simp [permissionRequest]
  | cons word rest =>
      rw [permissionRequest]
      split
      all_goals simp

theorem requestAt_help_ne_ok
    (g : CommandGroup)
    (words : List String)
    (request : Request) :
    requestAt (.help g) words ≠ .ok request := by
  rw [requestAt]
  cases Topic.walk (.group g) words with
  | error refusal => simp [Except.bind]
  | ok t => simp [Except.bind]

/-- A group is left by the word for one of its commands. -/
theorem exists_member_of_requestAt
    {g : CommandGroup}
    {words : List String}
    {request : Request}
    (h : requestAt (.group g) words = .ok request) :
    ∃ word rest t, words = word :: rest ∧ g.member? word = some t ∧ requestAt t rest = .ok request := by
  cases words with
  | nil =>
      simp [requestAt] at h
  | cons word rest =>
      rw [requestAt] at h
      split at h
      · cases h
      · split at h
        · rename_i t hmember
          exact ⟨word, rest, t, rfl, hmember, h⟩
        · cases h
      · cases h

theorem member?_telemetry
    {word : String}
    {t : Topic}
    (h : CommandGroup.member? .telemetry word = some t) :
    (∃ c, t = .permission c) ∨ t = .help .telemetry := by
  unfold CommandGroup.member? at h
  split at h
  all_goals simp_all
  all_goals exact .inl ⟨_, h.symm⟩

theorem member?_program
    {word : String}
    {t : Topic}
    (h : CommandGroup.member? .program word = some t) :
    t = .group .telemetry ∨ (word = "run" ∧ t = .run) ∨ t = .help .program := by
  unfold CommandGroup.member? at h
  split at h
  all_goals simp_all

/-- No command about the permission is a session. -/
theorem requestAt_telemetry_ne_run
    (words : List String)
    (project : Option String)
    (command : List String) :
    requestAt (.group .telemetry) words ≠ .ok (.run project command) := by
  intro h
  obtain ⟨word, rest, t, rfl, hmember, ht⟩ := exists_member_of_requestAt h
  rcases member?_telemetry hmember with ⟨c, rfl⟩ | rfl
  · rw [requestAt] at ht
    exact permissionRequest_ne_run c rest project command ht
  · exact requestAt_help_ne_ok .telemetry rest _ ht

/-- A session is asked for by its word, and nowhere else in the tree of commands. -/
theorem requestAt_program_eq_run_iff
    {words : List String}
    {project : Option String}
    {command : List String} :
    requestAt (.group .program) words = .ok (.run project command) ↔
      ∃ rest, words = "run" :: rest ∧ runRequest none rest = .ok (.run project command) := by
  constructor
  · intro h
    obtain ⟨word, rest, t, rfl, hmember, ht⟩ := exists_member_of_requestAt h
    rcases member?_program hmember with rfl | ⟨rfl, rfl⟩ | rfl
    · exact absurd ht (requestAt_telemetry_ne_run rest project command)
    · rw [requestAt] at ht
      exact ⟨rest, rfl, ht⟩
    · exact absurd ht (requestAt_help_ne_ok .program rest _)
  · rintro ⟨rest, rfl, h⟩
    have hlook : Word.ofText "run" = .plain := by decide
    rw [requestAt, hlook]
    simpa [CommandGroup.member?, requestAt] using h

/-- A command line is read as a session exactly when it is spelled as one. -/
theorem ofWords_eq_run_iff
    {words : List String}
    {project : Option String}
    {command : List String} :
    Request.ofWords words = .ok (.run project command) ↔ Spells project command words := by
  rw [Request.ofWords, requestAt_program_eq_run_iff]
  constructor
  · rintro ⟨rest, rfl, h⟩
    obtain ⟨options, passed, hnames, hpasses, rfl⟩ := runRequest_none_iff.mp h
    exact ⟨options, passed, hnames, hpasses, rfl⟩
  · rintro ⟨options, passed, hnames, hpasses, rfl⟩
    exact ⟨options ++ passed, rfl, runRequest_none_iff.mpr ⟨options, passed, hnames, hpasses, rfl⟩⟩

/-! ## Passing a command on -/

/-- What has been passed on stands at the end of the words. -/
theorem Spells.suffix
    {project : Option String}
    {command words : List String}
    (h : Spells project command words) :
    command <:+ words := by
  obtain ⟨options, passed, -, hpasses, rfl⟩ := h
  cases hpasses with
  | separated first rest => exact ⟨"run" :: options ++ ["--"], by simp⟩
  | bare hfree rest => exact ⟨"run" :: options, rfl⟩

/-- The option that names a project, with the name attached to it. -/
def projectOption (project : Option String) : List String :=
  project.toList.map ("--project-name=" ++ ·)

theorem names_projectOption
    (project : Option String) :
    Names project (projectOption project) := by
  cases project with
  | none => exact .unnamed
  | some name => exact .attached name

/-- However a project is named, no fewer words are needed. -/
theorem length_projectOption_le
    {project : Option String}
    {options : List String}
    (h : Names project options) :
    (projectOption project).length ≤ options.length := by
  cases h with
  | unnamed => simp [projectOption]
  | attached name => simp [projectOption]
  | apart hfree => simp [projectOption]

/-- A command needs no separator if its first word is not reserved, and only then. -/
theorem ofWords_bare_iff
    (project : Option String)
    (first : String)
    (rest : List String) :
    Request.ofWords ("run" :: projectOption project ++ first :: rest) =
        .ok (.run project (first :: rest)) ↔
      ¬Reserved first := by
  rw [ofWords_eq_run_iff]
  constructor
  · rintro ⟨options, passed, hnames, hpasses, hwords⟩
    cases hpasses with
    | separated =>
        have hlength := congrArg List.length hwords
        have hoptions := length_projectOption_le hnames
        simp only [List.length_append, List.length_cons] at hlength
        omega
    | bare hfree => exact hfree
  · intro hfree
    exact ⟨projectOption project, _, names_projectOption project, .bare hfree rest, rfl⟩

/-- Every command is passed on as it stands: behind the separator whatever its words are, and without the
separator whenever its first word does not begin with a dash, or more exactly is not reserved. Whatever a
command line passes on stands at its end. -/
theorem session_passed_on
    (project : Option String)
    {command : List String}
    (hcommand : command ≠ []) :
    Request.ofWords ("run" :: projectOption project ++ "--" :: command) = .ok (.run project command) ∧
      ((command.head hcommand).toList.head? ≠ some '-' →
        Request.ofWords ("run" :: projectOption project ++ command) = .ok (.run project command)) ∧
      (Request.ofWords ("run" :: projectOption project ++ command) = .ok (.run project command) ↔
        ¬Reserved (command.head hcommand)) ∧
      ∀ words, Request.ofWords words = .ok (.run project command) → command <:+ words := by
  obtain ⟨first, rest, rfl⟩ := List.exists_cons_of_ne_nil hcommand
  have hbare := ofWords_bare_iff project first rest
  refine ⟨?_, fun hfirst => hbare.mpr (not_reserved_of_head? hfirst), hbare, fun words hwords => ?_⟩
  · exact ofWords_eq_run_iff.mpr
      ⟨projectOption project, _, names_projectOption project, .separated first rest, rfl⟩
  · exact (ofWords_eq_run_iff.mp hwords).suffix

/-- For instance, a project whose name looks like an option, and a command of words that all mean something
to the program elsewhere. -/
theorem session_passed_on_telemetry :
    let command := ["telemetry", "--help", "--", "", "--project-name=x", "-h", "run", "--version"]
    command ≠ [] ∧ "telemetry".toList.head? ≠ some '-' ∧
      Request.ofWords ("run" :: "--project-name=--=" :: "--" :: command) =
        .ok (.run (some "--=") command) ∧
      Request.ofWords ("run" :: "--project-name=--=" :: command) = .ok (.run (some "--=") command) := by
  intro command
  have hcommand : command ≠ [] := by decide
  have hfirst : "telemetry".toList.head? ≠ some '-' := by decide
  obtain ⟨hseparated, hbare, -⟩ := session_passed_on (some "--=") hcommand
  exact ⟨hcommand, hfirst, hseparated, hbare hfirst⟩

end CommandLine
end LifecycleTelemetry
