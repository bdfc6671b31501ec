import LifecycleTelemetry.Proofs.Operation.Anonymous
import LifecycleTelemetry.Proofs.Reporter.Stored
import LifecycleTelemetry.Proofs.Session.Course
import LifecycleTelemetry.Proofs.Session.Notice

/-!
# Arguments are not disclosed

A session reports the program of a command, the number of its arguments, and what the program came to.
The arguments themselves reach no transport. This is a statement about two sessions: if they differ in
the arguments, and besides in nothing but the time, the identifiers that are drawn, and what the program
does before it ends, then what they hand over has the same gist.

What is handed over depends on how far a session has come, and this in turn on whether an interrupt comes
before the program ends. Sessions that have come equally far have disclosed the same, whatever turns they
have taken; and where interrupts, program and deliveries are the same, sessions do come equally far,
since the time and the identifiers do not matter to any turn.
-/

namespace LifecycleTelemetry

open Failure (SystemError)
open Json (Fields)

/-! ## What an operation yields -/

/-- What a program has come to, whatever it has done before. -/
def ChildRun.result : ChildRun → Except SystemError ExitStatus
  | .refused fault => .error fault
  | .ran _ _ status => .ok status

namespace Session

variable (projectName : Option String) (program : String) {child other : ChildRun}

/-- Interrupts and the time until a program ends are not part of what it yields. -/
theorem yieldOf_ran
    (interrupts : List Signal)
    (duration : Nat)
    (rest : Script) :
    yieldOf (interrupts.map (fun s => Step.act (.trigger s)) ++ [.sleep duration] ++ rest) =
      yieldOf rest := by
  induction interrupts with
  | nil =>
      rfl
  | cons s interrupts ih =>
      exact ih

/-- What running a command yields depends on the program and on what it comes to. -/
theorem yieldOf_work
    (xs ys : List String)
    (h : child.result = other.result) :
    yieldOf (work (program :: xs) child) = yieldOf (work (program :: ys) other) := by
  cases child with
  | refused fault =>
      cases other with
      | refused fault' =>
          cases h
          rfl
      | ran interrupts duration status =>
          cases h
  | ran interrupts duration status =>
      cases other with
      | refused fault =>
          cases h
      | ran interrupts' duration' status' =>
          cases h
          simp only [work, List.append_assoc (_ ++ _)]
          rw [yieldOf_ran, yieldOf_ran]

/-- The end of a program is orderly: exit codes are for the endings that it can bring about. -/
theorem orderly_ending
    (status : ExitStatus) :
    Orderly (exitCodeSteps status ++ endingSteps program status) := by
  unfold endingSteps
  cases status with
  | exited code =>
      split
      · constructor <;>
          simp [exitCodeSteps, ExitStatus.code?, Step.isStraight, Action.isSilent, yieldOf,
            Action.contributions]
      · constructor <;>
          simp [exitCodeSteps, ExitStatus.code?, Step.isStraight, Action.isSilent, yieldOf,
            Action.contributions]
  | killed signal dumped =>
      constructor <;>
        simp [exitCodeSteps, ExitStatus.code?, ExitStatus.isSuccess, Step.isStraight, yieldOf]

/-- Running a command goes straight on, and contributes nothing to its cancellation. -/
theorem orderly_work
    (command : List String)
    (child : ChildRun) :
    Orderly (work command child) := by
  cases command with
  | nil =>
      exact ⟨by simp [work, Step.isStraight], by simp [work, yieldOf]⟩
  | cons program rest =>
      cases child with
      | refused fault =>
          exact ⟨by simp [work, Step.isStraight], by simp [work, yieldOf]⟩
      | ran interrupts duration status =>
          have hending := orderly_ending program status
          simp only [work, List.append_assoc (_ ++ _)]
          constructor
          · intro step hstep
            rcases List.mem_append.mp hstep with hbefore | hafter
            · rcases List.mem_append.mp hbefore with hraised | hslept
              · obtain ⟨s, -, rfl⟩ := List.mem_map.mp hraised
                rfl
              · rw [List.mem_singleton.mp hslept]
                rfl
            · exact hending.straight step hafter
          · rw [yieldOf_ran]
            exact hending.uncancelled

/-- Sessions that begin in worlds that differ in names come equally far. -/
theorem progress_run
    {w v : World}
    (h : w.anonymous = v.anonymous)
    (command : List String)
    (child : ChildRun) :
    progress (run w projectName command child) = progress (run v projectName command child) := by
  have hsame : (run w projectName command child).anonymous = (run v projectName command child).anonymous :=
    Schedule.anonymous_runMain h (script projectName command child)
  change progress (run w projectName command child).anonymous = _
  rw [hsame]
  rfl

end Session

/-! ## Settings -/

/-- Reporters that say the same of an event, in the same way, but for who they are and for the session
that it belongs to. -/
structure Reporter.Alike (r t : Reporter) : Prop where
  enabled : t.enabled = r.enabled
  transport : t.client.transport = r.client.transport
  ambient : t.ambient = { r.ambient with sessionId := t.ambient.sessionId }

section Alike

variable {r t : Reporter}

theorem Reporter.Alike.gistOf
    (h : r.Alike t)
    (e : Event) :
    t.gistOf e = r.gistOf e := by
  have hambient : Fields.cover incidentalKeys t.ambient.fields =
      Fields.cover incidentalKeys r.ambient.fields := by
    rw [h.ambient]
    rfl
  simp only [Reporter.gistOf, Reporter.merged, Fields.cover_insertAll, hambient]

theorem Reporter.Alike.gistsOf
    {w v : World}
    (h : w.reporter.Alike v.reporter)
    (hruntime : v.hasRuntime = w.hasRuntime)
    (events : List Event) :
    v.gistsOf events = w.gistsOf events := by
  have hreporting : v.isReporting = w.isReporting := by
    simp only [World.isReporting, DeliveryClient.isEnabled, h.enabled, h.transport, hruntime]
  simp only [World.gistsOf, hreporting]
  congr 1
  exact List.map_congr_left fun e _ => h.gistOf e

theorem Reporter.Alike.noticePanic?
    (h : r.Alike t)
    (output : StandardOutput) :
    Program.noticePanic? t output = Program.noticePanic? r output := by
  have hfirst : t.ambient.isFirstUsage = r.ambient.isFirstUsage := by rw [h.ambient]
  unfold Program.noticePanic? Program.announces
  rw [h.enabled, hfirst]

theorem Reporter.Alike.anonymous_start
    (h : r.Alike t)
    (hasRuntime : Bool)
    (stamps later : Nat → Int)
    (source : InterruptSource)
    (plans : List DeliveryPlan) :
    (World.start t hasRuntime later source plans).anonymous =
      (World.start r hasRuntime stamps source plans).anonymous := by
  simp only [World.anonymous, World.start, h.enabled, h.transport]

end Alike

/-- Machines on which a program finds the same settings: the same environment, the same kind of system,
and a metrics file that says the same. -/
structure Host.Agrees (here there : Host) : Prop where
  environment : there.environment = here.environment
  accountHome : there.accountHome = here.accountHome
  platform : there.platform = here.platform
  arch : there.arch = here.arch
  stored : ∀ path, Location.metricsFile? here.accountHome here.environment = some path →
    Reading.ofFile there.files path = Reading.ofFile here.files path

namespace Program

theorem alike_of_agrees
    {here there : Host}
    {outside other : Outside}
    {path : String}
    (h : here.Agrees there)
    (hkey : other.builtInKey = outside.builtInKey)
    (hpath : Location.metricsFile? here.accountHome here.environment = some path) :
    (reporterOf ⟨.new path, here⟩ outside).1.Alike (reporterOf ⟨.new path, there⟩ other).1 := by
  have hreading : StoreState.reading ⟨.new path, there⟩ = StoreState.reading ⟨.new path, here⟩ :=
    h.stored path hpath
  obtain ⟨henabled, htransport, hambient⟩ :=
    Reporter.ofStore_settings (Collector.ofEnvironment outside.builtInKey here.environment)
      ⟨.new path, here⟩
  obtain ⟨henabled', htransport', hambient'⟩ :=
    Reporter.ofStore_settings (Collector.ofEnvironment other.builtInKey there.environment)
      ⟨.new path, there⟩
  simp only [hreading, h.environment, h.platform, h.arch, hkey] at henabled' htransport' hambient'
  unfold reporterOf
  simp only [h.environment, hkey]
  refine ⟨henabled'.trans henabled.symm, htransport'.trans htransport.symm, ?_⟩
  rw [hambient, hambient']

/-! ## Sessions of the program -/

/-- A session of a command can come to a world, if it takes the right turns and the right things happen
to it. -/
def CanReach (host : Host) (outside : Outside) (projectName : Option String) (command : List String)
    (v : World) : Prop :=
  ∃ path, Location.metricsFile? host.accountHome host.environment = some path ∧
    ((worldOf (reporterOf ⟨.new path, host⟩ outside).1 outside).beginScript
      (Session.script projectName command outside.child)).Proceeds v

section Undisclosed

variable {host here there : Host} {outside other : Outside} {projectName : Option String}
  {program : String} {command xs ys : List String} {v u : World}

theorem carryOut_run
    {path : String}
    (hpath : Location.metricsFile? host.accountHome host.environment = some path) :
    let reporter := (reporterOf ⟨.new path, host⟩ outside).1
    (carryOut (.run projectName command) outside host).session =
      if (noticePanic? reporter outside.output).isSome then none
      else some (Session.run (worldOf reporter outside) projectName command outside.child) := by
  intro reporter
  simp only [carryOut, hpath]
  exact session_runSession ⟨.new path, host⟩ outside projectName command

/-- The session that the program leaves behind is one of those that it can come to. -/
theorem canReach_of_carryOut
    (h : (carryOut (.run projectName command) outside host).session = some v) :
    CanReach host outside projectName command v := by
  cases hpath : Location.metricsFile? host.accountHome host.environment with
  | none =>
      simp [carryOut, hpath] at h
  | some path =>
      rw [carryOut_run hpath, Option.ite_none_left_eq_some] at h
      obtain rfl := Option.some.inj h.2
      exact ⟨path, hpath, Schedule.proceeds_runMain (Schedule.start _) none _⟩

/-- Sessions of the same program that differ in its arguments have disclosed the same when they have
come equally far. -/
theorem disclosed_of_canReach
    (hlength : xs.length = ys.length)
    (hagrees : here.Agrees there)
    (hkey : other.builtInKey = outside.builtInKey)
    (hresult : outside.child.result = other.child.result)
    (hv : CanReach here outside projectName (program :: xs) v)
    (hu : CanReach there other projectName (program :: ys) u)
    (hprogress : Session.progress v = Session.progress u) :
    v.disclosed = u.disclosed := by
  obtain ⟨path, hpath, hv⟩ := hv
  obtain ⟨path', hpath', hu⟩ := hu
  rw [hagrees.accountHome, hagrees.environment, hpath] at hpath'
  cases hpath'
  have hhere := Session.disclosed_of_proceeds (Session.orderly_work (program :: xs) outside.child) hv
  have hthere := Session.disclosed_of_proceeds (Session.orderly_work (program :: ys) other.child) hu
  rw [hhere, hthere, hprogress, Session.arguments_congr projectName program hlength,
    Session.yieldOf_work program xs ys hresult]
  have hgists := Reporter.Alike.gistsOf (w := worldOf (reporterOf ⟨.new path, here⟩ outside).1 outside)
    (v := worldOf (reporterOf ⟨.new path, there⟩ other).1 other) (alike_of_agrees hagrees hkey hpath) rfl
  exact (hgists _).symm

/-- Sessions to which the same happens come equally far. -/
theorem progress_of_carryOut
    (hlength : xs.length = ys.length)
    (hagrees : here.Agrees there) :
    (carryOut (.run projectName (program :: xs)) outside here).session.map Session.progress =
      (carryOut (.run projectName (program :: ys)) outside there).session.map Session.progress := by
  have hscript : Session.script projectName (program :: xs) outside.child =
      Session.script projectName (program :: ys) outside.child := by
    simp only [Session.script, Session.arguments_congr projectName program hlength, Session.work]
  cases hpath : Location.metricsFile? here.accountHome here.environment with
  | none =>
      have hother : Location.metricsFile? there.accountHome there.environment = none := by
        rw [hagrees.accountHome, hagrees.environment, hpath]
      simp only [carryOut, hpath, hother]
  | some path =>
      have hother : Location.metricsFile? there.accountHome there.environment = some path := by
        rw [hagrees.accountHome, hagrees.environment, hpath]
      have halike : (reporterOf ⟨.new path, here⟩ outside).1.Alike
          (reporterOf ⟨.new path, there⟩ outside).1 := alike_of_agrees hagrees rfl hpath
      have hbegin := halike.anonymous_start true outside.stamps outside.stamps outside.source outside.plans
      rw [carryOut_run hpath, carryOut_run hother, halike.noticePanic?]
      split
      · rfl
      · rw [Option.map_some, Option.map_some]
        refine congrArg some (Eq.trans ?_ (Session.progress_run projectName hbegin.symm _ _))
        unfold Session.run
        rw [hscript]
        rfl

end Undisclosed
end Program

namespace Completion

/-- The gists of what has been handed to the transport. -/
def gists (c : Completion) : List (String × Fields) :=
  c.payloads.map Payload.gist

theorem gists_of_none
    {c : Completion}
    (h : c.session = none) :
    c.gists = [] := by
  simp [gists, payloads, entries, h]

theorem gists_of_some
    {c : Completion}
    {v : World}
    (h : c.session = some v) :
    c.gists = v.disclosed := by
  simp only [gists, payloads, entries, h, World.disclosed, List.map_filterMap]
  congr 1
  funext e
  cases e.what with
  | _ =>
      rfl

end Completion

/-- Two sessions that agree in the project, in the program and in the number of its arguments, on machines
with the same settings, with the same build and with a program that comes to the same, hand over the same but
for durations and for the identifier of the session: whatever turns they take, if they come equally far; as
the program carries them out, if they come equally far; and as it carries them out without any further
condition, if interrupts, program and deliveries do the same. -/
theorem arguments_undisclosed
    (projectName : Option String)
    (program : String)
    {xs ys : List String}
    {here there : Host}
    {outside other : Outside}
    (hlength : xs.length = ys.length)
    (hagrees : here.Agrees there)
    (hkey : other.builtInKey = outside.builtInKey)
    (hresult : outside.child.result = other.child.result) :
    let c := Program.carryOut (.run projectName (program :: xs)) outside here
    let d := Program.carryOut (.run projectName (program :: ys)) other there
    (∀ v u : World, Program.CanReach here outside projectName (program :: xs) v →
      Program.CanReach there other projectName (program :: ys) u →
      Session.progress v = Session.progress u → v.disclosed = u.disclosed) ∧
      (c.session.map Session.progress = d.session.map Session.progress → c.gists = d.gists) ∧
      (outside = other → c.gists = d.gists) := by
  intro c d
  have hreached : ∀ v u : World, Program.CanReach here outside projectName (program :: xs) v →
      Program.CanReach there other projectName (program :: ys) u →
      Session.progress v = Session.progress u → v.disclosed = u.disclosed :=
    fun v u => Program.disclosed_of_canReach hlength hagrees hkey hresult
  have hcarried : c.session.map Session.progress = d.session.map Session.progress →
      c.gists = d.gists := by
    intro hprogress
    cases hc : c.session with
    | none =>
        rw [hc, Option.map_none] at hprogress
        have hd := Option.map_eq_none_iff.mp hprogress.symm
        rw [Completion.gists_of_none hc, Completion.gists_of_none hd]
    | some v =>
        rw [hc, Option.map_some] at hprogress
        obtain ⟨u, hd, hfar⟩ := Option.map_eq_some_iff.mp hprogress.symm
        rw [Completion.gists_of_some hc, Completion.gists_of_some hd]
        exact hreached v u (Program.canReach_of_carryOut hc) (Program.canReach_of_carryOut hd) hfar.symm
  refine ⟨hreached, hcarried, fun hsame => hcarried ?_⟩
  subst hsame
  exact Program.progress_of_carryOut hlength hagrees

/-- The same program is killed with one argument here, and with another one there, later and after a longer
time: the payloads are not the same, but their gists are. -/
theorem arguments_undisclosed_plainUse :
    let here := (plainUse (.permission .status) []).host plainHost
    let there : Host := { here with identifier := fun _ => "other" }
    let outside : Outside := ⟨none, .takes, .ran [] 5 (.killed 11 true), .channel, [], fun _ => 0⟩
    let other : Outside := ⟨none, .takes, .ran [] 9 (.killed 11 true), .channel, [], fun _ => 3600000⟩
    let c := Program.carryOut (.run (some "app") ["npm", "secret"]) outside here
    let d := Program.carryOut (.run (some "app") ["npm", "public"]) other there
    here.Agrees there ∧ outside.child.result = other.child.result ∧
      c.payloads.length = 2 ∧ c.payloads ≠ d.payloads ∧ c.gists = d.gists := by
  intro here there outside other c d
  have hlength : ["secret"].length = ["public"].length := rfl
  have hagrees : here.Agrees there := ⟨rfl, rfl, rfl, rfl, fun _ _ => rfl⟩
  have hkey : other.builtInKey = outside.builtInKey := rfl
  have hresult : outside.child.result = other.child.result := rfl
  have hprogress : c.session.map Session.progress = d.session.map Session.progress := by
    decide +kernel
  obtain ⟨-, hgists, -⟩ := arguments_undisclosed (some "app") "npm" hlength hagrees hkey hresult
  exact ⟨hagrees, hresult, by decide +kernel, by decide +kernel, hgists hprogress⟩

/-- What a program comes to includes more than the signal that has killed it: whether it has left an image of
its memory is told as well. Of two programs that are killed by the same signal, one of which leaves one, the
errors that are reported differ. -/
theorem dump_disclosed_plainUse :
    let here := (plainUse (.permission .status) []).host plainHost
    let outside (dumped : Bool) : Outside :=
      ⟨none, .takes, .ran [] 0 (.killed 11 dumped), .channel, [], fun _ => 0⟩
    let c (dumped : Bool) := Program.carryOut (.run none ["sh", "-c"]) (outside dumped) here
    (∀ dumped, (outside dumped).child.result.toOption.bind ExitStatus.signal? = some 11) ∧
      (c false).gists ≠ (c true).gists := by
  intro here outside c
  exact ⟨fun _ => rfl, by decide +kernel⟩

end LifecycleTelemetry
