import LifecycleTelemetry.Proofs.Event.Composition
import LifecycleTelemetry.Proofs.Session.Outlook
import LifecycleTelemetry.Proofs.Session.Undisclosed

/-!
# How a session closes

What can be seen of a session when its race has been decided is the ending that is reported, and what the
session comes to. Both depend on the program and on what it has come to, or on the signal that has come
before; `Closing.of` tells how, and `Closed` that it is so in a world.

The link is the settlement of the call: it is the one of whoever has decided the race, given what the
operation yields, in whatever order turns have been taken. With it, `closed_of_proceeds` says so of every
session whose race has been decided.
-/

namespace LifecycleTelemetry

open Json (Fields)

/-! ## Closings -/

/-- What is seen of a session in the end: the stage with which it is reported, the signal, the exit code and
the error that are reported with it, and what the session comes to. -/
structure Closing where
  stage : TerminalStage
  signal : Option String
  exitCode : Option Nat
  error : Option ErrorInfo
  outcome : Outcome

/-- How the session of a program closes: by the interrupt that has come before the program has ended, or else
by what the program has come to. -/
def Closing.of (program : String) (child : ChildRun) : Option Signal → Closing
  | some s =>
      { stage := .cancelled
        signal := some s.name
        exitCode := none
        error := none
        outcome := .err (.cancelled ⟨some s.name⟩) }
  | none =>
      match child with
      | .ran _ _ (.exited 0) =>
          { stage := .completed
            signal := none
            exitCode := some 0
            error := none
            outcome := .ok .null }
      | .ran _ _ (.exited (n + 1)) =>
          let text := program ++ " exited with " ++ (ExitStatus.exited (n + 1)).text
          { stage := .errored
            signal := none
            exitCode := some (n + 1)
            error := some ⟨some text, none⟩
            outcome := .err (.message text) }
      | .ran _ _ (.killed signal dumped) =>
          let text := program ++ " exited with " ++ (ExitStatus.killed signal dumped).text
          { stage := .errored
            signal := none
            exitCode := none
            error := some ⟨some text, none⟩
            outcome := .err (.message text) }
      | .refused fault =>
          let text := "failed to start " ++ program
          let cause := String.ofList (Failure.hanging 4 fault.message.toList)
          let stack := text ++ "\n\nCaused by:\n    " ++ cause
          { stage := .errored
            signal := none
            exitCode := none
            error := some ⟨some text, some stack⟩
            outcome := .err (.context (.text text) (.system fault)) }

/-- A payload tells of a closing: it names the stage, and has the signal, the exit code and the error, and
none of those that the closing does not have. -/
structure Payload.Tells (c : Closing) (p : Payload) : Prop where
  name : p.event = "c3 session " ++ c.stage.toStage.name
  signal : Fields.get? "signal" p.properties = c.signal.map Json.string
  exitCode : Fields.get? "exitCode" p.properties = c.exitCode.map Json.ofNat
  error : Fields.get? "error" p.properties = c.error.map ErrorInfo.json

namespace Session

/-! ## What a command yields -/

/-- What running a command yields: exit codes for the endings that a program can bring about, and its own
success or failure. -/
theorem yieldOf_command
    (program : String)
    (args : List String)
    (child : ChildRun) :
    yieldOf (work (program :: args) child) =
      match child with
      | .refused fault => ⟨[], .err (startFailure program fault)⟩
      | .ran _ _ (.exited 0) =>
          ⟨[⟨.completed, "exitCode", Json.ofNat 0⟩, ⟨.errored, "exitCode", Json.ofNat 0⟩], .ok .null⟩
      | .ran _ _ (.exited (n + 1)) =>
          ⟨[⟨.completed, "exitCode", Json.ofNat (n + 1)⟩, ⟨.errored, "exitCode", Json.ofNat (n + 1)⟩],
            .err (exitFailure program (.exited (n + 1)))⟩
      | .ran _ _ (.killed signal dumped) => ⟨[], .err (exitFailure program (.killed signal dumped))⟩ := by
  cases child with
  | refused fault =>
      rfl
  | ran interrupts duration status =>
      simp only [work, List.append_assoc (_ ++ _), yieldOf_ran]
      cases status with
      | exited code =>
          cases code with
          | zero =>
              rfl
          | succ n =>
              have hfails : (ExitStatus.exited (n + 1)).isSuccess = false := by
                simp [ExitStatus.isSuccess, ExitStatus.code?]
              simp [exitCodeSteps, endingSteps, ExitStatus.code?, hfails, yieldOf, Action.contributions]
      | killed signal dumped =>
          rfl

/-- The settlement of the call gives the session what it comes to. -/
theorem outcome_settlement
    (program : String)
    (args : List String)
    (child : ChildRun)
    (interrupt : Option Signal) :
    ((Arbiter.ofInterrupt interrupt).settlement (yieldOf (work (program :: args) child)).outcome).outcome =
      (Closing.of program child interrupt).outcome := by
  rw [yieldOf_command]
  cases interrupt with
  | some s =>
      rfl
  | none =>
      match child with
      | .refused fault =>
          rfl
      | .ran _ _ (.exited 0) =>
          rfl
      | .ran _ _ (.exited (n + 1)) =>
          rfl
      | .ran _ _ (.killed signal dumped) =>
          rfl

theorem report_startFailure
    (program : String)
    (fault : Failure.SystemError) :
    (startFailure program fault).report =
      "failed to start " ++ program ++ "\n\nCaused by:\n    " ++
        String.ofList (Failure.hanging 4 fault.message.toList) := by
  have hlines : Failure.causeLines [fault.message] =
      "\n\nCaused by:\n    ".toList ++ Failure.hanging 4 fault.message.toList := rfl
  simp only [startFailure, Failure.withText, Failure.report, Failure.chain, Failure.Context.message, hlines,
    String.ofList_append, String.ofList_toList, String.append_assoc]

/-! ## What is reported in the end -/

/-- Only what is contributed to an ending, or belongs to it, tells of a signal, an exit code or an error. -/
theorem composed?_ended
    {key : String}
    (hkey : key ∈ ["signal", "exitCode", "error"])
    (args : Fields)
    (ending : Ending)
    (contributed : Fields)
    (duration : Nat)
    (a : Ambient) :
    (Event.mk (.session args) (.ended ending contributed duration)).composed? key a =
      (ending.field? key).or (Fields.get? key (Fields.ofList contributed)) := by
  simp only [List.mem_cons, List.not_mem_nil, or_false] at hkey
  rcases hkey with rfl | rfl | rfl
  · exact congrArg _ (Option.or_none)
  · exact congrArg _ (Option.or_none)
  · exact congrArg _ (Option.or_none)

theorem tells_of_gist
    {r : Reporter}
    {args : Fields}
    {ending : Ending}
    {contributed : Fields}
    {duration : Nat}
    {p : Payload}
    {c : Closing}
    (hgist : p.gist = r.gistOf ⟨.session args, .ended ending contributed duration⟩)
    (hstage : ending.stage = c.stage)
    (hsignal : (ending.field? "signal").or (Fields.get? "signal" (Fields.ofList contributed)) =
      c.signal.map Json.string)
    (hexitCode : (ending.field? "exitCode").or (Fields.get? "exitCode" (Fields.ofList contributed)) =
      c.exitCode.map Json.ofNat)
    (herror : (ending.field? "error").or (Fields.get? "error" (Fields.ofList contributed)) =
      c.error.map ErrorInfo.json) :
    p.Tells c := by
  obtain ⟨hname, hcovered⟩ := Prod.mk.inj hgist
  have hvalue : ∀ key ∈ ["signal", "exitCode", "error"], key ∉ incidentalKeys →
      Fields.get? key p.properties =
        (ending.field? key).or (Fields.get? key (Fields.ofList contributed)) := by
    intro key hkey hseen
    rw [Fields.get?_of_cover hcovered hseen, get?_merged, composed?_ended hkey]
  refine ⟨?_, ?_, ?_, ?_⟩
  · rw [hname, ← hstage]
    rfl
  · exact (hvalue "signal" (by simp) (by decide)).trans hsignal
  · exact (hvalue "exitCode" (by simp) (by decide)).trans hexitCode
  · exact (hvalue "error" (by simp) (by decide)).trans herror

/-- The ending that is reported of a command tells how its session closes. -/
theorem tells_endingBy
    {r : Reporter}
    {arguments : Fields}
    {program : String}
    {args : List String}
    {child : ChildRun}
    {interrupt : Option Signal}
    {p : Payload}
    (hgist : p.gist = r.gistOf
      (endingBy (.session arguments) (yieldOf (work (program :: args) child)) (.ofInterrupt interrupt))) :
    p.Tells (Closing.of program child interrupt) := by
  rw [yieldOf_command] at hgist
  cases interrupt with
  | some s =>
      match child with
      | .refused fault =>
          exact tells_of_gist hgist rfl rfl rfl rfl
      | .ran _ _ (.exited 0) =>
          exact tells_of_gist hgist rfl rfl rfl rfl
      | .ran _ _ (.exited (n + 1)) =>
          exact tells_of_gist hgist rfl rfl rfl rfl
      | .ran _ _ (.killed signal dumped) =>
          exact tells_of_gist hgist rfl rfl rfl rfl
  | none =>
      match child with
      | .refused fault =>
          refine tells_of_gist hgist rfl rfl rfl ?_
          have herror : ErrorInfo.ofFailure (startFailure program fault) =
              ⟨some ("failed to start " ++ program), some (startFailure program fault).report⟩ := rfl
          rw [report_startFailure] at herror
          exact congrArg (fun info => some (ErrorInfo.json info)) herror
      | .ran _ _ (.exited 0) =>
          exact tells_of_gist hgist rfl rfl rfl rfl
      | .ran _ _ (.exited (n + 1)) =>
          exact tells_of_gist hgist rfl rfl rfl rfl
      | .ran _ _ (.killed signal dumped) =>
          exact tells_of_gist hgist rfl rfl rfl rfl

/-! ## What has been settled -/

section Settled

variable {subject : Subject} {body : Script} {w after : World}

/-- What has been settled of a session is the settlement of whoever has decided its race. -/
def Settles (body : Script) (w : World) : Prop :=
  ∀ s, (w.outlines[0]?).map Call.phase = some (.settled s) → s = s.arbiter.settlement (yieldOf body).outcome

/-- What has been settled of a session was settled before, or has just been, in a race that was on. -/
theorem settled_before
    {s : Settlement}
    (howned : w.RacesOwned)
    (hchange : World.Change w after)
    (h : (after.outlines[0]?).map Call.phase = some (.settled s)) :
    (w.outlines[0]?).map Call.phase = some (.settled s) ∨
      ∃ (id : Nat) (strand : Strand) (call : Call), w.strands[id]? = some strand ∧
        strand.status = .racing 0 ∧ w.calls[0]? = some call ∧ w.settlement? call = some s := by
  cases World.callChange_of_change howned hchange 0 with
  | unchanged houtline =>
      exact .inl (houtline ▸ h)
  | made hnew hstrand heq hafter hbegins =>
      rw [hafter] at h
      rcases hbegins with ⟨n, hracing⟩ | ⟨p, hcollapsed, -⟩
      · simp [hracing] at h
      · simp [hcollapsed] at h
  | @settled id strand call settlement hstrand hracing hcall hsettled heq hafter =>
      rw [hafter] at h
      cases h
      exact .inr ⟨id, strand, call, hstrand, hracing, hcall, hsettled⟩
  | dropped houtline hphase hafter =>
      rw [hafter] at h
      cases h

theorem settles_of_change
    (hcourse : Course subject body w.strands w.calls)
    (howned : w.RacesOwned)
    (hchange : World.Change w after)
    (h : Settles body w) :
    Settles body after := by
  intro s hs
  rcases settled_before howned hchange hs with hold | ⟨id, strand, call, hstrand, hracing, hcall, hsettled⟩
  · exact h s hold
  · cases hcourse with
    | ahead hone hnone =>
        rw [hnone] at hcall
        cases hcall
    | racing hrace =>
        rw [hrace.calls] at hcall
        cases hcall
        obtain ⟨a, rfl, -⟩ :=
          arbiter_of_settlement? hrace.phase (by rw [hrace.strands]; rfl) hrace.follows hsettled
        rw [Arbiter.arbiter_settlement]
    | past hfollows =>
        obtain ⟨y, given, hy⟩ := hfollows strand (List.mem_of_getElem? hstrand)
        have hnone := hy.race?
        rw [hracing] at hnone
        cases hnone

end Settled

section Sessions

variable {reporter : Reporter} {stamps : Nat → Int} {source : InterruptSource}
  {plans : List DeliveryPlan} {subject : Subject} {body : Script} {v : World}

theorem settles_of_proceeds
    (hbody : Orderly body)
    (hv : ((World.start reporter true stamps source plans).beginScript
      (operation subject body)).Proceeds v) :
    Settles body v := by
  let begun := (World.start reporter true stamps source plans).beginScript (operation subject body)
  have hcourse := onCourse_begin reporter stamps source plans subject body
  have howned : ∀ {u : World}, begun.Proceeds u → u.RacesOwned := fun hu =>
    World.racesOwned_of_evolves ((World.Evolves.script _ .refl rfl).trans hu.evolves)
  induction hv with
  | refl =>
      intro s hs
      cases hs
  | @move u m hu ih =>
      exact settles_of_change (hcourse.proceeds hbody hu).course (howned hu) (World.change_move u m) ih
  | rouse woken hu ih =>
      exact ih

end Sessions

/-! ## Sessions that are decided -/

section Decided

variable {w after : World}

theorem decided_iff
    {a : Arbiter} :
    progress w = .decided a ↔
      ∃ s, (w.outlines[0]?).map Call.phase = some (.settled s) ∧ s.arbiter = a := by
  unfold progress World.outlines
  cases hcalls : w.calls with
  | nil =>
      simp
  | cons call rest =>
      cases hphase : call.phase with
      | _ =>
          simp [Call.outline, hphase]

theorem outcome?_of_settled
    {s : Settlement}
    (h : (w.outlines[0]?).map Call.phase = some (.settled s)) :
    outcome? w = some s.outcome := by
  unfold World.outlines at h
  unfold outcome?
  cases hcalls : w.calls with
  | nil =>
      rw [hcalls] at h
      cases h
  | cons call rest =>
      have hphase : call.phase = .settled s := by simpa [hcalls, Call.outline] using h
      simp [hphase]

/-- A race that has been decided stays decided, whatever happens. -/
theorem decided_of_evolves
    {a : Arbiter}
    (howned : w.RacesOwned)
    (hprogress : progress w = .decided a)
    (h : w.Evolves after) :
    progress after = .decided a := by
  obtain ⟨s, hs, harbiter⟩ := decided_iff.mp hprogress
  obtain ⟨call, hcall, hphase⟩ := Option.map_eq_some_iff.mp hs
  have hkept := (h.of_isOver howned hcall (by rw [hphase]; rfl)).1
  exact decided_iff.mpr ⟨s, by rw [hkept, Option.map_some, hphase], harbiter⟩

end Decided
end Session

/-! ## Closed sessions -/

/-- What has been handed to a transport, in the order of time. -/
def World.payloads (w : World) : List Payload :=
  w.history.reverse.filterMap fun e =>
    match e.what with
    | .handedOver _ p => some p
    | _ => none

theorem World.map_gist_payloads
    (w : World) :
    w.payloads.map Payload.gist = w.disclosed := by
  simp only [payloads, disclosed, List.map_filterMap]
  congr 1
  funext e
  cases e.what with
  | _ =>
      rfl

/-- A session is closed: it has come to what the closing says, and two payloads tell of it, unless nothing is
handed over at all. -/
structure Closed (c : Closing) (w : World) : Prop where
  outcome : Session.outcome? w = some c.outcome
  reported : w.isReporting = true →
    ∃ start ending : Payload, w.payloads = [start, ending] ∧ start.event = "c3 session started" ∧
      ending.Tells c
  silent : w.isReporting = false → w.payloads = []

namespace Session

section Closed

variable {reporter : Reporter} {stamps : Nat → Int} {source : InterruptSource}
  {plans : List DeliveryPlan} {projectName : Option String} {program : String} {args : List String}
  {child : ChildRun} {interrupt : Option Signal} {v : World}

/-- A session of a command that has been decided is closed by the interrupt that has decided it, or else by
what the program has come to. -/
theorem closed_of_proceeds
    (hv : ((World.start reporter true stamps source plans).beginScript
      (script projectName (program :: args) child)).Proceeds v)
    (hprogress : progress v = .decided (.ofInterrupt interrupt)) :
    Closed (Closing.of program child interrupt) v := by
  have hbody := orderly_work (program :: args) child
  have hdisclosed := disclosed_of_proceeds hbody hv
  have hreporting : v.isReporting = (World.start reporter true stamps source plans).isReporting :=
    hv.evolves.endures.isReporting
  rw [hprogress, ← v.map_gist_payloads, World.gistsOf, ← hreporting] at hdisclosed
  refine ⟨?_, fun hon => ?_, fun hoff => ?_⟩
  · obtain ⟨s, hs, harbiter⟩ := decided_iff.mp hprogress
    rw [outcome?_of_settled hs, settles_of_proceeds hbody hv s hs, harbiter, outcome_settlement]
  · rw [if_pos hon] at hdisclosed
    obtain ⟨start, rest, hpayloads, hstart, hrest⟩ := List.map_eq_cons_iff.mp hdisclosed
    obtain ⟨ending, none, rfl, hending, hnone⟩ := List.map_eq_cons_iff.mp hrest
    rw [List.map_eq_nil_iff.mp hnone] at hpayloads
    exact ⟨start, ending, hpayloads, congrArg Prod.fst hstart, tells_endingBy hending⟩
  · rw [if_neg (by simp [hoff])] at hdisclosed
    exact List.map_eq_nil_iff.mp hdisclosed

end Closed
end Session
end LifecycleTelemetry
