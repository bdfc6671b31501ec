import LifecycleTelemetry.Proofs.Operation.Scheduled

/-!
# Reporters that may not report

A reporter that is not enabled hands nothing over, whatever is being instrumented. The only way around
it is code that posts to the client by itself; `World.Muted` says that none of the strands has such a
step left. Each part of a turn keeps a muted world muted, and so does a schedule.
-/

namespace LifecycleTelemetry

open Json (Fields)

/-! ## What code can do -/

/-- Whether an action goes to the client past the reporter. -/
def Action.bypasses : Action → Bool
  | .post _ _ => true
  | _ => false

/-- The action of a step that builds an operation. -/
def BuildStep.action? : BuildStep → Option Action
  | .act a => some a
  | .panic _ => none

mutual

/-- All actions in a step and in the steps inside of it. -/
def Step.actions : Step → List Action
  | .act a => [a]
  | .instrument _ _ build body _ _ => build.filterMap BuildStep.action? ++ actionsOf body
  | .parallel _ branches _ => actionsOfAll branches
  | .spawn _ body _ => actionsOf body
  | _ => []

/-- All actions in a list of steps. -/
def actionsOf : List Step → List Action
  | [] => []
  | step :: rest => step.actions ++ actionsOf rest

/-- All actions in several lists of steps. -/
def actionsOfAll : List (List Step) → List Action
  | [] => []
  | branch :: rest => actionsOf branch ++ actionsOfAll rest

end

/-- Whether no action goes past the reporter. -/
def Compliant (actions : List Action) : Prop :=
  ∀ a ∈ actions, a.bypasses = false

theorem compliant_append
    (before after : List Action) :
    Compliant (before ++ after) ↔ Compliant before ∧ Compliant after :=
  List.forall_mem_append

theorem actionsOf_append
    (before after : Script) :
    actionsOf (before ++ after) = actionsOf before ++ actionsOf after := by
  induction before with
  | nil =>
      rfl
  | cons step rest ih =>
      simp [actionsOf, ih]

/-- Whether a happening is that something was handed to a transport. -/
def Happening.isHandover : Happening → Bool
  | .handedOver _ _ => true
  | _ => false

namespace World

/-- Nothing has been handed over or is waited for, and nothing will be. -/
structure Muted (w : World) : Prop where
  disabled : w.reporter.enabled = false
  history : ∀ e ∈ w.history, e.what.isHandover = false
  strands : ∀ strand ∈ w.strands, Compliant (actionsOf strand.rest)
  pending : w.pending = []

namespace Muted

variable {w : World}

/-! ## Small changes -/

theorem note
    (h : Muted w)
    {what : Happening}
    (hwhat : what.isHandover = false) :
    Muted (w.note what) := by
  refine ⟨h.disabled, fun e he => ?_, h.strands, h.pending⟩
  rcases List.mem_cons.mp he with rfl | hold
  · exact hwhat
  · exact h.history e hold

theorem record
    (h : Muted w)
    (list : String)
    (deed : Deed)
    (finding : Finding) :
    Muted (w.record list deed finding) :=
  h.note rfl

theorem say
    (h : Muted w)
    (level : LogLevel)
    (source : LogSource)
    (message : String)
    (fields : Fields) :
    Muted (w.say level source message fields) :=
  h.note rfl

/-- A strand may be changed as long as it does not get anything to do that goes past the reporter. -/
theorem withStrand
    (h : Muted w)
    (id : Nat)
    {change : Strand → Strand}
    (hchange : ∀ strand, w.strands[id]? = some strand → Compliant (actionsOf (change strand).rest)) :
    Muted (w.withStrand id change) := by
  refine ⟨h.disabled, h.history, fun strand hstrand => ?_, h.pending⟩
  obtain ⟨n, hn⟩ := List.getElem?_of_mem hstrand
  simp only [World.withStrand, List.getElem?_modify] at hn
  obtain ⟨old, hold, rfl⟩ := Option.map_eq_some_iff.mp hn
  split
  · rename_i hsame
    exact hchange old (hsame ▸ hold)
  · exact h.strands old (List.mem_of_getElem? hold)

theorem withStatus
    (h : Muted w)
    (id : Nat)
    (status : StrandStatus) :
    Muted (w.withStatus id status) :=
  h.withStrand id fun strand hstrand => h.strands strand (List.mem_of_getElem? hstrand)

theorem addStrand
    (h : Muted w)
    {strand : Strand}
    (hstrand : Compliant (actionsOf strand.rest)) :
    Muted (w.addStrand strand).2 := by
  refine ⟨h.disabled, h.history, fun other hother => ?_, h.pending⟩
  rcases List.mem_append.mp hother with hold | hnew
  · exact h.strands other hold
  · rw [List.mem_singleton.mp hnew]
    exact hstrand

theorem spawnTask
    (h : Muted w)
    (list : String)
    {script : Script}
    (hscript : Compliant (actionsOf script))
    (scope : Option Nat) :
    Muted (w.spawnTask list script scope).2 := by
  let strand : Strand := ⟨w.strands.length, list, 0, script, scope, .ready⟩
  have hadded : Muted (w.addStrand strand).2 := h.addStrand hscript
  exact ⟨hadded.disabled, hadded.history, hadded.strands, hadded.pending⟩

theorem withCall
    (h : Muted w)
    (id : Nat)
    (change : Call → Call) :
    Muted (w.withCall id change) :=
  ⟨h.disabled, h.history, h.strands, h.pending⟩

/-- Sending is where a reporter that is not enabled stops. -/
theorem send
    (h : Muted w)
    (sender : Sender)
    (event : String)
    (properties : Fields) :
    Muted (w.send sender event properties) := by
  simpa [World.send, h.disabled] using h

theorem report
    (h : Muted w)
    (call : Nat)
    (event : Event) :
    Muted (w.report call event) :=
  h.send _ _ _

theorem finish
    (h : Muted w)
    (id : Nat)
    (o : Outcome) :
    Muted (w.finish id o) := by
  unfold World.finish
  split
  · have hstatus := h.withStatus id (.finished o)
    split
    · exact ⟨hstatus.disabled, hstatus.history, hstatus.strands, hstatus.pending⟩
    · exact hstatus
  · exact h

theorem passOn
    (h : Muted w)
    (id : Nat)
    (texts : List String) :
    Muted (w.passOn id texts) := by
  unfold World.passOn
  split
  · exact h.finish id _
  · exact h.finish id _
  · exact h

theorem hand
    (h : Muted w)
    (id : Nat)
    (o : Outcome)
    (propagate : Bool) :
    Muted (w.hand id o propagate) := by
  cases o with
  | ok value => exact h.withStatus id .ready
  | err f =>
      cases propagate
      · exact h.withStatus id .ready
      · exact h.finish id _
  | panic p =>
      cases propagate
      · exact h.withStatus id .ready
      · exact h.finish id _

theorem handAll
    (h : Muted w)
    (id : Nat)
    (outcomes : List Outcome)
    (propagate : Bool) :
    Muted (w.handAll id outcomes propagate) := by
  unfold World.handAll
  split
  · exact h.hand id _ propagate
  · exact h.withStatus id .ready

/-! ## Acting -/

theorem contribute?
    (h : Muted w)
    {scope : Option Nat}
    {stage : TerminalStage}
    {key : String}
    {value : Json}
    {after : World}
    (hafter : w.contribute? scope stage key value = some after) :
    Muted after := by
  obtain ⟨call, -, rfl⟩ := Option.map_eq_some_iff.mp hafter
  exact h.withCall call _

theorem contributeAll?
    (h : Muted w)
    {scope : Option Nat}
    {stage : TerminalStage}
    {data : Fields}
    {after : World}
    (hafter : w.contributeAll? scope stage data = some after) :
    Muted after := by
  induction data generalizing w with
  | nil =>
      cases hafter
      exact h
  | cons field rest ih =>
      simp only [World.contributeAll?] at hafter
      split at hafter
      · exact ih (h.contribute? ‹_›) hafter
      · cases hafter

theorem act
    (h : Muted w)
    (list : String)
    (scope : Option Nat)
    {a : Action}
    (ha : a.bypasses = false) :
    Muted (w.act list scope a) := by
  cases a with
  | contribute accessor stage key value =>
      simp only [World.act]
      split
      · exact (h.contribute? ‹_›).record _ _ _
      · exact h.record _ _ _
  | contributeAll stage data =>
      simp only [World.act]
      split
      · exact (h.contributeAll? ‹_›).record _ _ _
      · exact h.record _ _ _
  | trigger s =>
      have htrigger : Muted (w.trigger s).2 := ⟨h.disabled, h.history, h.strands, h.pending⟩
      exact htrigger.record _ _ _
  | send name properties => exact (h.send _ _ _).record _ _ _
  | post event properties => cases ha
  | log line => exact h.note rfl
  | _ => exact h.record _ _ _

theorem build
    (h : Muted w)
    (list : String)
    (call : Nat)
    {steps : List BuildStep}
    (hsteps : Compliant (steps.filterMap BuildStep.action?)) :
    Muted (w.build list call steps).2 := by
  induction steps generalizing w with
  | nil => exact h
  | cons step rest ih =>
      cases step with
      | panic p => exact h
      | act a =>
          have hboth := (compliant_append [a] (rest.filterMap BuildStep.action?)).mp hsteps
          exact ih (h.act list (some call) (hboth.1 a (by simp))) hboth.2

/-! ## Calls -/

theorem release
    (h : Muted w)
    (call : Nat) :
    Muted (w.release call) := by
  unfold World.release
  split
  · exact ⟨h.disabled, h.history, h.strands, h.pending⟩
  · exact h

theorem listenFor
    (h : Muted w)
    (call : Nat) :
    Muted (w.listenFor call) := by
  have hlistening : Muted w.listen.2 := by
    unfold World.listen
    split
    · exact ⟨h.disabled, h.history, h.strands, h.pending⟩
    · exact h.say _ _ _ _
  exact hlistening.withCall call _

theorem openCall
    (h : Muted w)
    (id : Nat)
    (subject : Subject)
    (propagate : Bool)
    (abandonAfter : Option Nat) :
    Muted (w.openCall id subject propagate abandonAfter) := by
  have hadded : Muted (w.addCall (w.newCall id subject propagate abandonAfter)) :=
    ⟨h.disabled, h.history, h.strands, h.pending⟩
  exact (hadded.report _ _).listenFor _

theorem collapse
    (h : Muted w)
    (id : Nat)
    (list : String)
    (call : Nat)
    (p : PanicPayload)
    (propagate : Bool) :
    Muted (w.collapse id list call p propagate) := by
  have hcollapsed := (h.release call).withCall call fun c => { c with phase := .collapsed p }
  exact (hcollapsed.record list .instrument (.outcome (.panic p))).hand id (.panic p) propagate

theorem startRace
    (h : Muted w)
    (id : Nat)
    (inner : String)
    (call : Nat)
    {body : Script}
    (hbody : Compliant (actionsOf body)) :
    Muted (w.startRace id inner call body) :=
  ((h.spawnTask inner hbody (some call)).withCall call _).withStatus id _

theorem instrument
    (h : Muted w)
    (id : Nat)
    (list inner : String)
    (subject : Subject)
    {steps : List BuildStep}
    {body : Script}
    (propagate : Bool)
    (abandonAfter : Option Nat)
    (hsteps : Compliant (steps.filterMap BuildStep.action?))
    (hbody : Compliant (actionsOf body)) :
    Muted (w.instrument id list inner subject steps body propagate abandonAfter) := by
  have hreadied : Compliant ((w.readied steps).filterMap BuildStep.action?) := by
    unfold readied
    split
    · exact hsteps
    · rw [List.filterMap_append]
      exact (compliant_append _ _).mpr ⟨hsteps, nofun⟩
  have hbuilt := (h.openCall id subject propagate abandonAfter).build inner w.calls.length hreadied
  unfold World.instrument
  simp only
  split
  · rename_i hresult
    rw [hresult] at hbuilt
    exact hbuilt.collapse id list _ _ propagate
  · rename_i hresult
    rw [hresult] at hbuilt
    exact hbuilt.startRace id inner _ hbody

theorem conclude
    (h : Muted w)
    (id : Nat)
    (list : String)
    (number : Nat)
    (call : Call)
    (s : Settlement) :
    Muted (w.conclude id list number call s) := by
  have hannounced : Muted (w.announce s) := by
    cases s with
    | interrupted signal => exact h.say _ _ _ _
    | _ => exact h
  have hsettled := (hannounced.release number).withCall number fun c =>
    { c with
      contributions := (call.contributions.take s.ending.stage).2
      phase := .settled s }
  exact ((hsettled.report number _).record _ _ _).hand id _ call.propagate

theorem decide
    (h : Muted w)
    (id : Nat)
    (list : String)
    (number : Nat) :
    Muted (w.decide id list number) := by
  unfold World.decide
  split
  · split
    · exact h.conclude id list number _ _
    · split
      · exact (((h.release number).withCall number _).record _ _ _).withStatus id .ready
      · exact h
  · exact h

/-! ## Waiting -/

theorem complain
    (h : Muted w)
    (batch : List Nat) :
    Muted (w.complain batch) := by
  unfold World.complain
  induction batch generalizing w with
  | nil => exact h
  | cons delivery rest ih =>
      refine ih ?_
      simp only
      split
      · exact h.say _ _ _ _
      · exact h

theorem startDrain
    (h : Muted w)
    (id : Nat)
    (recorded : Bool) :
    Muted (w.startDrain id recorded) := by
  have hemptied : Muted { w with pending := [] } := ⟨h.disabled, h.history, h.strands, rfl⟩
  unfold World.startDrain
  refine Muted.withStatus ?_ id _
  split
  · exact hemptied
  · exact hemptied.say _ _ _ _

theorem drain
    (h : Muted w)
    (id : Nat)
    (list : String)
    (batch : List Nat)
    (recorded : Bool) :
    Muted (w.drain id list batch recorded) := by
  have hcomplained := h.complain (batch.filter w.isDelivered)
  unfold World.drain
  simp only
  split
  · refine Muted.withStatus ?_ id _
    split
    · exact hcomplained.record _ _ _
    · exact hcomplained
  · exact hcomplained.withStatus id _

/-! ## Turns -/

theorem addBranches
    (h : Muted w)
    (of : Strand)
    (inner : String)
    (number : Nat)
    {branches : List Script}
    (hbranches : Compliant (actionsOfAll branches)) :
    Muted (w.addBranches of inner number branches).2 := by
  induction branches generalizing w number with
  | nil => exact h
  | cons branch rest ih =>
      have hboth := (compliant_append (actionsOf branch) (actionsOfAll rest)).mp hbranches
      exact ih (h.addStrand hboth.1) (number + 1) hboth.2

theorem perform
    (h : Muted w)
    (id : Nat)
    (strand : Strand)
    {step : Step}
    (hstep : Compliant step.actions) :
    Muted (w.perform id strand step) := by
  cases step with
  | act a => exact h.act strand.list strand.scope (hstep a (by simp [Step.actions]))
  | succeed value => exact h.finish id _
  | fail f => exact h.finish id _
  | panic p => exact h.finish id _
  | hang => exact h.withStatus id _
  | sleep duration =>
      have hticket : Muted w.ticket.2 := ⟨h.disabled, h.history, h.strands, h.pending⟩
      exact hticket.withStatus id _
  | giveWay => exact h.withStatus id _
  | drain recorded => exact h.startDrain id recorded
  | settle posted =>
      simp only [World.perform]
      split
      · exact h.withStatus id _
      · exact h.record _ _ _
  | instrument name subject build body propagate abandonAfter =>
      have hboth := (compliant_append (build.filterMap BuildStep.action?) (actionsOf body)).mp
        (by simpa only [Step.actions] using hstep)
      exact h.instrument id _ _ subject propagate abandonAfter hboth.1 hboth.2
  | passOn texts => exact h.passOn id texts
  | parallel name branches propagate =>
      have hbranches : Compliant (actionsOfAll branches) := by
        simpa only [Step.actions] using hstep
      exact (h.addBranches strand _ 0 hbranches).withStatus id _
  | spawn name body wait =>
      have hbody : Compliant (actionsOf body) := by simpa only [Step.actions] using hstep
      have hspawned := h.spawnTask (innerName strand.list strand.index name) hbody none
      simp only [World.perform]
      by_cases hruntime : w.hasRuntime = true
      · simp only [hruntime, if_true]
        split
        · exact hspawned.withStatus id _
        · exact hspawned
      · simp only [hruntime]
        exact h.finish id _

theorem stepForward
    (h : Muted w)
    {id : Nat}
    {strand : Strand}
    (hstrand : w.strands[id]? = some strand) :
    Muted (w.stepForward id strand) := by
  have hrest := h.strands strand (List.mem_of_getElem? hstrand)
  unfold World.stepForward
  split
  · exact h.finish id _
  · rename_i step rest hsteps
    rw [hsteps] at hrest
    have hboth := (compliant_append step.actions (actionsOf rest)).mp
      (by simpa only [actionsOf] using hrest)
    exact (h.withStrand id fun _ _ => hboth.2).perform id strand hboth.1

theorem advance
    (h : Muted w)
    (id : Nat) :
    Muted (w.advance id) := by
  unfold World.advance
  split
  · exact h
  rename_i strand hstrand
  split
  · split
    · exact h.stepForward hstrand
    · exact h.withStatus id _
    · exact h.withStatus id _
    · exact h.decide id _ _
    · split
      · exact (h.record _ _ _).handAll id _ _
      · exact h
    · split
      · exact (h.record _ _ _).withStatus id _
      · exact (h.record _ _ _).withStatus id _
    · exact h.drain id _ _ _
    · exact ((h.complain _).record _ _ _).withStatus id _
    · exact h
    · exact h
    · exact h
  · exact h

theorem endDelivery
    (h : Muted w)
    (id : Nat)
    (d : Delivery) :
    Muted (w.endDelivery id d) := by
  have hsaid := h.say .debug .delivery "telemetry delivery failed" [("event", .string d.event)]
  unfold World.endDelivery
  cases d.plan.ending with
  | fail => exact ⟨hsaid.disabled, hsaid.history, hsaid.strands, hsaid.pending⟩
  | _ => exact ⟨h.disabled, h.history, h.strands, h.pending⟩

theorem deliver
    (h : Muted w)
    (id : Nat) :
    Muted (w.deliver id) := by
  have hticket : Muted w.ticket.2 := ⟨h.disabled, h.history, h.strands, h.pending⟩
  unfold World.deliver
  split
  · exact h
  split
  · split
    · simp only
      split
      · exact hticket.endDelivery id _
      · exact ⟨h.disabled, h.history, h.strands, h.pending⟩
    · exact h.endDelivery id _
  · split
    · exact h.endDelivery id _
    · exact h
  · exact h
  · exact h

/-! ## Moves -/

theorem rest_abortedIn
    (task : Nat)
    (strand : Strand) :
    (Strand.abortedIn task strand).rest = strand.rest := by
  unfold Strand.abortedIn
  split
  · rfl
  · split
    · rfl
    · rfl

theorem dropCalls
    (h : Muted w)
    (calls : List Nat) :
    Muted (calls.foldl dropCall w) := by
  induction calls generalizing w with
  | nil => exact h
  | cons call calls ih => exact ih ((h.release call).withCall call _)

theorem abort
    (h : Muted w)
    (task : Nat) :
    Muted (w.abort task) := by
  have hdropped := h.dropCalls (w.racesOf task)
  refine ⟨hdropped.disabled, hdropped.history, fun strand hstrand => ?_, hdropped.pending⟩
  obtain ⟨old, hold, rfl⟩ := List.mem_map.mp hstrand
  rw [rest_abortedIn]
  exact hdropped.strands old hold

theorem move
    (h : Muted w)
    (m : Move) :
    Muted (w.move m) := by
  cases m with
  | advance strand => exact h.advance strand
  | deliver delivery => exact h.deliver delivery
  | pass time => exact ⟨h.disabled, h.history, h.strands, h.pending⟩
  | signal s => exact ⟨h.disabled, h.history, h.strands, h.pending⟩
  | abort task => exact h.abort task

/-- Whatever happens to it, a muted world stays muted. -/
theorem proceeds
    {v : World}
    (h : Muted w)
    (hv : Proceeds w v) :
    Muted v := by
  induction hv with
  | refl => exact h
  | move m _ ih => exact ih.move m
  | rouse woken _ ih => exact ⟨ih.disabled, ih.history, ih.strands, ih.pending⟩

theorem moves
    (h : Muted w)
    (ms : List Move) :
    Muted (w.moves ms) :=
  h.proceeds (.moves w ms)

end Muted

/-- A world is muted from the start when its reporter is not enabled. -/
theorem muted_start
    {reporter : Reporter}
    (h : reporter.enabled = false)
    (hasRuntime : Bool)
    (stamps : Nat → Int)
    (source : InterruptSource)
    (plans : List DeliveryPlan) :
    (World.start reporter hasRuntime stamps source plans).Muted := by
  refine ⟨h, by simp [World.start], ?_, rfl⟩
  simp [World.start, actionsOf, Compliant]

end World

namespace Schedule

open World (Muted)

/-- A schedule keeps a muted world muted when the main task carries out a script that does not go past
the reporter. -/
theorem muted_runMain
    {s : Schedule}
    (h : Muted s.world)
    (limit : Option Nat)
    {script : Script}
    (hscript : Compliant (actionsOf script)) :
    Muted (s.runMain limit script).world := by
  have hbegun : Muted (s.world.beginScript script) := h.withStrand 0 fun _ _ => hscript
  exact hbegun.proceeds (proceeds_runMain s limit script)

end Schedule
end LifecycleTelemetry
