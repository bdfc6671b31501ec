import LifecycleTelemetry.Proofs.Operation.Discreet
import LifecycleTelemetry.Proofs.Operation.Evolution

/-!
# Telemetry does not change the program

Two runs of a discreet program go the same way, whoever reports in either of them and whatever becomes
of the deliveries, as long as strands, signals and the clock are moved in the same order: all calls come
to the same, all steps have the same results, and there are as many listeners at every time. A run in
which no delivery ever gets a turn is one of them, so no call waits for a delivery.

Each part of a turn is blind to what is erased. A turn looks at its strand and at the call that the
strand races, and takes the same way in the erased world because it does not use what is erased there.
-/

namespace LifecycleTelemetry
namespace World

/-! ## Actions -/

section Actions

variable {p : Prop}

theorem blind_trigger
    (s : Signal) :
    Blind p fun w => (w.trigger s).2 :=
  blind_of_same fun _ => ⟨_, blind_withChannel fun c => c.trigger s,
    ⟨rfl, rfl, rfl, rfl, rfl, rfl, rfl⟩, ⟨rfl, rfl, rfl, rfl, rfl, rfl, rfl⟩⟩

theorem blind_give
    (n : Nat)
    (given : List Contribution) :
    Blind p fun w => w.withCall n (Call.receive given) :=
  blind_withCall n _ fun _ => rfl

theorem blind_act
    (list : String)
    (scope : Option Nat)
    {a : Action}
    (ha : a.isDiscreet = true) :
    Blind p fun w => w.act list scope a := by
  cases a with
  | contribute accessor stage key value =>
      cases scope with
      | none =>
          exact blind_record _ _ _
      | some n =>
          exact (blind_give n [⟨stage, key, value⟩]).comp (blind_record _ _ _)
  | contributeAll stage data =>
      cases scope with
      | none =>
          simp only [act, contributeAll?_none]
          split
          · exact blind_record _ _ _
          · exact blind_record _ _ _
      | some n =>
          simp only [act, contributeAll?_some]
          exact (blind_give n _).comp (blind_record _ _ _)
  | currentTitle =>
      refine blind_of_same fun w => ⟨_, blind_record list .currentTitle
        (.title (scope.bind fun call => (w.calls[call]?).map fun c => c.subject.title)), .refl, ?_⟩
      have htitle : ∀ n : Nat, (w.bare.calls[n]?).map (fun c => c.subject.title) =
          (w.calls[n]?).map fun c => c.subject.title := by
        intro n
        rw [bare_calls, Option.map_map]
        rfl
      simp only [act, htitle]
      exact .refl
  | trigger s =>
      exact blind_of_same fun w => ⟨_, (blind_trigger s).comp
        (blind_record list .trigger (.count w.channel.active)), .refl, .refl⟩
  | countListeners =>
      exact blind_of_same fun w => ⟨_, blind_record list .countListeners (.count w.channel.active),
        .refl, .refl⟩
  | send name properties =>
      exact (blind_of_hidden fun w => w.alike_send _ _ _).comp (blind_record _ _ _)
  | log line =>
      exact blind_of_hidden fun _ => ⟨rfl, rfl, rfl, rfl, rfl, rfl, rfl⟩
  | countPending =>
      cases ha
  | describeReporter =>
      cases ha
  | post event properties =>
      cases ha
  | isDelivered posted =>
      cases ha

/-- Whether the part that builds an operation panics does not depend on the world. -/
theorem build_fst
    (w v : World)
    (list : String)
    (call : Nat)
    (steps : List BuildStep) :
    (w.build list call steps).1 = (v.build list call steps).1 := by
  induction steps generalizing w v with
  | nil =>
      rfl
  | cons step rest ih =>
      cases step with
      | panic p =>
          rfl
      | act a =>
          exact ih _ _

theorem blind_build
    (list : String)
    (call : Nat)
    {steps : List BuildStep}
    (hsteps : steps.all BuildStep.isDiscreet = true) :
    Blind p fun w => (w.build list call steps).2 := by
  induction steps with
  | nil =>
      exact blind_of_hidden fun _ => .refl
  | cons step rest ih =>
      simp only [List.all_cons, Bool.and_eq_true] at hsteps
      cases step with
      | panic p =>
          exact blind_of_hidden fun _ => .refl
      | act a =>
          exact (blind_act list (some call) hsteps.1).comp (ih hsteps.2)

end Actions

/-! ## The end of a strand -/

section Ending

variable {p : Prop} (id : Nat) (o : Outcome) (propagate : Bool)

theorem alike_woken
    (w : World)
    (woken : List TaskId) :
    Alike w { w with woken } :=
  ⟨rfl, rfl, rfl, rfl, rfl, rfl, rfl⟩

theorem alike_finish
    {w : World}
    {strand : Strand}
    (hstrand : w.strands[id]? = some strand) :
    Alike (w.withStatus id (.finished o)) (w.finish id o) := by
  simp only [finish, hstrand]
  split
  · exact alike_woken _ _
  · exact .refl

theorem blind_finish :
    Blind p fun w => w.finish id o := by
  refine blind_of_same fun w => ?_
  cases hstrand : w.strands[id]? with
  | none =>
      have hbare : w.bare.strands[id]? = none := by simp [bare_strands, hstrand]
      refine ⟨_, blind_of_hidden fun _ => .refl, ?_, ?_⟩
      · simp only [finish, hstrand]
        exact .refl
      · simp only [finish, hbare]
        exact .refl
  | some strand =>
      have hbare : w.bare.strands[id]? = some strand.bare := by simp [bare_strands, hstrand]
      exact ⟨_, blind_withStatus id (.finished o) rfl, alike_finish id o hstrand,
        alike_finish id o hbare⟩

theorem blind_hand :
    Blind p fun w => w.hand id o propagate := by
  have hready := blind_withStatus (p := p) id .ready rfl
  cases o with
  | ok v =>
      exact hready
  | _ =>
      simp only [hand]
      split
      · exact blind_finish id _
      · exact hready

theorem blind_handAll
    (outcomes : List Outcome) :
    Blind p fun w => w.handAll id outcomes propagate := by
  unfold handAll
  split
  · exact blind_hand id _ propagate
  · exact blind_withStatus id .ready rfl

end Ending

/-! ## The life of a call -/

section Calls

variable {p : Prop}

theorem blind_release
    (number : Nat) :
    Blind p fun w => w.release number := by
  refine blind_of_same fun w => ?_
  cases hcall : w.calls[number]? with
  | none =>
      have hbare : w.bare.calls[number]? = none := by simp [bare_calls, hcall]
      refine ⟨_, blind_of_hidden fun _ => .refl, ?_, ?_⟩
      · simp only [release, hcall]
        exact .refl
      · simp only [release, hbare]
        exact .refl
  | some c =>
      have hbare : w.bare.calls[number]? = some c.bare := by simp [bare_calls, hcall]
      refine ⟨_, (blind_withCall number (fun c => { c with listener := .unarmed }) fun _ => rfl).comp
        (blind_withChannel fun channel => c.listener.release channel), ?_, ?_⟩
      · simp only [release, hcall]
        exact .refl
      · simp only [release, hbare]
        exact .refl

theorem blind_listenFor
    (number : Nat) :
    Blind p fun w => w.listenFor number := by
  have hset := fun listener =>
    blind_withCall (p := p) number (fun c => { c with listener }) fun _ => rfl
  have hsay := blind_of_hidden (p := p) fun w => w.alike_say .warn .reporter
    "failed to install interrupt listeners" [("source", .string w.source.name)]
  refine blind_of_same fun w => ?_
  have hbare : w.bare.source.listen? w.bare.clock w.bare.channel =
      w.source.listen? w.clock w.channel := rfl
  cases hlisten : w.source.listen? w.clock w.channel with
  | none =>
      refine ⟨_, hsay.comp (hset .unarmed), ?_, ?_⟩
      · simp only [listenFor, listen, hlisten]
        exact .refl
      · simp only [listenFor, listen, hbare, hlisten]
        exact .refl
  | some installed =>
      refine ⟨_, (blind_withChannel fun _ => installed.2).comp (hset installed.1), ?_, ?_⟩
      · simp only [listenFor, listen, hlisten]
        exact .refl
      · simp only [listenFor, listen, hbare, hlisten]
        exact .refl

theorem blind_addCall
    (id : Nat)
    (subject : Subject)
    (propagate : Bool)
    (abandonAfter : Option Nat) :
    Blind p fun w => w.addCall (w.newCall id subject propagate abandonAfter) := by
  refine ⟨fun w => ?_, fun _ w hw => hw⟩
  have h := alike_bare w
  refine ⟨h.hasRuntime, h.clock, h.source, h.channel, h.strands, ?_, h.results⟩
  have hnew : (w.newCall id subject propagate abandonAfter).bare =
      (w.bare.newCall id subject propagate abandonAfter).bare := by
    simp only [Call.bare, newCall, Option.map_map]
    rfl
  simp only [addCall, List.map_append, List.map_cons, List.map_nil, hnew]
  exact congrArg (· ++ _) h.calls

theorem blind_openCall
    (id : Nat)
    (subject : Subject)
    (propagate : Bool)
    (abandonAfter : Option Nat) :
    Blind p fun w => w.openCall id subject propagate abandonAfter := by
  have hopen := fun number : Nat =>
    ((blind_addCall (p := p) id subject propagate abandonAfter).comp
      (blind_of_hidden fun w => w.alike_report number ⟨subject, .started⟩)).comp
        (blind_listenFor number)
  refine blind_of_same fun w => ⟨_, hopen w.calls.length, .refl, ?_⟩
  simp only [openCall, bare_calls_length]
  exact .refl

theorem blind_withPhase
    (number : Nat)
    (phase : CallPhase) :
    Blind p fun w => w.withCall number fun c => { c with phase } :=
  blind_withCall number _ fun _ => rfl

theorem blind_collapse
    (id : Nat)
    (list : String)
    (number : Nat)
    (panic : PanicPayload)
    (propagate : Bool) :
    Blind p fun w => w.collapse id list number panic propagate :=
  (((blind_release number).comp (blind_withPhase number (.collapsed panic))).comp
    (blind_record list .instrument (.outcome (.panic panic)))).comp
      (blind_hand id (.panic panic) propagate)

theorem blind_spawnTask
    (list : String)
    {script : Script}
    (hscript : p → areDiscreet script = true)
    (scope : Option Nat) :
    Blind p fun w => (w.spawnTask list script scope).2 := by
  constructor
  · intro w
    have h := alike_bare w
    refine ⟨h.hasRuntime, h.clock, h.source, h.channel, ?_, h.calls, h.results⟩
    simp only [spawnTask, addStrand, wake, bare_strands_length, List.map_append]
    exact congrArg (· ++ _) h.strands
  · intro hp w hw strand hstrand
    rcases List.mem_append.mp hstrand with hold | hnew
    · exact hw strand hold
    · rw [List.mem_singleton.mp hnew]
      simp [Strand.isDiscreet, hscript hp, StrandStatus.isDiscreet]

theorem blind_startRace
    (id : Nat)
    (inner : String)
    (number : Nat)
    {body : Script}
    (hbody : p → areDiscreet body = true) :
    Blind p fun w => w.startRace id inner number body := by
  have hrace := fun task : Nat =>
    ((blind_spawnTask inner hbody (some number)).comp (blind_withPhase number (.racing task))).comp
      (blind_withStatus id (.racing number) rfl)
  refine blind_of_same fun w => ⟨_, hrace w.strands.length, .refl, ?_⟩
  simp only [startRace, spawnTask, addStrand, wake, bare_strands_length]
  exact .refl

theorem blind_afterBuild
    (id : Nat)
    (list inner : String)
    (number : Nat)
    {body : Script}
    (hbody : p → areDiscreet body = true)
    (propagate : Bool)
    (panic : Option PanicPayload) :
    Blind p fun w => afterBuild id list inner number body propagate (panic, w) := by
  cases panic with
  | some p =>
      exact blind_collapse id list number p propagate
  | none =>
      exact blind_startRace id inner number hbody

theorem blind_instrument
    (id : Nat)
    (list inner : String)
    (subject : Subject)
    {steps : List BuildStep}
    (hsteps : steps.all BuildStep.isDiscreet = true)
    {body : Script}
    (hbody : p → areDiscreet body = true)
    (propagate : Bool)
    (abandonAfter : Option Nat) :
    Blind p fun w => w.instrument id list inner subject steps body propagate abandonAfter := by
  have hrun := fun number : Nat => fun panic : Option PanicPayload =>
    ((blind_openCall id subject propagate abandonAfter).comp (blind_build inner number hsteps)).comp
      (blind_afterBuild id list inner number hbody propagate panic)
  -- The part that builds the operation panics in both worlds or in neither, as both have a runtime or none.
  have hturn : ∀ w v : World, v.calls.length = w.calls.length → v.hasRuntime = w.hasRuntime →
      Alike
        (afterBuild id list inner w.calls.length body propagate
          (((w.openCall id subject propagate abandonAfter).build inner w.calls.length
            (w.readied steps)).1,
            ((v.openCall id subject propagate abandonAfter).build inner w.calls.length steps).2))
        (v.instrument id list inner subject steps body propagate abandonAfter) := by
    intro w v hlength hruntime
    have hreadied : v.readied steps = w.readied steps := by rw [readied, readied, hruntime]
    rw [instrument_eq, hlength, hreadied, ← build_readied _ w,
      build_fst (w.openCall id subject propagate abandonAfter)
        (v.openCall id subject propagate abandonAfter)]
    exact .refl
  exact blind_of_same fun w => ⟨_, hrun w.calls.length _, hturn w w rfl rfl,
    hturn w w.bare w.bare_calls_length rfl⟩

theorem blind_conclude
    (id : Nat)
    (list : String)
    (number : Nat)
    (call : Call)
    (s : Settlement) :
    Blind p fun w => w.conclude id list number call s := by
  have hannounce := blind_of_hidden (p := p) fun w => w.alike_announce s
  have hsettle : Blind p fun w => w.settle number call s := blind_withCall number _ fun _ => rfl
  have hreport := blind_of_hidden (p := p) fun w => w.alike_report number (endingOf call s w.clock)
  exact ((((hannounce.comp (blind_release number)).comp hsettle).comp hreport).comp
    (blind_record list .instrument (.outcome s.outcome))).comp
      (blind_hand id s.outcome call.propagate)

theorem blind_dropCall
    (number : Nat) :
    Blind p fun w => w.dropCall number :=
  (blind_release number).comp (blind_withPhase number .abandoned)

theorem blind_abandon
    (id : Nat)
    (list : String)
    (number : Nat) :
    Blind p fun w => w.abandon id list number :=
  ((blind_dropCall number).comp (blind_record list .instrument .abandoned)).comp
    (blind_withStatus id .ready rfl)

/-- How a race is decided does not depend on what is erased, -/
theorem settlement?_bare
    (w : World)
    (call : Call) :
    w.bare.settlement? call.bare = w.settlement? call := by
  have hphase : call.bare.phase = call.phase := rfl
  have hlistener : call.bare.listener = call.listener := rfl
  unfold settlement?
  rw [hphase, hlistener]
  cases call.phase with
  | racing body =>
      simp only [bare_strands, Option.map_map]
      cases w.strands[body]? with
      | none =>
          rfl
      | some strand =>
          obtain ⟨task, name, index, rest, scope, status⟩ := strand
          cases status <;> rfl
  | _ =>
      rfl

/-- nor does the time after which a call is given up. -/
theorem isOverdue_bare
    (w : World)
    (call : Call) :
    w.bare.isOverdue call.bare = w.isOverdue call := by
  unfold isOverdue Call.bare
  cases call.deadline with
  | _ =>
      rfl

theorem blind_decide
    (id : Nat)
    (list : String)
    (number : Nat) :
    Blind p fun w => w.decide id list number := by
  have hstays : Blind p fun w => w := blind_of_hidden fun _ => .refl
  refine blind_of_same fun w => ?_
  unfold decide
  rw [bare_calls]
  cases w.calls[number]? with
  | none =>
      exact ⟨_, hstays, .refl, .refl⟩
  | some call =>
      simp only [Option.map_some, settlement?_bare, isOverdue_bare]
      cases w.settlement? call with
      | some s =>
          exact ⟨_, blind_conclude id list number call s, .refl, .refl⟩
      | none =>
          simp only
          split
          · exact ⟨_, blind_abandon id list number, .refl, .refl⟩
          · exact ⟨_, hstays, .refl, .refl⟩

end Calls

/-! ## Turns -/

section Turns

variable {p : Prop}

theorem blind_addStrand
    {strand : Strand}
    (hstrand : p → strand.isDiscreet = true) :
    Blind p fun w => (w.addStrand strand).2 := by
  constructor
  · intro w
    have h := alike_bare w
    refine ⟨h.hasRuntime, h.clock, h.source, h.channel, ?_, h.calls, h.results⟩
    simp only [addStrand, List.map_append]
    exact congrArg (· ++ _) h.strands
  · intro hp w hw other hother
    rcases List.mem_append.mp hother with hold | hnew
    · exact hw other hold
    · exact List.mem_singleton.mp hnew ▸ hstrand hp

theorem blind_addBranches
    (of : Strand)
    (inner : String)
    (number : Nat)
    {branches : List Script}
    (hbranches : p → allAreDiscreet branches = true) :
    Blind p fun w => (w.addBranches of inner number branches).2 := by
  induction branches generalizing number with
  | nil =>
      exact blind_of_hidden fun _ => .refl
  | cons branch rest ih =>
      simp only [allAreDiscreet, Bool.and_eq_true] at hbranches
      have hbranch : p → Strand.isDiscreet ⟨of.task, inner ++ "[" ++ toString number ++ "]", 0, branch,
          of.scope, .ready⟩ = true := by
        intro hp
        simp [Strand.isDiscreet, (hbranches hp).1, StrandStatus.isDiscreet]
      exact (blind_addStrand hbranch).comp (ih (number + 1) fun hp => (hbranches hp).2)

/-- Branches are numbered from the number of strands on. -/
theorem addBranches_fst
    {w v : World}
    (hlength : w.strands.length = v.strands.length)
    (of : Strand)
    (inner : String)
    (number : Nat)
    (branches : List Script) :
    (w.addBranches of inner number branches).1 = (v.addBranches of inner number branches).1 := by
  induction branches generalizing w v number with
  | nil =>
      rfl
  | cons branch rest ih =>
      have hadded : ∀ strand : Strand,
          (w.addStrand strand).2.strands.length = (v.addStrand strand).2.strands.length := by
        intro strand
        simp [addStrand, hlength]
      simp only [addBranches, ih (hadded _)]
      simp [addStrand, hlength]

/-- Which ticket a strand gets when it goes to sleep can not be noticed. -/
theorem alike_sleep
    (w : World)
    (id deadline ticket : Nat) :
    Alike (w.withStatus id (.sleeping deadline 0))
      (w.ticket.2.withStatus id (.sleeping deadline ticket)) := by
  have hbare := fun ticket : Nat => map_modify Strand.bare
    (fun strand => { strand with status := .sleeping deadline ticket })
    (fun strand => { strand with status := .sleeping deadline 0 }) (fun _ => rfl) w.strands id
  exact ⟨rfl, rfl, rfl, rfl, (hbare 0).trans (hbare ticket).symm, rfl, rfl⟩

theorem lastCall?_bare
    (w : World)
    (id : Nat) :
    w.bare.lastCall? id = (w.lastCall? id).map Call.bare := by
  simp only [lastCall?, bare, ← List.map_reverse, List.find?_map]
  rfl

theorem blind_passOn
    (id : Nat)
    (texts : List String) :
    Blind p fun w => w.passOn id texts := by
  have hsame : ∀ w : World, (w.bare.lastCall? id).bind (fun call => call.phase.outcome?)
      = (w.lastCall? id).bind fun call => call.phase.outcome? := by
    intro w
    rw [lastCall?_bare, Option.bind_map]
    rfl
  refine blind_of_same fun w => ?_
  simp only [passOn, hsame w]
  split
  · exact ⟨_, blind_finish id _, .refl, .refl⟩
  · exact ⟨_, blind_finish id _, .refl, .refl⟩
  · exact ⟨_, blind_of_hidden fun _ => .refl, .refl, .refl⟩

theorem blind_perform
    (id : Nat)
    (strand : Strand)
    {step : Step}
    (htactful : step.isTactful = true)
    (hstep : p → step.isDiscreet = true) :
    Blind p fun w => w.perform id strand step := by
  cases step with
  | act a =>
      exact blind_act strand.list strand.scope htactful
  | succeed value =>
      exact blind_finish id _
  | fail f =>
      exact blind_finish id _
  | panic p =>
      exact blind_finish id _
  | hang =>
      exact blind_withStatus id .stuck rfl
  | giveWay =>
      exact blind_withStatus id .gaveWay rfl
  | sleep duration =>
      exact blind_of_same fun w => ⟨_, blind_withStatus id (.sleeping (w.clock + duration) 0) rfl,
        alike_sleep w id _ _, alike_sleep w.bare id _ _⟩
  | instrument name subject build body propagate abandonAfter =>
      simp only [Step.isDiscreet, Bool.and_eq_true] at hstep
      exact blind_instrument id strand.list _ subject htactful (fun hp => (hstep hp).2) propagate
        abandonAfter
  | passOn texts =>
      exact blind_passOn id texts
  | parallel name branches propagate =>
      have hadd := blind_addBranches strand (innerName strand.list strand.index name) 0 hstep
      have hjoin := fun ids => hadd.comp (blind_withStatus id (.joining ids propagate) rfl)
      refine blind_of_same fun w => ⟨_, hjoin (w.addBranches strand
        (innerName strand.list strand.index name) 0 branches).1, .refl, ?_⟩
      simp only [perform]
      rw [addBranches_fst (bare_strands_length w)]
      exact .refl
  | spawn name body wait =>
      have hspawn := blind_spawnTask (innerName strand.list strand.index name) hstep none
      have hwait := fun task => hspawn.comp (blind_withStatus id (.awaiting task) rfl)
      refine blind_of_same fun w => ?_
      have hruntime : w.bare.hasRuntime = w.hasRuntime := rfl
      simp only [perform, hruntime]
      split
      · cases wait with
        | true =>
            refine ⟨_, hwait w.strands.length, .refl, ?_⟩
            simp only [spawnTask, addStrand, wake, bare_strands_length, if_true]
            exact .refl
        | false =>
            exact ⟨_, hspawn, .refl, .refl⟩
      · exact ⟨_, blind_finish id (.panic noRuntime), .refl, .refl⟩
  | drain recorded =>
      cases htactful
  | settle posted =>
      cases htactful

theorem blind_pass
    (id : Nat)
    {rest : Script}
    (hrest : p → areDiscreet rest = true) :
    Blind p fun w => w.pass id rest := by
  refine blind_withStrand id _ (fun strand => { strand with index := strand.index + 1, rest })
    (fun _ => rfl) fun hp strand hstrand => ?_
  simp only [Strand.isDiscreet, Bool.and_eq_true] at hstrand ⊢
  exact ⟨hrest hp, hstrand.2⟩

theorem blind_stepForward
    (id : Nat)
    {strand : Strand}
    (hready : strand.status = .ready)
    (htactful : strand.isTactful = true)
    (hstrand : p → strand.isDiscreet = true) :
    Blind p fun w => w.stepForward id strand := by
  simp only [Strand.isTactful, Strand.next?, hready, Bool.and_eq_true] at htactful
  simp only [Strand.isDiscreet, Bool.and_eq_true] at hstrand
  unfold stepForward
  cases hrest : strand.rest with
  | nil =>
      exact blind_finish id _
  | cons step rest =>
      simp only [hrest, areDiscreet, Bool.and_eq_true] at hstrand
      rw [hrest] at htactful
      exact (blind_pass id fun hp => (hstrand hp).1.2).comp
        (blind_perform id strand htactful.2 fun hp => (hstrand hp).1.1)

theorem outcome?_bare
    (w : World)
    (id : Nat) :
    w.bare.outcome? id = w.outcome? id := by
  unfold outcome?
  rw [bare_strands]
  cases w.strands[id]? with
  | none =>
      rfl
  | some strand =>
      obtain ⟨task, name, index, rest, scope, status⟩ := strand
      cases status <;> rfl

theorem outcomes?_bare
    (w : World)
    (ids : List Nat) :
    w.bare.outcomes? ids = w.outcomes? ids := by
  have hsame : w.bare.outcome? = w.outcome? := funext fun id => w.outcome?_bare id
  rw [outcomes?, hsame, outcomes?]

theorem isAborted_bare
    (w : World)
    (id : Nat) :
    w.bare.isAborted id = w.isAborted id := by
  unfold isAborted
  rw [bare_strands]
  cases w.strands[id]? with
  | none =>
      rfl
  | some strand =>
      obtain ⟨task, name, index, rest, scope, status⟩ := strand
      cases status <;> rfl

/-- Whether a strand could go on in a tactful turn does not depend on what is erased. -/
theorem canAdvance_bare
    {w : World}
    {id : Nat}
    (htactful : w.isTactful id = true) :
    w.bare.canAdvance id = w.canAdvance id := by
  unfold canAdvance
  rw [bare_strands]
  unfold isTactful at htactful
  cases hstrand : w.strands[id]? with
  | none =>
      rfl
  | some strand =>
      simp only [hstrand, Option.all_some, Strand.isTactful, Bool.and_eq_true] at htactful
      simp only [Option.map_some, Strand.bare]
      cases hstatus : strand.status with
      | racing number =>
          simp only [StrandStatus.bare, bare_calls]
          cases w.calls[number]? with
          | none =>
              rfl
          | some call =>
              simp only [Option.map_some, settlement?_bare, isOverdue_bare]
      | joining branches propagate =>
          simp only [StrandStatus.bare, outcomes?_bare]
      | awaiting task =>
          simp only [StrandStatus.bare, outcome?_bare, isAborted_bare]
      | draining batch recorded =>
          simp [hstatus, StrandStatus.isDiscreet] at htactful
      | settling delivery =>
          simp [hstatus, StrandStatus.isDiscreet] at htactful
      | _ =>
          rfl

theorem blindAt_advance
    {w : World}
    {id : Nat}
    (htactful : w.isTactful id = true)
    (hw : p → IsDiscreet w) :
    BlindAt p w fun w => w.advance id := by
  have hstays : Blind p fun w => w := blind_of_hidden fun _ => .refl
  have hready := blind_withStatus (p := p) id .ready rfl
  constructor
  unfold advance
  rw [canAdvance_bare htactful, bare_strands]
  unfold isTactful at htactful
  cases hstrand : w.strands[id]? with
  | none =>
      exact ⟨_, hstays, .refl, .refl⟩
  | some strand =>
      rw [hstrand] at htactful
      have htactful : strand.isTactful = true := htactful
      have hdiscreet : p → strand.isDiscreet = true :=
        fun hp => hw hp strand (List.mem_of_getElem? hstrand)
      have hwaits : strand.status.isDiscreet = true := by
        simp only [Strand.isTactful, Bool.and_eq_true] at htactful
        exact htactful.1
      have hforward := fun hready => blind_stepForward id hready htactful hdiscreet
      obtain ⟨task, list, index, rest, scope, status⟩ := strand
      simp only [Option.map_some, Strand.bare]
      split
      · cases status with
        | ready =>
            exact ⟨_, hforward rfl, .refl, .refl⟩
        | sleeping deadline ticket =>
            exact ⟨_, hready, .refl, .refl⟩
        | gaveWay =>
            exact ⟨_, hready, .refl, .refl⟩
        | racing number =>
            exact ⟨_, blind_decide id list number, .refl, .refl⟩
        | joining branches propagate =>
            simp only [StrandStatus.bare, outcomes?_bare]
            cases w.outcomes? branches with
            | none =>
                exact ⟨_, hstays, .refl, .refl⟩
            | some outcomes =>
                exact ⟨_, (blind_record list .parallel (.outcomes outcomes)).comp
                  (blind_handAll id propagate outcomes), .refl, .refl⟩
        | awaiting task =>
            simp only [StrandStatus.bare, outcome?_bare]
            cases w.outcome? task with
            | none =>
                exact ⟨_, (blind_record list .spawn .abandoned).comp hready, .refl, .refl⟩
            | some o =>
                exact ⟨_, (blind_record list .spawn (.outcome o)).comp hready, .refl, .refl⟩
        | draining batch recorded =>
            cases hwaits
        | settling delivery =>
            cases hwaits
        | _ =>
            exact ⟨_, hstays, .refl, .refl⟩
      · exact ⟨_, hstays, .refl, .refl⟩

end Turns

/-! ## Moves -/

section Moves

variable {p : Prop}

theorem blind_foldl_dropCall
    (calls : List Nat) :
    Blind p fun w => calls.foldl dropCall w := by
  induction calls with
  | nil =>
      exact blind_of_hidden fun _ => .refl
  | cons number rest ih =>
      exact (blind_dropCall number).comp ih

theorem racesOf_bare
    (w : World)
    (task : Nat) :
    w.bare.racesOf task = w.racesOf task := by
  unfold racesOf
  rw [show w.bare.strands = w.strands.map Strand.bare from rfl, List.filterMap_map]
  congr 1
  funext strand
  obtain ⟨of, list, index, rest, scope, status⟩ := strand
  cases status <;> rfl

/-- The strands of a task that is aborted end where they are. -/
theorem blind_abortStrands
    (task : Nat) :
    Blind p fun w => { w with strands := w.strands.map (Strand.abortedIn task) } := by
  constructor
  · intro w
    have h := alike_bare w
    refine ⟨h.hasRuntime, h.clock, h.source, h.channel, ?_, h.calls, h.results⟩
    have hbare : ∀ strand : Strand, (Strand.abortedIn task strand).bare =
        (Strand.abortedIn task strand.bare).bare := by
      intro strand
      obtain ⟨of, list, index, rest, scope, status⟩ := strand
      by_cases hof : of = task
      · cases status <;> simp [Strand.abortedIn, Strand.bare, StrandStatus.bare, hof]
      · cases status <;> simp [Strand.abortedIn, Strand.bare, StrandStatus.bare, hof]
    simp only [World.bare, List.map_map]
    exact List.map_congr_left fun strand _ => hbare strand
  · intro _ w hw strand hstrand
    obtain ⟨old, hold, rfl⟩ := List.mem_map.mp hstrand
    have hdiscreet := hw old hold
    unfold Strand.abortedIn
    split
    · exact hdiscreet
    · split
      · simp only [Strand.isDiscreet, Bool.and_eq_true] at hdiscreet ⊢
        exact ⟨hdiscreet.1, rfl⟩
      · exact hdiscreet

theorem blind_abort
    (task : Nat) :
    Blind p fun w => w.abort task := by
  have hdrop := fun calls => (blind_foldl_dropCall (p := p) calls).comp (blind_abortStrands task)
  refine blind_of_same fun w => ⟨_, hdrop (w.racesOf task), alike_woken _ _, ?_⟩
  rw [← racesOf_bare]
  exact alike_woken _ _

theorem blind_moveClock
    (time : Nat) :
    Blind p fun w => w.moveClock time :=
  ⟨fun w => { alike_bare w with clock := rfl }, fun _ _ hw => hw⟩

/-- A move of a discreet world is blind. -/
theorem blindAt_move
    {w : World}
    (hw : IsDiscreet w)
    (m : Move) :
    BlindAt True w fun w => w.move m := by
  cases m with
  | advance id =>
      exact blindAt_advance (hw.isTactful id) fun _ => hw
  | deliver id =>
      exact (blind_of_hidden fun w => w.alike_deliver id).blindAt w
  | pass time =>
      exact (blind_moveClock time).blindAt w
  | signal s =>
      exact (blind_trigger s).blindAt w
  | abort task =>
      exact (blind_abort task).blindAt w

theorem IsDiscreet.move
    {w : World}
    (hw : IsDiscreet w)
    (m : Move) :
    IsDiscreet (w.move m) :=
  (blindAt_move hw m).discreet trivial hw

theorem IsDiscreet.moves
    {w : World}
    (hw : IsDiscreet w)
    (ms : List Move) :
    IsDiscreet (w.moves ms) := by
  induction ms generalizing w with
  | nil =>
      exact hw
  | cons m rest ih =>
      exact ih (hw.move m)

theorem Alike.moves
    {w v : World}
    (h : Alike w v)
    (hw : IsDiscreet w)
    (ms : List Move) :
    Alike (w.moves ms) (v.moves ms) := by
  induction ms generalizing w v with
  | nil =>
      exact h
  | cons m rest ih =>
      exact ih ((blindAt_move hw m).congr (blindAt_move (h.isDiscreet hw) m) h) (hw.move m)

/-- Moves in which no delivery gets a turn, in the order of the others. -/
def withoutDeliveries (ms : List Move) : List Move :=
  ms.filter fun m =>
    match m with
    | .deliver _ => false
    | _ => true

/-- Whether deliveries get turns can not be noticed. -/
theorem alike_withoutDeliveries
    {w : World}
    (hw : IsDiscreet w)
    (ms : List Move) :
    Alike (w.moves ms) (w.moves (withoutDeliveries ms)) := by
  induction ms generalizing w with
  | nil =>
      exact .refl
  | cons m rest ih =>
      cases m with
      | deliver id =>
          have hhidden := w.alike_deliver id
          have hrest := ih (hhidden.isDiscreet hw)
          exact hrest.trans (hhidden.moves hw _).symm
      | _ =>
          exact ih (hw.move _)

end Moves

/-! ## The same course -/

/-- Two worlds to which a program has come in the same way: worlds that are alike, in which all calls
have come to the same, as many listeners are there, and the same strands can go on. -/
structure SameCourse (w v : World) : Prop extends Alike w v where
  outcomes : w.calls.map Call.phase = v.calls.map Call.phase
  listeners : w.channel.active = v.channel.active
  progress : ∀ id, w.canAdvance id = v.canAdvance id

theorem Alike.sameCourse
    {w v : World}
    (h : Alike w v)
    (hw : IsDiscreet w) :
    SameCourse w v where
  toAlike := h
  outcomes := by
    have hphases : ∀ calls : List Call, calls.map Call.phase = (calls.map Call.bare).map Call.phase := by
      intro calls
      rw [List.map_map]
      rfl
    rw [hphases, h.calls, ← hphases]
  listeners := by
    rw [h.channel]
  progress := by
    intro id
    rw [← canAdvance_bare (hw.isTactful id), h.bare, canAdvance_bare ((h.isDiscreet hw).isTactful id)]

/-- What a script and a list of moves make of a world in which nothing has happened. -/
def runOf (reporter : Reporter) (hasRuntime : Bool) (stamps : Nat → Int) (plans : List DeliveryPlan)
    (source : InterruptSource) (script : Script) (ms : List Move) : World :=
  ((World.start reporter hasRuntime stamps source plans).beginScript script).moves ms

/-- A discreet program takes the same course under any two reporters and whatever becomes of the
deliveries, with a runtime or without one, as long as the other moves are the same. No call waits for a
delivery: the course is also the same when no delivery ever gets a turn. -/
theorem sameCourse_of_discreet
    {script : Script}
    (hscript : areDiscreet script = true)
    (source : InterruptSource)
    (reporter other : Reporter)
    (hasRuntime : Bool)
    (stamps otherStamps : Nat → Int)
    (plans otherPlans : List DeliveryPlan)
    {ms otherMoves : List Move}
    (hsame : withoutDeliveries ms = withoutDeliveries otherMoves) :
    SameCourse (runOf reporter hasRuntime stamps plans source script ms)
        (runOf other hasRuntime otherStamps otherPlans source script otherMoves) ∧
      SameCourse (runOf reporter hasRuntime stamps plans source script ms)
        (runOf reporter hasRuntime stamps plans source script (withoutDeliveries ms)) := by
  let begun (r : Reporter) (s : Nat → Int) (p : List DeliveryPlan) : World :=
    (World.start r hasRuntime s source p).beginScript script
  have hdiscreet : ∀ r s p, IsDiscreet (begun r s p) := by
    intro r s p strand hstrand
    rw [List.mem_singleton.mp hstrand]
    simp [Strand.isDiscreet, hscript, StrandStatus.isDiscreet]
  have hbegun : Alike (begun reporter stamps plans) (begun other otherStamps otherPlans) :=
    ⟨rfl, rfl, rfl, rfl, rfl, rfl, rfl⟩
  have hfirst := hdiscreet reporter stamps plans
  have hrun := hfirst.moves ms
  have hleft := alike_withoutDeliveries hfirst ms
  have hright := alike_withoutDeliveries (hdiscreet other otherStamps otherPlans) otherMoves
  have hmiddle := hbegun.moves hfirst (withoutDeliveries ms)
  rw [← hsame] at hright
  exact ⟨(hleft.trans (hmiddle.trans hright.symm)).sameCourse hrun, hleft.sameCourse hrun⟩

/-- For instance, under a reporter whose first delivery hangs and whose second one panics, and under one
that is switched off. -/
theorem sameCourse_plainRun :
    let inner : Step := .instrument none (.prompt "q" .null) [] [.panic (.fixedText "boom")] false none
    let script : Script := [.instrument none (.session []) [.act .countListeners]
      [.act (.contribute .attempt .completed "k" .null), inner] false none]
    let plans : List DeliveryPlan := [⟨none, .hang⟩, ⟨none, .panic⟩]
    let ms : List Move := [.advance 0, .deliver 0, .advance 1, .advance 1, .deliver 1, .advance 2,
      .advance 1, .signal .interrupt, .advance 0]
    let own : List Move := [.advance 0, .advance 1, .advance 1, .advance 2, .advance 1,
      .signal .interrupt, .advance 0]
    let w := runOf plainReporter true plainStamps plans .channel script ms
    areDiscreet script = true ∧ withoutDeliveries ms = withoutDeliveries own ∧
      SameCourse w (runOf { plainReporter with enabled := false } true (fun _ => 0) [] .channel script
        own) ∧
      SameCourse w (runOf plainReporter true plainStamps plans .channel script (withoutDeliveries ms)) := by
  intro inner script plans ms own w
  have hdiscreet : areDiscreet script = true := by decide
  have hsame : withoutDeliveries ms = withoutDeliveries own := by decide
  exact ⟨hdiscreet, hsame,
    sameCourse_of_discreet hdiscreet .channel plainReporter _ true plainStamps _ plans [] hsame⟩

end World
end LifecycleTelemetry
