import LifecycleTelemetry.Proofs.Operation.Drain
import LifecycleTelemetry.Proofs.Operation.Scheduled
import LifecycleTelemetry.Proofs.Operation.Unobserved

/-!
# Names do not matter

Who reports, how payloads are dated, and what has been seen so far goes into what is reported, and
nowhere else. Two programs that differ in nothing else therefore stay so, move by move, and any schedule
gives them the same turns. `World.anonymous` takes these names out of a world, and a part of a turn is
`Steady` when it goes the same way without them.
-/

namespace LifecycleTelemetry

open Json (Fields)

namespace World

/-- A world without the names in it: who reports, how payloads are dated, and what has been seen so far. Whether
anything is reported at all, and by which transport, is no name. -/
def anonymous (w : World) : World :=
  { w with
    reporter := ⟨⟨"", "", "", "", false⟩, w.reporter.enabled, ⟨w.reporter.client.transport, "", none⟩⟩
    stamps := fun _ => 0
    history := [] }

/-- A part of a turn goes the same way without the names. -/
def Steady (f : World → World) : Prop :=
  ∀ w, (f w).anonymous = (f w.anonymous).anonymous

section Steady

variable {f g : World → World}

theorem Steady.comp
    (hf : Steady f)
    (hg : Steady g) :
    Steady fun w => g (f w) := by
  intro w
  rw [hg, hf, ← hg]

/-- Worlds that differ in names differ in nothing else afterwards. -/
theorem Steady.congr
    (hf : Steady f)
    {w v : World}
    (h : w.anonymous = v.anonymous) :
    (f w).anonymous = (f v).anonymous := by
  rw [hf w, h, ← hf v]

/-- It is enough to find for each world a steady part that comes to the same in it and in the one
without names. -/
theorem steady_of_same
    (h : ∀ w, ∃ g, Steady g ∧ f w = g w ∧ f w.anonymous = g w.anonymous) :
    Steady f := by
  intro w
  obtain ⟨g, hg, hhere, hthere⟩ := h w
  rw [hhere, hthere]
  exact hg w

theorem steady_refl :
    Steady fun w => w :=
  fun _ => rfl

end Steady

/-! ## Looking things up

All that is looked up in the course of a turn is found in the same way without the names. These are used
to rewrite conditions, so they are no definitional rewrites, which would leave the instances of the
conditions as they are. -/

section Lookup

variable (w : World)

@[simp]
theorem anonymous_enabled :
    w.anonymous.reporter.enabled = w.reporter.enabled :=
  (rfl)

@[simp]
theorem anonymous_transport :
    w.anonymous.reporter.client.transport = w.reporter.client.transport :=
  (rfl)

@[simp]
theorem anonymous_hasRuntime :
    w.anonymous.hasRuntime = w.hasRuntime :=
  (rfl)

@[simp]
theorem anonymous_clock :
    w.anonymous.clock = w.clock :=
  (rfl)

@[simp]
theorem anonymous_strands :
    w.anonymous.strands = w.strands :=
  (rfl)

@[simp]
theorem anonymous_calls :
    w.anonymous.calls = w.calls :=
  (rfl)

@[simp]
theorem anonymous_deliveries :
    w.anonymous.deliveries = w.deliveries :=
  (rfl)

@[simp]
theorem anonymous_pending :
    w.anonymous.pending = w.pending :=
  (rfl)

@[simp]
theorem anonymous_settlement? :
    w.anonymous.settlement? = w.settlement? :=
  (rfl)

@[simp]
theorem anonymous_isOverdue :
    w.anonymous.isOverdue = w.isOverdue :=
  (rfl)

@[simp]
theorem anonymous_outcome? :
    w.anonymous.outcome? = w.outcome? :=
  (rfl)

@[simp]
theorem anonymous_outcomes? :
    w.anonymous.outcomes? = w.outcomes? :=
  (rfl)

@[simp]
theorem anonymous_lastCall? :
    w.anonymous.lastCall? = w.lastCall? :=
  (rfl)

@[simp]
theorem anonymous_isDelivered :
    w.anonymous.isDelivered = w.isDelivered :=
  (rfl)

@[simp]
theorem anonymous_hasPanicked :
    w.anonymous.hasPanicked = w.hasPanicked :=
  (rfl)

@[simp]
theorem anonymous_readied :
    w.anonymous.readied = w.readied :=
  (rfl)

@[simp]
theorem anonymous_canAdvance :
    w.anonymous.canAdvance = w.canAdvance :=
  (rfl)

end Lookup

/-! ## Small changes -/

section Changes

theorem steady_record
    (list : String)
    (deed : Deed)
    (finding : World → Finding) :
    Steady fun w => w.record list deed (finding w) :=
  fun _ => rfl

theorem steady_withStrand
    (id : Nat)
    (change : Strand → Strand) :
    Steady fun w => w.withStrand id change :=
  fun _ => rfl

theorem steady_withStatus
    (id : Nat)
    (status : StrandStatus) :
    Steady fun w => w.withStatus id status :=
  fun _ => rfl

theorem steady_withCall
    (number : Nat)
    (change : Call → Call) :
    Steady fun w => w.withCall number change :=
  fun _ => rfl

end Changes

/-! ## Sending -/

section Sending

variable (w : World) (sender : Sender) (event : String) (properties others : Fields)

/-- What is posted takes its way whatever its properties are. -/
theorem post_anonymous :
    (w.post sender event properties).1 = (w.anonymous.post sender event others).1 ∧
      (w.post sender event properties).2.anonymous =
        (w.anonymous.post sender event others).2.anonymous := by
  unfold post
  rw [anonymous_transport]
  cases w.reporter.client.transport with
  | none =>
      exact ⟨rfl, rfl⟩
  | some transport =>
      simp only [anonymous_hasRuntime]
      split
      · exact ⟨rfl, rfl⟩
      · exact ⟨rfl, rfl⟩

theorem send_anonymous :
    (w.send sender event properties).anonymous = (w.anonymous.send sender event others).anonymous := by
  unfold send
  rw [anonymous_enabled]
  split
  · obtain ⟨hsent, hafter⟩ := w.post_anonymous sender event (w.reporter.merged properties)
      (w.anonymous.reporter.merged others)
    cases hpost : w.post sender event (w.reporter.merged properties) with
    | mk sent after =>
        cases hother : w.anonymous.post sender event (w.anonymous.reporter.merged others) with
        | mk sentOther afterOther =>
            rw [hpost, hother] at hsent hafter
            cases hsent
            cases sent with
            | none =>
                exact hafter
            | some id =>
                have hkept : Steady fun w => { w with pending := w.pending ++ [id] } := fun _ => rfl
                exact hkept.congr hafter
  · rfl

end Sending

section Sent

theorem steady_send
    (sender : Sender)
    (event : String)
    (properties : Fields) :
    Steady fun w => w.send sender event properties :=
  fun w => w.send_anonymous sender event properties properties

/-- The time at which something is reported is seen by the transport alone. -/
theorem steady_report
    (call : Nat)
    (e : World → Event)
    (hstage : ∀ w v, (e w).stage = (e v).stage)
    (hname : ∀ w v, (e w).name = (e v).name) :
    Steady fun w => w.report call (e w) := by
  intro w
  simp only [report]
  rw [hstage w.anonymous w, hname w.anonymous w]
  exact w.send_anonymous _ _ _ _

end Sent

/-! ## Actions -/

section Actions

theorem steady_act
    (list : String)
    (scope : Option Nat)
    (a : Action) :
    Steady fun w => w.act list scope a := by
  cases a with
  | contribute accessor stage key value =>
      cases scope with
      | none =>
          exact fun _ => rfl
      | some call =>
          exact fun _ => rfl
  | contributeAll stage data =>
      cases scope with
      | none =>
          simp only [act, contributeAll?_none]
          by_cases hdata : data = []
          · simp only [hdata, if_true]
            exact fun _ => rfl
          · simp only [hdata, if_false]
            exact fun _ => rfl
      | some call =>
          simp only [act, contributeAll?_some]
          exact fun _ => rfl
  | send name properties =>
      exact (steady_send .program name properties).comp (steady_record list .send fun _ => .done)
  | post event properties =>
      intro w
      obtain ⟨hsent, hafter⟩ := w.post_anonymous .program event properties properties
      have hposted := Steady.congr
        (f := fun v => { v with posted := v.posted ++ [(w.post .program event properties).1] })
        (fun _ => rfl) hafter
      rw [hsent] at hposted
      simp only [act]
      rw [hsent]
      exact hposted
  | _ =>
      exact fun _ => rfl

theorem steady_build
    (list : String)
    (call : Nat)
    (steps : List BuildStep) :
    Steady fun w => (w.build list call steps).2 := by
  induction steps with
  | nil =>
      exact steady_refl
  | cons step rest ih =>
      cases step with
      | panic p =>
          exact steady_refl
      | act a =>
          exact (steady_act list (some call) a).comp ih

end Actions

/-! ## Calls -/

section Calls

variable (id : Nat)

theorem steady_finish
    (o : Outcome) :
    Steady fun w => w.finish id o := by
  intro w
  simp only [finish, anonymous]
  cases w.strands[id]? with
  | none =>
      rfl
  | some strand =>
      simp only
      split
      · rfl
      · rfl

theorem steady_hand
    (o : Outcome)
    (propagate : Bool) :
    Steady fun w => w.hand id o propagate := by
  cases o with
  | ok value =>
      exact steady_withStatus id .ready
  | _ =>
      cases propagate with
      | false =>
          exact steady_withStatus id .ready
      | true =>
          exact steady_finish id _

theorem steady_handAll
    (outcomes : List Outcome)
    (propagate : Bool) :
    Steady fun w => w.handAll id outcomes propagate := by
  unfold handAll
  cases outcomes.find? Outcome.isPanic with
  | none =>
      exact steady_withStatus id .ready
  | some panic =>
      exact steady_hand id panic propagate

theorem steady_release
    (number : Nat) :
    Steady fun w => w.release number := by
  intro w
  simp only [release, anonymous]
  cases w.calls[number]? with
  | none =>
      rfl
  | some c =>
      rfl

theorem steady_listenFor
    (number : Nat) :
    Steady fun w => w.listenFor number := by
  intro w
  simp only [listenFor, listen, anonymous]
  cases w.source.listen? w.clock w.channel with
  | none =>
      rfl
  | some installed =>
      rfl

theorem steady_openCall
    (subject : Subject)
    (propagate : Bool)
    (abandonAfter : Option Nat) :
    Steady fun w => w.openCall id subject propagate abandonAfter := by
  refine steady_of_same fun w => ?_
  have hadd : Steady fun w => w.addCall (w.newCall id subject propagate abandonAfter) := fun _ => rfl
  have hreport := steady_report w.calls.length (fun _ => ⟨subject, .started⟩) (fun _ _ => rfl)
    fun _ _ => rfl
  exact ⟨_, (hadd.comp hreport).comp (steady_listenFor w.calls.length), rfl, rfl⟩

theorem steady_collapse
    (list : String)
    (number : Nat)
    (p : PanicPayload)
    (propagate : Bool) :
    Steady fun w => w.collapse id list number p propagate := by
  have hleft := (steady_release number).comp
    (steady_withCall number fun c => { c with phase := .collapsed p })
  exact (hleft.comp (steady_record list .instrument fun _ => .outcome (.panic p))).comp
    (steady_hand id (.panic p) propagate)

theorem steady_startRace
    (inner : String)
    (number : Nat)
    (body : Script) :
    Steady fun w => w.startRace id inner number body :=
  fun _ => rfl

theorem steady_instrument
    (list inner : String)
    (subject : Subject)
    (steps : List BuildStep)
    (body : Script)
    (propagate : Bool)
    (abandonAfter : Option Nat) :
    Steady fun w => w.instrument id list inner subject steps body propagate abandonAfter := by
  refine steady_of_same fun w => ?_
  have hbuilt := (steady_openCall id subject propagate abandonAfter).comp
    (steady_build inner w.calls.length (w.readied steps))
  have hsame := build_fst (w.openCall id subject propagate abandonAfter)
    (w.anonymous.openCall id subject propagate abandonAfter) inner w.calls.length (w.readied steps)
  simp only [instrument_eq, anonymous_calls, anonymous_readied]
  cases hresult : (w.openCall id subject propagate abandonAfter).build inner w.calls.length
      (w.readied steps) with
  | mk panic built =>
      cases hother : (w.anonymous.openCall id subject propagate abandonAfter).build inner
          w.calls.length (w.readied steps) with
      | mk panicOther builtOther =>
          rw [hresult, hother] at hsame
          cases hsame
          cases panic with
          | some p =>
              refine ⟨_, hbuilt.comp (steady_collapse id list w.calls.length p propagate), ?_, ?_⟩
              · simp only [hresult, afterBuild]
              · simp only [hother, afterBuild]
          | none =>
              refine ⟨_, hbuilt.comp (steady_startRace id inner w.calls.length body), ?_, ?_⟩
              · simp only [hresult, afterBuild]
              · simp only [hother, afterBuild]

theorem steady_conclude
    (list : String)
    (number : Nat)
    (call : Call)
    (s : Settlement) :
    Steady fun w => w.conclude id list number call s := by
  have hannounce : Steady fun w => w.announce s := by
    cases s with
    | _ =>
        exact fun _ => rfl
  have hsettle : Steady fun w => w.settle number call s := fun _ => rfl
  have hreport := steady_report number (fun w => endingOf call s w.clock) (fun _ _ => rfl)
    fun _ _ => rfl
  have hreported := ((hannounce.comp (steady_release number)).comp hsettle).comp hreport
  exact (hreported.comp (steady_record list .instrument fun _ => .outcome s.outcome)).comp
    (steady_hand id s.outcome call.propagate)

theorem steady_dropCall
    (number : Nat) :
    Steady fun w => w.dropCall number :=
  (steady_release number).comp (steady_withCall number fun c => { c with phase := .abandoned })

theorem steady_abandon
    (list : String)
    (number : Nat) :
    Steady fun w => w.abandon id list number :=
  ((steady_dropCall number).comp (steady_record list .instrument fun _ => .abandoned)).comp
    (steady_withStatus id .ready)

theorem steady_decide
    (list : String)
    (number : Nat) :
    Steady fun w => w.decide id list number := by
  refine steady_of_same fun w => ?_
  simp only [decide, anonymous_calls, anonymous_settlement?, anonymous_isOverdue]
  cases w.calls[number]? with
  | none =>
      exact ⟨_, steady_refl, rfl, rfl⟩
  | some call =>
      simp only
      cases w.settlement? call with
      | some s =>
          exact ⟨_, steady_conclude id list number call s, rfl, rfl⟩
      | none =>
          simp only
          split
          · exact ⟨_, steady_abandon id list number, rfl, rfl⟩
          · exact ⟨_, steady_refl, rfl, rfl⟩

end Calls

/-! ## Turns -/

section Turns

variable (id : Nat)

theorem steady_startDrain
    (recorded : Bool) :
    Steady fun w => w.startDrain id recorded := by
  intro w
  simp only [startDrain, anonymous_pending]
  cases w.pending.isEmpty with
  | _ =>
      rfl

theorem steady_complain
    (batch : List Nat) :
    Steady fun w => w.complain batch := by
  induction batch with
  | nil =>
      exact steady_refl
  | cons delivery rest ih =>
      have hfirst : Steady fun w =>
          if w.hasPanicked delivery then
            w.say .debug .delivery "telemetry delivery task did not complete" []
          else w := by
        intro w
        simp only [anonymous_hasPanicked]
        split
        · rfl
        · rfl
      exact hfirst.comp ih

theorem steady_drain
    (list : String)
    (batch : List Nat)
    (recorded : Bool) :
    Steady fun w => w.drain id list batch recorded := by
  refine steady_of_same fun w => ?_
  have hdelivered : ∀ v : World, (v.complain (batch.filter w.isDelivered)).isDelivered = v.isDelivered := by
    intro v
    funext d
    simp only [isDelivered, (v.same_complain _).2]
  simp only [drain, anonymous_isDelivered, hdelivered]
  have hcomplain := steady_complain (batch.filter w.isDelivered)
  split
  · split
    · exact ⟨_, (hcomplain.comp (steady_record list .drain fun w => .count w.pending.length)).comp
        (steady_withStatus id .ready), rfl, rfl⟩
    · exact ⟨_, hcomplain.comp (steady_withStatus id .ready), rfl, rfl⟩
  · exact ⟨_, hcomplain.comp (steady_withStatus id (.draining _ recorded)), rfl, rfl⟩

theorem steady_addBranches
    (of : Strand)
    (inner : String)
    (number : Nat)
    (branches : List Script) :
    Steady fun w => (w.addBranches of inner number branches).2 := by
  induction branches generalizing number with
  | nil =>
      exact steady_refl
  | cons branch rest ih =>
      have hfirst : Steady fun w => (w.addStrand
          ⟨of.task, inner ++ "[" ++ toString number ++ "]", 0, branch, of.scope, .ready⟩).2 :=
        fun _ => rfl
      exact hfirst.comp (ih (number + 1))

theorem steady_passOn
    (texts : List String) :
    Steady fun w => w.passOn id texts := by
  refine steady_of_same fun w => ?_
  simp only [passOn, anonymous_lastCall?]
  split
  · exact ⟨_, steady_finish id _, rfl, rfl⟩
  · exact ⟨_, steady_finish id _, rfl, rfl⟩
  · exact ⟨_, steady_refl, rfl, rfl⟩

theorem steady_perform
    (strand : Strand)
    (step : Step) :
    Steady fun w => w.perform id strand step := by
  cases step with
  | act a =>
      exact steady_act strand.list strand.scope a
  | succeed value =>
      exact steady_finish id _
  | fail f =>
      exact steady_finish id _
  | panic p =>
      exact steady_finish id _
  | drain recorded =>
      exact steady_startDrain id recorded
  | settle posted =>
      intro w
      simp only [perform, anonymous]
      split
      · rfl
      · rfl
  | instrument name subject build body propagate abandonAfter =>
      exact steady_instrument id strand.list _ subject build body propagate abandonAfter
  | passOn texts =>
      exact steady_passOn id texts
  | parallel name branches propagate =>
      refine steady_of_same fun w => ?_
      have hlength : w.anonymous.strands.length = w.strands.length := rfl
      have hids := addBranches_fst hlength strand (innerName strand.list strand.index name) 0 branches
      exact ⟨_, (steady_addBranches strand _ 0 branches).comp (steady_withStatus id (.joining
        (w.addBranches strand (innerName strand.list strand.index name) 0 branches).1 propagate)), rfl,
        by rw [← hids]; rfl⟩
  | spawn name body wait =>
      refine steady_of_same fun w => ?_
      have hspawned : Steady fun w =>
          (w.spawnTask (innerName strand.list strand.index name) body none).2 := fun _ => rfl
      simp only [perform, anonymous_hasRuntime]
      split
      · cases wait with
        | true =>
            exact ⟨_, hspawned.comp (steady_withStatus id (.awaiting w.strands.length)), rfl, rfl⟩
        | false =>
            exact ⟨_, hspawned, rfl, rfl⟩
      · exact ⟨_, steady_finish id _, rfl, rfl⟩
  | _ =>
      exact fun _ => rfl

theorem steady_stepForward
    (strand : Strand) :
    Steady fun w => w.stepForward id strand := by
  unfold stepForward
  cases strand.rest with
  | nil =>
      exact steady_finish id _
  | cons step rest =>
      exact (steady_withStrand id _).comp (steady_perform id strand step)

theorem steady_advance :
    Steady fun w => w.advance id := by
  refine steady_of_same fun w => ?_
  have hready := steady_withStatus id .ready
  simp only [advance, anonymous_strands, anonymous_canAdvance, anonymous_outcome?,
    anonymous_outcomes?]
  cases w.strands[id]? with
  | none =>
      exact ⟨_, steady_refl, rfl, rfl⟩
  | some strand =>
      simp only
      split
      · cases strand.status with
        | ready =>
            exact ⟨_, steady_stepForward id strand, rfl, rfl⟩
        | sleeping deadline ticket =>
            exact ⟨_, hready, rfl, rfl⟩
        | gaveWay =>
            exact ⟨_, hready, rfl, rfl⟩
        | racing number =>
            exact ⟨_, steady_decide id strand.list number, rfl, rfl⟩
        | joining branches propagate =>
            simp only
            cases w.outcomes? branches with
            | none =>
                exact ⟨_, steady_refl, rfl, rfl⟩
            | some outcomes =>
                exact ⟨_, (steady_record strand.list .parallel fun _ => .outcomes outcomes).comp
                  (steady_handAll id outcomes propagate), rfl, rfl⟩
        | awaiting task =>
            simp only
            cases w.outcome? task with
            | none =>
                exact ⟨_, (steady_record strand.list .spawn fun _ => .abandoned).comp hready, rfl, rfl⟩
            | some o =>
                exact ⟨_, (steady_record strand.list .spawn fun _ => .outcome o).comp hready, rfl, rfl⟩
        | draining batch recorded =>
            exact ⟨_, steady_drain id strand.list batch recorded, rfl, rfl⟩
        | settling delivery =>
            exact ⟨_, ((steady_complain [delivery]).comp
              (steady_record strand.list .settle fun _ => .done)).comp hready, rfl, rfl⟩
        | _ =>
            exact ⟨_, steady_refl, rfl, rfl⟩
      · exact ⟨_, steady_refl, rfl, rfl⟩

end Turns

/-! ## Moves -/

section Moves

theorem steady_endDelivery
    (id : Nat)
    (d : Delivery) :
    Steady fun w => w.endDelivery id d := by
  unfold endDelivery
  cases d.plan.ending with
  | _ =>
      exact fun _ => rfl

theorem steady_deliver
    (id : Nat) :
    Steady fun w => w.deliver id := by
  refine steady_of_same fun w => ?_
  have hticket : Steady fun w => w.ticket.2 := fun _ => rfl
  simp only [deliver, anonymous_deliveries, anonymous_clock]
  cases w.deliveries[id]? with
  | none =>
      exact ⟨_, steady_refl, rfl, rfl⟩
  | some d =>
      simp only
      split
      · split
        · split
          · exact ⟨_, hticket.comp (steady_endDelivery id d), rfl, rfl⟩
          · exact ⟨fun w => w.ticket.2.withDelivery id (.delayed _ w.tickets), fun _ => rfl, rfl, rfl⟩
        · exact ⟨_, steady_endDelivery id d, rfl, rfl⟩
      · split
        · exact ⟨_, steady_endDelivery id d, rfl, rfl⟩
        · exact ⟨_, steady_refl, rfl, rfl⟩
      · exact ⟨_, steady_refl, rfl, rfl⟩
      · exact ⟨_, steady_refl, rfl, rfl⟩

end Moves
end World

/-! ## Schedules -/

namespace Schedule

open World (Steady steady_refl steady_of_same steady_advance steady_deliver)

section Lookup

variable (w : World)

@[simp]
theorem goesOn_anonymous :
    goesOn w.anonymous = goesOn w :=
  (rfl)

@[simp]
theorem hasGivenWay_anonymous :
    hasGivenWay w.anonymous = hasGivenWay w :=
  (rfl)

@[simp]
theorem nextTime?_anonymous :
    nextTime? w.anonymous = nextTime? w :=
  (rfl)

end Lookup

theorem steady_welcome
    (id : Nat) :
    Steady fun w => welcome w id := by
  refine steady_of_same fun w => ?_
  simp only [welcome, World.anonymous_strands]
  split
  · exact ⟨_, steady_advance id, rfl, rfl⟩
  · exact ⟨_, steady_refl, rfl, rfl⟩

theorem steady_turn
    (fuel id : Nat) :
    Steady fun w => turn fuel id w := by
  induction fuel generalizing id with
  | zero =>
      exact steady_refl
  | succ fuel ih =>
      have hbranches : ∀ branches : List Nat, Steady fun w =>
          branches.foldl (fun w branch => turn fuel branch (welcome w branch)) w := by
        intro branches
        induction branches with
        | nil =>
            exact steady_refl
        | cons branch rest ihrest =>
            exact ((steady_welcome branch).comp (ih branch)).comp ihrest
      have hgoes : Steady fun w => if goesOn w id then turn fuel id (w.advance id) else w := by
        refine steady_of_same fun w => ?_
        simp only [goesOn_anonymous]
        split
        · exact ⟨_, (steady_advance id).comp (ih id), rfl, rfl⟩
        · exact ⟨_, steady_refl, rfl, rfl⟩
      exact steady_of_same fun w => ⟨_, (hbranches (branchesOf w id)).comp hgoes, rfl, rfl⟩

/-- A schedule of a world without names. -/
def anonymous (s : Schedule) : Schedule :=
  { s with world := s.world.anonymous }

section Queues

variable (s : Schedule)

@[simp]
theorem anonymous_world :
    s.anonymous.world = s.world.anonymous :=
  (rfl)

@[simp]
theorem anonymous_queue :
    s.anonymous.queue = s.queue :=
  (rfl)

@[simp]
theorem anonymous_aside :
    s.anonymous.aside = s.aside :=
  (rfl)

@[simp]
theorem anonymous_mainWoken :
    s.anonymous.mainWoken = s.mainWoken :=
  (rfl)

@[simp]
theorem anonymous_mainNext :
    s.anonymous.mainNext = s.mainNext :=
  (rfl)

@[simp]
theorem anonymous_isOver :
    s.anonymous.isOver = s.isOver :=
  (rfl)

theorem anonymous_enqueue
    (t : TaskId) :
    (s.enqueue t).anonymous = s.anonymous.enqueue t := by
  simp only [enqueue, anonymous_queue]
  by_cases hmain : t = .main
  · simp only [if_pos hmain]
    rfl
  · simp only [if_neg hmain]
    cases s.queue.contains t with
    | _ =>
        rfl

theorem anonymous_foldl_enqueue
    (ts : List TaskId) :
    (ts.foldl enqueue s).anonymous = ts.foldl enqueue s.anonymous := by
  induction ts generalizing s with
  | nil =>
      rfl
  | cons t rest ih =>
      rw [List.foldl_cons, ih, anonymous_enqueue]
      rfl

theorem anonymous_gather :
    s.gather.anonymous = s.anonymous.gather :=
  anonymous_foldl_enqueue _ _

theorem anonymous_gatherAfter
    (current : TaskId) :
    (s.gatherAfter current).anonymous = s.anonymous.gatherAfter current :=
  anonymous_foldl_enqueue _ _

theorem anonymous_setAside
    (current : TaskId) :
    (s.setAside current).anonymous = s.anonymous.setAside current := by
  cases current with
  | strand task =>
      simp only [setAside, anonymous_world, hasGivenWay_anonymous]
      cases hasGivenWay s.world task with
      | _ =>
          rfl
  | delivery id =>
      rfl

theorem anonymous_poll
    (fuel : Nat)
    (t : TaskId) :
    (poll fuel s t).anonymous = (poll fuel s.anonymous t).anonymous := by
  have hafter : ∀ w v : World, w.anonymous = v.anonymous →
      (({ s with world := w }.setAside t).gatherAfter t).anonymous =
        (({ s with world := v }.setAside t).gatherAfter t).anonymous := by
    intro w v h
    have hsame : ({ s with world := w } : Schedule).anonymous =
        ({ s with world := v } : Schedule).anonymous :=
      congrArg (fun u => ({ s with world := u } : Schedule)) h
    rw [anonymous_gatherAfter, anonymous_setAside, hsame, ← anonymous_setAside,
      ← anonymous_gatherAfter]
  cases t with
  | strand task =>
      exact hafter _ _ (((steady_welcome task).comp (steady_turn fuel task)) s.world)
  | delivery id =>
      exact hafter _ _ (steady_deliver id s.world)

end Queues

section Runs

variable {fuel : Nat} {limit : Option Nat}

theorem anonymous_step?
    (s : Schedule) :
    (step? fuel limit s).map anonymous = (step? fuel limit s.anonymous).map anonymous := by
  simp only [step?, anonymous_isOver, anonymous_mainNext, anonymous_mainWoken, anonymous_queue,
    anonymous_aside, anonymous_world, nextTime?_anonymous]
  split
  · rfl
  · split
    · exact congrArg some (anonymous_poll { s with mainWoken := false, mainNext := false } fuel .main)
    · split
      · next t queue _ =>
          exact congrArg some (anonymous_poll { s with queue, mainNext := false } fuel t)
      · split
        · rfl
        · have hmain : ∀ {t u : Schedule}, t.anonymous = u.anonymous →
              ({ t with mainNext := true } : Schedule).anonymous =
                ({ u with mainNext := true } : Schedule).anonymous :=
            fun h => congrArg (fun v : Schedule => { v with mainNext := true }) h
          split
          · split
            · next time _ =>
                split
                · rfl
                · refine congrArg some (hmain ?_)
                  rw [anonymous_gather, anonymous_gather]
                  rfl
            · rfl
          · refine congrArg some (hmain ?_)
            rw [anonymous_foldl_enqueue, anonymous_foldl_enqueue]
            rfl

/-- Schedules that differ in names differ in nothing else after any number of turns. -/
theorem anonymous_run
    {turns : Nat}
    {s t : Schedule}
    (h : s.anonymous = t.anonymous) :
    (run limit turns s).anonymous = (run limit turns t).anonymous := by
  induction turns generalizing s t with
  | zero =>
      exact h
  | succ turns ih =>
      have hstep : (step? turns limit s).map anonymous = (step? turns limit t).map anonymous := by
        rw [anonymous_step?, h, ← anonymous_step?]
      unfold run
      cases hs : step? turns limit s with
      | none =>
          rw [hs] at hstep
          rw [Option.map_eq_none_iff.mp hstep.symm]
          exact h
      | some after =>
          rw [hs] at hstep
          obtain ⟨other, ht, hafter⟩ := Option.map_eq_some_iff.mp hstep.symm
          rw [ht]
          exact ih hafter.symm

/-- Worlds that differ in names differ in nothing else after a script. -/
theorem anonymous_runMain
    {w v : World}
    (h : w.anonymous = v.anonymous)
    (script : Script) :
    ((start w).runMain limit script).world.anonymous =
      ((start v).runMain limit script).world.anonymous := by
  have henough : enough w script = enough v script := by
    change enough w.anonymous script = enough v.anonymous script
    rw [h]
  have hbegun : (w.beginScript script).anonymous = (v.beginScript script).anonymous := by
    change (w.anonymous.beginScript script).anonymous = (v.anonymous.beginScript script).anonymous
    rw [h]
  have hready : (Schedule.mk (w.beginScript script) [] [] true true).anonymous =
      (Schedule.mk (v.beginScript script) [] [] true true).anonymous :=
    congrArg (fun u => Schedule.mk u [] [] true true) hbegun
  change (run limit (enough w script) _).world.anonymous = (run limit (enough v script) _).world.anonymous
  rw [henough]
  exact congrArg Schedule.world (anonymous_run hready)

end Runs
end Schedule
end LifecycleTelemetry
