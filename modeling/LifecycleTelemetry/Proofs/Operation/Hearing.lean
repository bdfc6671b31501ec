import LifecycleTelemetry.Proofs.Interrupt.Channel
import LifecycleTelemetry.Proofs.Operation.Listening

/-!
# Signals that wait to be noticed

A signal that is raised on a channel reaches every call whose race has not been decided. It then waits at
the listener of the call until the strand of the call has its turn, and while no further signal is raised
nothing that other strands do takes it away or puts another one before it: they make and end calls of their
own, whose listeners have other places on the channel.
-/

namespace LifecycleTelemetry

open Json (Fields)

/-! ## One place of a channel -/

namespace Channel

variable (c : Channel)

/-- Something may wait for whoever is on the channel, and for nobody else. -/
theorem mem_ids_iff
    {r : Nat} :
    r ∈ c.ids ↔ ∃ unread, c.waiting? r = some unread := by
  have hfound : (c.receivers.find? fun x => x.id == r).isSome = true ↔ r ∈ c.ids := by
    simp [List.find?_isSome, ids]
  rw [← hfound, ← Option.isSome_map (f := Receiver.unread), Option.isSome_iff_exists]
  rfl

/-- What waits for a listener does not depend on the others. -/
theorem first?_drop
    {id r : Nat}
    (hne : r ≠ id) :
    (c.drop id).first? r = c.first? r := by
  rw [first?_eq_bind, first?_eq_bind, c.waiting?_drop hne]

theorem first?_listen
    {r : Nat}
    (hne : r ≠ c.nextId) :
    c.listen.2.first? r = c.first? r := by
  rw [first?_eq_bind, first?_eq_bind, c.waiting?_listen hne]

/-- A signal is the first one for whoever listens and has nothing waiting. -/
theorem first?_trigger
    {r : Nat}
    (s : Signal)
    (hlistens : r ∈ c.ids)
    (hnone : c.first? r = none) :
    (c.trigger s).first? r = some s := by
  obtain ⟨unread, hunread⟩ := c.mem_ids_iff.mp hlistens
  rw [first?_eq_bind, hunread, Option.bind_some, List.head?_eq_none_iff] at hnone
  rw [first?_eq_bind, waiting?_trigger, hunread, hnone]
  rfl

end Channel

/-! ## Steps that raise an interrupt -/

/-- Whether an action raises an interrupt. -/
def Action.raises : Action → Bool
  | .trigger _ => true
  | _ => false

/-- Whether a step of the part that builds an operation raises an interrupt. -/
def BuildStep.raises : BuildStep → Bool
  | .act a => a.raises
  | .panic _ => false

/-- Whether a step may raise an interrupt in the turn in which it is carried out. -/
def Step.raises : Step → Bool
  | .act a => a.raises
  | .instrument _ _ build _ _ _ => build.any BuildStep.raises
  | _ => false

namespace World

/-- Whether a strand may raise an interrupt in its next turn. -/
def raises (w : World) (id : Nat) : Bool :=
  ((w.strands[id]?).bind Strand.next?).any Step.raises

section Raising

variable (w : World)

theorem channel_contributeAll?
    {scope : Option Nat}
    {stage : TerminalStage}
    {data : Fields}
    {after : World}
    (h : w.contributeAll? scope stage data = some after) :
    after.channel = w.channel := by
  induction data generalizing w with
  | nil =>
      cases h
      rfl
  | cons field rest ih =>
      cases scope with
      | none =>
          cases h
      | some n =>
          rw [contributeAll?] at h
          exact (ih (w.withCall n _) h).trans rfl

/-- Only an action that raises an interrupt shows on the channel. -/
theorem channel_act
    (list : String)
    (scope : Option Nat)
    {a : Action}
    (hcalm : a.raises = false) :
    (w.act list scope a).channel = w.channel := by
  cases a with
  | contribute accessor stage key value =>
      cases scope with
      | _ =>
          rfl
  | contributeAll stage data =>
      simp only [act]
      cases h : w.contributeAll? scope stage data with
      | some mid =>
          have hmid := w.channel_contributeAll? h
          exact hmid
      | none =>
          rfl
  | trigger s =>
      cases hcalm
  | send name properties =>
      exact (w.apart_send .program name properties).channel
  | post event properties =>
      exact (w.apart_post .program event properties).channel
  | _ =>
      rfl

theorem channel_build
    (list : String)
    (number : Nat)
    {steps : List BuildStep}
    (hcalm : steps.any BuildStep.raises = false) :
    (w.build list number steps).2.channel = w.channel := by
  induction steps generalizing w with
  | nil =>
      rfl
  | cons step rest ih =>
      simp only [List.any_cons, Bool.or_eq_false_iff] at hcalm
      cases step with
      | panic p =>
          rfl
      | act a =>
          exact (ih _ hcalm.2).trans (w.channel_act list (some number) hcalm.1)

/-- The step of a strand that does not raise an interrupt. -/
theorem step_of_calm
    {id : Nat}
    {strand : Strand}
    {step : Step}
    {rest : Script}
    (hcalm : w.raises id = false)
    (hstrand : w.strands[id]? = some strand)
    (hready : strand.status = .ready)
    (hrest : strand.rest = step :: rest) :
    step.raises = false := by
  simpa [raises, hstrand, Strand.next?, hready, hrest] using hcalm

end Raising

/-! ## The listener of a race -/

/-- A call that is being raced, with the place of its listener. -/
def ListensAt (w : World) (n body r : Nat) : Prop :=
  w.ears[n]? = some (.receiver r, .racing body)

/-- What waits for a call, and the call as far as its listener is concerned, stay as they are. -/
structure Undisturbed (n r : Nat) (w after : World) : Prop where
  ear : after.ears[n]? = w.ears[n]?
  first : after.channel.first? r = w.channel.first? r

section Listening

variable {w mid after : World} {n body r : Nat}

theorem Undisturbed.refl : Undisturbed n r w w :=
  ⟨rfl, rfl⟩

theorem Undisturbed.trans
    (h₁ : Undisturbed n r w mid)
    (h₂ : Undisturbed n r mid after) :
    Undisturbed n r w after :=
  ⟨h₂.ear.trans h₁.ear, h₂.first.trans h₁.first⟩

theorem Undisturbed.listensAt
    (h : Undisturbed n r w after)
    (hw : w.ListensAt n body r) :
    after.ListensAt n body r :=
  h.ear.trans hw

theorem undisturbed_of_eq
    (hcalls : after.calls = w.calls)
    (hchannel : after.channel = w.channel) :
    Undisturbed n r w after :=
  ⟨by rw [ears, ears, hcalls], by rw [hchannel]⟩

theorem Apart.undisturbed
    (h : Apart w after) :
    Undisturbed n r w after :=
  undisturbed_of_eq h.calls h.channel

/-- The listener of a race has a place on the channel. -/
theorem Attuned.mem_ids
    (hw : Attuned w)
    (h : w.ListensAt n body r) :
    r ∈ w.channel.ids := by
  rw [hw.ids]
  exact List.mem_filterMap.mpr ⟨_, List.mem_of_getElem? h, rfl⟩

/-- Every race has a listener. -/
theorem Attuned.listensAt
    (hw : Attuned w)
    {call : Call}
    (hcall : w.calls[n]? = some call)
    (hphase : call.phase = .racing body) :
    ∃ r, call.listener = .receiver r ∧ w.ListensAt n body r := by
  have hear : w.ears[n]? = some (call.listener, .racing body) := by
    rw [getElem?_ears hcall, Call.ear, hphase]
  obtain ⟨r, hr⟩ := Option.isSome_iff_exists.mp (hw.listening n _ hear)
  have hlistener : call.listener = .receiver r := Listener.receiver?_eq_some.mp hr
  exact ⟨r, hlistener, by rw [ListensAt, hear, hlistener]⟩

/-- A call that is left takes its own listener with it, and no other one. -/
theorem Attuned.undisturbed_leave
    (hw : Attuned w)
    (h : w.ListensAt n body r)
    {number : Nat}
    {change : Call → Call}
    (phase : CallPhase)
    (hchange : ∀ c, (change c).ear = (c.listener, phase))
    (hne : number ≠ n) :
    Undisturbed n r w ((w.release number).withCall number change) := by
  refine ⟨?_, ?_⟩
  · rw [ears_leave w number phase hchange, List.getElem?_modify_ne _ _ hne]
  · cases hcall : w.calls[number]? with
    | none =>
        simp [release, hcall, withCall]
    | some c =>
        have hchannel : ((w.release number).withCall number change).channel =
            c.listener.release w.channel :=
          w.channel_release hcall
        rw [hchannel]
        cases hlistener : c.listener with
        | receiver other =>
            refine w.channel.first?_drop fun hr => hne ?_
            have hear : w.ears[number]? = some (.receiver r, c.phase) := by
              rw [getElem?_ears hcall, Call.ear, hlistener, hr]
            exact index_unique (fun e : Listener × CallPhase => e.1.receiver?) (hw.ids ▸ hw.distinct)
              hear h rfl rfl
        | _ =>
            rfl

/-- A call that is made listens at a place of its own. -/
theorem channel_openCall
    (hsource : w.source = .channel)
    (id : Nat)
    (subject : Subject)
    (propagate : Bool)
    (abandonAfter : Option Nat) :
    (w.openCall id subject propagate abandonAfter).channel = w.channel.listen.2 := by
  have hreport := apart_report (w.addCall (w.newCall id subject propagate abandonAfter))
    w.calls.length ⟨subject, .started⟩
  have hlistened := hreport.source.trans hsource
  rw [← show (w.addCall (w.newCall id subject propagate abandonAfter)).channel = w.channel from rfl,
    ← hreport.channel]
  simp [openCall, listenFor, listen, hlistened, InterruptSource.listen?, withCall]

theorem Attuned.undisturbed_instrument
    (hw : Attuned w)
    (h : w.ListensAt n body r)
    (id : Nat)
    (list inner : String)
    (subject : Subject)
    {steps : List BuildStep}
    (hcalm : steps.any BuildStep.raises = false)
    (script : Script)
    (propagate : Bool)
    (abandonAfter : Option Nat) :
    Undisturbed n r w
      (w.instrument id list inner subject steps script propagate abandonAfter) := by
  have hjoins := joins_build hw.source id inner subject steps propagate abandonAfter
  have hchannel := (channel_build (w.openCall id subject propagate abandonAfter) inner w.calls.length
    hcalm).trans (channel_openCall hw.source id subject propagate abandonAfter)
  have hlt : n < w.ears.length := (List.getElem?_eq_some_iff.mp h).1
  have hne : w.calls.length ≠ n := by
    have hlength : w.ears.length = w.calls.length := List.length_map _
    omega
  rw [← build_readied _ w] at hjoins hchannel
  have hbuilt := hw.joins hjoins
  rw [instrument_eq]
  generalize (w.openCall id subject propagate abandonAfter).build inner w.calls.length
    (w.readied steps) = built at hjoins hbuilt hchannel
  have hopened : Undisturbed n r w built.2 := by
    refine ⟨?_, ?_⟩
    · rw [hjoins.ears, List.getElem?_append_left hlt]
    · rw [hchannel]
      exact w.channel.first?_listen (Nat.ne_of_lt (hw.fresh r (hw.mem_ids h)))
  have hstill := hopened.listensAt h
  refine hopened.trans ?_
  obtain ⟨panicked, built⟩ := built
  cases panicked with
  | some p =>
      have hleft : Undisturbed n r built
          ((built.release w.calls.length).withCall w.calls.length fun c =>
            { c with phase := .collapsed p }) :=
        hbuilt.undisturbed_leave hstill (.collapsed p) (fun _ => rfl) hne
      exact hleft.trans (built.apart_collapse id list w.calls.length p propagate).undisturbed
  | none =>
      have hears : (built.startRace id inner w.calls.length script).ears =
          built.ears.modify w.calls.length fun e => (e.1, .racing built.strands.length) :=
        ears_withCall (built.spawnTask inner script (some w.calls.length)).2
          (fun e => (e.1, .racing built.strands.length)) (fun _ => rfl) w.calls.length
      refine ⟨?_, rfl⟩
      rw [afterBuild, hears, List.getElem?_modify_ne _ _ hne]

/-- While no interrupt is raised, the turns of other strands leave a race alone, and what waits for its
listener as well. -/
theorem Attuned.undisturbed_advance
    (hw : Attuned w)
    (h : w.ListensAt n body r)
    {id : Nat}
    (hcalm : w.raises id = false)
    (hother : w.race? id ≠ some n) :
    Undisturbed n r w (w.advance id) := by
  have hleave : ∀ {strand : Strand} {number : Nat}, w.strands[id]? = some strand →
      strand.status = .racing number → number ≠ n := by
    rintro strand number hstrand hracing rfl
    exact hother (race?_of_racing hstrand hracing)
  have hstride := w.stride_advance id
  generalize w.advance id = after at hstride
  cases hstride with
  | apart _ hapart =>
      exact hapart.undisturbed
  | @acts strand a rest hstrand hready hrest =>
      have hacts := acts_act (w.pass id rest) strand.list strand.scope a
      have hchannel := channel_act (w.pass id rest) strand.list strand.scope
        (w.step_of_calm hcalm hstrand hready hrest)
      exact ⟨by rw [hacts.ears]; rfl, by rw [hchannel]; rfl⟩
  | adds _ _ hadds _ =>
      exact undisturbed_of_eq hadds.calls hadds.channel
  | @opens strand name subject steps script rest propagate abandonAfter hstrand hready hrest =>
      have hpass := w.apart_pass id rest
      exact hpass.undisturbed.trans ((hw.apart hpass).undisturbed_instrument h id _ _ _
        (w.step_of_calm hcalm hstrand hready hrest) _ _ _)
  | @concludes strand number call s hstrand hracing _ _ =>
      have hannounce := w.apart_announce s
      have hleft : Undisturbed n r (w.announce s)
          (((w.announce s).release number).settle number call s) :=
        (hw.apart hannounce).undisturbed_leave (hannounce.undisturbed.listensAt h)
          (.settled s) (fun _ => rfl) (hleave hstrand hracing)
      exact hannounce.undisturbed.trans
        (hleft.trans (w.apart_conclude id strand.list number call s).undisturbed)
  | @abandons strand number hstrand hracing =>
      have hleft : Undisturbed n r w (w.dropCall number) :=
        hw.undisturbed_leave h .abandoned (fun _ => rfl) (hleave hstrand hracing)
      exact hleft.trans (w.apart_abandon id strand.list number).undisturbed

end Listening
end World
end LifecycleTelemetry
