import LifecycleTelemetry.Proofs.Interrupt.Faithful
import LifecycleTelemetry.Proofs.Operation.Chronicle
import LifecycleTelemetry.Proofs.Operation.Verdict

/-!
# What a race hears

The listener of a call hears every signal that is raised after its installation, whoever raises it and
whatever else is done, up to the moment at which the call is over. The last eight of these signals wait
for it. So when the strand of the call has its turn, the signal that it finds is the oldest of those that
have been kept: the first one that has been raised as long as there are no more than eight, and a later one
when there are.

`Relays` says of a part of a turn that whatever is raised in it is heard by all calls alike.
-/

namespace LifecycleTelemetry

open Channel (keepLast oldestKept)

/-! ## Signals that are raised -/

/-- The signals that an action raises. -/
def Action.signals : Action → List Signal
  | .trigger s => [s]
  | _ => []

/-- The signals that the part that builds an operation raises, up to its end or its panic. -/
def BuildStep.signals : List BuildStep → List Signal
  | .act a :: rest => a.signals ++ signals rest
  | .panic _ :: _ => []
  | [] => []

/-- The signals that a step raises in the turn in which it is carried out. -/
def Step.signals : Step → List Signal
  | .act a => a.signals
  | .instrument _ _ build _ _ _ => BuildStep.signals build
  | _ => []

theorem Step.signals_of_isCalm
    {step : Step}
    (h : step.isCalm = true) :
    step.signals = [] := by
  cases step with
  | act a =>
      cases h
  | instrument name subject build body propagate abandonAfter =>
      cases h
  | _ =>
      rfl

namespace World

/-- The signals that are raised in a move. -/
def raisedBy (w : World) : Move → List Signal
  | .advance id => ((w.strands[id]?).bind Strand.next?).elim [] Step.signals
  | .signal s => [s]
  | _ => []

/-- The signals raised in a move that a call hears: all of them, from the turn on in which it is made. In
that turn the code that builds its operation runs when the listener has been installed. -/
def heardBy (n : Nat) (w : World) (m : Move) : List Signal :=
  if n < (w.move m).calls.length then w.raisedBy m else []

section Raised

variable (w : World)

theorem raisedBy_of_calm
    {id : Nat}
    (hcalm : IsCalm w id) :
    w.raisedBy (.advance id) = [] := by
  rw [raisedBy]
  cases hnext : (w.strands[id]?).bind Strand.next? with
  | none =>
      rfl
  | some step =>
      obtain ⟨strand, hstrand, hstep⟩ := Option.bind_eq_some_iff.mp hnext
      exact Step.signals_of_isCalm (hcalm strand step hstrand hstep)

theorem raisedBy_of_ready
    {id : Nat}
    {strand : Strand}
    {step : Step}
    {rest : Script}
    (hstrand : w.strands[id]? = some strand)
    (hready : strand.status = .ready)
    (hrest : strand.rest = step :: rest) :
    w.raisedBy (.advance id) = step.signals := by
  simp [raisedBy, hstrand, Strand.next?, hready, hrest]

/-- Only raising a signal shows on the channel. -/
theorem channel_act_signals
    (list : String)
    (scope : Option Nat)
    (a : Action) :
    (w.act list scope a).channel = a.signals.foldl Channel.trigger w.channel := by
  cases a with
  | trigger s =>
      rfl
  | _ =>
      exact w.channel_act list scope rfl

theorem channel_build_signals
    (list : String)
    (number : Nat)
    (steps : List BuildStep) :
    (w.build list number steps).2.channel =
      (BuildStep.signals steps).foldl Channel.trigger w.channel := by
  induction steps generalizing w with
  | nil =>
      rfl
  | cons step rest ih =>
      cases step with
      | panic p =>
          rfl
      | act a =>
          rw [BuildStep.signals, List.foldl_append, ← w.channel_act_signals list (some number) a]
          exact ih (w.act list (some number) a)

end Raised

/-! ## What waits for a call -/

/-- The last signals that have been heard wait for a call, unless it is over. -/
def HasHeard (w : World) (n : Nat) (heard : List Signal) : Prop :=
  ∀ e, w.ears[n]? = some e → e.2.isOver = false →
    ∃ r, e.1 = .receiver r ∧ w.channel.waiting? r = some (keepLast heard)

/-- What is raised in a part of a turn is heard by all calls, those included that are made in it. -/
structure Relays (w : World) (raised : List Signal) (after : World) : Prop where
  grows : w.calls.length ≤ after.calls.length
  kept : ∀ n heard, n < w.calls.length → HasHeard w n heard → HasHeard after n (heard ++ raised)
  made : ∀ n, w.calls.length ≤ n → HasHeard after n raised

section Relays

variable {w mid after : World} {raised later : List Signal}

theorem length_ears
    (w : World) :
    w.ears.length = w.calls.length :=
  List.length_map _

/-- Nobody hears anything before being called. -/
theorem hasHeard_of_le
    {n : Nat}
    (h : w.calls.length ≤ n)
    (heard : List Signal) :
    HasHeard w n heard := by
  intro e he
  rw [← length_ears] at h
  rw [List.getElem?_eq_none_iff.mpr h] at he
  cases he

/-- The second part may make calls only if nothing is raised in the first one. -/
theorem Relays.trans
    (h₁ : Relays w raised mid)
    (h₂ : Relays mid later after)
    (h : raised = [] ∨ after.calls.length = mid.calls.length) :
    Relays w (raised ++ later) after where
  grows := Nat.le_trans h₁.grows h₂.grows
  kept := by
    intro n heard hn hheard
    rw [← List.append_assoc]
    exact h₂.kept n _ (Nat.lt_of_lt_of_le hn h₁.grows) (h₁.kept n heard hn hheard)
  made := by
    intro n hn
    by_cases hmid : n < mid.calls.length
    · exact h₂.kept n raised hmid (h₁.made n hn)
    · have hle : mid.calls.length ≤ n := Nat.le_of_not_lt hmid
      rcases h with rfl | hsame
      · exact h₂.made n hle
      · exact hasHeard_of_le (hsame ▸ hle) _

theorem relays_of_ears
    (hears : after.ears = w.ears)
    (hchannel : after.channel = raised.foldl Channel.trigger w.channel) :
    Relays w raised after := by
  have hlength : after.calls.length = w.calls.length := by
    rw [← length_ears, hears, length_ears]
  refine ⟨Nat.le_of_eq hlength.symm, ?_, fun n hn => hasHeard_of_le (hlength ▸ hn) _⟩
  intro n heard _ hheard e he hopen
  obtain ⟨r, hr, hwaits⟩ := hheard e (hears ▸ he) hopen
  refine ⟨r, hr, ?_⟩
  rw [hchannel]
  exact w.channel.waiting?_foldl_trigger raised hwaits

theorem Apart.relays
    (h : Apart w after) :
    Relays w [] after :=
  relays_of_ears (by rw [ears, ears, h.calls]) h.channel

/-- A call that is made hears nothing yet. -/
theorem Attuned.relays_openCall
    (hw : Attuned w)
    (id : Nat)
    (subject : Subject)
    (propagate : Bool)
    (abandonAfter : Option Nat) :
    Relays w [] (w.openCall id subject propagate abandonAfter) ∧
      (w.openCall id subject propagate abandonAfter).calls.length = w.calls.length + 1 := by
  have hjoins := joins_openCall hw.source id subject propagate abandonAfter
  have hchannel := channel_openCall hw.source id subject propagate abandonAfter
  have hlength : (w.openCall id subject propagate abandonAfter).calls.length =
      w.calls.length + 1 := by
    rw [← length_ears, hjoins.ears, List.length_append, length_ears]
    rfl
  refine ⟨⟨by omega, ?_, ?_⟩, hlength⟩
  · intro n heard hn hheard e he hopen
    rw [hjoins.ears, List.getElem?_append_left (by rw [length_ears]; exact hn)] at he
    obtain ⟨r, hr, hwaits⟩ := hheard e he hopen
    have hplaced : r ∈ w.channel.ids := w.channel.mem_ids_iff.mpr ⟨_, hwaits⟩
    refine ⟨r, hr, ?_⟩
    rw [hchannel, w.channel.waiting?_listen (Nat.ne_of_lt (hw.fresh r hplaced)), List.append_nil]
    exact hwaits
  · intro n hn e he _
    have hlast : n = w.calls.length := by
      have hlt := (List.getElem?_eq_some_iff.mp he).1
      rw [length_ears] at hlt
      omega
    subst hlast
    rw [hjoins.building] at he
    cases he
    refine ⟨w.channel.nextId, rfl, ?_⟩
    rw [hchannel, w.channel.waiting?_listen_self]
    · rfl
    · intro r hr hid
      exact Nat.lt_irrefl _ (hid ▸ hw.fresh r.id (List.mem_map_of_mem hr))

/-- A call that is left takes its own listener with it, and no other one. -/
theorem Attuned.relays_leave
    (hw : Attuned w)
    (number : Nat)
    (phase : CallPhase)
    {change : Call → Call}
    (hchange : ∀ c, (change c).ear = (c.listener, phase))
    (hover : phase.isOver = true) :
    Relays w [] ((w.release number).withCall number change) := by
  have hears := ears_leave w number phase hchange
  have hlength : ((w.release number).withCall number change).calls.length = w.calls.length := by
    rw [← length_ears, hears, List.length_modify, length_ears]
  refine ⟨Nat.le_of_eq hlength.symm, ?_, fun n hn => hasHeard_of_le (hlength ▸ hn) _⟩
  intro n heard _ hheard e he hopen
  rw [hears, List.getElem?_modify] at he
  obtain ⟨old, hold, rfl⟩ := Option.map_eq_some_iff.mp he
  by_cases hn : number = n
  · rw [if_pos hn, hover] at hopen
    cases hopen
  · rw [if_neg hn] at hopen ⊢
    obtain ⟨r, hr, hwaits⟩ := hheard old hold hopen
    refine ⟨r, hr, ?_⟩
    rw [List.append_nil]
    cases hcall : w.calls[number]? with
    | none =>
        have hsame : (w.release number).withCall number change = w := by
          simp [release, withCall, List.modify_eq_self, List.getElem?_eq_none_iff.mp hcall]
        rw [hsame]
        exact hwaits
    | some c =>
        have hchannel : ((w.release number).withCall number change).channel =
            c.listener.release w.channel :=
          w.channel_release hcall
        rw [hchannel, Audience.waiting?_release]
        · exact hwaits
        · intro hlistener
          have hplace : old.1.receiver? = some r := Listener.receiver?_eq_some.mpr hr
          exact hn (index_unique (fun e : Listener × CallPhase => e.1.receiver?)
            (hw.ids ▸ hw.distinct) (getElem?_ears hcall) hold hlistener hplace)

/-- A call that is not over hears the same in another phase. -/
theorem relays_startRace
    (w : World)
    (id : Nat)
    (inner : String)
    {number : Nat}
    (body : Script)
    (hopen : ∀ e, w.ears[number]? = some e → e.2.isOver = false) :
    Relays w [] (w.startRace id inner number body) := by
  have hears : (w.startRace id inner number body).ears =
      w.ears.modify number fun e => (e.1, .racing w.strands.length) :=
    ears_withCall (w.spawnTask inner body (some number)).2
      (fun e => (e.1, .racing w.strands.length)) (fun _ => rfl) number
  have hlength : (w.startRace id inner number body).calls.length = w.calls.length := by
    rw [← length_ears, hears, List.length_modify, length_ears]
  refine ⟨Nat.le_of_eq hlength.symm, ?_, fun n hn => hasHeard_of_le (hlength ▸ hn) _⟩
  intro n heard _ hheard e he hundecided
  rw [hears, List.getElem?_modify] at he
  obtain ⟨old, hold, rfl⟩ := Option.map_eq_some_iff.mp he
  rw [List.append_nil]
  by_cases hn : number = n
  · subst hn
    rw [if_pos rfl]
    exact hheard old hold (hopen old hold)
  · rw [if_neg hn] at hundecided ⊢
    exact hheard old hold hundecided

theorem Attuned.relays_instrument
    (hw : Attuned w)
    (id : Nat)
    (list inner : String)
    (subject : Subject)
    (steps : List BuildStep)
    (body : Script)
    (propagate : Bool)
    (abandonAfter : Option Nat) :
    Relays w (BuildStep.signals steps)
      (w.instrument id list inner subject steps body propagate abandonAfter) := by
  obtain ⟨hopened, -⟩ := hw.relays_openCall id subject propagate abandonAfter
  have hacts := acts_build (w.openCall id subject propagate abandonAfter) inner w.calls.length steps
  have hchannel := channel_build_signals (w.openCall id subject propagate abandonAfter) inner
    w.calls.length steps
  have hjoins := joins_build hw.source id inner subject steps propagate abandonAfter
  rw [← build_readied _ w] at hacts hchannel hjoins
  have hattuned := hw.joins hjoins
  rw [instrument_eq]
  generalize (w.openCall id subject propagate abandonAfter).build inner w.calls.length
    (w.readied steps) = built at hacts hchannel hjoins hattuned
  have hbuilt : Relays w (BuildStep.signals steps) built.2 :=
    hopened.trans (relays_of_ears hacts.ears hchannel) (.inl rfl)
  rw [← List.append_nil (BuildStep.signals steps)]
  obtain ⟨panicked, built⟩ := built
  cases panicked with
  | some p =>
      have hapart := built.apart_collapse id list w.calls.length p propagate
      have hleft : Relays built [] (built.collapse id list w.calls.length p propagate) :=
        (hattuned.relays_leave w.calls.length (.collapsed p) (fun _ => rfl) rfl).trans hapart.relays
          (.inl rfl)
      refine hbuilt.trans hleft (.inr ?_)
      rw [afterBuild, (built.calls_collapse id list w.calls.length p propagate).2, List.length_modify]
  | none =>
      have hraced : Relays built [] (built.startRace id inner w.calls.length body) := by
        refine built.relays_startRace id inner body fun e he => ?_
        have hbuilding := hjoins.building.symm.trans he
        cases hbuilding
        rfl
      refine hbuilt.trans hraced (.inr ?_)
      rw [afterBuild, (built.calls_startRace id inner w.calls.length body).2, List.length_modify]

/-- Whatever is raised in the turn of a strand is heard. -/
theorem Attuned.relays_advance
    (hw : Attuned w)
    (id : Nat) :
    Relays w (w.raisedBy (.advance id)) (w.advance id) := by
  have hstride := w.stride_advance id
  have hracing : ∀ {strand : Strand} {number : Nat}, w.strands[id]? = some strand →
      strand.status = .racing number → w.raisedBy (.advance id) = [] := by
    intro strand number hstrand hstatus
    exact w.raisedBy_of_calm (w.isCalm_of_waiting id hstrand (by simp [Strand.next?, hstatus]))
  generalize w.advance id = after at hstride
  cases hstride with
  | apart hcalm hapart =>
      rw [w.raisedBy_of_calm hcalm]
      exact hapart.relays
  | @acts strand a rest hstrand hready hrest =>
      rw [w.raisedBy_of_ready hstrand hready hrest]
      have hacts := acts_act (w.pass id rest) strand.list strand.scope a
      have hchannel := channel_act_signals (w.pass id rest) strand.list strand.scope a
      exact (w.apart_pass id rest).relays.trans (relays_of_ears hacts.ears hchannel) (.inl rfl)
  | adds _ hcalm hadds _ =>
      rw [w.raisedBy_of_calm hcalm]
      exact relays_of_ears (by rw [ears, ears, hadds.calls]) hadds.channel
  | @opens strand name subject steps body rest propagate abandonAfter hstrand hready hrest =>
      rw [w.raisedBy_of_ready hstrand hready hrest]
      have hpass := w.apart_pass id rest
      exact hpass.relays.trans
        ((hw.apart hpass).relays_instrument id _ _ subject steps body propagate abandonAfter)
        (.inl rfl)
  | @concludes strand number call s hstrand hstatus _ _ =>
      rw [hracing hstrand hstatus]
      have hannounce := w.apart_announce s
      have hleft : Relays (w.announce s) [] (((w.announce s).release number).settle number call s) :=
        (hw.apart hannounce).relays_leave number (.settled s) (fun _ => rfl) rfl
      exact (hannounce.relays.trans hleft (.inl rfl)).trans
        (w.apart_conclude id strand.list number call s).relays (.inl rfl)
  | @abandons strand number hstrand hstatus =>
      rw [hracing hstrand hstatus]
      have hleft : Relays w [] (w.dropCall number) :=
        hw.relays_leave number .abandoned (fun _ => rfl) rfl
      exact hleft.trans (w.apart_abandon id strand.list number).relays (.inl rfl)

theorem Attuned.relays_foldl_dropCall
    (hw : Attuned w)
    (calls : List Nat) :
    Relays w [] (calls.foldl World.dropCall w) := by
  induction calls generalizing w with
  | nil =>
      exact Apart.refl.relays
  | cons call rest ih =>
      have hleft : Relays w [] (w.dropCall call) :=
        hw.relays_leave call .abandoned (fun _ => rfl) rfl
      exact hleft.trans (ih (hw.dropCall call)) (.inl rfl)

/-- Whatever is raised in a move is heard. -/
theorem Attuned.relays_move
    (hw : Attuned w)
    (m : Move) :
    Relays w (w.raisedBy m) (w.move m) := by
  cases m with
  | advance id =>
      exact hw.relays_advance id
  | deliver id =>
      exact (w.apart_deliver id).relays
  | pass time =>
      exact relays_of_ears rfl rfl
  | signal s =>
      exact relays_of_ears rfl rfl
  | abort task =>
      have hdropped := hw.relays_foldl_dropCall (w.racesOf task)
      have hcut : Relays ((w.racesOf task).foldl World.dropCall w) [] (w.abort task) :=
        relays_of_ears rfl rfl
      exact hdropped.trans hcut (.inl rfl)

end Relays

/-! ## What a call has heard on the way -/

section Chronicle

variable {n : Nat} {first w : World} {heard : List Signal}

/-- What has been heard by a call on the way waits for it, as far as it is kept. -/
theorem Chronicle.hasHeard
    (h : Chronicle (heardBy n) first w heard)
    (hfirst : Attuned first)
    (hunmade : first.calls = []) :
    (w.calls.length ≤ n → heard = []) ∧ HasHeard w n heard := by
  induction h with
  | refl =>
      refine ⟨fun _ => rfl, hasHeard_of_le ?_ []⟩
      rw [hunmade]
      exact Nat.zero_le n
  | @move v heard m hpast ih =>
      have hrelays := (hfirst.evolves hpast.evolves).relays_move m
      obtain ⟨hsilence, hheard⟩ := ih
      by_cases hmade : n < (v.move m).calls.length
      · refine ⟨fun hn => absurd hmade (Nat.not_lt_of_le hn), ?_⟩
        rw [heardBy, if_pos hmade]
        by_cases hold : n < v.calls.length
        · exact hrelays.kept n heard hold hheard
        · rw [hsilence (Nat.le_of_not_lt hold)]
          exact hrelays.made n (Nat.le_of_not_lt hold)
      · have hlater : (v.move m).calls.length ≤ n := Nat.le_of_not_lt hmade
        refine ⟨fun _ => ?_, hasHeard_of_le hlater _⟩
        rw [heardBy, if_neg hmade, hsilence (Nat.le_trans hrelays.grows hlater)]
        rfl
  | script s _ _ ih =>
      exact ih
  | rouse woken _ ih =>
      exact ih
  | mark pending listeners _ ih =>
      exact ih

end Chronicle

/-! ## The signal that is reported -/

/-- A listener that is asked late fires with the oldest signal that is kept, and so does a race. -/
structure OldestFirst (a : Audience) (first w : World) : Prop where
  /-- A listener in the hands of a program fires with the oldest one of the last eight that have been
  raised since its installation. That is the first one if there are no more than eight. -/
  received : ∀ i, a.isOutstanding i = true →
    a.answer (.poll i) = .ofSignal? (oldestKept (a.heard i)) ∧
      ((a.heard i).length ≤ Channel.capacity → a.answer (.poll i) = .ofSignal? (a.heard i).head?)
  /-- Every call has heard some signals on the way, be it none at all. -/
  heard : ∀ n, ∃ heard, Chronicle (heardBy n) first w heard
  /-- The listener of a call that is not over has noticed the oldest one of the last eight. -/
  noticed : ∀ n call heard, w.calls[n]? = some call → call.phase.isOver = false →
    Chronicle (heardBy n) first w heard →
    call.listener.signal? w.clock w.channel = oldestKept heard ∧
      (heard.length ≤ Channel.capacity →
        call.listener.signal? w.clock w.channel = heard.head?)
  /-- Unless the operation is over, this decides the race. -/
  decided : ∀ n call heard body, w.calls[n]? = some call → call.phase = .racing body →
    w.outcome? body = none →
    (∀ strand, w.strands[body]? = some strand → strand.status ≠ .aborted) →
    Chronicle (heardBy n) first w heard → heard ≠ [] →
    ∃ s, oldestKept heard = some s ∧ w.settlement? call = some (.interrupted s)
  /-- And it is this signal by whose name the call is reported to be cancelled, and that the caller
  gets. -/
  reported : ∀ id n strand call heard s, w.strands[id]? = some strand →
    strand.status = .racing n → w.calls[n]? = some call →
    Chronicle (heardBy n) first w heard → w.settlement? call = some (.interrupted s) →
    oldestKept heard = some s ∧
      Verdict w id n strand call (.interrupted s) (.cancelled (some s.name))
        (.err (.cancelled ⟨some s.name⟩))

section Reported

variable {n : Nat} {first w : World} {heard : List Signal}

theorem Chronicle.signal?
    (h : Chronicle (heardBy n) first w heard)
    (hfirst : Attuned first)
    (hunmade : first.calls = [])
    {call : Call}
    (hcall : w.calls[n]? = some call)
    (hopen : call.phase.isOver = false) :
    call.listener.signal? w.clock w.channel = oldestKept heard := by
  obtain ⟨r, hr, hwaits⟩ := (h.hasHeard hfirst hunmade).2 call.ear (getElem?_ears hcall) hopen
  have hlistener : call.listener = .receiver r := hr
  rw [hlistener]
  exact Audience.first?_of_waits hwaits

/-- A race that is decided by an interrupt is undecided otherwise, and its listener has the signal. -/
theorem Cause.noticed
    {call : Call}
    {settlement : Settlement}
    (h : Cause w call settlement)
    {s : Signal}
    (hsettlement : settlement = .interrupted s) :
    call.phase.isOver = false ∧ call.listener.signal? w.clock w.channel = some s := by
  cases h with
  | @ended body o _ _ =>
      cases o with
      | _ =>
          cases hsettlement
  | aborted _ _ _ =>
      cases hsettlement
  | interrupted hphase _ _ hsignal =>
      cases hsettlement
      refine ⟨?_, hsignal⟩
      rw [hphase]
      rfl

theorem oldestFirst_of_attuned
    (us : List ChannelUse)
    (h : Evolves first w)
    (hfirst : Attuned first)
    (hunmade : first.calls = []) :
    OldestFirst (Audience.new.after us) first w where
  received := by
    intro i hi
    have hanswer := (Audience.faithful_after us).answered i hi
    refine ⟨hanswer.2, fun hfew => ?_⟩
    rw [hanswer.2, Channel.oldestKept_of_length_le hfew]
  heard := fun n => h.chronicle (heardBy n)
  noticed := by
    intro n call heard hcall hopen hheard
    have hsignal := hheard.signal? hfirst hunmade hcall hopen
    refine ⟨hsignal, fun hfew => ?_⟩
    rw [hsignal, Channel.oldestKept_of_length_le hfew]
  decided := by
    intro n call heard body hcall hphase hrunning hwhole hheard hsome
    have hopen : call.phase.isOver = false := by
      rw [hphase]
      rfl
    have hsignal := hheard.signal? hfirst hunmade hcall hopen
    cases hs : oldestKept heard with
    | none =>
        exact absurd ((Channel.oldestKept_eq_none_iff heard).mp hs) hsome
    | some s =>
        exact ⟨s, rfl, settlement?_of_cause (.interrupted hphase hrunning hwhole (hsignal.trans hs))⟩
  reported := by
    intro id n strand call heard s hstrand hracing hcall hheard hsettled
    refine ⟨?_, verdict_of_settlement? hstrand hracing hcall hsettled⟩
    obtain ⟨hopen, hsignal⟩ := (cause_of_settlement? hsettled).noticed rfl
    rw [← hheard.signal? hfirst hunmade hcall hopen]
    exact hsignal

end Reported

/-- On a channel, whatever is done and in whatever order, signals are noticed the oldest first, of those
that are kept. -/
theorem oldestFirst_of_evolves
    {reporter : Reporter}
    {hasRuntime : Bool}
    {stamps : Nat → Int}
    {plans : List DeliveryPlan}
    {w : World}
    (us : List ChannelUse)
    (h : Evolves (World.start reporter hasRuntime stamps .channel plans) w) :
    OldestFirst (Audience.new.after us) (World.start reporter hasRuntime stamps .channel plans) w :=
  oldestFirst_of_attuned us h (attuned_start reporter hasRuntime stamps plans) rfl

/-- For instance, when two signals are raised before the listener is asked, and two others while an
operation is built and run. -/
theorem oldestFirst_plainRun :
    let us : List ChannelUse := [.listen, .trigger .terminate, .trigger .interrupt]
    let script : Script :=
      [.instrument none (.session []) [.act (.trigger .terminate)] [.hang] false none]
    let w := plainRun [] script [.advance 0, .signal .interrupt]
    (Audience.new.after us).answer (.poll 0) = .fired .terminate ∧
      ((w.advance 0).reports 0).map (fun r => Json.Fields.get? "signal" r.message.properties) =
        [none, some (.string "SIGTERM")] ∧
      OldestFirst (Audience.new.after us) (World.start plainReporter true plainStamps .channel []) w :=
  ⟨by decide, by decide +kernel, oldestFirst_of_evolves _ (evolves_plainRun _ _ _)⟩

/-- Of nine signals the first one is lost: neither the listener nor the race tells of it. -/
theorem first_signal_lost :
    let others := 8
    let us : List ChannelUse :=
      .listen :: .trigger .terminate :: List.replicate others (.trigger .interrupt)
    let a := Audience.new.after us
    let script : Script := [.instrument none (.session []) [] [.hang] false none]
    let w := plainRun [] script
      (.advance 0 :: .signal .terminate :: List.replicate others (.signal .interrupt) ++ [.advance 0])
    a.isOutstanding 0 = true ∧
      (a.heard 0).head? = some .terminate ∧
      a.answer (.poll 0) = .fired .interrupt ∧
      (w.reports 0).map (fun r => Json.Fields.get? "signal" r.message.properties) =
        [none, some (.string "SIGINT")] :=
  ⟨by decide, by decide, by decide, by decide +kernel⟩

end World
end LifecycleTelemetry
