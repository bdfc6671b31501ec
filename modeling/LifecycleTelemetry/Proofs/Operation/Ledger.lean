import LifecycleTelemetry.Proofs.Operation.Chronicle
import LifecycleTelemetry.Proofs.Operation.Drain
import LifecycleTelemetry.Proofs.Operation.Tally

/-!
# The ledger of a reporter

What a program asks of a reporter in a move, written down as if nothing could go wrong: every message that
is to be handed over, and everything that a drain takes. What to write down is decided by the steps of the
program and by the reporter alone, without a look at what has been handed over already.

`Books` says that a part of a turn keeps to what has been written down: it hands over just these messages, each
under the date with its number, makes a delivery of each of them, and of the deliveries that have been
accepted those wait to be drained that no drain has taken. The main result is `books_move`.
-/

namespace LifecycleTelemetry

open Json (Fields)

/-- A message that is handed over, who does it, and whether that is the program itself, past the
reporter. -/
structure Dispatch where
  sender : Sender
  message : Message
  isDirect : Bool
deriving DecidableEq

/-- An entry of a ledger: a message is handed over, or the drain of a strand takes deliveries. -/
inductive Posting where
  | handed (d : Dispatch)
  | taken (strand : Nat) (batch : List Nat)
deriving DecidableEq

namespace Posting

/-- The message that is handed over. -/
def dispatch? : Posting → Option Dispatch
  | .handed d => some d
  | .taken _ _ => none

/-- The deliveries that a drain takes, with its strand. -/
def batch? : Posting → Option (Nat × List Nat)
  | .handed _ => none
  | .taken strand batch => some (strand, batch)

end Posting

/-- The messages that are handed over by a ledger. -/
def dispatchesIn (told : List Posting) : List Dispatch :=
  told.filterMap Posting.dispatch?

/-- What drains take by a ledger, each with its strand. -/
def batchesIn (told : List Posting) : List (Nat × List Nat) :=
  told.filterMap Posting.batch?

/-- Everything that drains take by a ledger. -/
def takenIn (told : List Posting) : List Nat :=
  (batchesIn told).flatMap Prod.snd

/-- The payloads that are handed over when messages are handed over one after the other. Each bears the date
with its number, and those are numbered from a number on. -/
def handedFrom (stamps : Nat → Int) (next : Nat) : List Dispatch → List (Sender × Payload)
  | [] => []
  | d :: rest =>
      (d.sender, { d.message with timestamp := stamps next }) :: handedFrom stamps (next + 1) rest

/-- The deliveries that the reporter accepts when payloads are handed over one after the other. Each of
them becomes a delivery, and those are numbered from a number on. -/
def acceptedFrom (next : Nat) : List Dispatch → List Nat
  | [] => []
  | d :: rest =>
      if d.isDirect then acceptedFrom (next + 1) rest else next :: acceptedFrom (next + 1) rest

/-! ## Accepted deliveries -/

section Accepted

theorem handedFrom_append
    (stamps : Nat → Int)
    (next : Nat)
    (before after : List Dispatch) :
    handedFrom stamps next (before ++ after) =
      handedFrom stamps next before ++ handedFrom stamps (next + before.length) after := by
  induction before generalizing next with
  | nil =>
      rfl
  | cons d rest ih =>
      have hnext : next + 1 + rest.length = next + (d :: rest).length := by
        rw [List.length_cons]
        omega
      simp only [List.cons_append, handedFrom, ih, hnext]

theorem acceptedFrom_append
    (next : Nat)
    (before after : List Dispatch) :
    acceptedFrom next (before ++ after) =
      acceptedFrom next before ++ acceptedFrom (next + before.length) after := by
  induction before generalizing next with
  | nil =>
      rfl
  | cons d rest ih =>
      have hnext : next + 1 + rest.length = next + (d :: rest).length := by
        rw [List.length_cons]
        omega
      simp only [List.cons_append, acceptedFrom, ih, hnext]
      split
      · rfl
      · rfl

/-- Accepted deliveries are among those that are made. -/
theorem mem_acceptedFrom
    {next n : Nat}
    {ds : List Dispatch}
    (h : n ∈ acceptedFrom next ds) :
    next ≤ n ∧ n < next + ds.length := by
  induction ds generalizing next with
  | nil =>
      cases h
  | cons d rest ih =>
      rw [List.length_cons]
      simp only [acceptedFrom] at h
      split at h
      · have hrest := ih h
        omega
      · rcases List.mem_cons.mp h with rfl | h
        · omega
        · have hrest := ih h
          omega

/-- A delivery is accepted once. -/
theorem pairwise_acceptedFrom
    (next : Nat)
    (ds : List Dispatch) :
    (acceptedFrom next ds).Pairwise (· < ·) := by
  induction ds generalizing next with
  | nil =>
      exact List.Pairwise.nil
  | cons d rest ih =>
      simp only [acceptedFrom]
      split
      · exact ih (next + 1)
      · refine List.pairwise_cons.mpr ⟨fun n hn => ?_, ih (next + 1)⟩
        exact (mem_acceptedFrom hn).1

theorem dispatchesIn_append
    (before after : List Posting) :
    dispatchesIn (before ++ after) = dispatchesIn before ++ dispatchesIn after :=
  List.filterMap_append

theorem takenIn_append
    (before after : List Posting) :
    takenIn (before ++ after) = takenIn before ++ takenIn after := by
  rw [takenIn, batchesIn, List.filterMap_append, List.flatMap_append]
  rfl

end Accepted

namespace World

/-! ## What is to be written down -/

section Asked

variable (w : World)

/-- What is written down when an event is sent by the reporter. -/
def sendOf (sender : Sender) (event : String) (properties : Fields) : List Posting :=
  if w.isReporting then
    [.handed ⟨sender, w.reporter.client.message event (w.reporter.merged properties), false⟩]
  else []

/-- What is written down when the program hands an event to the client. -/
def postOf (event : String) (properties : Fields) : List Posting :=
  if w.reporter.client.isEnabled && w.hasRuntime then
    [.handed ⟨.program, w.reporter.client.message event properties, true⟩]
  else []

/-- What is written down when a stage of a call is reported. -/
def reportOf (call : Nat) (e : Event) : List Posting :=
  w.sendOf (.call call e.stage) e.name e.properties

/-- What is written down of an action. -/
def actionOf : Action → List Posting
  | .send name properties => w.sendOf .program name properties
  | .post event properties => w.postOf event properties
  | _ => []

/-- What is written down of the part that builds an operation, up to its end or its panic. -/
def buildOf : List BuildStep → List Posting
  | .act a :: rest => w.actionOf a ++ buildOf rest
  | .panic _ :: _ => []
  | [] => []

/-- What is written down of a step of a strand. -/
def stepOf (id : Nat) : Step → List Posting
  | .act a => w.actionOf a
  | .instrument _ subject build _ _ _ =>
      w.reportOf w.calls.length ⟨subject, .started⟩ ++ w.buildOf build
  | .drain _ => [.taken id w.pending]
  | _ => []

/-- What is written down of a race, if it has been decided. -/
def raceOf (number : Nat) : List Posting :=
  match w.calls[number]? with
  | some call =>
      match w.settlement? call with
      | some s => w.reportOf number (endingOf call s w.clock)
      | none => []
  | none => []

/-- What is written down of the turn of a strand. -/
def turnOf (id : Nat) : List Posting :=
  match w.strands[id]? with
  | some strand =>
      match strand.status with
      | .ready =>
          match strand.rest with
          | step :: _ => w.stepOf id step
          | [] => []
      | .racing number => w.raceOf number
      | _ => []
  | none => []

/-- What is written down of a move. -/
def ledgerOf (w : World) : Move → List Posting
  | .advance id => w.turnOf id
  | _ => []

end Asked

/-- What is written down does not change in the course of a turn. -/
theorem Spares.sendOf
    {id : Nat}
    {w after : World}
    (h : Spares id w after)
    (sender : Sender)
    (event : String)
    (properties : Fields) :
    after.sendOf sender event properties = w.sendOf sender event properties := by
  rw [World.sendOf, World.sendOf, h.endures.isReporting, h.reporter]

theorem Spares.actionOf
    {id : Nat}
    {w after : World}
    (h : Spares id w after)
    (a : Action) :
    after.actionOf a = w.actionOf a := by
  cases a with
  | send name properties =>
      exact h.sendOf .program name properties
  | post event properties =>
      rw [World.actionOf, World.actionOf, postOf, postOf, h.reporter, h.hasRuntime]
  | _ =>
      rfl

theorem Spares.buildOf
    {id : Nat}
    {w after : World}
    (h : Spares id w after)
    (steps : List BuildStep) :
    after.buildOf steps = w.buildOf steps := by
  induction steps with
  | nil =>
      rfl
  | cons step rest ih =>
      cases step with
      | panic p =>
          rfl
      | act a =>
          rw [World.buildOf, World.buildOf, h.actionOf, ih]

/-! ## Keeping to it -/

/-- A part of a turn keeps to what has been written down of it. -/
structure Books (w : World) (told : List Posting) (after : World) : Prop where
  handed : after.handed =
    w.handed ++ handedFrom w.stamps w.deliveries.length (dispatchesIn told)
  events : after.deliveries.map Delivery.event =
    w.deliveries.map Delivery.event ++ (dispatchesIn told).map fun d => d.message.event
  pending : takenIn told ++ after.pending =
    w.pending ++ acceptedFrom w.deliveries.length (dispatchesIn told)
  stamps : after.stamps = w.stamps

section Books

variable {w mid after : World} {told later : List Posting}

theorem Books.length
    (h : Books w told after) :
    after.deliveries.length = w.deliveries.length + (dispatchesIn told).length := by
  have hlength := congrArg List.length h.events
  simpa using hlength

theorem Books.trans
    (h₁ : Books w told mid)
    (h₂ : Books mid later after) :
    Books w (told ++ later) after where
  handed := by
    rw [h₂.handed, h₁.handed, h₁.stamps, h₁.length, dispatchesIn_append, handedFrom_append,
      List.append_assoc]
  events := by
    rw [h₂.events, h₁.events, dispatchesIn_append, List.map_append, List.append_assoc]
  pending := by
    rw [takenIn_append, List.append_assoc, h₂.pending, ← List.append_assoc, h₁.pending, h₁.length,
      dispatchesIn_append, acceptedFrom_append, List.append_assoc]
  stamps := h₂.stamps.trans h₁.stamps

theorem books_of_tally
    (h : after.tally = w.tally) :
    Books w [] after where
  handed := (congrArg Tally.handed h).trans (List.append_nil _).symm
  events := (congrArg Tally.events h).trans (List.append_nil _).symm
  pending := (congrArg Tally.pending h).trans (List.append_nil _).symm
  stamps := congrArg Tally.stamps h

/-- A part that does not touch the tally may come before another one, -/
theorem Books.comes
    (h : Books mid told after)
    (hsame : mid.tally = w.tally) :
    Books w told after :=
  (books_of_tally hsame).trans h

/-- or after it. -/
theorem Books.goes
    (h : Books w told mid)
    (hsame : after.tally = mid.tally) :
    Books w told after := by
  have hboth := h.trans (books_of_tally hsame)
  rw [List.append_nil] at hboth
  exact hboth

end Books

section Parts

variable (w : World)

/-- A client with a transport and a runtime hands over what it is given, and makes a delivery of it. -/
theorem post_spec
    (sender : Sender)
    (event : String)
    (properties : Fields) :
    if w.reporter.client.isEnabled && w.hasRuntime then
      (w.post sender event properties).1 = some w.deliveries.length ∧
        (w.post sender event properties).2.tally =
          ⟨w.handed ++
              [(sender, w.reporter.client.payload event (w.stamps w.deliveries.length) properties)],
            w.deliveries.map Delivery.event ++ [event], w.pending, w.stamps⟩
    else
      (w.post sender event properties).1 = none ∧
        (w.post sender event properties).2.tally = w.tally := by
  unfold post DeliveryClient.isEnabled
  cases w.reporter.client.transport with
  | none =>
      exact ⟨rfl, rfl⟩
  | some transport =>
      by_cases hruntime : w.hasRuntime
      · simp only [hruntime, if_true, Option.isSome_some, Bool.and_self]
        refine ⟨rfl, ?_⟩
        have hhanded : ∀ what : Happening, ((w.say .debug .delivery "sending telemetry event"
            [("event", .string event), ("transport", .string transport.name)]).note what).handed =
              w.handed ++ what.handed?.toList := by
          intro what
          have hsaid := congrArg Tally.handed (w.tally_say .debug .delivery "sending telemetry event"
            [("event", .string event), ("transport", .string transport.name)])
          rw [handed_note]
          exact congrArg (· ++ what.handed?.toList) hsaid
        have hevents : ∀ d : Delivery, (w.deliveries ++ [d]).map Delivery.event =
            w.deliveries.map Delivery.event ++ [d.event] :=
          fun d => List.map_append
        exact Tally.ext (hhanded _) (hevents _) rfl rfl
      · simp only [hruntime]
        exact ⟨rfl, w.tally_say _ _ _ _⟩

/-- A message that the program hands over past the reporter does not wait to be drained. -/
theorem books_post
    (event : String)
    (properties : Fields) :
    Books w (w.postOf event properties) (w.post .program event properties).2 := by
  have hpost := w.post_spec .program event properties
  unfold postOf
  split
  · rename_i henabled
    rw [if_pos henabled] at hpost
    obtain ⟨-, htally⟩ := hpost
    exact ⟨congrArg Tally.handed htally, congrArg Tally.events htally,
      (congrArg Tally.pending htally).trans (List.append_nil _).symm, congrArg Tally.stamps htally⟩
  · rename_i hdisabled
    rw [if_neg hdisabled] at hpost
    exact books_of_tally hpost.2

/-- A message that the reporter hands over waits to be drained. -/
theorem books_send
    (sender : Sender)
    (event : String)
    (properties : Fields) :
    Books w (w.sendOf sender event properties) (w.send sender event properties) := by
  have hpost := w.post_spec sender event (w.reporter.merged properties)
  unfold sendOf send isReporting
  cases henabled : w.reporter.enabled with
  | false =>
      exact books_of_tally rfl
  | true =>
      simp only [Bool.true_and, if_true]
      generalize w.post sender event (w.reporter.merged properties) = posted at hpost
      obtain ⟨sent, after⟩ := posted
      split
      · rename_i hclient
        rw [if_pos hclient] at hpost
        obtain ⟨rfl, htally⟩ := hpost
        have hpending : after.pending ++ [w.deliveries.length] =
            w.pending ++ [w.deliveries.length] :=
          congrArg (· ++ [w.deliveries.length]) (congrArg Tally.pending htally)
        exact ⟨congrArg Tally.handed htally, congrArg Tally.events htally, hpending,
          congrArg Tally.stamps htally⟩
      · rename_i hclient
        rw [if_neg hclient] at hpost
        obtain ⟨rfl, htally⟩ := hpost
        exact books_of_tally htally

theorem books_report
    (call : Nat)
    (e : Event) :
    Books w (w.reportOf call e) (w.report call e) :=
  w.books_send _ _ _

theorem books_act
    (list : String)
    (scope : Option Nat)
    (a : Action) :
    Books w (w.actionOf a) (w.act list scope a) := by
  have hrecord : ∀ deed finding, Books w [] (w.record list deed finding) :=
    fun deed finding => books_of_tally (w.tally_record list deed finding)
  cases a with
  | send name properties =>
      exact (w.books_send .program name properties).goes (tally_record _ _ _ _)
  | post event properties =>
      exact (w.books_post event properties).goes (tally_record _ list .post _)
  | contribute accessor stage key value =>
      cases scope with
      | none =>
          exact hrecord _ _
      | some n =>
          exact books_of_tally (tally_record _ list _ _)
  | contributeAll stage data =>
      simp only [act]
      cases h : w.contributeAll? scope stage data with
      | some after =>
          exact books_of_tally ((after.tally_record _ _ _).trans (w.tally_contributeAll? h))
      | none =>
          exact hrecord _ _
  | trigger s =>
      exact books_of_tally ((w.trigger s).2.tally_record _ _ _)
  | log line =>
      exact books_of_tally (w.tally_note rfl)
  | _ =>
      exact hrecord _ _

theorem books_build
    (list : String)
    (call : Nat)
    (steps : List BuildStep) :
    Books w (w.buildOf steps) (w.build list call steps).2 := by
  induction steps generalizing w with
  | nil =>
      exact books_of_tally rfl
  | cons step rest ih =>
      cases step with
      | panic p =>
          exact books_of_tally rfl
      | act a =>
          have hspares := (quiet_act 0 w list (some call) a).toSpares
          have hrest := ih (w.act list (some call) a)
          rw [hspares.buildOf] at hrest
          exact (w.books_act list (some call) a).trans hrest

theorem books_startDrain
    (id : Nat)
    (recorded : Bool) :
    Books w [.taken id w.pending] (w.startDrain id recorded) := by
  have htaken : Books w [.taken id w.pending] { w with pending := [] } :=
    ⟨(List.append_nil _).symm, (List.append_nil _).symm, List.append_nil (w.pending ++ []), rfl⟩
  simp only [startDrain]
  split
  · exact htaken.goes rfl
  · exact htaken.goes (tally_say _ _ _ _ _)

end Parts

/-! ## Turns -/

section Turns

variable (w : World) (id : Nat)

theorem books_openCall
    (subject : Subject)
    (propagate : Bool)
    (abandonAfter : Option Nat) :
    Books w (w.reportOf w.calls.length ⟨subject, .started⟩)
      (w.openCall id subject propagate abandonAfter) := by
  have hreport : Books w (w.reportOf w.calls.length ⟨subject, .started⟩)
      ((w.addCall (w.newCall id subject propagate abandonAfter)).report w.calls.length
        ⟨subject, .started⟩) :=
    Books.comes (w := w)
      (books_report (w.addCall (w.newCall id subject propagate abandonAfter)) w.calls.length
        ⟨subject, .started⟩) rfl
  exact hreport.goes (tally_listenFor _ _)

theorem books_instrument
    (list inner : String)
    (subject : Subject)
    (steps : List BuildStep)
    (body : Script)
    (propagate : Bool)
    (abandonAfter : Option Nat) :
    Books w (w.reportOf w.calls.length ⟨subject, .started⟩ ++ w.buildOf steps)
      (w.instrument id list inner subject steps body propagate abandonAfter) := by
  have hopened := w.books_openCall id subject propagate abandonAfter
  have hbuilt := books_build (w.openCall id subject propagate abandonAfter) inner w.calls.length steps
  rw [(w.spares_openCall id subject propagate abandonAfter).buildOf, ← build_readied _ w] at hbuilt
  rw [instrument_eq]
  generalize (w.openCall id subject propagate abandonAfter).build inner w.calls.length
    (w.readied steps) = built at hbuilt
  obtain ⟨panicked, built⟩ := built
  refine (hopened.trans hbuilt).goes ?_
  cases panicked with
  | some p =>
      exact (tally_hand _ id _ _).trans ((tally_record _ _ _ _).trans (built.tally_release _))
  | none =>
      rfl

theorem books_conclude
    (list : String)
    (number : Nat)
    (call : Call)
    (s : Settlement) :
    Books w (w.reportOf number (endingOf call s w.clock)) (w.conclude id list number call s) := by
  have hsettled : (((w.announce s).release number).settle number call s).tally = w.tally :=
    (tally_release _ number).trans (w.tally_announce s)
  have hspares : Spares id w (((w.announce s).release number).settle number call s) :=
    (quiet_before_settle id w number s).toSpares.trans (spares_settle id _ number call s)
  have hreport := books_report (((w.announce s).release number).settle number call s) number
    (endingOf call s (((w.announce s).release number).settle number call s).clock)
  have hledger : (((w.announce s).release number).settle number call s).reportOf number
      (endingOf call s (((w.announce s).release number).settle number call s).clock) =
        w.reportOf number (endingOf call s w.clock) := by
    rw [reportOf, reportOf, hspares.sendOf, hspares.clock]
  rw [hledger] at hreport
  have hhanded := ((w.reportEnding number call s).record list .instrument
    (.outcome s.outcome)).tally_hand id s.outcome call.propagate
  exact (hreport.comes hsettled).goes (hhanded.trans (tally_record _ _ _ _))

theorem books_decide
    (list : String)
    (number : Nat) :
    Books w (w.raceOf number) (w.decide id list number) := by
  unfold raceOf decide
  cases w.calls[number]? with
  | none =>
      exact books_of_tally rfl
  | some call =>
      simp only
      cases w.settlement? call with
      | some s =>
          exact w.books_conclude id list number call s
      | none =>
          simp only
          split
          · exact books_of_tally ((tally_record _ _ _ _).trans (w.tally_release number))
          · exact books_of_tally rfl

/-- Nothing is written down of a race that has not been decided. -/
theorem raceOf_of_stays
    {strand : Strand}
    {number : Nat}
    (hstrand : w.strands[id]? = some strand)
    (hracing : strand.status = .racing number)
    (hstays : ¬ w.canAdvance id = true) :
    w.raceOf number = [] := by
  unfold raceOf
  cases hcall : w.calls[number]? with
  | none =>
      rfl
  | some call =>
      simp only
      cases hsettled : w.settlement? call with
      | some s =>
          refine absurd ?_ hstays
          simp [canAdvance, hstrand, hracing, hcall, hsettled]
      | none =>
          rfl

theorem stepOf_pass
    (rest : Script)
    (step : Step) :
    (w.pass id rest).stepOf id step = w.stepOf id step := by
  have hspares : Spares id w (w.pass id rest) := spares_withStrand id w _
  cases step with
  | act a =>
      exact hspares.actionOf a
  | instrument name subject build body propagate abandonAfter =>
      rw [stepOf, stepOf, hspares.buildOf]
      rfl
  | _ =>
      rfl

/-- A step of a strand keeps to what has been written down of it. -/
theorem books_perform
    (strand : Strand)
    (step : Step) :
    Books w (w.stepOf id step) (w.perform id strand step) := by
  cases step with
  | act a =>
      exact w.books_act strand.list strand.scope a
  | succeed value =>
      exact books_of_tally (w.tally_finish id _)
  | fail f =>
      exact books_of_tally (w.tally_finish id _)
  | panic p =>
      exact books_of_tally (w.tally_finish id _)
  | drain recorded =>
      exact w.books_startDrain id recorded
  | settle posted =>
      simp only [perform]
      split
      · exact books_of_tally rfl
      · exact books_of_tally (w.tally_record _ _ _)
  | instrument name subject build body propagate abandonAfter =>
      exact w.books_instrument id _ _ _ _ _ _ _
  | passOn texts =>
      exact books_of_tally (w.tally_passOn id texts)
  | parallel name branches propagate =>
      exact books_of_tally (w.tally_addBranches strand _ 0 branches)
  | spawn name body wait =>
      simp only [perform]
      by_cases hruntime : w.hasRuntime = true
      · simp only [hruntime, if_true]
        split
        · exact books_of_tally rfl
        · exact books_of_tally rfl
      · simp only [hruntime]
        exact books_of_tally (w.tally_finish id _)
  | _ =>
      exact books_of_tally rfl

/-- The turn of a strand keeps to what has been written down of it. -/
theorem books_advance :
    Books w (w.turnOf id) (w.advance id) := by
  unfold turnOf advance
  cases hstrand : w.strands[id]? with
  | none =>
      exact books_of_tally rfl
  | some strand =>
      simp only
      cases hstatus : strand.status with
      | ready =>
          have hgoes : w.canAdvance id = true := by
            simp [canAdvance, hstrand, hstatus]
          rw [if_pos hgoes, stepForward]
          cases strand.rest with
          | nil =>
              exact books_of_tally (w.tally_finish id _)
          | cons step rest =>
              have hperform := (w.pass id rest).books_perform id strand step
              rw [w.stepOf_pass] at hperform
              exact hperform.comes (w := w) rfl
      | racing number =>
          simp only
          split
          · exact w.books_decide id strand.list number
          · rename_i hstays
            rw [w.raceOf_of_stays id hstrand hstatus hstays]
            exact books_of_tally rfl
      | draining batch recorded =>
          simp only
          split
          · exact books_of_tally (w.tally_drain id strand.list batch recorded)
          · exact books_of_tally rfl
      | settling delivery =>
          simp only
          split
          · exact books_of_tally ((tally_record _ _ _ _).trans (w.tally_complain [delivery]))
          · exact books_of_tally rfl
      | joining branches propagate =>
          simp only
          split
          · split
            · exact books_of_tally ((tally_handAll _ id _ propagate).trans (w.tally_record _ _ _))
            · exact books_of_tally rfl
          · exact books_of_tally rfl
      | awaiting task =>
          simp only
          split
          · split
            · exact books_of_tally (w.tally_record _ _ _)
            · exact books_of_tally (w.tally_record _ _ _)
          · exact books_of_tally rfl
      | _ =>
          simp only
          split
          · exact books_of_tally rfl
          · exact books_of_tally rfl

end Turns

/-- A move keeps to what has been written down of it. -/
theorem books_move
    (w : World)
    (m : Move) :
    Books w (w.ledgerOf m) (w.move m) := by
  cases m with
  | advance id =>
      exact w.books_advance id
  | deliver id =>
      exact books_of_tally (w.tally_deliver id)
  | abort task =>
      exact books_of_tally (w.tally_abort task)
  | _ =>
      exact books_of_tally rfl

end World
end LifecycleTelemetry
