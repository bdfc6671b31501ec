import LifecycleTelemetry.Proofs.Operation.ReportsOnce
import LifecycleTelemetry.Proofs.Operation.Verdict

/-!
# Which panics are reported

A panic that ends a call was raised by its operation, or by the part that builds the operation.
Both are resumed in the strand of the call. But the race starts only when the operation has been
built, and only what comes out of the race is reported: a panic of the operation is reported as
an error before it is resumed, and one of the part that builds it is never reported at all.
-/

namespace LifecycleTelemetry
namespace World

/-- A panic has ended a call: it was raised by the operation, or while the operation was built. -/
inductive EndedByPanic (call : Call) (p : PanicPayload) : Prop where
  | operation
      (hphase : call.phase = .settled (.panicked p))
  | building
      (hphase : call.phase = .collapsed p)

/-- The description of a panic has the text of the payload, where that is a text, and else none. -/
def Describes (info : ErrorInfo) (p : PanicPayload) : Prop :=
  ∀ text, info.message = some text ↔ p = .fixedText text ∨ p = .ownedText text

theorem describes_ofPanic
    (p : PanicPayload) :
    Describes (.ofPanic p) p := by
  intro text
  cases p with
  | _ =>
      simp [ErrorInfo.ofPanic, PanicPayload.text?]

/-- A call has reported its start, and then that it ended in an error that is a given panic. -/
def PanicReported (w : World) (n : Nat) (call : Call) (p : PanicPayload) : Prop :=
  ∃ info stop contributed, Describes info p ∧
    w.reports n = [w.startReport call,
      w.reportAt stop
        ⟨call.subject, .ended (.errored info) contributed (elapsed call.startedAt stop)⟩]

/-- Which panics are reported in a program that has come from one world to another. -/
structure PanicReports (first w : World) : Prop where
  /-- A panic that ended a call is reported exactly when the operation raised it. -/
  reported_iff : ∀ n call p, w.calls[n]? = some call → EndedByPanic call p →
    (PanicReported w n call p ↔ call.phase = .settled (.panicked p))
  /-- Any other panic is never reported, whatever happens later. -/
  silent : ∀ n call p later, w.calls[n]? = some call → call.phase = .collapsed p →
    Evolves w later → later.reports n = [w.startReport call]
  /-- Every panic that ended a call was resumed in the strand of the call, and what the call
  reports at all had been reported by then. -/
  resumed : ∀ n call p, w.calls[n]? = some call → EndedByPanic call p →
    ∃ u id strand, Evolves first u ∧ u.strands[id]? = some strand ∧
      (u.advance id).history.head? =
        some ⟨u.clock, .recorded strand.list .instrument (.outcome (.panic p))⟩ ∧
      (u.advance id).reports n = w.reports n ∧ Evolves (u.advance id) w
  /-- When an operation has panicked, the next turn of the strand that waits for it reports the
  panic and then resumes it. -/
  operation : ∀ id strand number call body p,
    w.strands[id]? = some strand → strand.status = .racing number →
    w.calls[number]? = some call → call.phase = .racing body →
    w.outcome? body = some (.panic p) →
    let reported := w.reportEnding number call (.panicked p)
    PanicReported reported number call p ∧
      w.advance id =
        (reported.record strand.list .instrument (.outcome (.panic p))).hand id (.panic p)
          call.propagate
  /-- When the part that builds an operation panics, the turn resumes the panic and reports
  nothing. -/
  building : ∀ id strand name subject steps body rest propagate abandonAfter p built,
    w.strands[id]? = some strand → strand.status = .ready →
    strand.rest = .instrument name subject steps body propagate abandonAfter :: rest →
    ((w.pass id rest).openCall id subject propagate abandonAfter).build
      (innerName strand.list strand.index name) w.calls.length steps = (some p, built) →
    (∃ call, (w.advance id).calls[w.calls.length]? = some call ∧ call.phase = .collapsed p) ∧
      (w.advance id).reports w.calls.length = [w.reportAt w.clock ⟨subject, .started⟩] ∧
      (w.advance id).history.head? =
        some ⟨w.clock, .recorded strand.list .instrument (.outcome (.panic p))⟩

section PanicReports

variable {w : World}

theorem Accounted.panicReported_iff
    (hw : Accounted w)
    {n : Nat}
    {call : Call}
    {p : PanicPayload}
    (hcall : w.calls[n]? = some call)
    (hended : EndedByPanic call p) :
    PanicReported w n call p ↔ call.phase = .settled (.panicked p) := by
  have hreported := hw.hasReported hcall
  cases hended with
  | operation hphase =>
      simp only [HasReported, hphase] at hreported
      obtain ⟨stop, contributed, -, -, heq⟩ := hreported
      refine ⟨fun _ => hphase, fun _ => ?_⟩
      exact ⟨.ofPanic p, stop, contributed, describes_ofPanic p, heq⟩
  | building hphase =>
      simp only [HasReported, hphase] at hreported
      constructor
      · rintro ⟨info, stop, contributed, -, heq⟩
        simp [hreported] at heq
      · intro hsettled
        simp [hphase] at hsettled

theorem Accounted.silent
    (hw : Accounted w)
    {n : Nat}
    {call : Call}
    {p : PanicPayload}
    {later : World}
    (hcall : w.calls[n]? = some call)
    (hphase : call.phase = .collapsed p)
    (hlater : Evolves w later) :
    later.reports n = [w.startReport call] := by
  have hreported := hw.hasReported hcall
  simp only [HasReported, hphase] at hreported
  have hover : call.outline.phase.isOver = true := by
    simp [Call.outline, hphase, CallPhase.isOver]
  rw [(hlater.of_isOver hw.owned (getElem?_outlines hcall) hover).2, hreported]

theorem Accounted.operation
    (hw : Accounted w)
    {number : Nat}
    {call : Call}
    {p : PanicPayload}
    (hcall : w.calls[number]? = some call)
    (hsettled : w.settlement? call = some (.panicked p)) :
    PanicReported (w.reportEnding number call (.panicked p)) number call p := by
  have hspares := spares_reportEnding 0 w number call (.panicked p)
  refine ⟨.ofPanic p, w.clock, (call.contributions.take .errored).1, describes_ofPanic p, ?_⟩
  rw [hw.closing hcall hsettled, startReport, startReport, hspares.endures.reportAt,
    hspares.endures.reportAt]
  rfl

/-- What a turn does in which the operation of a call could not be built. -/
theorem Accounted.building
    (hw : Accounted w)
    {id : Nat}
    {strand : Strand}
    {name : Option String}
    {subject : Subject}
    {steps : List BuildStep}
    {body rest : Script}
    {propagate : Bool}
    {abandonAfter : Option Nat}
    {p : PanicPayload}
    {built : World}
    (hstrand : w.strands[id]? = some strand)
    (hready : strand.status = .ready)
    (hrest : strand.rest = .instrument name subject steps body propagate abandonAfter :: rest)
    (hbuilt : ((w.pass id rest).openCall id subject propagate abandonAfter).build
      (innerName strand.list strand.index name) w.calls.length steps = (some p, built)) :
    (∃ call, (w.advance id).calls[w.calls.length]? = some call ∧ call.phase = .collapsed p) ∧
      (w.advance id).reports w.calls.length = [w.reportAt w.clock ⟨subject, .started⟩] ∧
      (w.advance id).history.head? =
        some ⟨w.clock, .recorded strand.list .instrument (.outcome (.panic p))⟩ := by
  have hreadied := readied_of_hasRuntime (w := w.pass id rest) hw.hasRuntime steps
  rw [w.advance_of_opening id hstrand hready hrest]
  rcases opens_instrument id (w.pass id rest) strand.list
    (innerName strand.list strand.index name) subject steps body propagate abandonAfter with
    ⟨p', hp, hopens, hhead⟩ | ⟨hnone, -⟩
  · rw [hreadied] at hp
    have hsame : some p' = some p := hp.symm.trans (congrArg Prod.fst hbuilt)
    cases hsame
    refine ⟨?_, ?_, hhead⟩
    · have houtline : ((w.pass id rest).instrument id strand.list
          (innerName strand.list strand.index name) subject steps body propagate
          abandonAfter).outlines[w.calls.length]? =
            some (((w.pass id rest).newCall id subject propagate abandonAfter).withPhase
              (.collapsed p)) := by
        rw [hopens.outlines, ← outlines_length w]
        exact List.getElem?_concat_length
      rw [outlines, List.getElem?_map] at houtline
      obtain ⟨call, hcall, hout⟩ := Option.map_eq_some_iff.mp houtline
      exact ⟨call, hcall, congrArg Call.phase hout⟩
    · obtain ⟨hreporting, hnone⟩ := hw.fresh id rest
      rw [hopens.reports, if_pos ⟨rfl, hreporting⟩, hnone]
      rfl
  · rw [hreadied] at hnone
    have hsame : none = some p := hnone.symm.trans (congrArg Prod.fst hbuilt)
    cases hsame

theorem resumed_of_evolves
    {first : World}
    (hfirst : first.calls = [])
    (howned : RacesOwned first)
    (h : Evolves first w)
    {n : Nat}
    {call : Call}
    {p : PanicPayload}
    (hcall : w.calls[n]? = some call)
    (hended : EndedByPanic call p) :
    ∃ u id strand, Evolves first u ∧ u.strands[id]? = some strand ∧
      (u.advance id).history.head? =
        some ⟨u.clock, .recorded strand.list .instrument (.outcome (.panic p))⟩ ∧
      (u.advance id).reports n = w.reports n ∧ Evolves (u.advance id) w := by
  have hnone : first.outlines[n]? ≠ some call.outline := by
    simp [outlines, hfirst]
  have hsame : ∀ u id, Evolves first u → (u.advance id).outlines[n]? = some call.outline →
      call.phase.isOver = true → Evolves (u.advance id) w →
      (u.advance id).reports n = w.reports n := by
    intro u id hpast hbrought hover hlater
    have hu : RacesOwned (u.advance id) := howned.evolves (.move (.advance id) hpast)
    exact (hlater.of_isOver hu hbrought hover).2.symm
  cases hended with
  | operation hphase =>
      rcases h.origin_settled howned (getElem?_outlines hcall) hphase with
        hold | ⟨u, id, strand, before, hpast, hstrand, hracing, hbefore, hsettled, hbrought, hlater⟩
      · exact (hnone hold).elim
      · refine ⟨u, id, strand, hpast, hstrand, ?_, ?_, hlater⟩
        · rw [u.advance_of_decided id hstrand hracing hbefore hsettled]
          exact head_conclude id u strand.list n before (.panicked p)
        · exact hsame u id hpast hbrought (by simp [hphase, CallPhase.isOver]) hlater
  | building hphase =>
      rcases h.origin_collapsed howned (getElem?_outlines hcall) hphase with
        hold | ⟨u, id, strand, hpast, hstrand, hbrought, hhead, hlater⟩
      · exact (hnone hold).elim
      · refine ⟨u, id, strand, hpast, hstrand, hhead, ?_, hlater⟩
        exact hsame u id hpast hbrought (by simp [hphase, CallPhase.isOver]) hlater

end PanicReports

/-- Under a reporter that reports, a panic that ends a call is reported before it is resumed
exactly when the operation raised it. -/
theorem panicReports_of_evolves
    {reporter : Reporter}
    (henabled : reporter.enabled = true)
    (htransport : reporter.client.isEnabled = true)
    {stamps : Nat → Int}
    {source : InterruptSource}
    {plans : List DeliveryPlan}
    {w : World}
    (h : Evolves (World.start reporter true stamps source plans) w) :
    PanicReports (World.start reporter true stamps source plans) w := by
  have hw := (accounted_start henabled htransport stamps source plans).evolves h
  refine ⟨?_, ?_, ?_, ?_, ?_⟩
  · exact fun n call p hcall hended => hw.panicReported_iff hcall hended
  · exact fun n call p later hcall hphase hlater => hw.silent hcall hphase hlater
  · intro n call p hcall hended
    exact resumed_of_evolves rfl (racesOwned_of_evolves .refl) h hcall hended
  · intro id strand number call body p hstrand hracing hcall hphase hended
    have hsettled := settlement?_of_ended hphase hended
    refine ⟨hw.operation hcall hsettled, ?_⟩
    rw [w.advance_of_decided id hstrand hracing hcall hsettled]
    rfl
  · intro id strand name subject steps body rest propagate abandonAfter p built
    exact fun hstrand hready hrest hbuilt => hw.building hstrand hready hrest hbuilt

/-- For instance, in a program whose operation panics. -/
theorem panicReports_plainRun :
    let script := [.instrument none (.session []) [] [.panic (.fixedText "boom")] false none]
    let w := plainRun [] script [.advance 0, .advance 1, .advance 0]
    plainReporter.enabled = true ∧ plainReporter.client.isEnabled = true ∧
      (w.reports 0).map Report.stage = [.started, .errored] ∧
      PanicReports (World.start plainReporter true plainStamps .channel []) w :=
  ⟨rfl, rfl, by decide +kernel, panicReports_of_evolves rfl rfl (evolves_plainRun _ _ _)⟩

/-- Not every panic that ends a call is reported: when the part that builds the operation
panics, the panic is resumed, and the start is all that has been reported. -/
theorem panic_unreported :
    let script := [.instrument none (.session []) [.panic (.fixedText "boom")] [] false none]
    let w := plainRun [] script [.advance 0]
    (w.reports 0).map Report.stage = [.started] ∧
      w.history.head? =
        some ⟨0, .recorded "top" .instrument (.outcome (.panic (.fixedText "boom")))⟩ ∧
      ¬ ∀ n call p, w.calls[n]? = some call → EndedByPanic call p → PanicReported w n call p := by
  intro script w
  have hstages : (w.reports 0).map Report.stage = [.started] := by decide +kernel
  refine ⟨hstages, by decide +kernel, ?_⟩
  intro hreported
  have hphase : (w.calls[0]?).map Call.phase = some (.collapsed (.fixedText "boom")) := rfl
  obtain ⟨call, hcall, hcollapsed⟩ := Option.map_eq_some_iff.mp hphase
  obtain ⟨info, stop, contributed, -, heq⟩ := hreported 0 call _ hcall (.building hcollapsed)
  simp [heq] at hstages

end World
end LifecycleTelemetry
