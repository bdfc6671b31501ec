import LifecycleTelemetry.Operation.Process
import LifecycleTelemetry.Proofs.Interrupt.Process
import LifecycleTelemetry.Proofs.Operation.Hearing

/-!
# Signals reach an operation or end the process

Listeners last as long as races. So from before the code of an operation runs until its race has been
decided, a signal of the system waits for the operation and the process goes on; and when no race is
undecided, be it that deliveries are still under way, the next signal ends the process.

In the middle of a turn this is a matter of two moments: when a call is made, the listener is there before
any of the code that builds its operation runs, and when a race is decided, the listener is gone before the
ending is handed over.
-/

namespace LifecycleTelemetry
namespace World

/-- What a world may become next, apart from what signals do. -/
inductive Goes (w : World) : World → Prop where
  | move
      (m : Move)
      (h : ∀ s, m ≠ .signal s) :
      Goes w (w.move m)
  | script
      (s : Script)
      (hover : (w.outcome? 0).isSome) :
      Goes w (w.beginScript s)
  | rouse
      (woken : List TaskId) :
      Goes w { w with woken }
  | mark
      (pending listeners : Nat) :
      Goes w (w.note (.scriptEnded pending listeners))

/-- A signal is the last one that waits for a call, which is undecided. -/
def Queued (w : World) (n : Nat) (s : Signal) : Prop :=
  ∃ c r unread, w.calls[n]? = some c ∧ c.phase.isOver = false ∧ c.listener = .receiver r ∧
    w.channel.waiting? r = some unread ∧ unread.getLast? = some s

/-- What a signal does to a process at some moment. -/
structure TakesSignals (earlier : Bool) (w : World) : Prop where
  /-- While some race is undecided the process goes on, and the signal waits for all undecided races. -/
  delivered : ∀ s, w.undecided ≠ 0 → w.receive earlier s = .running (w.move (.signal s)) ∧
    ∀ n c, w.calls[n]? = some c → c.phase.isOver = false → (w.move (.signal s)).Queued n s
  /-- While there is none the process ends, once it has listened. -/
  ended : ∀ s, w.undecided = 0 → earlier = true ∨ w.calls ≠ [] →
    w.receive earlier s = .exited (128 + s.number)

/-- What a signal does to a process between turns and in the middle of a turn. -/
structure SignalsScoped (earlier : Bool) (w : World) : Prop extends TakesSignals earlier w where
  /-- While an operation is built its call is undecided, so that signals wait for it. -/
  opening : ∀ (id : Nat) (strand : Strand) (name : Option String) (subject : Subject)
      (before after : List BuildStep) (body rest : Script) (propagate : Bool)
      (abandonAfter : Option Nat),
    w.strands[id]? = some strand → strand.status = .ready →
    strand.rest = .instrument name subject (before ++ after) body propagate abandonAfter :: rest →
    let inner := innerName strand.list strand.index name
    let during := ((w.pass id rest).openCall id subject propagate abandonAfter).build inner
      w.calls.length before
    during.1 = none →
    TakesSignals earlier during.2 ∧ ∀ s,
      during.2.receive earlier s = .running (during.2.move (.signal s)) ∧
        (during.2.move (.signal s)).Queued w.calls.length s
  /-- When the last race has been decided signals end the process, even before the ending is handed
  over. -/
  closing : ∀ (id : Nat) (strand : Strand) (number : Nat) (call : Call) (settlement : Settlement),
    w.strands[id]? = some strand → strand.status = .racing number →
    w.calls[number]? = some call → w.settlement? call = some settlement →
    let before := ((w.announce settlement).release number).settle number call settlement
    TakesSignals earlier before ∧ before.reports number = w.reports number ∧
      ((∀ n c, w.calls[n]? = some c → n ≠ number → c.phase.isOver = true) →
        ∀ s, before.receive earlier s = .exited (128 + s.number))

section Process

variable {earlier : Bool} {w : World}

/-- What a signal makes of a process, by its races. -/
theorem Listens.receive_cases
    (hw : Listens w)
    (earlier : Bool)
    (s : Signal) :
    earlier = false ∧ w.calls = [] ∧ w.receive earlier s = .killed s ∨
      (earlier = true ∨ w.calls ≠ []) ∧ w.undecided = 0 ∧
          w.receive earlier s = .exited (128 + s.number) ∨
        w.undecided ≠ 0 ∧ w.receive earlier s = .running (w.move (.signal s)) := by
  have hactive : w.channel.active = w.undecided := hw.active
  rcases (w.dispatcher earlier).receive_cases s with ⟨hfresh, heffect⟩ | ⟨hused, hnone, heffect⟩ |
    ⟨-, hsome, heffect⟩
  · simp only [dispatcher, Bool.or_eq_false_iff, Bool.not_eq_false', List.isEmpty_iff] at hfresh
    refine .inl ⟨hfresh.1, hfresh.2, ?_⟩
    rw [receive, heffect]
    rfl
  · simp only [dispatcher, Bool.or_eq_true, Bool.not_eq_true', List.isEmpty_eq_false_iff] at hused
    refine .inr (.inl ⟨hused, hactive.symm.trans hnone, ?_⟩)
    rw [receive, heffect]
    rfl
  · refine .inr (.inr ⟨fun h => hsome (hactive.trans h), ?_⟩)
    rw [receive, heffect]
    rfl

/-- An undecided call is counted. -/
theorem undecided_ne_zero
    {n : Nat}
    {c : Call}
    (hcall : w.calls[n]? = some c)
    (hopen : c.phase.isOver = false) :
    w.undecided ≠ 0 := by
  intro h
  have hover := List.countP_eq_zero.mp h c (List.mem_of_getElem? hcall)
  simp [hopen] at hover

theorem Listens.queued
    (hw : Listens w)
    {n : Nat}
    {c : Call}
    (hcall : w.calls[n]? = some c)
    (hopen : c.phase.isOver = false)
    (s : Signal) :
    (w.move (.signal s)).Queued n s := by
  obtain ⟨r, hplace, hlistener⟩ := hw.installed n c hcall hopen
  obtain ⟨unread, hwaits⟩ := w.channel.mem_ids_iff.mp hplace
  have hafter : (w.move (.signal s)).channel.waiting? r =
      some (Channel.keepLast (unread ++ [s])) := by
    have htriggered := w.channel.waiting?_trigger s r
    rw [hwaits] at htriggered
    exact htriggered
  exact ⟨c, r, _, hcall, hopen, hlistener, hafter, Channel.getLast?_keepLast_concat unread s⟩

theorem Listens.takesSignals
    (hw : Listens w)
    (earlier : Bool) :
    TakesSignals earlier w where
  delivered := by
    intro s hsome
    refine ⟨?_, fun n c hcall hopen => hw.queued hcall hopen s⟩
    rcases hw.receive_cases earlier s with ⟨-, hnone, -⟩ | ⟨-, hidle, -⟩ | ⟨-, hreceive⟩
    · rw [undecided, hnone] at hsome
      exact absurd rfl hsome
    · exact absurd hidle hsome
    · exact hreceive
  ended := by
    intro s hidle hused
    rcases hw.receive_cases earlier s with ⟨hnever, hnone, -⟩ | ⟨-, -, hreceive⟩ | ⟨hsome, -⟩
    · rcases hused with hused | hused
      · rw [hnever] at hused
        cases hused
      · exact absurd hnone hused
    · exact hreceive
    · exact absurd hidle hsome

theorem ListenersScoped.signalsScoped
    (hw : ListenersScoped w)
    (earlier : Bool) :
    SignalsScoped earlier w where
  toTakesSignals := hw.toListens.takesSignals earlier
  opening := by
    intro id strand name subject before after body rest propagate abandonAfter hstrand hready hrest
      inner during hgoes
    obtain ⟨hlistens, ⟨c, hcall, hphase⟩, -⟩ := hw.opening id strand name subject before after body
      rest propagate abandonAfter hstrand hready hrest hgoes
    have hopen : c.phase.isOver = false := by
      rw [hphase]
      rfl
    have htakes := hlistens.takesSignals earlier
    refine ⟨htakes, fun s => ?_⟩
    obtain ⟨hreceive, hqueued⟩ := htakes.delivered s (undecided_ne_zero hcall hopen)
    exact ⟨hreceive, hqueued _ c hcall hopen⟩
  closing := by
    intro id strand number call settlement hstrand hracing hcall hsettled before
    obtain ⟨hlistens, ⟨c, hdone, hphase⟩, hreports, -⟩ :=
      hw.closing id strand number call settlement hstrand hracing hcall hsettled
    refine ⟨hlistens.takesSignals earlier, hreports, fun hothers s => ?_⟩
    have hears : before.ears = w.ears.modify number fun _ => (.unarmed, .settled settlement) := by
      have hleft : before.ears =
          (w.announce settlement).ears.modify number fun _ => (.unarmed, .settled settlement) :=
        ears_leave (w.announce settlement) number (.settled settlement) fun _ => rfl
      have hsame : (w.announce settlement).ears = w.ears := by
        rw [ears, (w.apart_announce settlement).calls, ears]
      rw [hsame] at hleft
      exact hleft
    have hidle : before.undecided = 0 := by
      rw [undecided_eq, hears, List.countP_eq_zero]
      intro e he
      obtain ⟨n, hn⟩ := List.getElem?_of_mem he
      rw [List.getElem?_modify] at hn
      obtain ⟨old, hold, rfl⟩ := Option.map_eq_some_iff.mp hn
      by_cases hnumber : number = n
      · simp [hnumber, CallPhase.isOver]
      · obtain ⟨d, hd, rfl⟩ := call_of_ears hold
        simpa [hnumber, Call.ear] using hothers n d hd fun h => hnumber h.symm
    refine (hlistens.takesSignals earlier).ended s hidle (.inr fun hnil => ?_)
    rw [hnil] at hdone
    cases hdone

/-- As long as a process runs, what it does is what a world may become. -/
theorem evolves_of_lives
    {first : World}
    {fate : Fate World}
    (hfirst : Attuned first)
    (h : Lives Goes (World.receive earlier) first fate) :
    ∀ w, fate = .running w → Evolves first w := by
  refine h.induct .refl ?_ ?_
  · intro x y hx hgoes
    cases hgoes with
    | move m _ =>
        exact .move m hx
    | script s hover =>
        exact .script s hx hover
    | rouse woken =>
        exact .rouse woken hx
    | mark pending listeners =>
        exact .mark pending listeners hx
  · intro x s y hx hreceive
    have hlistens := (hfirst.evolves hx).listens
    rcases hlistens.receive_cases earlier s with ⟨-, -, heq⟩ | ⟨-, -, heq⟩ | ⟨-, heq⟩
    · rw [heq] at hreceive
      cases hreceive
    · rw [heq] at hreceive
      cases hreceive
    · rw [heq] at hreceive
      cases hreceive
      exact .move (.signal s) hx

theorem fares_of_attuned
    {first : World}
    {fate : Fate World}
    (hfirst : Attuned first)
    (h : Lives Goes (World.receive earlier) first fate) :
    Fares (Lives Goes (World.receive earlier) first) (SignalsScoped earlier)
      (fun w => w.undecided = 0) (fun w => earlier = false ∧ w.calls = []) fate := by
  refine h.fares ?_ ?_
  · intro w hw
    exact (hfirst.evolves (evolves_of_lives hfirst hw w rfl)).listenersScoped.signalsScoped earlier
  · intro w s hw
    have hlistens := (hfirst.evolves (evolves_of_lives hfirst hw w rfl)).listens
    rcases hlistens.receive_cases earlier s with ⟨hnever, hnone, hkilled⟩ | ⟨-, hidle⟩ |
      ⟨-, hrunning⟩
    · exact .inl ⟨⟨hnever, hnone⟩, hkilled⟩
    · exact .inr (.inl hidle)
    · exact .inr (.inr ⟨_, hrunning⟩)

theorem lives_moves
    {first : World}
    (h : Lives Goes (World.receive earlier) first (.running w))
    {ms : List Move}
    (hms : ∀ m ∈ ms, ∀ s, m ≠ .signal s) :
    Lives Goes (World.receive earlier) first (.running (w.moves ms)) := by
  induction ms generalizing w with
  | nil =>
      exact h
  | cons m rest ih =>
      exact ih (h.step (.move m (hms m List.mem_cons_self)))
        fun other hother => hms other (List.mem_cons_of_mem m hother)

theorem lives_plainRun
    (earlier : Bool)
    (plans : List DeliveryPlan)
    (script : Script)
    {ms : List Move}
    (hms : ∀ m ∈ ms, ∀ s, m ≠ .signal s) :
    Lives Goes (World.receive earlier) (World.start plainReporter true plainStamps .channel plans)
      (.running (plainRun plans script ms)) :=
  lives_moves (.step .refl (.script script rfl)) hms

end Process

/-- Whatever a process does with its listeners and its operations, and whenever signals of the system
come: they wait for every listener that may fire and for every race that is undecided, and end the process
when there is none. -/
theorem signals_fare
    {earlier : Bool}
    {reporter : Reporter}
    {hasRuntime : Bool}
    {stamps : Nat → Int}
    {plans : List DeliveryPlan}
    {held : Fate Audience}
    {fate : Fate World}
    (hheld : Lives Audience.Goes Audience.receive .new held)
    (h : Lives Goes (World.receive earlier) (World.start reporter hasRuntime stamps .channel plans)
      fate) :
    Fares (Lives Audience.Goes Audience.receive .new) Audience.TakesSignals
        (fun a => a.outstanding = []) (fun a => a.seats = []) held ∧
      Fares (Lives Goes (World.receive earlier)
          (World.start reporter hasRuntime stamps .channel plans))
        (SignalsScoped earlier) (fun w => w.undecided = 0)
        (fun w => earlier = false ∧ w.calls = []) fate :=
  ⟨Audience.fares_of_lives hheld, fares_of_attuned (attuned_start reporter hasRuntime stamps plans) h⟩

/-- For instance, when a listener fires with the first of two signals, so that the second one ends the
process, and when a signal comes while a program waits for its deliveries after its only race. -/
theorem signals_fare_plainRun :
    let fired := ((Audience.new.use .listen).use (.trigger .interrupt)).use (.poll 0)
    let script : Script := [.instrument none (.session []) [] [] false none, .drain true]
    let w := plainRun [⟨some 100, .succeed⟩] script
      [.advance 0, .advance 1, .advance 0, .advance 0]
    (fired.received 0 = [.interrupt] ∧ fired.receive .terminate = .exited 143) ∧
      ((w.strands.map fun strand => strand.status matches .draining _ _) = [true, false] ∧
        (w.dispatcher false).receive .interrupt = .exited 130) ∧
      (Fares (Lives Audience.Goes Audience.receive .new) Audience.TakesSignals
          (fun a => a.outstanding = []) (fun a => a.seats = []) (fired.receive .terminate) ∧
        Fares (Lives Goes (World.receive false)
            (World.start plainReporter true plainStamps .channel [⟨some 100, .succeed⟩]))
          (SignalsScoped false) (fun w => w.undecided = 0)
          (fun w => false = false ∧ w.calls = []) (w.receive false .interrupt)) := by
  refine ⟨⟨by decide, by decide⟩, ⟨by decide +kernel, by decide +kernel⟩, ?_⟩
  refine signals_fare ?_ ?_
  · have hlistens : Lives Audience.Goes Audience.receive .new
        (.running (Audience.new.use .listen)) :=
      .step .refl .listen
    have hdelivered : (Audience.new.use .listen).receive .interrupt =
        .running ((Audience.new.use .listen).use (.trigger .interrupt)) := by
      decide
    have hwaits := hlistens.receive .interrupt
    rw [hdelivered] at hwaits
    exact .receive .terminate (.step hwaits (.poll 0))
  · exact .receive .interrupt (lives_plainRun false _ _ (by simp))

end World
end LifecycleTelemetry
