import LifecycleTelemetry.Interrupt.Process
import LifecycleTelemetry.Proofs.Interrupt.Faithful

/-!
# Signals reach a listener or end the process

A signal of the system that comes while some listener has neither been dropped nor fired waits for every
such listener, and the process goes on. One that comes while there is none ends the process with the exit
status of the signal. There is no third way, as long as the dispatcher has been installed.

`Lives` is how a process may fare, for any kind of state and of steps, and `Fares` what is shown of it.
-/

namespace LifecycleTelemetry

/-! ## The life of a process -/

section Lives

variable {α : Type}

/-- What may become of a process that begins in a state: it takes steps, and signals come in between. -/
inductive Lives (goes : α → α → Prop) (receive : α → Signal → Fate α) (first : α) : Fate α → Prop
  where
  | refl : Lives goes receive first (.running first)
  | step
      {x y : α}
      (h : Lives goes receive first (.running x))
      (hgoes : goes x y) :
      Lives goes receive first (.running y)
  | receive
      {x : α}
      (s : Signal)
      (h : Lives goes receive first (.running x)) :
      Lives goes receive first (receive x s)

variable {goes : α → α → Prop} {receive : α → Signal → Fate α} {first : α} {fate : Fate α}

/-- What holds of the first state, and is kept by steps and by signals that are delivered, holds as long
as the process runs. -/
theorem Lives.induct
    {P : α → Prop}
    (h : Lives goes receive first fate)
    (hfirst : P first)
    (hgoes : ∀ x y, P x → goes x y → P y)
    (hreceive : ∀ x s y, P x → receive x s = .running y → P y) :
    ∀ x, fate = .running x → P x := by
  induction h with
  | refl =>
      intro x hx
      cases hx
      exact hfirst
  | step _ hstep ih =>
      intro x hx
      cases hx
      exact hgoes _ _ (ih _ rfl) hstep
  | receive s _ ih =>
      intro y hy
      exact hreceive _ s y (ih _ rfl) hy

/-- A process that does not run any more was ended by the last signal that came. -/
theorem Lives.ended
    (h : Lives goes receive first fate)
    (hended : ∀ x, fate ≠ .running x) :
    ∃ x s, Lives goes receive first (.running x) ∧ receive x s = fate := by
  cases h with
  | refl =>
      exact absurd rfl (hended first)
  | step _ _ =>
      exact absurd rfl (hended _)
  | receive s h =>
      exact ⟨_, s, h, rfl⟩

/-- How signals and the end of a process belong together. `takes` says what signals do to a state,
`isIdle` that nothing listens, and `isFresh` that nothing ever has. -/
structure Fares (lives : Fate α → Prop) (takes isIdle isFresh : α → Prop) (fate : Fate α) : Prop where
  running : ∀ x, fate = .running x → takes x
  /-- A process ends with an exit status only by a signal that nothing has listened to, and the status is
  that of the signal. -/
  exited : ∀ status, fate = .exited status →
    ∃ (x : α) (s : Signal), lives (.running x) ∧ isIdle x ∧ status = 128 + s.number
  /-- A process ends in the default way only before its dispatcher has been installed. -/
  killed : ∀ s, fate = .killed s → ∃ x, lives (.running x) ∧ isFresh x

variable {takes isIdle isFresh : α → Prop}

theorem Lives.fares
    (h : Lives goes receive first fate)
    (htakes : ∀ x, Lives goes receive first (.running x) → takes x)
    (hcases : ∀ x s, Lives goes receive first (.running x) →
      isFresh x ∧ receive x s = .killed s ∨ isIdle x ∧ receive x s = .exited (128 + s.number) ∨
        ∃ y, receive x s = .running y) :
    Fares (Lives goes receive first) takes isIdle isFresh fate where
  running := by
    rintro x rfl
    exact htakes x h
  exited := by
    rintro status rfl
    obtain ⟨x, s, hx, hreceive⟩ := h.ended (by simp)
    rcases hcases x s hx with ⟨-, heq⟩ | ⟨hidle, heq⟩ | ⟨y, heq⟩
    · rw [heq] at hreceive
      cases hreceive
    · rw [heq] at hreceive
      cases hreceive
      exact ⟨x, s, hx, hidle, rfl⟩
    · rw [heq] at hreceive
      cases hreceive
  killed := by
    rintro s rfl
    obtain ⟨x, other, hx, hreceive⟩ := h.ended (by simp)
    rcases hcases x other hx with ⟨hfresh, -⟩ | ⟨-, heq⟩ | ⟨y, heq⟩
    · exact ⟨x, hx, hfresh⟩
    · rw [heq] at hreceive
      cases hreceive
    · rw [heq] at hreceive
      cases hreceive

end Lives

/-- A dispatcher that is installed and has somebody to go to delivers a signal, and one that has nobody
ends the process. -/
theorem Dispatcher.receive_cases
    (d : Dispatcher)
    (s : Signal) :
    d.isInstalled = false ∧ d.receive s = .killed s ∨
      d.isInstalled = true ∧ d.channel.active = 0 ∧ d.receive s = .exited (128 + s.number) ∨
        d.isInstalled = true ∧ d.channel.active ≠ 0 ∧
          d.receive s = .delivered { d with channel := d.channel.trigger s } := by
  cases hinstalled : d.isInstalled with
  | false =>
      exact .inl ⟨rfl, by simp [receive, hinstalled]⟩
  | true =>
      by_cases hactive : d.channel.active = 0
      · exact .inr (.inl ⟨rfl, hactive, by simp [receive, hinstalled, hactive, Signal.exitCode]⟩)
      · exact .inr (.inr ⟨rfl, hactive, by simp [receive, hinstalled, hactive]⟩)

/-- The signal that is raised last is the last one that waits. -/
theorem Channel.getLast?_keepLast_concat
    (signals : List Signal)
    (s : Signal) :
    (keepLast (signals ++ [s])).getLast? = some s := by
  have hkept : ¬ (signals ++ [s]).length ≤ (signals ++ [s]).length - capacity := by
    simp only [List.length_append, List.length_cons, List.length_nil, capacity]
    omega
  rw [keepLast, List.getLast?_drop, if_neg hkept, List.getLast?_concat]

/-! ## Listeners in the hands of a program -/

namespace Audience

/-- A process with listeners installs one, asks one for its signal, gives up, or drops one. -/
inductive Goes (a : Audience) : Audience → Prop where
  | listen : Goes a (a.use .listen)
  | poll (i : Nat) : Goes a (a.use (.poll i))
  | giveUp (i : Nat) : Goes a (a.use (.giveUp i))
  | leave (i : Nat) : Goes a (a.use (.leave i))

/-- A signal is the last one that waits for a listener. -/
def Queued (a : Audience) (i : Nat) (s : Signal) : Prop :=
  ∃ seat r unread, a.seats[i]? = some (some seat) ∧ seat.listener = .receiver r ∧
    a.channel.waiting? r = some unread ∧ unread.getLast? = some s

/-- What a signal does to a process with listeners. -/
structure TakesSignals (a : Audience) : Prop where
  /-- While some listener has neither been dropped nor fired the process goes on, and the signal waits for
  each of them. -/
  delivered : ∀ s, a.outstanding ≠ [] → a.receive s = .running (a.use (.trigger s)) ∧
    ∀ i ∈ a.outstanding,
      (a.use (.trigger s)).isOutstanding i = true ∧ (a.use (.trigger s)).Queued i s
  /-- While there is none, but has been one, the process ends. -/
  ended : ∀ s, a.outstanding = [] → a.seats ≠ [] → a.receive s = .exited (128 + s.number)

section Process

variable {a : Audience}

/-- What a signal makes of a process, by its listeners. -/
theorem Recorded.receive_cases
    (ha : Recorded a)
    (hopen : a.handles ≠ 0)
    (s : Signal) :
    a.seats = [] ∧ a.receive s = .killed s ∨
      a.seats ≠ [] ∧ a.outstanding = [] ∧ a.receive s = .exited (128 + s.number) ∨
        a.outstanding ≠ [] ∧ a.receive s = .running (a.use (.trigger s)) := by
  have hactive := ha.active hopen
  rcases a.dispatcher.receive_cases s with ⟨hfresh, heffect⟩ | ⟨hused, hnone, heffect⟩ |
    ⟨-, hsome, heffect⟩
  · refine .inl ⟨by simpa [dispatcher] using hfresh, ?_⟩
    rw [receive, heffect]
    rfl
  · refine .inr (.inl ⟨by simpa [dispatcher] using hused, ?_, ?_⟩)
    · exact List.eq_nil_of_length_eq_zero (hactive.symm.trans hnone)
    · rw [receive, heffect]
      rfl
  · refine .inr (.inr ⟨?_, ?_⟩)
    · intro hnil
      rw [hnil] at hactive
      exact hsome hactive
    · have hallowed : a.allows (.trigger s) = true := by
        simpa [allows] using hopen
      have hchannel : (a.use (.trigger s)).channel = a.dispatcher.channel.trigger s :=
        channel_use hallowed
      rw [receive, heffect, SignalEffect.fate, ← hchannel]

theorem Recorded.takesSignals
    (ha : Recorded a)
    (hopen : a.handles ≠ 0) :
    TakesSignals a where
  delivered := by
    intro s hsome
    rcases ha.receive_cases hopen s with ⟨hnone, -⟩ | ⟨-, hidle, -⟩ | ⟨-, hreceive⟩
    · rw [outstanding, hnone] at hsome
      exact absurd rfl hsome
    · exact absurd hidle hsome
    · refine ⟨hreceive, fun i hi => ?_⟩
      have hallowed : a.allows (.trigger s) = true := by
        simpa [allows] using hopen
      have hout : a.isOutstanding i = true := (List.mem_filter.mp hi).2
      have hstill := (outstanding_use hout (u := .trigger s) ⟨by simp, by simp⟩).1
      have hheard : (a.use (.trigger s)).heard i = a.heard i ++ [s] := by
        rw [heard_use hallowed, (outstanding_iff.mp hout).1]
        rfl
      refine ⟨hstill, ?_⟩
      obtain ⟨seat, hseat, ⟨r, hr, -, hwaits⟩ | ⟨-, -, hnone⟩⟩ :=
        (ha.use (.trigger s)).seat_of_outstanding hstill
      · refine ⟨seat, r, _, hseat, hr, hwaits, ?_⟩
        rw [hheard]
        exact Channel.getLast?_keepLast_concat _ s
      · rw [hheard] at hnone
        simp at hnone
  ended := by
    intro s hidle hused
    rcases ha.receive_cases hopen s with ⟨hnone, -⟩ | ⟨-, -, hreceive⟩ | ⟨hsome, -⟩
    · exact absurd hnone hused
    · exact hreceive
    · exact absurd hidle hsome

theorem handles_use
    {u : ChannelUse}
    (hu : u ≠ .share ∧ u ≠ .discard) :
    (a.use u).handles = a.handles := by
  cases h : a.allows u with
  | false =>
      rw [use, if_neg (by simp [h])]
  | true =>
      have hhandles : (a.use u).handles = (a.perform u).2.handles := by
        rw [use, if_pos h]
      rw [hhandles]
      cases u with
      | share =>
          exact absurd rfl hu.1
      | discard =>
          exact absurd rfl hu.2
      | listen =>
          rfl
      | trigger s =>
          rfl
      | _ =>
          simp only [perform]
          split
          · rfl
          · rfl

/-- The record tells everything as long as the process runs, and the dispatcher keeps its handle. -/
theorem recorded_of_lives
    {fate : Fate Audience}
    (h : Lives Goes receive new fate) :
    ∀ a, fate = .running a → Recorded a ∧ a.handles ≠ 0 := by
  have hkeep : ∀ (x : Audience) (u : ChannelUse), u ≠ .share ∧ u ≠ .discard →
      Recorded x ∧ x.handles ≠ 0 → Recorded (x.use u) ∧ (x.use u).handles ≠ 0 := by
    intro x u hu hx
    refine ⟨hx.1.use u, ?_⟩
    rw [handles_use hu]
    exact hx.2
  refine h.induct ⟨recorded_new, by simp [new]⟩ ?_ ?_
  · intro x y hx hgoes
    cases hgoes with
    | _ =>
        exact hkeep x _ (by simp) hx
  · intro x s y hx hreceive
    rcases hx.1.receive_cases hx.2 s with ⟨-, hkilled⟩ | ⟨-, -, hexited⟩ | ⟨-, hrunning⟩
    · rw [hkilled] at hreceive
      cases hreceive
    · rw [hexited] at hreceive
      cases hreceive
    · rw [hrunning] at hreceive
      cases hreceive
      exact hkeep x (.trigger s) (by simp) hx

/-- Whatever a process does with its listeners, and whenever signals come, they reach a listener or end
the process. -/
theorem fares_of_lives
    {fate : Fate Audience}
    (h : Lives Goes receive new fate) :
    Fares (Lives Goes receive new) TakesSignals (fun a => a.outstanding = []) (fun a => a.seats = [])
      fate := by
  refine h.fares ?_ ?_
  · intro a ha
    obtain ⟨hrecorded, hopen⟩ := recorded_of_lives ha a rfl
    exact hrecorded.takesSignals hopen
  · intro a s ha
    obtain ⟨hrecorded, hopen⟩ := recorded_of_lives ha a rfl
    rcases hrecorded.receive_cases hopen s with hfresh | ⟨-, hidle⟩ | ⟨-, hrunning⟩
    · exact .inl hfresh
    · exact .inr (.inl hidle)
    · exact .inr (.inr ⟨_, hrunning⟩)

end Process
end Audience
end LifecycleTelemetry
