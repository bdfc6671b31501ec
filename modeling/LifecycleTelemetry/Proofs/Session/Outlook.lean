import LifecycleTelemetry.Proofs.Session.Scene

/-!
# What comes first

A program runs for a time, and an interrupt comes or does not come before it has ended. Which of the two is
the case is told by `ChildRun.interrupt?`, from the program and from where interrupts come from alone.

While a session takes its turns, the *outlook* says why its race will be decided in this way: the operation
has not had its first turn; or it waits for its program to end, and its listener has been handed what the
program has raised; or it is over, and no interrupt has come before. Where an interrupt is there already,
the main strand has to be in a *hurry*: it has to look at the race before the clock moves on.
-/

namespace LifecycleTelemetry

open Channel (keepLast)

/-- The interrupts that a program raises right away. -/
def ChildRun.interrupts : ChildRun → List Signal
  | .refused _ => []
  | .ran interrupts _ _ => interrupts

/-- The time for which a program runs. -/
def ChildRun.span : ChildRun → Nat
  | .refused _ => 0
  | .ran _ duration _ => duration

/-- The signal that is there at a time for a listener that has listened from the beginning, given what
waits for it in the channel. -/
def InterruptSource.signal? (unread : List Signal) (now : Nat) : InterruptSource → Option Signal
  | .channel => unread.head?
  | .timed after s => if after ≤ now then some s else none
  | _ => none

/-- What a program has raised that waits for a listener until the program ends. Nobody looks at the race
before a program has ended that is over at once. -/
def ChildRun.unread (child : ChildRun) : List Signal :=
  if child.span = 0 then [] else keepLast child.interrupts

/-- The interrupt that comes before a program has ended, if one does. -/
def ChildRun.interrupt? (source : InterruptSource) (child : ChildRun) : Option Signal :=
  source.signal? child.unread child.span

/-- Who decides the race: an interrupt that comes before the operation has ended, or else the operation. -/
def Arbiter.ofInterrupt : Option Signal → Arbiter
  | some s => .signal s
  | none => .operation

namespace Session

/-! ## Listening -/

/-- A signal that is there stays there. -/
theorem signal?_later
    {source : InterruptSource}
    {unread waiting : List Signal}
    {now later : Nat}
    {s : Signal}
    (h : source.signal? unread now = some s)
    (hlater : now ≤ later)
    (hunread : unread = [] ∨ unread = waiting) :
    source.signal? waiting later = some s := by
  cases source with
  | channel =>
      rcases hunread with rfl | rfl
      · cases h
      · exact h
  | timed after signal =>
      simp only [InterruptSource.signal?, Option.ite_none_right_eq_some] at h ⊢
      exact ⟨Nat.le_trans h.1 hlater, h.2⟩
  | _ =>
      cases h

/-- A listener that was installed at the beginning, with what waits for it in the channel. -/
inductive Hears (source : InterruptSource) (unread : List Signal) : Channel → Listener → Prop where
  | channel
      {c : Channel}
      {id : Nat}
      (hsource : source = .channel)
      (hreceivers : c.receivers = [⟨id, unread⟩]) :
      Hears source unread c (.receiver id)
  | timed
      {c : Channel}
      {after : Nat}
      {s : Signal}
      (hsource : source = .timed after s)
      (hreceivers : c.receivers = []) :
      Hears source unread c (.timed after s)
  | deaf
      {c : Channel}
      {l : Listener}
      (hsource : ∀ waiting now, source.signal? waiting now = none)
      (hreceivers : c.receivers = [])
      (hsilent : ∀ now, l.signal? now c = none)
      (hname : ∀ id, l ≠ .receiver id) :
      Hears source unread c l

section Hears

variable {source : InterruptSource} {unread : List Signal} {c : Channel} {l : Listener}

theorem Hears.signal?_eq
    (h : Hears source unread c l)
    (now : Nat) :
    l.signal? now c = source.signal? unread now := by
  cases h with
  | channel hsource hreceivers =>
      subst hsource
      simp [Listener.signal?, Channel.first?, hreceivers, InterruptSource.signal?]
  | timed hsource hreceivers =>
      subst hsource
      rfl
  | deaf hsource hreceivers hsilent hname =>
      rw [hsource, hsilent]

theorem Hears.length_le
    (h : Hears source unread c l) :
    c.receivers.length ≤ 1 := by
  cases h with
  | channel hsource hreceivers =>
      simp [hreceivers]
  | timed hsource hreceivers =>
      simp [hreceivers]
  | deaf hsource hreceivers hsilent hname =>
      simp [hreceivers]

theorem keepLast_keepLast_append
    (signals : List Signal)
    (s : Signal) :
    keepLast (keepLast signals ++ [s]) = keepLast (signals ++ [s]) := by
  rw [keepLast, keepLast, keepLast, ← List.drop_append_of_le_length (by omega), List.drop_drop]
  congr 1
  simp only [List.length_drop, List.length_append, List.length_singleton, Channel.capacity]
  omega

/-- A signal that is raised waits for the listener on the channel, if there is one. -/
theorem Hears.trigger
    {raised : List Signal}
    (h : Hears source (keepLast raised) c l)
    (s : Signal) :
    Hears source (keepLast (raised ++ [s])) (c.trigger s) l := by
  cases h with
  | channel hsource hreceivers =>
      refine .channel hsource ?_
      simp [Channel.trigger, hreceivers, keepLast_keepLast_append]
  | timed hsource hreceivers =>
      exact .timed hsource (by simp [Channel.trigger, hreceivers])
  | deaf hsource hreceivers hsilent hname =>
      have hnobody : (c.trigger s).receivers = c.receivers := by simp [Channel.trigger, hreceivers]
      refine .deaf hsource (hnobody.trans hreceivers) (fun now => ?_) hname
      cases l with
      | receiver id =>
          exact (hname id rfl).elim
      | _ =>
          exact hsilent now

/-- Whoever begins to listen has heard nothing yet. -/
theorem hears_ear
    {v : Sight}
    (hsource : v.source = source)
    (hclock : v.clock = 0)
    (hchannel : v.channel = .new) :
    Hears source [] v.ear.2 v.ear.1 := by
  subst hsource
  unfold Sight.ear
  rw [hclock, hchannel]
  cases v.source with
  | channel =>
      exact .channel rfl rfl
  | timed after s =>
      simp only [InterruptSource.listen?, Option.getD_some, Nat.zero_add]
      exact .timed rfl rfl
  | _ =>
      exact .deaf (fun _ _ => rfl) rfl (fun _ => rfl) nofun

end Hears

/-! ## The steps of a command -/

/-- What a command does after its interrupts have been raised: its program cannot be started, or runs for its
time. What it does after that ends the operation or is over at once. -/
inductive Lead (child : ChildRun) : Script → Prop where
  | refused
      {rest : Script}
      (hspan : child.span = 0)
      (hquick : ∀ step ∈ rest, step.isQuick = true) :
      Lead child rest
  | waits
      {rest : Script}
      (hquick : ∀ step ∈ rest, step.isQuick = true) :
      Lead child (.sleep child.span :: rest)

/-- The steps that raise interrupts. -/
def alarms (signals : List Signal) : Script :=
  signals.map fun s => .act (.trigger s)

theorem isQuick_ending
    (program : String)
    (status : ExitStatus) :
    ∀ step ∈ exitCodeSteps status ++ endingSteps program status, step.isQuick = true := by
  cases status with
  | exited code =>
      unfold endingSteps
      split
      · simp [exitCodeSteps, ExitStatus.code?, Step.isQuick]
      · simp [exitCodeSteps, ExitStatus.code?, Step.isQuick]
  | killed signal dumped =>
      simp [exitCodeSteps, endingSteps, ExitStatus.code?, ExitStatus.isSuccess, Step.isQuick]

/-- Running a command raises the interrupts of its program first. -/
theorem exists_lead
    (program : String)
    (args : List String)
    (child : ChildRun) :
    ∃ lead, work (program :: args) child = alarms child.interrupts ++ lead ∧ Lead child lead := by
  cases child with
  | refused fault =>
      exact ⟨_, rfl, .refused rfl (by simp [Step.isQuick])⟩
  | ran interrupts duration status =>
      refine ⟨.sleep duration :: (exitCodeSteps status ++ endingSteps program status), ?_,
        .waits (isQuick_ending program status)⟩
      simp [work, alarms, ChildRun.interrupts]

theorem isPlain_work
    (program : String)
    (args : List String)
    (child : ChildRun) :
    ∀ step ∈ work (program :: args) child, step.isPlain = true := by
  cases child with
  | refused fault =>
      simp [work, Step.isPlain]
  | ran interrupts duration status =>
      have hending : ∀ step ∈ exitCodeSteps status ++ endingSteps program status,
          step.isPlain = true := by
        cases status with
        | exited code =>
            unfold endingSteps
            split
            · simp [exitCodeSteps, ExitStatus.code?, Step.isPlain, Action.isPlain]
            · simp [exitCodeSteps, ExitStatus.code?, Step.isPlain, Action.isPlain]
        | killed signal dumped =>
            simp [exitCodeSteps, endingSteps, ExitStatus.code?, ExitStatus.isSuccess, Step.isPlain]
      intro step hstep
      simp only [work, List.append_assoc (_ ++ _)] at hstep
      rcases List.mem_append.mp hstep with hbefore | hafter
      · rcases List.mem_append.mp hbefore with hraised | hslept
        · obtain ⟨s, -, rfl⟩ := List.mem_map.mp hraised
          rfl
        · rw [List.mem_singleton.mp hslept]
          rfl
      · exact hending step hafter

/-! ## The outlook -/

section Outlook

variable (source : InterruptSource) (child : ChildRun)

/-- Why a race between turns will be decided by what comes first. -/
inductive Outlook (hurry : Prop) (v : Sight) (worker : Strand) (listener : Listener) : Prop where
  | fresh
      {lead : Script}
      (hready : worker.status = .ready)
      (hrest : worker.rest = alarms child.interrupts ++ lead)
      (hlead : Lead child lead)
      (hclock : v.clock = 0)
      (hhears : Hears source [] v.channel listener)
      (hdue : child.span = 0 → child.interrupt? source = none ∨ hurry)
  | asleep
      {ticket : Nat}
      (hstatus : worker.status = .sleeping child.span ticket)
      (hquick : ∀ step ∈ worker.rest, step.isQuick = true)
      (hspan : child.span ≠ 0)
      (hclock : v.clock ≤ child.span)
      (hhears : Hears source (keepLast child.interrupts) v.channel listener)
      (hdue : child.span ≤ v.clock → child.interrupt? source = none ∨ hurry)
  | ended
      {o : Outcome}
      (hover : worker.status = .finished o)
      (hnone : child.interrupt? source = none)

/-- The steps before an operation within a turn of its own: some interrupts are still to be raised, or the
rest of the operation is over at once, and no interrupt has come before. -/
inductive Ahead (v : Sight) (listener : Listener) (rest : Script) : Prop where
  | raising
      {done todo : List Signal}
      {lead : Script}
      (hrest : rest = alarms todo ++ lead)
      (hall : child.interrupts = done ++ todo)
      (hlead : Lead child lead)
      (hclock : v.clock = 0)
      (hhears : Hears source (keepLast done) v.channel listener)
      (hdue : child.span = 0 → child.interrupt? source = none)
  | ending
      (hquick : ∀ step ∈ rest, step.isQuick = true)
      (hnone : child.interrupt? source = none)

/-- How far the operation is within a turn of its own. -/
inductive Doing (v : Sight) (worker : Strand) (listener : Listener) : Prop where
  | goes
      (hready : worker.status = .ready)
      (hahead : Ahead source child v listener worker.rest)
  | asleep
      {ticket : Nat}
      (hstatus : worker.status = .sleeping child.span ticket)
      (hquick : ∀ step ∈ worker.rest, step.isQuick = true)
      (hclock : v.clock ≤ child.span)
      (hhears : Hears source (keepLast child.interrupts) v.channel listener)
      (hdue : child.span ≤ v.clock → child.interrupt? source = none)
  | ended
      {o : Outcome}
      (hover : worker.status = .finished o)
      (hnone : child.interrupt? source = none)

variable {source child} {hurry : Prop} {v : Sight} {w : World} {main worker : Strand} {call : Call}
  {listener : Listener} {rest : Script}

theorem Outlook.doing
    (h : Outlook source child False v worker listener) :
    Doing source child v worker listener := by
  cases h with
  | fresh hready hrest hlead hclock hhears hdue =>
      exact .goes hready (.raising hrest (List.nil_append _).symm hlead hclock hhears fun hspan =>
        (hdue hspan).resolve_right id)
  | asleep hstatus hquick hspan hclock hhears hdue =>
      exact .asleep hstatus hquick hclock hhears fun hspan => (hdue hspan).resolve_right id
  | ended hover hnone =>
      exact .ended hover hnone

/-- An operation that cannot go on in its turn waits for its program, or is over. -/
theorem Doing.outlook
    (h : Doing source child v worker listener)
    (hready : worker.status ≠ .ready)
    (hearly : ∀ deadline ticket, worker.status = .sleeping deadline ticket → v.clock < deadline) :
    Outlook source child False v worker listener := by
  cases h with
  | goes hstatus =>
      exact (hready hstatus).elim
  | asleep hstatus hquick hclock hhears hdue =>
      have hahead := hearly _ _ hstatus
      exact .asleep hstatus hquick (by omega) hclock hhears fun hspan => .inl (hdue hspan)
  | ended hover hnone =>
      exact .ended hover hnone

/-- When a step is quick, the time of the program is past, and so are its interrupts. -/
theorem Ahead.past
    (h : Ahead source child v listener rest)
    (hquick : ∀ step more, rest = step :: more → step.isQuick = true) :
    (∀ step ∈ rest, step.isQuick = true) ∧ child.interrupt? source = none := by
  cases h with
  | @raising done todo lead hrest hall hlead hclock hhears hdue =>
      cases todo with
      | cons s todo =>
          exact absurd (hquick _ _ hrest) nofun
      | nil =>
          cases hlead with
          | refused hspan hsteps =>
              exact ⟨by rwa [hrest], hdue hspan⟩
          | waits hsteps =>
              exact absurd (hquick _ _ hrest) nofun
  | ending hsteps hnone =>
      exact ⟨hsteps, hnone⟩

theorem Ahead.trigger
    {s : Signal}
    {more : Script}
    {after : Sight}
    (h : Ahead source child v listener rest)
    (hstep : rest = .act (.trigger s) :: more)
    (hchannel : after.channel = v.channel.trigger s)
    (hsame : after.clock = v.clock) :
    Ahead source child after listener more := by
  cases h with
  | @raising done todo lead hrest hall hlead hclock hhears hdue =>
      rw [hstep] at hrest
      cases todo with
      | cons first todo =>
          cases hrest
          exact .raising rfl (by simp [hall]) hlead (hsame.trans hclock) (hchannel ▸ hhears.trigger s) hdue
      | nil =>
          cases hlead with
          | refused hspan hsteps =>
              obtain rfl : lead = .act (.trigger s) :: more := hrest.symm
              have hnot := hsteps _ List.mem_cons_self
              cases hnot
          | waits hsteps =>
              cases hrest
  | ending hsteps hnone =>
      have hnot := hsteps (.act (.trigger s)) (by simp [hstep])
      cases hnot

/-- The program of an operation runs for its time when all interrupts have been raised. -/
theorem Ahead.sleep
    {duration : Nat}
    {more : Script}
    (h : Ahead source child v listener rest)
    (hstep : rest = .sleep duration :: more) :
    duration = child.span ∧ v.clock = 0 ∧ (∀ step ∈ more, step.isQuick = true) ∧
      Hears source (keepLast child.interrupts) v.channel listener ∧
        (child.span = 0 → child.interrupt? source = none) := by
  cases h with
  | @raising done todo lead hrest hall hlead hclock hhears hdue =>
      rw [hstep] at hrest
      cases todo with
      | cons first todo =>
          cases hrest
      | nil =>
          rw [List.append_nil] at hall
          cases hlead with
          | refused hspan hsteps =>
              obtain rfl : lead = .sleep duration :: more := hrest.symm
              have hnot := hsteps _ List.mem_cons_self
              cases hnot
          | waits hsteps =>
              cases hrest
              exact ⟨rfl, hclock, hsteps, hall ▸ hhears, hdue⟩
  | ending hsteps hnone =>
      have hnot := hsteps (.sleep duration) (by simp [hstep])
      cases hnot

/-- Each turn of the operation brings it further. -/
theorem Doing.labour
    (h : Doing source child w.sight worker call.listener)
    (hlabour : Labour w main worker call v)
    (hcalls : w.calls = [call]) :
    ∃ (next : Strand) (contributions : Contributions), v.strands = [main, next] ∧
      v.calls = [{ call with contributions }] ∧ Doing source child v next call.listener := by
  have hsame : w.sight.calls = [{ call with contributions := call.contributions }] := hcalls
  have hahead : worker.status = .ready → Ahead source child w.sight call.listener worker.rest := by
    intro hready
    cases h with
    | goes _ hahead =>
        exact hahead
    | asleep hstatus =>
        rw [hready] at hstatus
        cases hstatus
    | ended hover =>
        rw [hready] at hover
        cases hover
  cases hlabour with
  | wakes hsleeps hdeadline =>
      refine ⟨_, _, rfl, hsame, ?_⟩
      cases h with
      | goes hready =>
          rw [hsleeps] at hready
          cases hready
      | asleep hstatus hquick hclock hhears hdue =>
          rw [hsleeps] at hstatus
          cases hstatus
          exact .goes rfl (.ending hquick (hdue hdeadline))
      | ended hover =>
          rw [hsleeps] at hover
          cases hover
  | acts hready hrest hquick =>
      obtain ⟨hsteps, hnone⟩ := (hahead hready).past fun step more hmore => by
        rw [hrest] at hmore
        cases hmore
        exact hquick
      refine ⟨_, _, rfl, rfl, .goes hready (.ending (fun step hstep => ?_) hnone)⟩
      exact hsteps step (by simp [hrest, hstep])
  | raises hready hrest hfew hwakes =>
      exact ⟨_, _, rfl, hsame, .goes hready ((hahead hready).trigger hrest rfl rfl)⟩
  | sleeps hready hrest =>
      obtain ⟨rfl, hclock, hquick, hhears, hdue⟩ := (hahead hready).sleep hrest
      have hzero : w.clock = 0 := hclock
      have hdeadline : w.clock + child.span = child.span := by rw [hzero, Nat.zero_add]
      rw [hdeadline]
      refine ⟨_, _, rfl, hsame, .asleep rfl hquick (hclock ▸ Nat.zero_le _) hhears fun hspan => hdue ?_⟩
      rw [hclock] at hspan
      exact Nat.eq_zero_of_le_zero hspan
  | ends hready hquick hdone hover hfew hwakes =>
      exact ⟨_, _, rfl, hsame, .ended hover ((hahead hready).past hquick).2⟩

/-! ## Decisions -/

/-- A race that is decided is decided by what comes first. -/
theorem Outlook.arbiter
    (h : Outlook source child hurry w.sight worker call.listener)
    (hstrands : w.strands = [main, worker])
    (hworker : Worker worker)
    (hraced : Raced call)
    {s : Settlement}
    (hsettled : w.settlement? call = some s) :
    s.arbiter = .ofInterrupt (child.interrupt? source) := by
  rw [settlement?_eq hstrands hworker hraced] at hsettled
  have hsignal : ∀ unread, Hears source unread w.channel call.listener → w.clock ≤ child.span →
      unread = [] ∨ unread = child.unread →
      (call.listener.signal? w.clock w.channel).map Settlement.interrupted = some s →
      s.arbiter = .ofInterrupt (child.interrupt? source) := by
    intro unread hhears hearly hunread hfound
    obtain ⟨signal, hnow, rfl⟩ := Option.map_eq_some_iff.mp hfound
    rw [hhears.signal?_eq] at hnow
    rw [ChildRun.interrupt?, signal?_later hnow hearly hunread]
    rfl
  cases h with
  | fresh hready hrest hlead hclock hhears hdue =>
      rw [hready] at hsettled
      exact hsignal [] hhears (Nat.le_trans (Nat.le_of_eq hclock) (Nat.zero_le _)) (.inl rfl) hsettled
  | asleep hstatus hquick hspan hclock hhears hdue =>
      rw [hstatus] at hsettled
      exact hsignal _ hhears hclock (.inr (if_neg hspan).symm) hsettled
  | @ended o hover hnone =>
      rw [hover] at hsettled
      cases hsettled
      rw [hnone]
      cases o with
      | _ =>
          rfl

/-- There is no hurry when the race has just been looked at. -/
theorem Outlook.looked
    (h : Outlook source child hurry w.sight worker call.listener)
    (hstrands : w.strands = [main, worker])
    (hworker : Worker worker)
    (hraced : Raced call)
    (hopen : w.settlement? call = none) :
    Outlook source child False w.sight worker call.listener := by
  rw [settlement?_eq hstrands hworker hraced] at hopen
  cases h with
  | fresh hready hrest hlead hclock hhears hdue =>
      rw [hready] at hopen
      refine .fresh hready hrest hlead hclock hhears fun hspan => .inl ?_
      have hnow : w.clock = 0 := hclock
      have hears : Hears source [] w.channel call.listener := hhears
      have hnone := Option.map_eq_none_iff.mp hopen
      rwa [hears.signal?_eq, hnow, ← hspan, ← (show child.unread = [] from if_pos hspan)] at hnone
  | asleep hstatus hquick hspan hclock hhears hdue =>
      rw [hstatus] at hopen
      refine .asleep hstatus hquick hspan hclock hhears fun hlate => .inl ?_
      have hnow : w.clock = child.span := Nat.le_antisymm hclock hlate
      have hears : Hears source (keepLast child.interrupts) w.channel call.listener := hhears
      have hnone := Option.map_eq_none_iff.mp hopen
      rwa [hears.signal?_eq, hnow, ← (show child.unread = keepLast child.interrupts from if_neg hspan)]
        at hnone
  | ended hover hnone =>
      exact .ended hover hnone

/-- The outlook does not depend on what happens to deliveries, and less hurry may be needed. -/
theorem Outlook.congr
    {later : Prop}
    {after : Sight}
    (h : Outlook source child hurry v worker listener)
    (hchannel : after.channel = v.channel)
    (hclock : after.clock = v.clock)
    (hlater : hurry → later) :
    Outlook source child later after worker listener := by
  cases h with
  | fresh hready hrest hlead hnow hhears hdue =>
      exact .fresh hready hrest hlead (hclock.trans hnow) (hchannel ▸ hhears) fun hspan =>
        (hdue hspan).imp_right hlater
  | asleep hstatus hquick hspan hnow hhears hdue =>
      refine .asleep hstatus hquick hspan (hclock ▸ hnow) (hchannel ▸ hhears) fun hlate => ?_
      exact (hdue (hclock ▸ hlate)).imp_right hlater
  | ended hover hnone =>
      exact .ended hover hnone

/-- When the clock moves on, an interrupt that has come by then makes for a hurry. -/
theorem Outlook.waits_on
    {time : Nat}
    {later : Prop}
    {after : Sight}
    (h : Outlook source child hurry v worker listener)
    (hready : worker.status ≠ .ready)
    (hspan : ∀ deadline ticket, worker.status = .sleeping deadline ticket → time ≤ deadline)
    (hchannel : after.channel = v.channel)
    (hclock : after.clock = time)
    (hlater : (∀ o, worker.status ≠ .finished o) →
      (listener.signal? time after.channel).isSome = true → later) :
    Outlook source child later after worker listener := by
  cases h with
  | fresh hstatus =>
      exact (hready hstatus).elim
  | asleep hstatus hquick hlong hnow hhears hdue =>
      have hearly := hspan _ _ hstatus
      have hears : Hears source (keepLast child.interrupts) after.channel listener := hchannel ▸ hhears
      refine .asleep hstatus hquick hlong (hclock ▸ hearly) hears fun hlate => ?_
      cases hfirst : child.interrupt? source with
      | none =>
          exact .inl rfl
      | some s =>
          have htime : time = child.span := Nat.le_antisymm hearly (hclock ▸ hlate)
          refine .inr (hlater (fun o hover => by rw [hstatus] at hover; cases hover) ?_)
          rw [hears.signal?_eq, htime,
            ← (show child.unread = keepLast child.interrupts from if_neg hlong)]
          exact Option.isSome_iff_exists.mpr ⟨s, hfirst⟩
  | ended hover hnone =>
      exact .ended hover hnone

end Outlook
end Session
end LifecycleTelemetry
