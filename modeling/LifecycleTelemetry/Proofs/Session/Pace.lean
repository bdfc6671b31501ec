import LifecycleTelemetry.Proofs.Operation.Roused
import LifecycleTelemetry.Proofs.Session.Outlook

/-!
# The turns of a session

A schedule gives the main strand, the operation and the deliveries of a session their turns. Each step of
such a turn leaves less to be done, wakes whoever becomes due by it, and keeps what the outlook says about
the race. In the turn after which the race is decided, it is decided by what comes first.
-/

namespace LifecycleTelemetry

open World (Rouses IsDue)

/-- What is left to be done, as far as it is seen. -/
def Sight.load (v : Sight) : Nat :=
  (v.strands.map (Strand.load v.clock)).sum + (v.calls.map (Call.load v.clock)).sum +
    (v.deliveries.map (Delivery.load v.clock)).sum + v.pending.length + 2 * v.woken.length

theorem World.load_sight
    (w : World) :
    w.load = w.sight.load :=
  rfl

section Hand

variable {v : Sight} {made : Option Delivery}

/-- A delivery that is made counts for itself, for the drain, and for its turn. -/
theorem Sight.load_hand_le
    (h : ∀ d, made = some d → d.status = .waiting) :
    ((v.hand made).deliveries.map (Delivery.load v.clock)).sum + (v.hand made).pending.length +
        2 * (v.hand made).woken.length ≤
      (v.deliveries.map (Delivery.load v.clock)).sum + v.pending.length + 2 * v.woken.length + 11 := by
  cases made with
  | none =>
      exact Nat.le_add_right _ _
  | some d =>
      have hload : d.load v.clock = 8 := by simp only [Delivery.load, h d rfl]
      simp only [Sight.hand, List.map_append, List.map_cons, List.map_nil, List.sum_append, List.sum_cons,
        List.sum_nil, List.length_append, List.length_singleton, hload]
      omega

/-- Less is left to be done when strands and calls give up more than a delivery counts for that is made. -/
theorem Sight.load_lt_of_hand
    {after : Sight}
    (h : ∀ d, made = some d → d.status = .waiting)
    (wakes : Nat)
    (hdeliveries : after.deliveries = (v.hand made).deliveries)
    (hpending : after.pending = (v.hand made).pending)
    (hwoken : after.woken.length = (v.hand made).woken.length + wakes)
    (hclock : after.clock = v.clock)
    (hless : (after.strands.map (Strand.load v.clock)).sum + (after.calls.map (Call.load v.clock)).sum +
        11 + 2 * wakes <
      (v.strands.map (Strand.load v.clock)).sum + (v.calls.map (Call.load v.clock)).sum) :
    after.load < v.load := by
  have hmade := @Sight.load_hand_le v made h
  rw [Sight.load, Sight.load, hdeliveries, hpending, hwoken, hclock]
  omega

/-- It has been woken. -/
theorem Sight.woken_hand
    {n : Nat}
    {d : Delivery}
    (h : (v.hand made).deliveries[n]? = some d) :
    v.deliveries[n]? = some d ∨ .delivery n ∈ (v.hand made).woken := by
  cases made with
  | none =>
      exact .inl h
  | some new =>
      simp only [Sight.hand, List.getElem?_append] at h
      split at h
      · exact .inl h
      · next hlong =>
          have hn : n = v.deliveries.length := by
            have hbound := (List.getElem?_eq_some_iff.mp h).1
            simp only [List.length_singleton] at hbound
            omega
          exact .inr (by simp [Sight.hand, hn])

theorem Sight.mem_woken_hand
    {t : TaskId}
    (h : t ∈ v.woken) :
    t ∈ (v.hand made).woken := by
  cases made with
  | none =>
      exact h
  | some new =>
      exact List.mem_append_left _ h

theorem Sight.clock_hand :
    (v.hand made).clock = v.clock := by
  cases made with
  | _ =>
      rfl

end Hand

namespace Session

/-- What a session is about in its scene. `R` says of a race what its outlook is. -/
structure Pace (source : InterruptSource) (child : ChildRun) (R : Sight → Strand → Listener → Prop)
    (v : Sight) : Prop where
  few : v.channel.receivers.length ≤ 1
  ahead : v.calls = [] → v.source = source ∧ v.clock = 0 ∧ v.channel = .new
  racing : ∀ main worker call, v.strands = [main, worker] → v.calls = [call] → Raced call →
    R v worker call.listener
  decided : ∀ call s, v.calls = [call] → call.phase = .settled s →
    s.arbiter = .ofInterrupt (child.interrupt? source)

section Pace

variable {source : InterruptSource} {child : ChildRun} {R R' : Sight → Strand → Listener → Prop}
  {v : Sight}

theorem Pace.of_raced
    {main worker : Strand}
    {call : Call}
    (hstrands : v.strands = [main, worker])
    (hcalls : v.calls = [call])
    (hraced : Raced call)
    (hfew : v.channel.receivers.length ≤ 1)
    (h : R v worker call.listener) :
    Pace source child R v where
  few := hfew
  ahead := by
    intro hnone
    rw [hcalls] at hnone
    cases hnone
  racing := by
    intro main' worker' call' hstrands' hcalls' _
    rw [hstrands] at hstrands'
    rw [hcalls] at hcalls'
    cases hstrands'
    cases hcalls'
    exact h
  decided := by
    intro call' s hcalls' hphase
    rw [hcalls] at hcalls'
    cases hcalls'
    rw [hraced.phase] at hphase
    cases hphase

theorem Pace.of_settled
    {call : Call}
    {s : Settlement}
    (hcalls : v.calls = [call])
    (hphase : call.phase = .settled s)
    (hfew : v.channel.receivers.length ≤ 1)
    (h : s.arbiter = .ofInterrupt (child.interrupt? source)) :
    Pace source child R v where
  few := hfew
  ahead := by
    intro hnone
    rw [hcalls] at hnone
    cases hnone
  racing := by
    intro main worker call' _ hcalls' hraced
    rw [hcalls] at hcalls'
    cases hcalls'
    rw [hraced.phase] at hphase
    cases hphase
  decided := by
    intro call' s' hcalls' hphase'
    rw [hcalls] at hcalls'
    cases hcalls'
    rw [hphase] at hphase'
    cases hphase'
    exact h

theorem Pace.imp
    (h : Pace source child R v)
    (hrace : ∀ main worker call, v.strands = [main, worker] → v.calls = [call] → Raced call →
      R v worker call.listener → R' v worker call.listener) :
    Pace source child R' v where
  few := h.few
  ahead := h.ahead
  racing := fun main worker call hstrands hcalls hraced =>
    hrace main worker call hstrands hcalls hraced (h.racing main worker call hstrands hcalls hraced)
  decided := h.decided

end Pace

/-! ## Who becomes due -/

section Turns

variable {source : InterruptSource} {child : ChildRun} {R : Sight → Strand → Listener → Prop}
  {subject : Subject} {body : Script}
  {w after : World} {v : Sight} {main next worker : Strand} {call : Call}

/-- The operation of a session is due when it is ready or has slept for long enough. -/
theorem canAdvance_worker
    (hstrands : w.strands = [main, worker])
    (hworker : Worker worker) :
    w.canAdvance 1 = true ↔
      worker.status = .ready ∨
        ∃ deadline ticket, worker.status = .sleeping deadline ticket ∧ deadline ≤ w.clock := by
  rcases hworker.status with hstatus | ⟨deadline, ticket, hstatus⟩ | ⟨o, hstatus⟩
  · simp [World.canAdvance, hstrands, hstatus]
  · simp [World.canAdvance, hstrands, hstatus]
  · simp [World.canAdvance, hstrands, hstatus]

/-- A turn of the main strand rouses whoever becomes due by it if it wakes the operation, unless it leaves
that alone, and the deliveries that it makes. -/
theorem rouses_main
    (hafter : after.strands = [next, worker])
    (hclock : after.clock = w.clock)
    (hoperation : after.canAdvance 1 = true → w.canAdvance 1 = true ∨ .strand 1 ∈ after.woken)
    (hwoken : ∀ u ∈ w.woken, u ∈ after.woken)
    (hmade : ∀ n d, after.deliveries[n]? = some d →
      w.deliveries[n]? = some d ∨ .delivery n ∈ after.woken) :
    Rouses (.strand 0) w after where
  woken := hwoken
  due := by
    intro u hne hu
    match u with
    | .strand 0 =>
        exact (hne rfl).elim
    | .strand 1 =>
        exact hoperation hu
    | .strand (id + 2) =>
        have hnever : after.canAdvance (id + 2) = true := hu
        simp [World.canAdvance, hafter] at hnever
    | .delivery n =>
        obtain ⟨d, hd, hdue⟩ := hu
        rw [hclock] at hdue
        exact (hmade n d hd).imp_left fun hold => ⟨d, hold, hdue⟩

/-- The operation is left alone. -/
theorem canAdvance_left
    (hstrands : w.strands = [main, worker])
    (hafter : after.strands = [next, worker])
    (hworker : Worker worker)
    (hclock : after.clock = w.clock)
    (hdue : after.canAdvance 1 = true) :
    w.canAdvance 1 = true ∨ .strand 1 ∈ after.woken := by
  rw [canAdvance_worker hafter hworker, hclock] at hdue
  exact .inl ((canAdvance_worker hstrands hworker).mpr hdue)

/-- The main strand is due in a race that is decided. -/
theorem canAdvance_racer
    (hstrands : w.strands = [main, worker])
    (hcalls : w.calls = [call])
    (hracer : Racer main)
    (hraced : Raced call) :
    w.canAdvance 0 = (w.settlement? call).isSome := by
  have hnever : w.isOverdue call = false := by simp [World.isOverdue, hraced.deadline]
  simp [World.canAdvance, hstrands, hcalls, hracer.status, hnever]

/-- A race that nobody has ended is decided by a signal that is there. -/
theorem isSome_settlement?
    (hstrands : w.strands = [main, worker])
    (hworker : Worker worker)
    (hraced : Raced call)
    (hopen : ∀ o, worker.status ≠ .finished o) :
    (w.settlement? call).isSome = (call.listener.signal? w.clock w.channel).isSome := by
  rw [settlement?_eq hstrands hworker hraced]
  rcases hworker.status with hstatus | ⟨deadline, ticket, hstatus⟩ | ⟨o, hstatus⟩
  · simp [hstatus]
  · simp [hstatus]
  · exact (hopen o hstatus).elim

/-- A signal that is there only after it has been raised is there for those who listen on the channel. -/
theorem exists_receiver_of_trigger
    {l : Listener}
    {now : Nat}
    {c : Channel}
    {s : Signal}
    (hafter : (l.signal? now (c.trigger s)).isSome = true)
    (hbefore : (l.signal? now c).isSome = false) :
    ∃ r ∈ c.receivers, l = .receiver r.id := by
  cases l with
  | receiver id =>
      cases hfound : c.receivers.find? fun r => r.id == id with
      | none =>
          have hnone : (c.trigger s).receivers.find? (fun r => r.id == id) = none := by
            rw [Channel.trigger, List.find?_map]
            exact congrArg _ hfound
          have hnobody : (c.trigger s).first? id = none := by
            rw [Channel.first?, hnone]
            rfl
          simp [Listener.signal?, hnobody] at hafter
      | some r =>
          have hid : r.id = id := by simpa using List.find?_some hfound
          exact ⟨r, List.mem_of_find?_eq_some hfound, congrArg _ hid.symm⟩
  | timed deadline signal =>
      exact absurd (hafter.symm.trans hbefore) (by simp)
  | _ =>
      cases hafter

/-- A turn of the operation that decides the race wakes the main strand. -/
theorem Labour.settles
    (h : Labour w main worker call v)
    (hafter : after.sight = v)
    (hstrands : w.strands = [main, worker])
    (hcalls : w.calls = [call])
    (hworker : Worker worker)
    (hracer : Racer main)
    (hraced : Raced call)
    (hgoes : after.canAdvance 0 = true) :
    w.canAdvance 0 = true ∨ .strand 0 ∈ after.woken := by
  obtain ⟨next, contributions, hnow, hcalled, hnext, -, -⟩ := h.keeps hcalls hworker
  have hstrands' := (congrArg Sight.strands hafter).trans hnow
  have hcalls' := (congrArg Sight.calls hafter).trans hcalled
  have hchannel : after.channel = v.channel := congrArg Sight.channel hafter
  have hclock : after.clock = v.clock := congrArg Sight.clock hafter
  have hwoken : after.woken = v.woken := congrArg Sight.woken hafter
  have hraced' : Raced { call with contributions } :=
    ⟨hraced.owner, hraced.phase, hraced.propagate, hraced.deadline⟩
  rw [canAdvance_racer hstrands' hcalls' hracer hraced'] at hgoes
  rw [canAdvance_racer hstrands hcalls hracer hraced, hwoken]
  -- a race that the operation has not ended is about the same signal as before, but for one that is raised
  have hsignal : (∀ o, worker.status ≠ .finished o) → (∀ o, next.status ≠ .finished o) →
      (call.listener.signal? v.clock v.channel).isSome = true ∧
        (w.settlement? call).isSome = (call.listener.signal? w.clock w.channel).isSome := by
    intro hopen hopen'
    rw [isSome_settlement? hstrands' hnext hraced' hopen', hclock, hchannel] at hgoes
    exact ⟨hgoes, isSome_settlement? hstrands hworker hraced hopen⟩
  cases h with
  | wakes hsleeps hdue =>
      cases hnow
      obtain ⟨hfound, hsettled⟩ := hsignal (by simp [hsleeps]) (by simp)
      exact .inl (hsettled.trans hfound)
  | acts hready hrest hquick =>
      cases hnow
      obtain ⟨hfound, hsettled⟩ := hsignal (by simp [hready]) (by simp [hready])
      exact .inl (hsettled.trans hfound)
  | raises hready hrest hfew hwakes =>
      cases hnow
      obtain ⟨hfound, hsettled⟩ := hsignal (by simp [hready]) (by simp [hready])
      cases hbefore : (call.listener.signal? w.clock w.channel).isSome with
      | true =>
          exact .inl (hsettled.trans hbefore)
      | false =>
          obtain ⟨r, hr, hlistener⟩ := exists_receiver_of_trigger hfound hbefore
          have hmain := hwakes r hr hraced hlistener
          rw [hracer.task] at hmain
          exact .inr (List.mem_append_right _ hmain)
  | sleeps hready hrest =>
      cases hnow
      obtain ⟨hfound, hsettled⟩ := hsignal (by simp [hready]) (by simp)
      exact .inl (hsettled.trans hfound)
  | ends hready hquick hdone hover hfew hwakes =>
      have hmain := hwakes hracer hraced
      rw [hracer.task] at hmain
      exact .inr (List.mem_append_right _ hmain)

/-- A turn of the operation wakes the main strand if it decides the race by it. -/
theorem Labour.rouses
    (h : Labour w main worker call after.sight)
    (hstrands : w.strands = [main, worker])
    (hcalls : w.calls = [call])
    (hworker : Worker worker)
    (hmain : Racer main ∧ Raced call ∨ Waits w.sight main) :
    Rouses (.strand 1) w after := by
  obtain ⟨next, contributions, hstrands', hcalls', hnext, hdeliveries, -⟩ := h.keeps hcalls hworker
  have hstrands' : after.strands = [main, next] := hstrands'
  have hcalls' : after.calls = [{ call with contributions }] := hcalls'
  have hdeliveries : after.deliveries = w.deliveries := hdeliveries
  have hclock : after.clock = w.clock := by
    generalize hv : after.sight = v at h
    have hsame : after.clock = v.clock := congrArg Sight.clock hv
    rw [hsame]
    cases h with
    | _ =>
        rfl
  have hwoken : ∀ u ∈ w.woken, u ∈ after.woken := by
    intro u hu
    generalize hv : after.sight = v at h
    have hsame : after.woken = v.woken := congrArg Sight.woken hv
    rw [hsame]
    cases h with
    | raises =>
        exact List.mem_append_left _ hu
    | ends =>
        exact List.mem_append_left _ hu
    | _ =>
        exact hu
  refine ⟨hwoken, fun u hne hu => ?_⟩
  match u with
  | .strand 0 =>
      rcases hmain with ⟨hracer, hraced⟩ | hwaits
      · exact h.settles rfl hstrands hcalls hworker hracer hraced hu
      · refine .inl ?_
        have hsame : after.isDelivered = w.isDelivered := by
          funext n
          simp only [World.isDelivered, hdeliveries]
        have hgoes : after.canAdvance 0 = true := hu
        change w.canAdvance 0 = true
        cases hwaits with
        | before hstatus =>
            simp [World.canAdvance, hstrands, hstatus]
        | during hstatus =>
            simpa [World.canAdvance, hstrands, hstrands', hstatus, hsame] using hgoes
        | back hstatus =>
            simp [World.canAdvance, hstrands, hstatus]
        | ended hstatus =>
            simp [World.canAdvance, hstrands', hstatus] at hgoes
  | .strand 1 =>
      exact (hne rfl).elim
  | .strand (id + 2) =>
      have hnever : after.canAdvance (id + 2) = true := hu
      simp [World.canAdvance, hstrands'] at hnever
  | .delivery n =>
      obtain ⟨d, hd, hdue⟩ := hu
      rw [hdeliveries] at hd
      rw [hclock] at hdue
      exact .inl ⟨d, hd, hdue⟩

/-! ## How much is left to be done -/

theorem one_le_weights
    (s : Script) :
    1 ≤ weights s := by
  cases s with
  | nil =>
      exact Nat.le_refl _
  | cons step rest =>
      have hrest := one_le_weights rest
      rw [weights]
      omega

/-- What two strands and a call have left to do, and what there is besides. -/
theorem load_of_parts
    (hstrands : v.strands = [main, next])
    (hcalls : v.calls = [call]) :
    v.load = main.load v.clock + next.load v.clock + call.load v.clock +
      ((v.deliveries.map (Delivery.load v.clock)).sum + v.pending.length + 2 * v.woken.length) := by
  simp only [Sight.load, hstrands, hcalls, List.map_cons, List.map_nil, List.sum_cons, List.sum_nil]
  omega

theorem load_of_ready
    (strand : Strand)
    (rest : Script)
    (hstatus : strand.status = .ready)
    (hrest : strand.rest = rest)
    (now : Nat) :
    strand.load now = 32 * weights rest := by
  simp only [Strand.load, hstatus, hrest]

theorem load_of_sleeping
    (strand : Strand)
    (rest : Script)
    {deadline ticket : Nat}
    (hstatus : strand.status = .sleeping deadline ticket)
    (hrest : strand.rest = rest)
    (now : Nat) :
    32 * weights rest < strand.load now ∧ strand.load now ≤ 32 * weights rest + 6 := by
  simp only [Strand.load, hstatus, hrest]
  split
  · omega
  · omega

theorem load_of_racing
    (strand : Strand)
    (rest : Script)
    {number : Nat}
    (hstatus : strand.status = .racing number)
    (hrest : strand.rest = rest)
    (now : Nat) :
    strand.load now = 32 * weights rest + 14 := by
  simp only [Strand.load, hstatus, hrest]

theorem load_call_le
    {c : Call}
    (h : c.deadline = none)
    (now : Nat) :
    c.load now ≤ 4 := by
  simp only [Call.load, h]
  split
  · split
    · split
      · omega
      · omega
    · omega
  · omega

/-- Every turn of the operation leaves less to be done. -/
theorem Labour.load_lt
    (h : Labour w main worker call v)
    (hstrands : w.strands = [main, worker])
    (hcalls : w.calls = [call])
    (hfew : w.channel.receivers.length ≤ 1) :
    v.load < w.load := by
  have hsame : w.sight.calls = [{ call with contributions := call.contributions }] := hcalls
  have hlighter : ∀ (v : Sight) (next : Strand) (contributions : Contributions) (wakes : Nat),
      v.strands = [main, next] → v.calls = [{ call with contributions }] →
      v.deliveries = w.deliveries → v.pending = w.pending → v.clock = w.clock →
      v.woken.length = w.woken.length + wakes →
      next.load w.clock + 2 * wakes < worker.load w.clock → v.load < w.load := by
    intro v next contributions wakes hstrands' hcalls' hdeliveries hpending hclock hwoken hless
    have hcall : Call.load w.clock { call with contributions } = call.load w.clock := rfl
    have hbefore : w.sight.load = _ := load_of_parts hstrands hcalls
    rw [w.load_sight, hbefore, load_of_parts hstrands' hcalls', hdeliveries, hpending, hclock, hwoken, hcall]
    simp only [World.sight]
    omega
  cases h with
  | wakes hsleeps hdue =>
      have hbefore := load_of_sleeping worker worker.rest hsleeps rfl w.clock
      have hafter := load_of_ready { worker with status := .ready } worker.rest rfl rfl w.clock
      refine hlighter _ _ _ 0 rfl hsame rfl rfl rfl rfl ?_
      omega
  | @acts a rest contributions hready hrest hquick =>
      have hbefore := load_of_ready worker _ hready hrest w.clock
      have hafter := load_of_ready { worker with index := worker.index + 1, rest } rest hready rfl w.clock
      simp only [weights, Step.weight] at hbefore
      refine hlighter _ _ contributions 0 rfl rfl rfl rfl rfl rfl ?_
      omega
  | @raises s rest wakes hready hrest hfew' hwakes =>
      have hbefore := load_of_ready worker _ hready hrest w.clock
      have hafter := load_of_ready { worker with index := worker.index + 1, rest } rest hready rfl w.clock
      simp only [weights, Step.weight] at hbefore
      refine hlighter _ _ _ _ rfl hsame rfl rfl rfl List.length_append ?_
      omega
  | @sleeps duration ticket rest hready hrest =>
      have hbefore := load_of_ready worker _ hready hrest w.clock
      have hafter := load_of_sleeping
        { worker with index := worker.index + 1, rest, status := .sleeping (w.clock + duration) ticket }
        rest rfl rfl w.clock
      simp only [weights, Step.weight] at hbefore
      refine hlighter _ _ _ 0 rfl hsame rfl rfl rfl rfl ?_
      omega
  | @ends done o wakes hready hquick hdone hover hfew' hwakes =>
      have hbefore := load_of_ready worker worker.rest hready rfl w.clock
      have hafter : done.load w.clock = 0 := by simp only [Strand.load, hover]
      have hsome := one_le_weights worker.rest
      refine hlighter _ _ _ _ rfl hsame rfl rfl rfl List.length_append ?_
      omega

/-! ## Turns of the main strand -/

/-- What a step of a turn does to a session: it keeps the pace, wakes whoever becomes due, and leaves less
to be done. -/
structure Strides (source : InterruptSource) (child : ChildRun)
    (R : Sight → Strand → Listener → Prop) (t : TaskId) (w after : World) : Prop where
  pace : Pace source child R after.sight
  rouses : Rouses t w after
  load : after.load < w.load

/-- The call is made. -/
theorem strides_opening
    {lead : Script}
    (hbody : body = alarms child.interrupts ++ lead)
    (hlead : Lead child lead)
    (hpace : Pace source child R w.sight)
    (hruntime : w.hasRuntime = true)
    (hstrands : w.strands = [main])
    (hcalls : w.calls = [])
    (hready : main.status = .ready)
    (hrest : main.rest = operation subject body) :
    Strides source child (Outlook source child True) (.strand 0) w (w.advance 0) := by
  obtain ⟨hsource, hclock, hchannel⟩ := hpace.ahead hcalls
  have hsight := sight_opening hruntime hstrands hcalls hready hrest
  have hears := hears_ear hsource hclock hchannel
  have hstrands' : (w.advance 0).strands = _ := congrArg Sight.strands hsight
  have hclock' : (w.advance 0).clock = w.clock := (congrArg Sight.clock hsight).trans Sight.clock_hand
  have hwoken : (w.advance 0).woken = _ := congrArg Sight.woken hsight
  have hdeliveries : (w.advance 0).deliveries = _ := congrArg Sight.deliveries hsight
  refine ⟨?_, rouses_main hstrands' hclock' (fun _ => .inr ?_) (fun u hu => ?_) fun n d hd => ?_, ?_⟩
  · rw [hsight]
    refine .of_raced rfl rfl ⟨rfl, rfl, rfl, rfl⟩ hears.length_le ?_
    exact .fresh rfl hbody hlead (Sight.clock_hand.trans hclock) hears fun _ => .inr trivial
  · rw [hwoken]
    exact List.mem_append_right _ List.mem_cons_self
  · rw [hwoken]
    exact List.mem_append_left _ (Sight.mem_woken_hand hu)
  · rw [hdeliveries] at hd
    rw [hwoken]
    exact (Sight.woken_hand hd).imp_right (List.mem_append_left _)
  · let racing : Strand := { main with index := main.index + 1, rest := [.drain false], status := .racing 0 }
    let call : Call :=
      { w.newCall 0 subject false none with listener := w.sight.ear.1, phase := .racing 1 }
    have hold := load_of_ready main _ hready hrest w.clock
    have hmain := load_of_racing racing [.drain false] rfl rfl w.clock
    have hworker := load_of_ready (workerOf main body) body rfl rfl w.clock
    have hcall : call.load w.clock ≤ 4 := load_call_le rfl w.clock
    simp only [operation, weights, Step.weight, List.length_nil] at hold hmain
    rw [World.load_sight, World.load_sight, hsight]
    refine Sight.load_lt_of_hand (fun d hd => w.made?_waiting hd) 1 rfl rfl List.length_append
      Sight.clock_hand ?_
    change ([racing, workerOf main body].map (Strand.load w.clock)).sum +
      ([call].map (Call.load w.clock)).sum + 11 + 2 * 1 <
        (w.strands.map (Strand.load w.clock)).sum + (w.calls.map (Call.load w.clock)).sum
    simp only [hstrands, hcalls, List.map_cons, List.map_nil, List.sum_cons, List.sum_nil]
    omega

theorem length_release_le
    (l : Listener)
    (c : Channel) :
    (l.release c).receivers.length ≤ c.receivers.length := by
  cases l with
  | receiver id =>
      exact List.length_filter_le _ _
  | _ =>
      exact Nat.le_refl _

/-- The race is found decided, by what comes first. -/
theorem strides_deciding
    {R' : Sight → Strand → Listener → Prop}
    {hurry : Prop}
    {s : Settlement}
    (hpace : Pace source child (Outlook source child hurry) w.sight)
    (hstrands : w.strands = [main, worker])
    (hcalls : w.calls = [call])
    (hracer : Racer main)
    (hworker : Worker worker)
    (hraced : Raced call)
    (hsettled : w.settlement? call = some s) :
    Strides source child R' (.strand 0) w (w.advance 0) := by
  have houtlook := hpace.racing main worker call hstrands hcalls hraced
  have hsight := sight_deciding hstrands hcalls hracer hraced hsettled
  have hstrands' : (w.advance 0).strands = _ := congrArg Sight.strands hsight
  have hclock' : (w.advance 0).clock = w.clock := (congrArg Sight.clock hsight).trans Sight.clock_hand
  have hwoken : (w.advance 0).woken = _ := congrArg Sight.woken hsight
  have hdeliveries : (w.advance 0).deliveries = _ := congrArg Sight.deliveries hsight
  refine ⟨?_, rouses_main hstrands' hclock' (canAdvance_left hstrands hstrands' hworker hclock')
    (fun u hu => ?_) fun n d hd => ?_, ?_⟩
  · rw [hsight]
    exact .of_settled rfl rfl (Nat.le_trans (length_release_le _ _) hpace.few)
      (houtlook.arbiter hstrands hworker hraced hsettled)
  · rw [hwoken]
    exact Sight.mem_woken_hand hu
  · rw [hdeliveries] at hd
    rw [hwoken]
    exact Sight.woken_hand hd
  · let back : Strand := { main with status := .ready }
    have hold := load_of_racing main _ hracer.status hracer.rest w.clock
    have hmain := load_of_ready back [.drain false] rfl hracer.rest w.clock
    rw [World.load_sight, World.load_sight, hsight]
    refine Sight.load_lt_of_hand (fun d hd => w.made?_waiting hd) 0 rfl rfl rfl Sight.clock_hand ?_
    change ([back, worker].map (Strand.load w.clock)).sum + 0 + 11 + 2 * 0 <
      (w.strands.map (Strand.load w.clock)).sum + (w.calls.map (Call.load w.clock)).sum
    simp only [hstrands, hcalls, List.map_cons, List.map_nil, List.sum_cons, List.sum_nil]
    omega

/-- The main strand waits for the deliveries. -/
theorem strides_waiting
    {R' : Sight → Strand → Listener → Prop}
    {s : Settlement}
    (hpace : Pace source child R w.sight)
    (hwaits : Waits w.sight main)
    (hstrands : w.strands = [main, worker])
    (hcalls : w.calls = [call])
    (htask : main.task = 0)
    (hworker : Worker worker)
    (hphase : call.phase = .settled s)
    (hgoes : w.canAdvance 0 = true) :
    Strides source child R' (.strand 0) w (w.advance 0) := by
  -- nothing but the main strand and the list of those that wait to be drained is touched
  have hstride : ∀ (next : Strand) (pending : List Nat),
      (w.advance 0).sight = { w.sight with strands := [next, worker], pending } →
      next.load w.clock + pending.length < main.load w.clock + w.pending.length →
      Strides source child R' (.strand 0) w (w.advance 0) := by
    intro next pending hsight hless
    have hstrands' : (w.advance 0).strands = _ := congrArg Sight.strands hsight
    have hclock' : (w.advance 0).clock = w.clock := congrArg Sight.clock hsight
    have hwoken : (w.advance 0).woken = w.woken := congrArg Sight.woken hsight
    have hdeliveries : (w.advance 0).deliveries = w.deliveries := congrArg Sight.deliveries hsight
    have hcalls' : (w.advance 0).sight.calls = [call] := (congrArg Sight.calls hsight).trans hcalls
    have hchannel : (w.advance 0).sight.channel = w.channel := congrArg Sight.channel hsight
    refine ⟨.of_settled hcalls' hphase (hchannel ▸ hpace.few) (hpace.decided call s hcalls hphase),
      rouses_main hstrands' hclock' (canAdvance_left hstrands hstrands' hworker hclock')
        (fun u hu => by rwa [hwoken]) (fun n d hd => .inl (by rwa [hdeliveries] at hd)), ?_⟩
    have hbefore : w.sight.load = _ := load_of_parts hstrands hcalls
    have hafter : Sight.load { w.sight with strands := [next, worker], pending } = _ :=
      load_of_parts rfl hcalls
    rw [World.load_sight, World.load_sight, hsight, hbefore, hafter]
    simp only [World.sight]
    omega
  cases hwaits with
  | before hstatus hrest hall =>
      have hold := load_of_ready main _ hstatus hrest w.clock
      refine hstride _ _ (sight_draining hstrands hstatus hrest) ?_
      rw [hold]
      simp only [Strand.load, weights, Step.weight, List.length_nil]
      omega
  | @during batch hstatus hrest hnone hbatch =>
      have hold : main.load w.clock = 32 * weights [] + batch.length + 1 := by
        simp only [Strand.load, hstatus, hrest]
      refine hstride _ w.pending (sight_drained hstrands hstatus hgoes) ?_
      rw [hold]
      by_cases hempty : (w.unsettled batch).isEmpty = true
      · have hback : w.statusAfter batch false = .ready := if_pos hempty
        simp only [Strand.load, hback, hrest]
        omega
      · have hstays : w.statusAfter batch false = .draining (w.unsettled batch) false := if_neg hempty
        -- a drain that is to go on and has a turn has something to put away
        have hsome : batch.any w.isDelivered = true := by
          have hdue : batch.isEmpty = true ∨ batch.any w.isDelivered = true := by
            simpa [World.canAdvance, hstrands, hstatus] using hgoes
          refine hdue.resolve_left fun hnothing => hempty ?_
          rw [List.isEmpty_iff.mp hnothing]
          rfl
        have hfewer : (w.unsettled batch).length < batch.length := by
          obtain ⟨n, hn, hdelivered⟩ := List.any_eq_true.mp hsome
          exact List.length_filter_lt_length_iff_exists.mpr ⟨n, hn, by simp [hdelivered]⟩
        simp only [Strand.load, hstays, hrest]
        omega
  | back hstatus hrest hnone hover =>
      have hold := load_of_ready main _ hstatus hrest w.clock
      refine hstride _ w.pending (sight_ending hstrands hworker htask hstatus hrest) ?_
      rw [hold]
      simp only [Strand.load, weights]
      omega
  | ended hstatus hnone hover =>
      simp [World.canAdvance, hstrands, hstatus] at hgoes

/-- Each step of the main strand, whatever the scene is. -/
theorem strides_main
    {hurry : Prop}
    {lead : Script}
    (hbody : body = alarms child.interrupts ++ lead)
    (hlead : Lead child lead)
    (hscene : Scene subject body w.sight)
    (hpace : Pace source child (Outlook source child hurry) w.sight)
    (hgoes : w.canAdvance 0 = true) :
    Strides source child (Outlook source child True) (.strand 0) w (w.advance 0) := by
  cases hscene with
  | ahead hstrands hcalls htask hready hrest hdeliveries hpending hruntime =>
      exact strides_opening hbody hlead hpace hruntime hstrands hcalls hready hrest
  | @racing main worker call hstrands hcalls hracer hworker hraced hpending =>
      cases hsettled : w.settlement? call with
      | none =>
          rw [canAdvance_racer hstrands hcalls hracer hraced, hsettled] at hgoes
          cases hgoes
      | some s =>
          exact strides_deciding hpace hstrands hcalls hracer hworker hraced hsettled
  | decided hstrands hcalls htask hworker hphase hown hwaits =>
      exact strides_waiting hpace hwaits hstrands hcalls htask hworker hphase hgoes

/-! ## Turns of the operation -/

theorem Labour.few
    (h : Labour w main worker call v)
    (hfew : w.channel.receivers.length ≤ 1) :
    v.channel.receivers.length ≤ 1 := by
  cases h with
  | raises hready hrest hfew' hwakes =>
      simpa [Channel.trigger] using hfew
  | _ =>
      exact hfew

/-- Each step of the operation, whatever the scene is. -/
theorem strides_operation
    (hscene : Scene subject body w.sight)
    (hpace : Pace source child (Doing source child) w.sight)
    (hgoes : w.canAdvance 1 = true) :
    Strides source child (Doing source child) (.strand 1) w (w.advance 1) := by
  cases hscene with
  | ahead hstrands hcalls htask hready hrest hdeliveries hpending =>
      have hstrands : w.strands = [_] := hstrands
      simp [World.canAdvance, hstrands] at hgoes
  | @racing main worker call hstrands hcalls hracer hworker hraced hpending =>
      have hlabour := labour_advance hstrands hcalls hworker hgoes
      have hdoing := hpace.racing main worker call hstrands hcalls hraced
      obtain ⟨next, contributions, hstrands', hcalls', hnext⟩ := hdoing.labour hlabour hcalls
      refine ⟨.of_raced hstrands' hcalls' ⟨hraced.owner, hraced.phase, hraced.propagate, hraced.deadline⟩
        (hlabour.few hpace.few) hnext, ?_, hlabour.load_lt hstrands hcalls hpace.few⟩
      exact hlabour.rouses hstrands hcalls hworker (.inl ⟨hracer, hraced⟩)
  | @decided main worker call s hstrands hcalls htask hworker hphase hown hwaits =>
      have hlabour := labour_advance hstrands hcalls hworker hgoes
      obtain ⟨next, contributions, hstrands', hcalls', -⟩ := hlabour.keeps hcalls hworker
      refine ⟨.of_settled hcalls' hphase (hlabour.few hpace.few) (hpace.decided call s hcalls hphase), ?_,
        hlabour.load_lt hstrands hcalls hpace.few⟩
      exact hlabour.rouses hstrands hcalls hworker (.inr hwaits)

end Turns
end Session
end LifecycleTelemetry
