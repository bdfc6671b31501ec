import LifecycleTelemetry.Proofs.Operation.Sight
import LifecycleTelemetry.Proofs.Operation.Workload

/-!
# Nobody is forgotten

A task that can go on is *due*. A schedule gives turns to those only that have been woken, so whoever
becomes due has to be woken for it: by the strand or the delivery whose turn it is, or by the clock. A
schedule in which every task that is due waits for its turn is *awake*.

`Rouses` says of a part of a turn that it wakes all that become due by it, except for the task whose turn
it is. The clock does so as well, in a world in which tasks have a single strand each and strands race
their own calls. So a schedule that has nothing left to do is one in which nobody is due.
-/

namespace LifecycleTelemetry

/-- Whether a delivery could go on. -/
def Delivery.isDue (now : Nat) (d : Delivery) : Bool :=
  match d.status with
  | .waiting => true
  | .delayed deadline _ => deadline ≤ now
  | _ => false

namespace World

/-- A task could go on. -/
def IsDue (w : World) : TaskId → Prop
  | .strand id => w.canAdvance id = true
  | .delivery id => ∃ d, w.deliveries[id]? = some d ∧ d.isDue w.clock = true

/-- All that become due are woken, except for the task whose turn it is. -/
structure Rouses (t : TaskId) (w after : World) : Prop where
  woken : ∀ u ∈ w.woken, u ∈ after.woken
  due : ∀ u, u ≠ t → after.IsDue u → w.IsDue u ∨ u ∈ after.woken

section Rouses

variable {t : TaskId} {w mid after : World}

theorem Rouses.refl : Rouses t w w :=
  ⟨fun _ h => h, fun _ _ h => .inl h⟩

theorem Rouses.trans
    (h₁ : Rouses t w mid)
    (h₂ : Rouses t mid after) :
    Rouses t w after where
  woken := fun u hu => h₂.woken u (h₁.woken u hu)
  due := by
    intro u hne hu
    rcases h₂.due u hne hu with hmid | hwoken
    · exact (h₁.due u hne hmid).imp_right (h₂.woken u)
    · exact .inr hwoken

end Rouses

/-- Tasks have a single strand each, and whoever races a call has made it. -/
structure Solo (w : World) : Prop where
  tasks : ∀ (id : Nat) (strand : Strand), w.strands[id]? = some strand → strand.task = id
  races : ∀ (id number : Nat) (strand : Strand) (call : Call), w.strands[id]? = some strand →
    strand.status = .racing number → w.calls[number]? = some call →
    call.owner = id ∧ ∃ body, call.phase = .racing body

/-! ## Turns of deliveries -/

/-- What the turn of a delivery comes to. -/
inductive Handles (w : World) (id : Nat) : Sight → Prop where
  | idle
      (hidle : ¬ w.IsDue (.delivery id)) :
      Handles w id w.sight
  | goes
      {d : Delivery}
      {status : DeliveryStatus}
      {wakes : List TaskId}
      (hd : w.deliveries[id]? = some d)
      (hpast : Delivery.isDue w.clock { d with status } = false)
      (hwakes : Delivery.isFinished { d with status } = true → wakes = w.drainers id) :
      Handles w id
        { w.sight with
          deliveries := w.deliveries.modify id fun d => { d with status }
          woken := w.woken ++ wakes }

section Deliveries

variable (w : World)

theorem handles_endDelivery
    {u : World}
    {id : Nat}
    {d : Delivery}
    (hd : w.deliveries[id]? = some d)
    (hu : u.sight = w.sight) :
    Handles w id (u.endDelivery id d).sight := by
  have hstrands : u.strands = w.strands := congrArg Sight.strands hu
  have hended : ∀ (v : World) (panicked : Bool), v.sight = w.sight →
      Handles w id (World.sight { v.withDelivery id (.finished panicked) with
        woken := (v.withDelivery id (.finished panicked)).woken ++
          (v.withDelivery id (.finished panicked)).drainers id }) := by
    intro v panicked hv
    have hdrainers : (v.withDelivery id (.finished panicked)).drainers id = w.drainers id := by
      have hsame : v.strands = w.strands := congrArg Sight.strands hv
      simp only [drainers, withDelivery, hsame]
    have hsight : World.sight { v.withDelivery id (.finished panicked) with
        woken := (v.withDelivery id (.finished panicked)).woken ++
          (v.withDelivery id (.finished panicked)).drainers id } =
        { v.sight with
          deliveries := v.sight.deliveries.modify id fun d => { d with status := .finished panicked }
          woken := v.sight.woken ++ w.drainers id } := by
      rw [hdrainers]
      rfl
    rw [hsight, hv]
    exact .goes hd rfl fun _ => rfl
  unfold endDelivery
  cases d.plan.ending with
  | succeed =>
      exact hended u false hu
  | fail =>
      exact hended (u.say _ _ _ _) false hu
  | panic =>
      exact hended u true hu
  | hang =>
      have hsight : (u.withDelivery id .stuck).sight =
          { u.sight with
            deliveries := u.sight.deliveries.modify id fun d => { d with status := .stuck }
            woken := u.sight.woken ++ [] } := by
        rw [List.append_nil]
        rfl
      simp only
      rw [hsight, hu]
      refine .goes hd rfl fun hnever => ?_
      cases hnever

/-- A delivery that has its turn gets on until it has to wait, or is over and wakes who waits for it. -/
theorem handles_deliver
    (id : Nat) :
    Handles w id (w.deliver id).sight := by
  unfold deliver
  cases hd : w.deliveries[id]? with
  | none =>
      exact .idle fun ⟨d, hplace, _⟩ => by rw [hd] at hplace; cases hplace
  | some d =>
      have hnot : d.isDue w.clock = false → ¬ w.IsDue (.delivery id) := by
        rintro hstays ⟨other, hplace, hdue⟩
        rw [hd] at hplace
        cases hplace
        rw [hstays] at hdue
        cases hdue
      cases hstatus : d.status with
      | waiting =>
          cases hplan : d.plan.delay with
          | none =>
              simp only [hstatus, hplan]
              exact w.handles_endDelivery hd rfl
          | some delay =>
              simp only [hstatus, hplan, ticket]
              split
              · exact w.handles_endDelivery (u := { w with tickets := w.tickets + 1 }) hd rfl
              · next hlong =>
                  have hsight : World.sight (World.withDelivery { w with tickets := w.tickets + 1 } id
                      (.delayed (w.clock + delay) w.tickets)) =
                      { w.sight with
                        deliveries := w.deliveries.modify id fun d =>
                          { d with status := .delayed (w.clock + delay) w.tickets }
                        woken := w.woken ++ [] } := by
                    rw [List.append_nil]
                    rfl
                  rw [hsight]
                  refine .goes hd ?_ fun hnever => ?_
                  · simp only [Delivery.isDue, decide_eq_false_iff_not]
                    omega
                  · cases hnever
      | delayed deadline ticket =>
          simp only [hstatus]
          split
          · exact w.handles_endDelivery hd rfl
          · next hearly =>
              exact .idle (hnot (by simp [Delivery.isDue, hstatus, hearly]))
      | _ =>
          simp only [hstatus]
          exact .idle (hnot (by simp [Delivery.isDue, hstatus]))

/-- A delivery is not due after its turn. -/
theorem not_isDue_deliver
    (id : Nat) :
    ¬ (w.deliver id).IsDue (.delivery id) := by
  rintro ⟨d, hplace, hdue⟩
  have hhandles := w.handles_deliver id
  generalize hv : (w.deliver id).sight = v at hhandles
  have hdeliveries : (w.deliver id).deliveries = v.deliveries := congrArg Sight.deliveries hv
  have hclock : (w.deliver id).clock = v.clock := congrArg Sight.clock hv
  rw [hdeliveries] at hplace
  rw [hclock] at hdue
  cases hhandles with
  | idle hidle =>
      exact hidle ⟨d, hplace, hdue⟩
  | @goes old status wakes hd hpast hwakes =>
      have hnew : w.deliveries[id]?.map (fun d => { d with status }) = some d := by
        simpa [List.getElem?_modify] using hplace
      rw [hd] at hnew
      cases hnew
      exact absurd (hpast.symm.trans hdue) nofun

/-- Whether a strand can go on is seen from strands, calls, the channel, deliveries and the clock. -/
theorem canAdvance_congr
    {after : World}
    (hstrands : after.strands = w.strands)
    (hcalls : after.calls = w.calls)
    (hchannel : after.channel = w.channel)
    (hdeliveries : after.deliveries = w.deliveries)
    (hclock : after.clock = w.clock)
    (id : Nat) :
    after.canAdvance id = w.canAdvance id := by
  cases w
  cases after
  cases hstrands
  cases hcalls
  cases hchannel
  cases hdeliveries
  cases hclock
  rfl

/-- Only the drains can go on that have waited for a delivery that ends. -/
theorem drains_of_delivered
    {id j : Nat}
    {deliveries : List Delivery}
    (hsolo : w.Solo)
    (hothers : ∀ n, n ≠ id → deliveries[n]? = w.deliveries[n]?)
    (hgoes : canAdvance { w with deliveries } j = true)
    (hbefore : w.canAdvance j = false) :
    isDelivered { w with deliveries } id = true ∧ .strand j ∈ w.drainers id := by
  have hsame : ∀ n, n ≠ id → isDelivered { w with deliveries } n = w.isDelivered n := by
    intro n hn
    simp only [isDelivered, hothers n hn]
  cases hstrand : w.strands[j]? with
  | none =>
      simp [canAdvance, hstrand] at hgoes
  | some strand =>
      have htask := hsolo.tasks j strand hstrand
      have hmem := List.mem_of_getElem? hstrand
      cases hstatus : strand.status with
      | draining batch recorded =>
          simp only [canAdvance, hstrand, hstatus, Bool.or_eq_true, Bool.or_eq_false_iff, List.any_eq_true,
            List.any_eq_false] at hgoes hbefore
          obtain ⟨n, hn, hdelivered⟩ := hgoes.resolve_left (by simp [hbefore.1])
          obtain rfl : n = id := Decidable.byContradiction fun hne =>
            hbefore.2 n hn (hsame n hne ▸ hdelivered)
          refine ⟨hdelivered, List.mem_filterMap.mpr ⟨strand, hmem, ?_⟩⟩
          simp [hstatus, htask, hn]
      | settling n =>
          simp only [canAdvance, hstrand, hstatus] at hgoes hbefore
          obtain rfl : n = id := Decidable.byContradiction fun hne => by
            rw [hsame n hne, hbefore] at hgoes
            cases hgoes
          refine ⟨hgoes, List.mem_filterMap.mpr ⟨strand, hmem, ?_⟩⟩
          simp [hstatus, htask]
      | _ =>
          have hstays : canAdvance { w with deliveries } j = w.canAdvance j := by
            simp only [canAdvance, hstrand, hstatus]
            first | done | rfl
          rw [hstays, hbefore] at hgoes
          cases hgoes

/-- A delivery wakes whoever becomes due by its turn. -/
theorem rouses_deliver
    (hsolo : w.Solo)
    (id : Nat) :
    Rouses (.delivery id) w (w.deliver id) := by
  have hbackground := w.background_deliver id
  have hhandles := w.handles_deliver id
  generalize hv : (w.deliver id).sight = v at hhandles
  have hdeliveries : (w.deliver id).deliveries = v.deliveries := congrArg Sight.deliveries hv
  have hclock : (w.deliver id).clock = v.clock := congrArg Sight.clock hv
  have hchannel : (w.deliver id).channel = v.channel := congrArg Sight.channel hv
  have hwoken : (w.deliver id).woken = v.woken := congrArg Sight.woken hv
  cases hhandles with
  | idle hidle =>
      have hsame := w.canAdvance_congr hbackground.strands hbackground.calls hchannel hdeliveries hclock
      refine ⟨fun u hu => by rwa [hwoken], fun u _ hu => .inl ?_⟩
      cases u with
      | strand j =>
          exact (hsame j).symm.trans hu
      | delivery n =>
          obtain ⟨d, hplace, hdue⟩ := hu
          rw [hdeliveries] at hplace
          rw [hclock] at hdue
          exact ⟨d, hplace, hdue⟩
  | @goes d status wakes hd hpast hwakes =>
      let deliveries := w.deliveries.modify id fun d => { d with status }
      have hothers : ∀ n, n ≠ id → deliveries[n]? = w.deliveries[n]? := by
        intro n hn
        simp [deliveries, Ne.symm hn]
      refine ⟨fun u hu => by rw [hwoken]; exact List.mem_append_left _ hu, fun u hne hu => ?_⟩
      cases u with
      | strand j =>
          have hgoes := (canAdvance_congr { w with deliveries } hbackground.strands hbackground.calls
            hchannel hdeliveries hclock j).symm.trans hu
          cases hbefore : w.canAdvance j with
          | true =>
              exact .inl hbefore
          | false =>
              obtain ⟨hover, hdrains⟩ := w.drains_of_delivered hsolo hothers hgoes hbefore
              have hfinished : Delivery.isFinished { d with status } = true := by
                simpa [isDelivered, deliveries, hd] using hover
              rw [hwoken, hwakes hfinished]
              exact .inr (List.mem_append_right _ hdrains)
      | delivery n =>
          obtain ⟨other, hplace, hdue⟩ := hu
          have hn : n ≠ id := fun h => hne (congrArg _ h)
          rw [hdeliveries] at hplace
          rw [hclock] at hdue
          exact .inl ⟨other, (hothers n hn).symm.trans hplace, hdue⟩

end Deliveries

end World

namespace Schedule

open World (IsDue Rouses)

/-! ## Waiting for a turn -/

/-- A task has been woken and has not had its turn yet. -/
def Waits (s : Schedule) (t : TaskId) : Prop :=
  t = .main ∧ s.mainWoken = true ∨ t ∈ s.queue

/-- Nobody is left to be woken or has been set aside, and all who are due wait for their turn. -/
structure Awake (s : Schedule) : Prop where
  woken : s.world.woken = []
  aside : s.aside = []
  waits : ∀ t, s.world.IsDue t → s.Waits t

section Waiting

variable (s : Schedule)

theorem waits_enqueue
    (t u : TaskId) :
    (s.enqueue t).Waits u ↔ s.Waits u ∨ u = t := by
  unfold enqueue Waits
  split
  · next hmain =>
      subst hmain
      grind
  · next hmain =>
      split
      · next hqueue =>
          have hqueue : t ∈ s.queue := List.contains_iff_mem.mp hqueue
          grind
      · simp only [List.mem_append, List.mem_singleton]
        grind

theorem waits_foldl_enqueue
    (ts : List TaskId)
    (u : TaskId) :
    (ts.foldl enqueue s).Waits u ↔ s.Waits u ∨ u ∈ ts := by
  induction ts generalizing s with
  | nil =>
      simp
  | cons t rest ih =>
      rw [List.foldl_cons, ih, waits_enqueue, List.mem_cons, or_assoc]

theorem aside_foldl_enqueue
    (ts : List TaskId) :
    (ts.foldl enqueue s).aside = s.aside ∧ (ts.foldl enqueue s).mainNext = s.mainNext := by
  induction ts generalizing s with
  | nil =>
      exact ⟨rfl, rfl⟩
  | cons t rest ih =>
      have hfirst : (s.enqueue t).aside = s.aside ∧ (s.enqueue t).mainNext = s.mainNext := by
        unfold enqueue
        split
        · exact ⟨rfl, rfl⟩
        · split
          · exact ⟨rfl, rfl⟩
          · exact ⟨rfl, rfl⟩
      rw [List.foldl_cons]
      exact ⟨(ih _).1.trans hfirst.1, (ih _).2.trans hfirst.2⟩

/-- The main task stands outside the queue. -/
theorem main_not_mem_foldl_enqueue
    (ts : List TaskId)
    (h : .main ∉ s.queue) :
    .main ∉ (ts.foldl enqueue s).queue := by
  induction ts generalizing s with
  | nil =>
      exact h
  | cons t rest ih =>
      refine ih (s.enqueue t) ?_
      unfold enqueue
      split
      · exact h
      · next hother =>
          split
          · exact h
          · intro hmem
            rcases List.mem_append.mp hmem with hqueue | hlast
            · exact h hqueue
            · exact hother (List.mem_singleton.mp hlast).symm

/-- Whoever has been woken waits after the gathering. -/
theorem waits_gather
    (u : TaskId) :
    s.gather.Waits u ↔ s.Waits u ∨ u ∈ s.world.woken :=
  waits_foldl_enqueue _ _ u

theorem waits_gatherAfter
    (current u : TaskId) :
    (s.gatherAfter current).Waits u ↔ s.Waits u ∨ u ∈ s.world.woken := by
  have hsame : ∀ w : World, Waits { s with world := w } u ↔ s.Waits u := fun _ => Iff.rfl
  rw [gatherAfter, waits_foldl_enqueue, hsame]
  refine or_congr_right ?_
  rw [List.mem_append]
  by_cases hu : u = current
  · subst hu
    -- of the tasks that are the current one, the first stands for all
    cases hagain : s.world.woken.filter fun t => t == u with
    | nil =>
        have hnot : u ∉ s.world.woken := fun hmem => by
          have hfound : u ∈ s.world.woken.filter fun t => t == u :=
            List.mem_filter.mpr ⟨hmem, beq_self_eq_true u⟩
          rw [hagain] at hfound
          cases hfound
        simp [hnot]
    | cons t rest =>
        have hfirst : t ∈ s.world.woken.filter fun t => t == u := by
          rw [hagain]
          exact List.mem_cons_self
        obtain ⟨hmem, hsame⟩ := List.mem_filter.mp hfirst
        obtain rfl := beq_iff_eq.mp hsame
        simp [hmem]
  · have hnot : u ∉ (s.world.woken.filter fun t => t == current).take 1 := fun hmem => by
      obtain ⟨-, hsame⟩ := List.mem_filter.mp (List.mem_of_mem_take hmem)
      exact hu (beq_iff_eq.mp hsame)
    simp only [hnot, or_false, List.mem_filter, bne_iff_ne]
    exact and_iff_left hu

end Waiting

/-! ## Turns -/

section Turns

variable {s : Schedule}

/-- A schedule is awake after a turn in which all were woken who have become due, and after which the task
itself is not due any more unless it has been woken. -/
theorem awake_gatherAfter
    {t : TaskId}
    (haside : s.aside = [])
    (hothers : ∀ u, u ≠ t → s.world.IsDue u → s.Waits u ∨ u ∈ s.world.woken)
    (hself : s.world.IsDue t → t ∈ s.world.woken) :
    (s.gatherAfter t).Awake where
  woken := by rw [world_gatherAfter]
  aside := (aside_foldl_enqueue _ _).1.trans haside
  waits := by
    intro u hu
    rw [world_gatherAfter] at hu
    have hdue : s.world.IsDue u := by
      cases u with
      | strand id =>
          exact hu
      | delivery id =>
          exact hu
    rw [waits_gatherAfter]
    by_cases hut : u = t
    · subst hut
      exact .inr (hself hdue)
    · exact hothers u hut hdue

/-- Who waits for a turn besides the task whose turn it is. -/
structure Admits (s : Schedule) (t : TaskId) : Prop where
  aside : s.aside = []
  waits : ∀ u, u ≠ t → s.world.IsDue u → s.Waits u

theorem awake_of_rouses
    {t : TaskId}
    {world : World}
    (h : s.Admits t)
    (hrouses : Rouses t s.world world)
    (hself : ¬ world.IsDue t) :
    (gatherAfter { s with world } t).Awake := by
  refine awake_gatherAfter h.aside (fun u hne hu => ?_) fun hu => (hself hu).elim
  exact (hrouses.due u hne hu).imp_left (h.waits u hne)

/-- A strand that has not given way is given its turn as it is, and is not set aside. -/
theorem poll_strand
    {fuel task : Nat}
    (hnow : ∀ strand ∈ s.world.strands, strand.status ≠ .gaveWay)
    (hafter : ∀ strand ∈ (turn fuel task s.world).strands, strand.status ≠ .gaveWay) :
    poll fuel s (.strand task) =
      gatherAfter { s with world := turn fuel task s.world } (.strand task) := by
  have hwelcome : welcome s.world task = s.world := by
    unfold welcome
    split
    · next hstatus =>
        obtain ⟨strand, hstrand, hgave⟩ := Option.map_eq_some_iff.mp hstatus
        exact (hnow strand (List.mem_of_getElem? hstrand) hgave).elim
    · rfl
  have hnone : hasGivenWay (turn fuel task s.world) task = false := by
    refine List.any_eq_false.mpr fun strand hstrand => ?_
    have hnot := hafter strand hstrand
    cases hstatus : strand.status with
    | gaveWay =>
        exact (hnot hstatus).elim
    | _ =>
        simp
  simp only [poll, hwelcome, setAside, hnone, Bool.false_eq_true, if_false]

end Turns

/-! ## What happens next -/

/-- What may happen next in a schedule in which nobody has been set aside. -/
inductive Next (fuel : Nat) (s : Schedule) : Schedule → Prop where
  | main
      (hwoken : s.mainWoken = true)
      (hnext : s.mainNext = true) :
      Next fuel s (poll fuel { s with mainWoken := false, mainNext := false } .main)
  | first
      {t : TaskId}
      {queue : List TaskId}
      (hqueue : s.queue = t :: queue)
      (hmain : s.mainWoken = true → s.mainNext = false) :
      Next fuel s (poll fuel { s with queue, mainNext := false } t)
  | letIn
      (hqueue : s.queue = [])
      (hwoken : s.mainWoken = true)
      (hnext : s.mainNext = false) :
      Next fuel s { s with mainNext := true }
  | wait
      {time : Nat}
      (hqueue : s.queue = [])
      (hwoken : s.mainWoken = false)
      (htime : nextTime? s.world = some time) :
      Next fuel s { gather { s with world := moveTo s.world time } with mainNext := true }

/-- Nothing is left to do in a schedule: the main task is over, or nobody waits for a turn or a time. -/
def IsIdle (s : Schedule) : Prop :=
  s.isOver = true ∨ s.queue = [] ∧ s.mainWoken = false ∧ nextTime? s.world = none

section Next

variable {fuel : Nat} {s after : Schedule}

theorem next_of_step?
    (haside : s.aside = [])
    (h : step? fuel none s = some after) :
    Next fuel s after := by
  have hnobody : s.aside.isEmpty = true := List.isEmpty_iff.mpr haside
  unfold step? at h
  split at h
  · cases h
  · split at h
    · next hmain =>
        cases h
        obtain ⟨hnext, hwoken⟩ := Bool.and_eq_true_iff.mp hmain
        exact .main hwoken hnext
    · next hmain =>
        split at h
        · next t queue hqueue =>
            cases h
            exact .first hqueue fun hwoken => by simpa [hwoken] using hmain
        · next hqueue =>
            split at h
            · next hwoken =>
                cases h
                exact .letIn hqueue hwoken (by simpa [hwoken] using hmain)
            · next hwoken =>
                have hnot : s.mainWoken = false := by simpa using hwoken
                simp only [Option.any_none, Bool.false_eq_true, if_false] at h
                split at h
                · next time htime =>
                    cases h
                    exact .wait hqueue hnot htime
                · cases h

theorem isIdle_of_step?
    (haside : s.aside = [])
    (h : step? fuel none s = none) :
    s.IsIdle := by
  have hnobody : s.aside.isEmpty = true := List.isEmpty_iff.mpr haside
  unfold step? at h
  split at h
  · next hover =>
      exact .inl hover
  · split at h
    · cases h
    · split at h
      · cases h
      · next hqueue =>
          split at h
          · cases h
          · next hwoken =>
              simp only [Option.any_none, Bool.false_eq_true, if_false] at h
              split at h
              · cases h
              · next htime =>
                  exact .inr ⟨hqueue, by simpa using hwoken, htime⟩

end Next

/-! ## Time -/

section Time

variable {w : World} {time : Nat}

theorem mem_woken_moveTo
    {t : Timer}
    (ht : t ∈ timers w)
    (hdue : t.deadline ≤ time) :
    t.task ∈ (moveTo w time).woken := by
  refine List.mem_append_right _ (List.mem_map_of_mem ?_)
  exact (List.mem_mergeSort).mpr (List.mem_filter.mpr ⟨ht, decide_eq_true hdue⟩)

/-- The times that a call waits for in its race. -/
theorem exists_timer_of_call
    {id body : Nat}
    {strand : Strand}
    {call : Call}
    (hclock : (w.moveClock time).clock = time)
    (hphase : call.phase = .racing body)
    (howner : call.owner = id)
    (hstrand : w.strands[id]? = some strand)
    (htask : strand.task = id)
    (hdue : ((w.moveClock time).settlement? call).isSome = true ∨
      (w.moveClock time).isOverdue call = true)
    (hopen : (w.settlement? call).isSome = false)
    (hearly : w.isOverdue call = false) :
    ∃ t ∈ callTimers { w with calls := [call] },
      w.clock < t.deadline ∧ t.deadline ≤ time ∧ t.task = .strand id := by
  have hlistens : ∀ deadline signal, call.listener = .timed deadline signal →
      ⟨deadline, 0, .strand id⟩ ∈ callTimers { w with calls := [call] } := by
    intro deadline signal hlistener
    simp [callTimers, hphase, howner, hstrand, htask, hlistener]
  have hgives : ∀ d, call.deadline = some d →
      ⟨d.1, d.2, .strand id⟩ ∈ callTimers { w with calls := [call] } := by
    intro d hdeadline
    simp [callTimers, hphase, howner, hstrand, htask, hdeadline]
  rcases hdue with hdue | hdue
  · unfold World.settlement? at hdue hopen
    simp only [hphase, hclock] at hdue hopen
    have hstrands : (w.moveClock time).strands = w.strands := rfl
    have hchannel : (w.moveClock time).channel = w.channel := rfl
    rw [hstrands, hchannel] at hdue
    have hsignal : (call.listener.signal? time w.channel).isSome = true ∧
        (call.listener.signal? w.clock w.channel).isSome = false := by
      cases hbody : (w.strands[body]?).map Strand.status with
      | none =>
          simpa [hbody] using And.intro hdue hopen
      | some status =>
          cases status with
          | finished o =>
              simp [hbody] at hopen
          | aborted =>
              simp [hbody] at hopen
          | _ =>
              simpa [hbody] using And.intro hdue hopen
    cases hlistener : call.listener with
    | timed deadline signal =>
        simp only [hlistener, Listener.signal?, Option.isSome_ite, Option.isSome_eq_false_iff,
          Option.isNone_iff_eq_none, ite_eq_right_iff, reduceCtorEq, imp_false, Nat.not_le] at hsignal
        exact ⟨_, hlistens deadline signal hlistener, hsignal.2, hsignal.1, rfl⟩
    | _ =>
        rw [hlistener] at hsignal
        exact absurd (hsignal.1.symm.trans hsignal.2) (by simp)
  · unfold World.isOverdue at hdue hearly
    cases hdeadline : call.deadline with
    | none =>
        simp [hdeadline] at hdue
    | some d =>
        simp only [hdeadline, hclock, decide_eq_true_eq, decide_eq_false_iff_not, Nat.not_le] at hdue hearly
        exact ⟨_, hgives d hdeadline, hearly, hdue, rfl⟩

/-- A strand that becomes due as the clock moves has slept until then, or has raced a call that waited for
this time. -/
theorem exists_timer_of_strand
    (hsolo : w.Solo)
    (hlater : w.clock ≤ time)
    {id : Nat}
    (hdue : (w.moveClock time).canAdvance id = true)
    (hbefore : w.canAdvance id = false) :
    ∃ t ∈ timers w, t.deadline ≤ time ∧ t.task = .strand id := by
  have hclock : (w.moveClock time).clock = time := Nat.max_eq_right hlater
  have hin : ∀ t, t ∈ strandTimers w ++ callTimers w → w.clock < t.deadline → t ∈ timers w :=
    fun t ht hahead => List.mem_filter.mpr ⟨List.mem_append_left _ ht, decide_eq_true hahead⟩
  cases hstrand : w.strands[id]? with
  | none =>
      simp [World.canAdvance, World.moveClock, hstrand] at hdue
  | some strand =>
      have htask := hsolo.tasks id strand hstrand
      have hmem := List.mem_of_getElem? hstrand
      have hnow : (w.moveClock time).strands[id]? = some strand := hstrand
      cases hstatus : strand.status with
      | sleeping deadline ticket =>
          simp only [World.canAdvance, hnow, hstrand, hstatus, hclock, decide_eq_true_eq,
            decide_eq_false_iff_not, Nat.not_le] at hdue hbefore
          refine ⟨⟨deadline, ticket, .strand id⟩, hin _ (List.mem_append_left _ ?_) hbefore, hdue, rfl⟩
          exact List.mem_filterMap.mpr ⟨strand, hmem, by simp [hstatus, htask]⟩
      | racing number =>
          cases hcall : w.calls[number]? with
          | none =>
              have hsame : (w.moveClock time).calls[number]? = none := hcall
              simp [World.canAdvance, hnow, hstatus, hsame] at hdue
          | some call =>
              have hsame : (w.moveClock time).calls[number]? = some call := hcall
              obtain ⟨howner, body, hphase⟩ := hsolo.races id number strand call hstrand hstatus hcall
              simp only [World.canAdvance, hnow, hstrand, hstatus, hsame, hcall, Bool.or_eq_true,
                Bool.or_eq_false_iff] at hdue hbefore
              obtain ⟨t, ht, hahead, hover, hname⟩ :=
                exists_timer_of_call hclock hphase howner hstrand htask hdue hbefore.1 hbefore.2
              refine ⟨t, hin t (List.mem_append_right _ ?_) hahead, hover, hname⟩
              exact List.mem_flatMap.mpr ⟨call, List.mem_of_getElem? hcall, by simpa [callTimers] using ht⟩
      | _ =>
          have hcontra : (w.moveClock time).canAdvance id = w.canAdvance id := by
            simp only [World.canAdvance, hnow, hstrand, hstatus]
            first | done | rfl
          rw [hcontra, hbefore] at hdue
          cases hdue

/-- So does a delivery that becomes due. -/
theorem exists_timer_of_delivery
    {id : Nat}
    {d : Delivery}
    (hd : w.deliveries[id]? = some d)
    (hdue : d.isDue time = true)
    (hbefore : d.isDue w.clock = false) :
    ∃ t ∈ timers w, t.deadline ≤ time ∧ t.task = .delivery id := by
  cases hstatus : d.status with
  | delayed deadline ticket =>
      simp only [Delivery.isDue, hstatus, decide_eq_true_eq, decide_eq_false_iff_not, Nat.not_le]
        at hdue hbefore
      refine ⟨⟨deadline, ticket, .delivery id⟩, ?_, hdue, rfl⟩
      refine List.mem_filter.mpr ⟨List.mem_append_right _ ?_, decide_eq_true hbefore⟩
      have hplace : (d, id) ∈ w.deliveries.zipIdx := List.mem_zipIdx_iff_getElem?.mpr hd
      exact List.mem_filterMap.mpr ⟨(d, id), hplace, by simp [hstatus]⟩
  | _ =>
      have hsame : d.isDue time = d.isDue w.clock := by simp only [Delivery.isDue, hstatus]
      rw [hsame, hbefore] at hdue
      cases hdue

/-- The clock wakes all that become due as it moves. -/
theorem due_of_moveTo
    (hsolo : w.Solo)
    (hlater : w.clock ≤ time)
    {u : TaskId}
    (hdue : (moveTo w time).IsDue u) :
    w.IsDue u ∨ u ∈ (moveTo w time).woken := by
  cases u with
  | strand id =>
      cases hbefore : w.canAdvance id with
      | true =>
          exact .inl hbefore
      | false =>
          obtain ⟨t, ht, hover, htask⟩ := exists_timer_of_strand hsolo hlater hdue hbefore
          exact .inr (htask ▸ mem_woken_moveTo ht hover)
  | delivery id =>
      obtain ⟨d, hplace, hdue⟩ := hdue
      have hd : w.deliveries[id]? = some d := hplace
      have hclock : (moveTo w time).clock = time := Nat.max_eq_right hlater
      rw [hclock] at hdue
      cases hbefore : d.isDue w.clock with
      | true =>
          exact .inl ⟨d, hd, hbefore⟩
      | false =>
          obtain ⟨t, ht, hover, htask⟩ := exists_timer_of_delivery hd hdue hbefore
          exact .inr (htask ▸ mem_woken_moveTo ht hover)

/-- So a schedule that is awake is so after the clock has moved. -/
theorem Awake.waits_on
    {s : Schedule}
    (h : s.Awake)
    (hsolo : s.world.Solo)
    (hlater : s.world.clock ≤ time) :
    Awake { gather { s with world := moveTo s.world time } with mainNext := true } where
  woken := by
    change (gather { s with world := moveTo s.world time }).world.woken = []
    rw [world_gather]
  aside := (aside_foldl_enqueue _ _).1.trans h.aside
  waits := by
    intro u hu
    have hdue : (moveTo s.world time).IsDue u := by
      change (gather { s with world := moveTo s.world time }).world.IsDue u at hu
      rw [world_gather] at hu
      cases u with
      | strand id =>
          exact hu
      | delivery id =>
          exact hu
    refine (waits_gather _ u).mpr ?_
    exact (due_of_moveTo hsolo hlater hdue).imp_left (h.waits u)

end Time

/-! ## Nothing left to do -/

/-- In a schedule that is awake and has nothing left to do, though its main task is not over, nobody is due
and nobody ever will be. -/
theorem Awake.idle
    {s : Schedule}
    (h : s.Awake)
    (hidle : s.IsIdle)
    (hopen : s.isOver = false) :
    (∀ u, ¬ s.world.IsDue u) ∧ nextTime? s.world = none := by
  rcases hidle with hover | ⟨hqueue, hwoken, htime⟩
  · rw [hopen] at hover
    cases hover
  · refine ⟨fun u hu => ?_, htime⟩
    rcases h.waits u hu with ⟨-, hmain⟩ | hmem
    · rw [hwoken] at hmain
      cases hmain
    · rw [hqueue] at hmem
      cases hmem

end Schedule
end LifecycleTelemetry
