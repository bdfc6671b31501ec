import LifecycleTelemetry.Proofs.Operation.Scheduled
import Mathlib.Algebra.BigOperators.Group.List.Basic
import Mathlib.Algebra.GroupWithZero.Nat
import Mathlib.Data.List.Induction

/-!
# How much is left to be done

A schedule is run with a number of turns that is never to be used up. What stands against that number is
the *load* of a world: each step that a strand has before it, each delivery that is not over, each time
that is waited for, and each task that has been woken counts for something. When the clock moves to the
next time, less is left than before, even though all that has waited for it is woken; so it is when a
delivery ends and wakes a drain.

`turn_ends` and `run_ends` are the two inductions that this is for. Where every step takes away from the
load, a turn goes on until its strand cannot, a run until nothing can, and what each step keeps holds in
the end.
-/

namespace LifecycleTelemetry

/-! ## Loads -/

/-- What a delivery that is not over counts for. -/
def Delivery.load (now : Nat) (d : Delivery) : Nat :=
  match d.status with
  | .waiting => 8
  | .delayed deadline _ => if now < deadline then 6 else 3
  | _ => 0

/-- What the steps before a strand count for, and what it waits for. -/
def Strand.load (now : Nat) (strand : Strand) : Nat :=
  match strand.status with
  | .ready => 32 * weights strand.rest
  | .sleeping deadline _ => 32 * weights strand.rest + if now < deadline then 6 else 3
  | .racing _ => 32 * weights strand.rest + 14
  | .draining batch _ => 32 * weights strand.rest + batch.length + 1
  | _ => 0

/-- What the times count for that a call waits for in its race. -/
def Call.load (now : Nat) (c : Call) : Nat :=
  match c.phase with
  | .racing _ =>
      (match c.deadline with
        | some (deadline, _) => if now < deadline then 4 else 0
        | none => 0) +
      (match c.listener with
        | .timed deadline _ => if now < deadline then 4 else 0
        | _ => 0)
  | _ => 0

namespace World

/-- What is left to be done in a world. -/
def load (w : World) : Nat :=
  (w.strands.map (Strand.load w.clock)).sum + (w.calls.map (Call.load w.clock)).sum +
    (w.deliveries.map (Delivery.load w.clock)).sum + w.pending.length + 2 * w.woken.length

end World

namespace Schedule

/-- What the tasks that wait for their turn count for. A main task that may not have the next turn has to
wait until it may. -/
def tokens (s : Schedule) : Nat :=
  s.queue.length + if s.mainWoken then if s.mainNext then 1 else 2 else 0

/-- What is left to be done in a schedule. -/
def load (s : Schedule) : Nat :=
  s.world.load + s.tokens

/-! ## Waking -/

section Waking

variable (s : Schedule)

theorem tokens_enqueue_le
    (t : TaskId) :
    (s.enqueue t).tokens ≤ s.tokens + 2 := by
  unfold enqueue tokens
  split
  · simp only [if_true]
    split <;> split <;> omega
  · split
    · omega
    · simp only [List.length_append, List.length_singleton]
      omega

theorem tokens_foldl_enqueue_le
    (ts : List TaskId) :
    (ts.foldl enqueue s).tokens ≤ s.tokens + 2 * ts.length := by
  induction ts generalizing s with
  | nil =>
      exact Nat.le_refl _
  | cons t rest ih =>
      have hrest := ih (s.enqueue t)
      have hfirst := s.tokens_enqueue_le t
      rw [List.foldl_cons, List.length_cons]
      omega

theorem world_gather :
    s.gather.world = { s.world with woken := [] } := by
  rw [gather, world_foldl_enqueue]

theorem world_gatherAfter
    (current : TaskId) :
    (s.gatherAfter current).world = { s.world with woken := [] } := by
  rw [gatherAfter, world_foldl_enqueue]

/-- To put those that have been woken where they wait makes no more to be done. -/
theorem load_gather_le :
    s.gather.load ≤ s.load := by
  have htokens := tokens_foldl_enqueue_le { s with world := { s.world with woken := [] } } s.world.woken
  have hsame : tokens { s with world := { s.world with woken := [] } } = s.tokens := rfl
  have hworld : s.world.load = World.load { s.world with woken := [] } + 2 * s.world.woken.length := rfl
  have hafter : s.gather.load = World.load { s.world with woken := [] } + s.gather.tokens := by
    rw [load, world_gather]
  rw [hafter, load, hworld]
  have hgather : s.gather.tokens ≤ s.tokens + 2 * s.world.woken.length := hsame ▸ htokens
  omega

theorem load_gatherAfter_le
    (current : TaskId) :
    (s.gatherAfter current).load ≤ s.load := by
  let others := s.world.woken.filter fun t => t != current
  let again := s.world.woken.filter fun t => t == current
  have htokens := tokens_foldl_enqueue_le { s with world := { s.world with woken := [] } }
    (others ++ again.take 1)
  have hsame : tokens { s with world := { s.world with woken := [] } } = s.tokens := rfl
  have hworld : s.world.load = World.load { s.world with woken := [] } + 2 * s.world.woken.length := rfl
  have hafter : (s.gatherAfter current).load =
      World.load { s.world with woken := [] } + (s.gatherAfter current).tokens := by
    rw [load, world_gatherAfter]
  -- a task that has been woken again and again in its own turn is put there once
  have hlength : (others ++ again.take 1).length ≤ s.world.woken.length := by
    have hsplit := s.world.woken.length_eq_length_filter_add fun t => t != current
    have hagain : again.length = (s.world.woken.filter fun t => !(t != current)).length := by
      simp only [again, bne, Bool.not_not]
    have htake := List.length_take_le 1 again
    have hshort := List.length_take_le' 1 again
    simp only [List.length_append, others]
    omega
  have hgather : (s.gatherAfter current).tokens ≤ s.tokens + 2 * (others ++ again.take 1).length :=
    hsame ▸ htokens
  rw [hafter, load, hworld]
  omega

end Waking

/-! ## Time -/

section Time

variable {now time : Nat}

/-- Whether a timer is due at a time, but has not been before. -/
def Timer.fallsDue (now time : Nat) (t : Timer) : Bool :=
  decide (now < t.deadline) && decide (t.deadline ≤ time)

/-- A timer that falls due takes three away from the load: of the strand that waits for it, -/
theorem load_strands_le
    (w : World)
    (hlater : now ≤ time)
    (strands : List Strand) :
    (strands.map (Strand.load time)).sum +
        3 * ((strandTimers { w with strands }).filter (Timer.fallsDue now time)).length ≤
      (strands.map (Strand.load now)).sum := by
  induction strands with
  | nil =>
      exact Nat.le_refl _
  | cons strand rest ih =>
      cases hstatus : strand.status with
      | sleeping deadline ticket =>
          simp only [strandTimers, List.map_cons, List.sum_cons, List.filterMap_cons, hstatus,
            List.filter_cons, Strand.load, Timer.fallsDue] at ih ⊢
          grind
      | _ =>
          simp only [strandTimers, List.map_cons, List.sum_cons, List.filterMap_cons, hstatus,
            Strand.load] at ih ⊢
          omega

/-- of the call that waits for it in its race, -/
theorem load_calls_le
    (w : World)
    (hlater : now ≤ time)
    (calls : List Call) :
    (calls.map (Call.load time)).sum +
        3 * ((callTimers { w with calls }).filter (Timer.fallsDue now time)).length ≤
      (calls.map (Call.load now)).sum := by
  induction calls with
  | nil =>
      exact Nat.le_refl _
  | cons call rest ih =>
      have hfirst : call.load time +
          3 * ((callTimers { w with calls := [call] }).filter (Timer.fallsDue now time)).length ≤
            call.load now := by
        simp only [callTimers, List.flatMap_cons, List.flatMap_nil, List.append_nil, Call.load]
        cases call.phase with
        | racing body =>
            cases (w.strands[call.owner]?).map Strand.task with
            | none =>
                cases call.deadline <;> cases call.listener <;> simp <;> grind
            | some task =>
                cases call.deadline <;> cases call.listener <;>
                  simp [List.filter_cons, Timer.fallsDue] <;> grind
        | _ =>
            simp
      have hsplit : callTimers { w with calls := call :: rest } =
          callTimers { w with calls := [call] } ++ callTimers { w with calls := rest } := by
        simp only [callTimers, List.flatMap_cons, List.flatMap_nil, List.append_nil]
      rw [hsplit, List.filter_append, List.length_append, List.map_cons, List.map_cons,
        List.sum_cons, List.sum_cons]
      omega

/-- or of the delivery that waits for it. -/
theorem load_deliveries_le
    (w : World)
    (hlater : now ≤ time)
    (deliveries : List Delivery) :
    (deliveries.map (Delivery.load time)).sum +
        3 * ((deliveryTimers { w with deliveries }).filter (Timer.fallsDue now time)).length ≤
      (deliveries.map (Delivery.load now)).sum := by
  induction deliveries using List.reverseRecOn with
  | nil =>
      exact Nat.le_refl _
  | append_singleton rest d ih =>
      simp only [deliveryTimers, List.zipIdx_append, List.filterMap_append, List.filter_append,
        List.length_append, List.map_append, List.sum_append] at ih ⊢
      cases hstatus : d.status with
      | delayed deadline ticket =>
          simp only [List.zipIdx_cons, List.zipIdx_nil, List.filterMap_cons, List.filterMap_nil, hstatus,
            List.filter_cons, List.filter_nil, List.map_cons, List.map_nil, List.sum_cons, List.sum_nil,
            Delivery.load, Timer.fallsDue] at ih ⊢
          grind
      | _ =>
          simp only [List.zipIdx_cons, List.zipIdx_nil, List.filterMap_cons, List.filterMap_nil, hstatus,
            List.filter_nil, List.length_nil, List.map_cons, List.map_nil, List.sum_cons, List.sum_nil,
            Delivery.load] at ih ⊢
          omega

/-- The next time lies ahead, and something waits for it. -/
theorem exists_of_nextTime?
    {w : World}
    (h : nextTime? w = some time) :
    w.clock < time ∧ (∀ t ∈ timers w, time ≤ t.deadline) ∧ ∃ t ∈ timers w, t.deadline = time := by
  obtain ⟨hmem, hleast⟩ := List.min?_eq_some_iff.mp h
  obtain ⟨t, ht, rfl⟩ := List.mem_map.mp hmem
  have hahead := (List.mem_filter.mp ht).2
  exact ⟨of_decide_eq_true hahead, fun other hother => hleast _ (List.mem_map_of_mem hother), t, ht, rfl⟩

/-- When the clock moves to the next time, less is left to be done than before. -/
theorem load_moveTo_lt
    {w : World}
    (h : nextTime? w = some time) :
    (moveTo w time).load < w.load := by
  obtain ⟨hahead, -, t, ht, hdue⟩ := exists_of_nextTime? h
  let due := (timers w).filter fun t => t.deadline ≤ time
  have hclock : max w.clock time = time := Nat.max_eq_right (Nat.le_of_lt hahead)
  have hfalls : due = (strandTimers w ++ callTimers w ++ deliveryTimers w).filter
      (Timer.fallsDue w.clock time) := by
    simp only [due, timers, List.filter_filter]
    congr 1
    funext t
    exact Bool.and_comm _ _
  have hsome : 0 < due.length :=
    List.length_pos_iff.mpr
      (List.ne_nil_of_mem (List.mem_filter.mpr ⟨ht, decide_eq_true (Nat.le_of_eq hdue)⟩))
  have hlater := Nat.le_of_lt hahead
  have hstrands : _ + 3 * ((strandTimers w).filter (Timer.fallsDue w.clock time)).length ≤ _ :=
    load_strands_le w hlater w.strands
  have hcalls : _ + 3 * ((callTimers w).filter (Timer.fallsDue w.clock time)).length ≤ _ :=
    load_calls_le w hlater w.calls
  have hdeliveries : _ + 3 * ((deliveryTimers w).filter (Timer.fallsDue w.clock time)).length ≤ _ :=
    load_deliveries_le w hlater w.deliveries
  have hlength : due.length =
      ((strandTimers w).filter (Timer.fallsDue w.clock time)).length +
        ((callTimers w).filter (Timer.fallsDue w.clock time)).length +
        ((deliveryTimers w).filter (Timer.fallsDue w.clock time)).length := by
    simp only [hfalls, List.filter_append, List.length_append]
  have hwoken : (moveTo w time).woken.length = w.woken.length + due.length := by
    simp only [moveTo, World.moveClock, List.length_append, List.length_map, List.length_mergeSort, due]
  have hload : (moveTo w time).load =
      (w.strands.map (Strand.load time)).sum + (w.calls.map (Call.load time)).sum +
        (w.deliveries.map (Delivery.load time)).sum + w.pending.length +
        2 * (moveTo w time).woken.length := by
    simp only [World.load, moveTo, World.moveClock, hclock]
  rw [hload, hwoken, hlength, World.load]
  rw [hlength] at hsome
  omega

end Time

/-! ## Deliveries -/

section Deliveries

/-- A change of one element of a list shows in the sum over it. -/
theorem sum_map_modify
    {α : Type}
    (f : α → Nat)
    (change : α → α)
    {xs : List α}
    {n : Nat}
    {x : α}
    (h : xs[n]? = some x) :
    ((xs.modify n change).map f).sum + f x = (xs.map f).sum + f (change x) := by
  induction xs generalizing n with
  | nil =>
      cases h
  | cons y ys ih =>
      cases n with
      | zero =>
          cases h
          simp only [List.modify_zero_cons, List.map_cons, List.sum_cons]
          omega
      | succ n =>
          have hrest := ih h
          simp only [List.modify_succ_cons, List.map_cons, List.sum_cons]
          omega

theorem load_withDelivery
    (w : World)
    {id : Nat}
    {d : Delivery}
    (hd : w.deliveries[id]? = some d)
    (status : DeliveryStatus) :
    (w.withDelivery id status).load + d.load w.clock =
      w.load + ({ d with status } : Delivery).load w.clock := by
  have hsum := sum_map_modify (Delivery.load w.clock) (fun d => { d with status }) hd
  simp only [World.load, World.withDelivery]
  omega

/-- A delivery that ends takes more away than a task counts for that it wakes. -/
theorem load_endDelivery_le
    (w : World)
    {id : Nat}
    {d : Delivery}
    (hd : w.deliveries[id]? = some d)
    (hfew : (w.drainers id).length ≤ 1)
    (hopen : 2 ≤ d.load w.clock) :
    (w.endDelivery id d).load ≤ w.load := by
  have hended : ∀ u : World, u.load = w.load → u.clock = w.clock → u.deliveries[id]? = some d →
      u.strands = w.strands → ∀ panicked,
      World.load { u.withDelivery id (.finished panicked) with
        woken := (u.withDelivery id (.finished panicked)).woken ++
          (u.withDelivery id (.finished panicked)).drainers id } ≤ w.load := by
    intro u hu hclock hdu hstrands panicked
    have hstatus := load_withDelivery u hdu (.finished panicked)
    have hnone : ({ d with status := .finished panicked } : Delivery).load u.clock = 0 := rfl
    have hsame : (u.withDelivery id (.finished panicked)).drainers id = w.drainers id := by
      simp only [World.drainers, World.withDelivery, hstrands]
    have hwoken : ∀ v : World, World.load { v with woken := v.woken ++ v.drainers id } =
        v.load + 2 * (v.drainers id).length := by
      intro v
      simp only [World.load, List.length_append]
      omega
    rw [hwoken, hsame]
    rw [hclock] at hstatus hnone
    omega
  cases hending : d.plan.ending with
  | succeed =>
      simp only [World.endDelivery, hending]
      exact hended w rfl rfl hd rfl false
  | fail =>
      simp only [World.endDelivery, hending]
      exact hended (w.say _ _ _ _) rfl rfl hd rfl false
  | panic =>
      simp only [World.endDelivery, hending]
      exact hended w rfl rfl hd rfl true
  | hang =>
      have hstatus := load_withDelivery w hd .stuck
      have hnone : ({ d with status := .stuck } : Delivery).load w.clock = 0 := rfl
      simp only [World.endDelivery, hending]
      omega

/-- The turn of a delivery that at most one strand waits for makes no more to be done. -/
theorem load_deliver_le
    (w : World)
    {id : Nat}
    (hfew : (w.drainers id).length ≤ 1) :
    (w.deliver id).load ≤ w.load := by
  unfold World.deliver
  cases hd : w.deliveries[id]? with
  | none =>
      exact Nat.le_refl _
  | some d =>
      cases hstatus : d.status with
      | waiting =>
          have hload : d.load w.clock = 8 := by simp only [Delivery.load, hstatus]
          cases hplan : d.plan.delay with
          | none =>
              simp only [hstatus, hplan]
              exact load_endDelivery_le w hd hfew (by omega)
          | some delay =>
              simp only [hstatus, hplan, World.ticket]
              split
              · exact load_endDelivery_le { w with tickets := w.tickets + 1 } hd hfew
                  (by change 2 ≤ d.load w.clock; omega)
              · have hchanged := load_withDelivery { w with tickets := w.tickets + 1 } hd
                  (.delayed (w.clock + delay) w.tickets)
                have hless : ({ d with status := .delayed (w.clock + delay) w.tickets } : Delivery).load
                    w.clock ≤ 6 := by
                  simp only [Delivery.load]
                  split
                  · omega
                  · omega
                change _ ≤ World.load { w with tickets := w.tickets + 1 }
                simp only at hchanged ⊢
                omega
      | delayed deadline ticket =>
          simp only [hstatus]
          split
          · next hdue =>
              have hload : d.load w.clock = 3 := by
                simp only [Delivery.load, hstatus, if_neg (Nat.not_lt.mpr hdue)]
              exact load_endDelivery_le w hd hfew (by omega)
          · exact Nat.le_refl _
      | _ =>
          simp only [hstatus]
          exact Nat.le_refl _

end Deliveries

/-! ## Coming to an end -/

section Ends

/-- A turn in which every step takes away from the load goes on until its strand cannot. -/
theorem turn_ends
    {P : World → Prop}
    {id : Nat}
    (hsingle : ∀ w, P w → branchesOf w id = [])
    (hstep : ∀ w, P w → goesOn w id = true → P (w.advance id) ∧ (w.advance id).load < w.load)
    {fuel : Nat}
    {w : World}
    (hw : P w)
    (hfuel : w.load ≤ fuel) :
    P (turn fuel id w) ∧ (turn fuel id w).load ≤ w.load ∧ goesOn (turn fuel id w) id = false := by
  induction fuel generalizing w with
  | zero =>
      refine ⟨hw, Nat.le_refl _, Bool.eq_false_iff.mpr fun hgoes => ?_⟩
      have hless := (hstep w hw hgoes).2
      omega
  | succ fuel ih =>
      rw [turn, hsingle w hw, List.foldl_nil]
      cases hgoes : goesOn w id with
      | false =>
          exact ⟨hw, Nat.le_refl _, hgoes⟩
      | true =>
          obtain ⟨hnext, hless⟩ := hstep w hw hgoes
          obtain ⟨hlast, hload, hends⟩ := ih hnext (by omega)
          exact ⟨hlast, Nat.le_trans hload (Nat.le_of_lt hless), hends⟩

/-- A run in which every step takes away from the load goes on until nothing can. -/
theorem run_ends
    {P : Schedule → Prop}
    {limit : Option Nat}
    (hstep : ∀ fuel s after, P s → s.load ≤ fuel → step? fuel limit s = some after →
      P after ∧ after.load < s.load)
    {fuel : Nat}
    {s : Schedule}
    (hs : P s)
    (hfuel : s.load < fuel) :
    P (run limit fuel s) ∧ ∃ rest, step? rest limit (run limit fuel s) = none := by
  induction fuel generalizing s with
  | zero =>
      exact absurd hfuel (Nat.not_lt_zero _)
  | succ fuel ih =>
      rw [run]
      cases hnext : step? fuel limit s with
      | none =>
          exact ⟨hs, fuel, hnext⟩
      | some after =>
          obtain ⟨hafter, hless⟩ := hstep fuel s after hs (by omega) hnext
          exact ih hafter (by omega)

end Ends
end Schedule
end LifecycleTelemetry
