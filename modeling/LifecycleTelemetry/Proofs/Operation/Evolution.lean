import LifecycleTelemetry.Proofs.Operation.CallLife

/-!
# What may become of a world

`Evolves w v` says that a world `w` may come to be `v`: strands and deliveries take turns in any
order, time passes, signals come, tasks are aborted, and when the main strand is over it may
begin another script. Who is to be woken next may be decided in any way, so that the runs of a
particular schedule are evolutions as well.

A single change of a world is a turn of a strand, something in the background, the abortion of a
task, or the beginning of a script. What holds of a world and is kept by each of these holds of
whatever it becomes.
-/

namespace LifecycleTelemetry
namespace World

/-- What a world may become. -/
inductive Evolves (w : World) : World → Prop where
  | refl : Evolves w w
  | move
      {v : World}
      (m : Move)
      (h : Evolves w v) :
      Evolves w (v.move m)
  | script
      {v : World}
      (s : Script)
      (h : Evolves w v)
      (hover : (v.outcome? 0).isSome) :
      Evolves w (v.beginScript s)
  | rouse
      {v : World}
      (woken : List TaskId)
      (h : Evolves w v) :
      Evolves w { v with woken }
  | mark
      {v : World}
      (pending listeners : Nat)
      (h : Evolves w v) :
      Evolves w (v.note (.scriptEnded pending listeners))

theorem Evolves.trans
    {w mid after : World}
    (h₁ : Evolves w mid)
    (h₂ : Evolves mid after) :
    Evolves w after := by
  induction h₂ with
  | refl =>
      exact h₁
  | move m _ ih =>
      exact .move m ih
  | script s _ hover ih =>
      exact .script s ih hover
  | rouse woken _ ih =>
      exact .rouse woken ih
  | mark pending listeners _ ih =>
      exact .mark pending listeners ih

/-- What a world may become while no further script is begun. -/
inductive Proceeds (w : World) : World → Prop where
  | refl : Proceeds w w
  | move
      {v : World}
      (m : Move)
      (h : Proceeds w v) :
      Proceeds w (v.move m)
  | rouse
      {v : World}
      (woken : List TaskId)
      (h : Proceeds w v) :
      Proceeds w { v with woken }

theorem Proceeds.trans
    {w mid after : World}
    (h₁ : Proceeds w mid)
    (h₂ : Proceeds mid after) :
    Proceeds w after := by
  induction h₂ with
  | refl =>
      exact h₁
  | move m _ ih =>
      exact .move m ih
  | rouse woken _ ih =>
      exact .rouse woken ih

theorem Proceeds.moves
    (w : World)
    (ms : List Move) :
    Proceeds w (w.moves ms) := by
  induction ms generalizing w with
  | nil =>
      exact .refl
  | cons m rest ih =>
      exact Proceeds.trans (.move m .refl) (ih (w.move m))

theorem Proceeds.evolves
    {w v : World}
    (h : Proceeds w v) :
    Evolves w v := by
  induction h with
  | refl =>
      exact .refl
  | move m _ ih =>
      exact .move m ih
  | rouse woken _ ih =>
      exact .rouse woken ih

theorem Evolves.moves
    (w : World)
    (ms : List Move) :
    Evolves w (w.moves ms) :=
  (Proceeds.moves w ms).evolves

/-! ## Changes -/

/-- What goes on apart from the strands: deliveries, time, signals and the order of turns. -/
structure Background (w after : World) : Prop where
  reporter : after.reporter = w.reporter
  hasRuntime : after.hasRuntime = w.hasRuntime
  clock : w.clock ≤ after.clock
  strands : after.strands = w.strands
  calls : after.calls = w.calls
  reports : ∀ call, after.reports call = w.reports call
  pending : after.pending = w.pending
  posted : after.posted = w.posted
  deliveries : after.deliveries.length = w.deliveries.length
  delivered : ∀ d, w.isDelivered d = true → after.isDelivered d = true

/-- A single change of a world. -/
inductive Change (w : World) : World → Prop where
  | turn
      {id : Nat}
      {after : World}
      (h : Turn w id after) :
      Change w after
  | background
      {after : World}
      (h : Background w after) :
      Change w after
  | abortion
      (task : Nat) :
      Change w (w.abort task)
  | script
      (s : Script)
      (hover : (w.outcome? 0).isSome) :
      Change w (w.beginScript s)

section Background

variable {w mid after : World}

theorem Background.refl : Background w w :=
  ⟨rfl, rfl, Nat.le_refl _, rfl, rfl, fun _ => rfl, rfl, rfl, rfl, fun _ h => h⟩

theorem Background.trans
    (h₁ : Background w mid)
    (h₂ : Background mid after) :
    Background w after where
  reporter := h₂.reporter.trans h₁.reporter
  hasRuntime := h₂.hasRuntime.trans h₁.hasRuntime
  clock := Nat.le_trans h₁.clock h₂.clock
  strands := h₂.strands.trans h₁.strands
  calls := h₂.calls.trans h₁.calls
  reports := fun call => (h₂.reports call).trans (h₁.reports call)
  pending := h₂.pending.trans h₁.pending
  posted := h₂.posted.trans h₁.posted
  deliveries := h₂.deliveries.trans h₁.deliveries
  delivered := fun d h => h₂.delivered d (h₁.delivered d h)

theorem Background.hushed
    (h : Background w after) :
    Hushed w after :=
  hushed_of_eq w h.calls h.strands h.reports

theorem Background.retains
    (h : Background w after) :
    Retains w after where
  pending := fun _ hd => h.pending ▸ hd
  accepted := fun _ hd => Or.inl ⟨h.deliveries ▸ hd.1, h.posted ▸ hd.2⟩

variable (w)

theorem background_rouse
    (channel : Channel)
    (tickets : Nat)
    (woken : List TaskId) :
    Background w { w with channel, tickets, woken } :=
  ⟨rfl, rfl, Nat.le_refl _, rfl, rfl, fun _ => rfl, rfl, rfl, rfl, fun _ h => h⟩

theorem background_note
    (what : Happening)
    (h : ∀ call time, what.reportOf? call time = none) :
    Background w (w.note what) :=
  ⟨rfl, rfl, Nat.le_refl _, rfl, rfl, fun call => by simp [reports_note, h], rfl, rfl, rfl,
    fun _ h => h⟩

theorem background_moveClock
    (time : Nat) :
    Background w (w.moveClock time) :=
  ⟨rfl, rfl, w.clock_le_moveClock time, rfl, rfl, fun _ => rfl, rfl, rfl, rfl, fun _ h => h⟩

/-- A delivery that has not ended yet may change its status in any way. -/
theorem background_withDelivery
    {id : Nat}
    {d : Delivery}
    (hd : w.deliveries[id]? = some d)
    (hopen : d.isFinished = false)
    (status : DeliveryStatus) :
    Background w (w.withDelivery id status) := by
  refine ⟨rfl, rfl, Nat.le_refl _, rfl, rfl, fun _ => rfl, rfl, rfl, ?_, ?_⟩
  · exact List.length_modify _ _ _
  · intro other h
    have hne : ¬ id = other := by
      rintro rfl
      simp [isDelivered, hd, hopen] at h
    simpa [isDelivered, withDelivery, hne] using h

theorem background_endDelivery
    {id : Nat}
    {d : Delivery}
    (hd : w.deliveries[id]? = some d)
    (hopen : d.isFinished = false) :
    Background w (w.endDelivery id d) := by
  -- Except for the log line of a failure, all endings are made of the same two parts.
  have hended : ∀ u : World, Background w u → u.deliveries[id]? = some d → ∀ panicked,
      Background w { u.withDelivery id (.finished panicked) with
        woken := (u.withDelivery id (.finished panicked)).woken ++
          (u.withDelivery id (.finished panicked)).drainers id } := by
    intro u hu hdu panicked
    exact hu.trans ((background_withDelivery u hdu hopen _).trans (background_rouse _ _ _ _))
  unfold endDelivery
  cases d.plan.ending with
  | succeed =>
      exact hended w .refl hd false
  | fail =>
      exact hended _ (background_note w _ fun _ _ => rfl) hd false
  | panic =>
      exact hended w .refl hd true
  | hang =>
      exact background_withDelivery w hd hopen .stuck

theorem background_deliver
    (id : Nat) :
    Background w (w.deliver id) := by
  unfold deliver
  cases hd : w.deliveries[id]? with
  | none =>
      exact .refl
  | some d =>
      cases hstatus : d.status with
      | waiting =>
          have hopen : d.isFinished = false := by simp [Delivery.isFinished, hstatus]
          simp only [hstatus]
          cases d.plan.delay with
          | none =>
              exact background_endDelivery w hd hopen
          | some delay =>
              have hticket := background_rouse w w.channel (w.tickets + 1) w.woken
              simp only [ticket]
              split
              · exact hticket.trans
                  (background_endDelivery { w with tickets := w.tickets + 1 } hd hopen)
              · exact hticket.trans
                  (background_withDelivery { w with tickets := w.tickets + 1 } hd hopen _)
      | delayed deadline ticket =>
          have hopen : d.isFinished = false := by simp [Delivery.isFinished, hstatus]
          simp only [hstatus]
          split
          · exact background_endDelivery w hd hopen
          · exact .refl
      | stuck =>
          simp only [hstatus]
          exact .refl
      | finished panicked =>
          simp only [hstatus]
          exact .refl

end Background

theorem change_move
    (w : World)
    (m : Move) :
    Change w (w.move m) := by
  cases m with
  | advance strand =>
      exact .turn (w.turn_advance strand)
  | deliver delivery =>
      exact .background (w.background_deliver delivery)
  | pass time =>
      exact .background (w.background_moveClock time)
  | signal s =>
      exact .background (w.background_rouse _ _ _)
  | abort task =>
      exact .abortion task

/-- A script that the main strand begins is no business of the others. -/
theorem quiet_beginScript
    (w : World)
    (s : Script) :
    Quiet 0 w (w.beginScript s) :=
  quiet_withStrand 0 w _ fun _ _ h => by cases h

/-- What every single change keeps holds of everything a world may become. -/
theorem Evolves.induct
    {w v : World}
    {P : World → Prop}
    (h : Evolves w v)
    (hstart : P w)
    (hchange : ∀ u after, Evolves w u → Evolves u after → P u → Change u after → P after) :
    P v := by
  induction h with
  | refl =>
      exact hstart
  | move m h ih =>
      exact hchange _ _ h (.move m .refl) ih (change_move _ m)
  | script s h hover ih =>
      exact hchange _ _ h (.script s .refl hover) ih (.script s hover)
  | rouse woken h ih =>
      exact hchange _ _ h (.rouse woken .refl) ih (.background (background_rouse _ _ _ woken))
  | mark pending listeners h ih =>
      exact hchange _ _ h (.mark _ _ .refl) ih (.background (background_note _ _ fun _ _ => rfl))

/-! ## Abortion -/

section Abortion

variable (w : World) (task : Nat)

/-- Changing several places of a list one after the other changes each of them once, if the
second time makes no difference. -/
theorem getElem?_foldl_modify
    {α : Type}
    (f : α → α)
    (hf : ∀ x, f (f x) = f x)
    (places : List Nat)
    (xs : List α)
    (n : Nat) :
    (places.foldl (fun xs place => xs.modify place f) xs)[n]? =
      if n ∈ places then (xs[n]?).map f else xs[n]? := by
  induction places generalizing xs with
  | nil =>
      simp
  | cons place rest ih =>
      rw [List.foldl_cons, ih]
      have hff : f ∘ f = f := funext hf
      by_cases hplace : place = n
      · simp [hplace, hff]
      · have hne : ¬ n = place := fun h => hplace h.symm
        simp [hplace, hne]

theorem mem_racesOf
    {call : Nat}
    (h : call ∈ w.racesOf task) :
    ∃ id, w.race? id = some call ∧
      ∃ strand, w.strands[id]? = some strand ∧ strand.task = task := by
  obtain ⟨strand, hmem, hraces⟩ := List.mem_filterMap.mp h
  obtain ⟨id, hid⟩ := List.getElem?_of_mem hmem
  cases hstatus : strand.status with
  | racing number =>
      simp only [hstatus] at hraces
      split at hraces
      · next htask =>
          refine ⟨id, ?_, strand, hid, htask⟩
          simpa [race?, hid, hstatus, StrandStatus.race?] using hraces
      · cases hraces
  | _ =>
      simp [hstatus] at hraces

/-- Dropping calls makes them abandoned, and changes nothing else that this theory speaks of. -/
theorem foldl_dropCall
    (calls : List Nat) :
    let after := calls.foldl dropCall w
    Spares 0 w after ∧ Retains w after ∧ after.strands = w.strands ∧
      (∀ call, after.reports call = w.reports call) ∧
      after.outlines = calls.foldl
        (fun outlines call => outlines.modify call (Call.withPhase .abandoned)) w.outlines := by
  induction calls generalizing w with
  | nil =>
      exact ⟨.refl, .refl, rfl, fun _ => rfl, rfl⟩
  | cons call rest ih =>
      have hrelease := quiet_release 0 w call
      have hdropped : (w.dropCall call).outlines =
          (w.release call).outlines.modify call (Call.withPhase .abandoned) :=
        outlines_withCall _ call _ _ fun _ => rfl
      obtain ⟨hspares, hretains, hsame, hreports, houtlines⟩ := ih (w.dropCall call)
      refine ⟨?_, ?_, hsame.trans (strands_release w call), ?_, ?_⟩
      · exact (hrelease.toSpares.trans (spares_withCall _ _)).trans hspares
      · exact (hrelease.toRetains.trans (retains_withCall _ _)).trans hretains
      · exact fun other => (hreports other).trans (hrelease.reports other)
      · rw [List.foldl_cons, houtlines, hdropped, hrelease.outlines]
        rfl

/-- A task that is aborted takes the calls it races with it, and no other call. Its strands race
no more. -/
structure Aborts (task : Nat) (w after : World) : Prop where
  reporter : after.reporter = w.reporter
  hasRuntime : after.hasRuntime = w.hasRuntime
  clock : after.clock = w.clock
  deliveries : w.deliveries <+: after.deliveries
  strands : after.strands = w.strands.map (Strand.abortedIn task)
  retains : Retains w after
  reports : ∀ call, after.reports call = w.reports call
  outlines : ∀ n, after.outlines[n]? =
    if n ∈ w.racesOf task then (w.outlines[n]?).map (Call.withPhase .abandoned)
    else w.outlines[n]?

theorem aborts_abort :
    Aborts task w (w.abort task) := by
  obtain ⟨hspares, hretains, hstrands, hreports, houtlines⟩ :=
    w.foldl_dropCall (w.racesOf task)
  refine ⟨hspares.reporter, hspares.hasRuntime, hspares.clock,
    hspares.deliveries, ?_, ⟨hretains.pending, hretains.accepted⟩, hreports, ?_⟩
  · rw [← hstrands]
    rfl
  · intro n
    have hdropped : (w.abort task).outlines = ((w.racesOf task).foldl dropCall w).outlines := rfl
    rw [hdropped, houtlines]
    exact getElem?_foldl_modify (Call.withPhase .abandoned) (fun _ => rfl) _ _ n

/-- Only strands of other tasks go on racing. -/
theorem Aborts.races
    {task : Nat}
    {w after : World}
    (h : Aborts task w after)
    {id call : Nat}
    (hrace : after.race? id = some call) :
    w.race? id = some call ∧
      ∀ strand, w.strands[id]? = some strand → strand.task ≠ task := by
  rw [race?, h.strands, List.getElem?_map] at hrace
  cases hstrand : w.strands[id]? with
  | none =>
      simp [hstrand] at hrace
  | some strand =>
      simp only [hstrand, Option.map_some, Option.bind_some] at hrace
      unfold Strand.abortedIn at hrace
      split at hrace
      · next o hover =>
          simp [hover, StrandStatus.race?] at hrace
      · split at hrace
        · simp [StrandStatus.race?] at hrace
        · next htask =>
            refine ⟨by simpa [race?, hstrand] using hrace, ?_⟩
            intro other hother
            cases hother
            exact htask

end Abortion

/-! ## Plain programs -/

/-- A reporter that keeps in memory whatever is reported. -/
def plainReporter : Reporter where
  ambient := ⟨"session", "platform", "arch", "version", false⟩
  enabled := true
  client := ⟨some .recording, "device", none⟩

/-- Dates that do not follow the clock: the second one is earlier than the first. -/
def plainStamps (n : Nat) : Int :=
  1700000000000 - n

/-- What a script and a list of moves make of a world in which nothing has happened, with a
reporter that keeps everything in memory. -/
def plainRun (plans : List DeliveryPlan) (script : Script) (ms : List Move) : World :=
  ((World.start plainReporter true plainStamps .channel plans).beginScript script).moves ms

theorem evolves_plainRun
    (plans : List DeliveryPlan)
    (script : Script)
    (ms : List Move) :
    Evolves (World.start plainReporter true plainStamps .channel plans) (plainRun plans script ms) :=
  Evolves.trans (.script script .refl rfl) (Evolves.moves _ ms)

end World
end LifecycleTelemetry
