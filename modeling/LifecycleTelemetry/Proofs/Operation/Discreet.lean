import LifecycleTelemetry.Operation.Move
import LifecycleTelemetry.Proofs.Operation.Stride

/-!
# Discreet programs

A program is discreet when it asks nothing about its reporter and waits for no delivery. What such a
program can make of a world does not depend on who reports, on whether anything is handed over, on the
deliveries, or on the tickets and the order in which tasks are woken. `World.bare` erases all this.

A single turn may be tactful, that is do none of this, in a program that is not discreet: a session waits for
its deliveries once its operation is over, and not before.

A part of a turn is `Blind` when it comes to the same in the erased world. One that gives strands nothing to do
but what is discreet leaves a discreet world discreet. Blind parts make up blind turns. A part that only
touches what is erased can not be noticed, and is blind therefore.
-/

namespace LifecycleTelemetry

/-! ## Discreet scripts -/

/-- Whether an action asks nothing about the reporter and its deliveries. -/
def Action.isDiscreet : Action → Bool
  | .countPending => false
  | .describeReporter => false
  | .post _ _ => false
  | .isDelivered _ => false
  | _ => true

/-- The same, of a step that builds an operation. -/
def BuildStep.isDiscreet : BuildStep → Bool
  | .act a => a.isDiscreet
  | .panic _ => true

mutual

/-- The same, of a step and of all steps inside of it. -/
def Step.isDiscreet : Step → Bool
  | .act a => a.isDiscreet
  | .drain _ => false
  | .settle _ => false
  | .instrument _ _ build body _ _ => build.all BuildStep.isDiscreet && areDiscreet body
  | .parallel _ branches _ => allAreDiscreet branches
  | .spawn _ body _ => areDiscreet body
  | _ => true

/-- The same, of a list of steps. -/
def areDiscreet : List Step → Bool
  | [] => true
  | step :: rest => step.isDiscreet && areDiscreet rest

/-- The same, of several lists. -/
def allAreDiscreet : List (List Step) → Bool
  | [] => true
  | branch :: rest => areDiscreet branch && allAreDiscreet rest

end

/-- Whether a strand waits for no delivery. -/
def StrandStatus.isDiscreet : StrandStatus → Bool
  | .draining _ _ => false
  | .settling _ => false
  | _ => true

/-- Whether a strand is discreet in all that is left for it to do. -/
def Strand.isDiscreet (strand : Strand) : Bool :=
  areDiscreet strand.rest && strand.status.isDiscreet

/-! ## Tactful turns -/

/-- Whether a step asks nothing about the reporter and waits for no delivery in the turn in which it is carried
out. What it lets further strands do is another matter. -/
def Step.isTactful : Step → Bool
  | .act a => a.isDiscreet
  | .drain _ => false
  | .settle _ => false
  | .instrument _ _ build _ _ _ => build.all BuildStep.isDiscreet
  | _ => true

/-- Whether the next turn of a strand is a tactful one. -/
def Strand.isTactful (strand : Strand) : Bool :=
  strand.status.isDiscreet && strand.next?.all Step.isTactful

theorem Step.isTactful_of_isDiscreet
    {step : Step}
    (h : step.isDiscreet = true) :
    step.isTactful = true := by
  cases step with
  | act a =>
      exact h
  | instrument name subject build body propagate abandonAfter =>
      simp only [Step.isDiscreet, Bool.and_eq_true] at h
      exact h.1
  | drain recorded =>
      cases h
  | settle posted =>
      cases h
  | _ =>
      rfl

theorem Strand.isTactful_of_isDiscreet
    {strand : Strand}
    (h : strand.isDiscreet = true) :
    strand.isTactful = true := by
  obtain ⟨task, list, index, rest, scope, status⟩ := strand
  simp only [Strand.isDiscreet, Bool.and_eq_true] at h
  simp only [Strand.isTactful, Bool.and_eq_true]
  refine ⟨h.2, ?_⟩
  cases status with
  | ready =>
      cases rest with
      | nil =>
          rfl
      | cons step rest =>
          rw [areDiscreet, Bool.and_eq_true] at h
          exact Step.isTactful_of_isDiscreet h.1.1
  | _ =>
      rfl

/-! ## Erasure -/

/-- What a strand waits for, without the ticket. -/
def StrandStatus.bare : StrandStatus → StrandStatus
  | .sleeping deadline _ => .sleeping deadline 0
  | status => status

/-- A strand without the ticket of what it waits for. -/
def Strand.bare (strand : Strand) : Strand :=
  { strand with status := strand.status.bare }

/-- A call without the ticket of its deadline. -/
def Call.bare (c : Call) : Call :=
  { c with deadline := c.deadline.map fun d => (d.1, 0) }

/-- Whether a happening is what a step has come to. -/
def Happening.isResult : Happening → Bool
  | .recorded _ _ _ => true
  | _ => false

@[simp]
theorem StrandStatus.bare_bare
    (status : StrandStatus) :
    status.bare.bare = status.bare := by
  cases status <;> rfl

@[simp]
theorem Strand.bare_bare
    (strand : Strand) :
    strand.bare.bare = strand.bare := by
  simp [Strand.bare]

@[simp]
theorem Call.bare_bare
    (c : Call) :
    c.bare.bare = c.bare := by
  simp [Call.bare, Function.comp_def]

@[simp]
theorem Strand.isDiscreet_bare
    (strand : Strand) :
    strand.bare.isDiscreet = strand.isDiscreet := by
  unfold Strand.isDiscreet Strand.bare
  cases strand.status <;> rfl

@[simp]
theorem Strand.isTactful_bare
    (strand : Strand) :
    strand.bare.isTactful = strand.isTactful := by
  unfold Strand.isTactful Strand.next? Strand.bare
  cases strand.status <;> rfl

namespace World

/-- Whether the next turn of a strand of a world is a tactful one. -/
def isTactful (w : World) (id : Nat) : Bool :=
  (w.strands[id]?).all Strand.isTactful

/-- What steps have come to, the latest first. -/
def results (w : World) : List Entry :=
  w.history.filter fun e => e.what.isResult

/-- Two worlds are alike to the programs that run in them: the same runtime, the same time, the same listeners,
the same strands and calls, and the same results of all steps. -/
structure Alike (w v : World) : Prop where
  hasRuntime : w.hasRuntime = v.hasRuntime
  clock : w.clock = v.clock
  source : w.source = v.source
  channel : w.channel = v.channel
  strands : w.strands.map Strand.bare = v.strands.map Strand.bare
  calls : w.calls.map Call.bare = v.calls.map Call.bare
  results : w.results = v.results

/-- A world with everything erased in which worlds that are alike may differ. -/
def bare (w : World) : World :=
  { World.start ⟨⟨"", "", "", "", false⟩, false, ⟨none, "", none⟩⟩ w.hasRuntime (fun _ => 0) w.source
      [] with
    clock := w.clock
    channel := w.channel
    strands := w.strands.map Strand.bare
    calls := w.calls.map Call.bare
    history := w.results }

section Alike

variable {w v u : World}

theorem Alike.refl : Alike w w :=
  ⟨rfl, rfl, rfl, rfl, rfl, rfl, rfl⟩

theorem Alike.symm
    (h : Alike w v) :
    Alike v w :=
  ⟨h.hasRuntime.symm, h.clock.symm, h.source.symm, h.channel.symm, h.strands.symm, h.calls.symm,
    h.results.symm⟩

theorem Alike.trans
    (h₁ : Alike w v)
    (h₂ : Alike v u) :
    Alike w u :=
  ⟨h₁.hasRuntime.trans h₂.hasRuntime, h₁.clock.trans h₂.clock, h₁.source.trans h₂.source,
    h₁.channel.trans h₂.channel, h₁.strands.trans h₂.strands, h₁.calls.trans h₂.calls,
    h₁.results.trans h₂.results⟩

theorem Alike.bare
    (h : Alike w v) :
    w.bare = v.bare := by
  simp only [World.bare, h.hasRuntime, h.clock, h.source, h.channel, h.strands, h.calls, h.results]

theorem alike_bare
    (w : World) :
    Alike w w.bare := by
  refine ⟨rfl, rfl, rfl, rfl, ?_, ?_, ?_⟩
  · simp [World.bare, Function.comp_def]
  · simp [World.bare, Function.comp_def]
  · simp [World.bare, World.results]

theorem bare_strands
    (w : World)
    (id : Nat) :
    w.bare.strands[id]? = (w.strands[id]?).map Strand.bare :=
  List.getElem?_map

theorem bare_calls
    (w : World)
    (n : Nat) :
    w.bare.calls[n]? = (w.calls[n]?).map Call.bare :=
  List.getElem?_map

theorem bare_strands_length
    (w : World) :
    w.bare.strands.length = w.strands.length :=
  List.length_map _

theorem bare_calls_length
    (w : World) :
    w.bare.calls.length = w.calls.length :=
  List.length_map _

/-- All strands of a world are discreet. -/
def IsDiscreet (w : World) : Prop :=
  ∀ strand ∈ w.strands, strand.isDiscreet = true

theorem Alike.isDiscreet
    (h : Alike w v)
    (hw : IsDiscreet w) :
    IsDiscreet v := by
  intro strand hstrand
  have hbare := List.mem_map_of_mem (f := Strand.bare) hstrand
  rw [← h.strands] at hbare
  obtain ⟨other, hother, hsame⟩ := List.mem_map.mp hbare
  rw [← strand.isDiscreet_bare, ← hsame, other.isDiscreet_bare]
  exact hw other hother

theorem IsDiscreet.isTactful
    (hw : IsDiscreet w)
    (id : Nat) :
    w.isTactful id = true := by
  unfold World.isTactful
  cases hstrand : w.strands[id]? with
  | none =>
      rfl
  | some strand =>
      exact Strand.isTactful_of_isDiscreet (hw strand (List.mem_of_getElem? hstrand))

theorem isTactful_bare
    (w : World)
    (id : Nat) :
    w.bare.isTactful id = w.isTactful id := by
  unfold World.isTactful
  rw [bare_strands]
  cases w.strands[id]? with
  | none =>
      rfl
  | some strand =>
      exact strand.isTactful_bare

end Alike

/-! ## Parts of turns -/

/-- A part of a turn comes to the same in the erased world. It leaves a discreet world discreet if `p` holds,
which says that it gives strands nothing to do but what is discreet. -/
structure Blind (p : Prop) (f : World → World) : Prop where
  alike : ∀ w, Alike (f w) (f w.bare)
  discreet : p → ∀ w, IsDiscreet w → IsDiscreet (f w)

section Blind

variable {p : Prop} {f g : World → World} {w v : World}

theorem Blind.comp
    (hf : Blind p f)
    (hg : Blind p g) :
    Blind p fun w => g (f w) := by
  refine ⟨fun w => ?_, fun hp w hw => hg.discreet hp _ (hf.discreet hp w hw)⟩
  have hleft := hg.alike (f w)
  have hright := hg.alike (f w.bare)
  rw [(hf.alike w).bare] at hleft
  exact hleft.trans hright.symm

/-- A part that can not be noticed is blind. -/
theorem blind_of_hidden
    (hf : ∀ w, Alike w (f w)) :
    Blind p f := by
  refine ⟨fun w => ?_, fun _ w hw => (hf w).isDiscreet hw⟩
  exact (hf w).symm.trans ((alike_bare w).trans (hf w.bare))

/-- Worlds that are alike stay so. -/
theorem Blind.congr
    (hf : Blind p f)
    (h : Alike w v) :
    Alike (f w) (f v) := by
  have hleft := hf.alike w
  have hright := hf.alike v
  rw [← h.bare] at hright
  exact hleft.trans hright.symm

/-- A part of a turn comes in a world, and in the same world erased, to the same as a blind one. -/
structure BlindAt (p : Prop) (w : World) (f : World → World) : Prop where
  same : ∃ g, Blind p g ∧ Alike (g w) (f w) ∧ Alike (g w.bare) (f w.bare)

theorem BlindAt.alike
    (h : BlindAt p w f) :
    Alike (f w) (f w.bare) := by
  obtain ⟨g, hg, hsame, hbare⟩ := h.same
  exact hsame.symm.trans ((hg.alike w).trans hbare)

theorem BlindAt.discreet
    (h : BlindAt p w f)
    (hp : p)
    (hw : IsDiscreet w) :
    IsDiscreet (f w) := by
  obtain ⟨g, hg, hsame, -⟩ := h.same
  exact hsame.isDiscreet (hg.discreet hp w hw)

theorem Blind.blindAt
    (hf : Blind p f)
    (w : World) :
    BlindAt p w f :=
  ⟨f, hf, .refl, .refl⟩

/-- A world that is alike to one in which a part is blind stays alike to it, if the part is blind in both. -/
theorem BlindAt.congr
    (hf : BlindAt p w f)
    (hother : BlindAt p v f)
    (h : Alike w v) :
    Alike (f w) (f v) := by
  have hright := hother.alike
  rw [← h.bare] at hright
  exact hf.alike.trans hright.symm

/-- It is enough to find a blind part for each world. -/
theorem blind_of_same
    (h : ∀ w, ∃ g, Blind p g ∧ Alike (g w) (f w) ∧ Alike (g w.bare) (f w.bare)) :
    Blind p f :=
  ⟨fun w => BlindAt.alike ⟨h w⟩, fun hp w hw => BlindAt.discreet ⟨h w⟩ hp hw⟩

end Blind

/-! ## What is hidden -/

section Hidden

variable (w : World)

theorem alike_say
    (level : LogLevel)
    (source : LogSource)
    (message : String)
    (fields : Json.Fields) :
    Alike w (w.say level source message fields) :=
  ⟨rfl, rfl, rfl, rfl, rfl, rfl, rfl⟩

theorem alike_post
    (sender : Sender)
    (event : String)
    (properties : Json.Fields) :
    Alike w (w.post sender event properties).2 := by
  unfold post
  cases w.reporter.client.transport with
  | none =>
      exact .refl
  | some transport =>
      simp only
      split
      · exact ⟨rfl, rfl, rfl, rfl, rfl, rfl, rfl⟩
      · exact ⟨rfl, rfl, rfl, rfl, rfl, rfl, rfl⟩

/-- Whether an event is handed over, and what becomes of it then, can not be noticed. -/
theorem alike_send
    (sender : Sender)
    (event : String)
    (properties : Json.Fields) :
    Alike w (w.send sender event properties) := by
  have hpost := w.alike_post sender event (w.reporter.merged properties)
  unfold send
  split
  · cases hsent : w.post sender event (w.reporter.merged properties) with
    | mk sent after =>
        rw [hsent] at hpost
        cases sent with
        | none =>
            exact hpost
        | some delivery =>
            exact hpost.trans ⟨rfl, rfl, rfl, rfl, rfl, rfl, rfl⟩
  · exact .refl

theorem alike_report
    (call : Nat)
    (e : Event) :
    Alike w (w.report call e) :=
  w.alike_send _ _ _

theorem alike_announce
    (s : Settlement) :
    Alike w (w.announce s) := by
  cases s with
  | interrupted signal =>
      exact w.alike_say _ _ _ _
  | _ =>
      exact .refl

theorem alike_endDelivery
    (id : Nat)
    (d : Delivery) :
    Alike w (w.endDelivery id d) := by
  unfold endDelivery
  cases d.plan.ending with
  | _ =>
      exact ⟨rfl, rfl, rfl, rfl, rfl, rfl, rfl⟩

/-- Neither can the deliveries. -/
theorem alike_deliver
    (id : Nat) :
    Alike w (w.deliver id) := by
  have hticket : Alike w w.ticket.2 := ⟨rfl, rfl, rfl, rfl, rfl, rfl, rfl⟩
  unfold deliver
  cases w.deliveries[id]? with
  | none =>
      exact .refl
  | some d =>
      simp only
      split
      · split
        · split
          · exact hticket.trans (alike_endDelivery _ id d)
          · exact ⟨rfl, rfl, rfl, rfl, rfl, rfl, rfl⟩
        · exact w.alike_endDelivery id d
      · split
        · exact w.alike_endDelivery id d
        · exact .refl
      · exact .refl
      · exact .refl

end Hidden

/-! ## Changes of strands and calls -/

section Changes

variable {p : Prop}

theorem blind_record
    (list : String)
    (deed : Deed)
    (finding : Finding) :
    Blind p fun w => w.record list deed finding := by
  refine ⟨fun w => ?_, fun _ w hw => hw⟩
  have h := alike_bare w
  refine ⟨h.hasRuntime, h.clock, h.source, h.channel, h.strands, h.calls, ?_⟩
  exact congrArg (List.cons _) h.results

/-- A strand may be changed in a way that makes no use of tickets and keeps it discreet. -/
theorem blind_withStrand
    (id : Nat)
    (change changed : Strand → Strand)
    (hbare : ∀ strand, (change strand).bare = changed strand.bare)
    (hdiscreet : p → ∀ strand, strand.isDiscreet = true → (change strand).isDiscreet = true) :
    Blind p fun w => w.withStrand id change := by
  have hmodify := map_modify Strand.bare change changed hbare
  refine ⟨fun w => ?_, fun hp w hw => ?_⟩
  · have h := alike_bare w
    refine ⟨h.hasRuntime, h.clock, h.source, h.channel, ?_, h.calls, h.results⟩
    exact (hmodify w.strands id).trans (h.strands ▸ (hmodify w.bare.strands id).symm)
  · intro strand hstrand
    obtain ⟨m, hm⟩ := List.getElem?_of_mem hstrand
    simp only [withStrand, List.getElem?_modify] at hm
    obtain ⟨old, hold, rfl⟩ := Option.map_eq_some_iff.mp hm
    have hbefore := hw old (List.mem_of_getElem? hold)
    split
    · exact hdiscreet hp old hbefore
    · exact hbefore

theorem blind_withStatus
    (id : Nat)
    (status : StrandStatus)
    (hdiscreet : status.isDiscreet = true) :
    Blind p fun w => w.withStatus id status := by
  refine blind_withStrand id _ (fun strand => { strand with status := status.bare })
    (fun _ => rfl) fun _ strand hstrand => ?_
  simp only [Strand.isDiscreet, Bool.and_eq_true] at hstrand ⊢
  exact ⟨hstrand.1, hdiscreet⟩

theorem blind_withCall
    (number : Nat)
    (change : Call → Call)
    (hbare : ∀ c, (change c).bare = change c.bare) :
    Blind p fun w => w.withCall number change := by
  have hmodify := map_modify Call.bare change change hbare
  refine ⟨fun w => ?_, fun _ w hw => hw⟩
  have h := alike_bare w
  refine ⟨h.hasRuntime, h.clock, h.source, h.channel, h.strands, ?_, h.results⟩
  exact (hmodify w.calls number).trans (h.calls ▸ (hmodify w.bare.calls number).symm)

theorem blind_withChannel
    (change : Channel → Channel) :
    Blind p fun w => { w with channel := change w.channel } := by
  refine ⟨fun w => ?_, fun _ w hw => hw⟩
  have h := alike_bare w
  exact ⟨h.hasRuntime, h.clock, h.source, congrArg change h.channel, h.strands, h.calls, h.results⟩

end Changes
end World
end LifecycleTelemetry
