import LifecycleTelemetry.Proofs.Operation.CallLife

/-!
# What a turn does to calls, listeners and extents

Most of what a turn is made of has nothing to do with the calls of a world and the listeners on its
channel, and leaves every strand in the task and in the extent in which it runs. Such a part is
`Apart`. The others are few: an action may contribute or raise an interrupt, a step may add strands,
and a call may be made, decided or given up.

`stride_advance` sorts the turns of a strand by this. It complements `turn_advance`, which sorts them
by what they report, what they wait for and what they drain.
-/

namespace LifecycleTelemetry

open Json (Fields)

/-- Where a strand runs: its task, and the call in whose extent it is. -/
def Strand.place (strand : Strand) : Nat × Option Nat :=
  (strand.task, strand.scope)

/-- The step that a strand carries out in its turn, if it does not wait and is not at its end. -/
def Strand.next? (strand : Strand) : Option Step :=
  match strand.status with
  | .ready => strand.rest.head?
  | _ => none

/-- Whether a step neither acts nor makes a call. -/
def Step.isCalm : Step → Bool
  | .act _ => false
  | .instrument _ _ _ _ _ _ => false
  | _ => true

/-- The places of the listeners on a channel. -/
def Channel.ids (c : Channel) : List Nat :=
  c.receivers.map Receiver.id

/-- Changing an element of a list shows in a view of the list as a change of what is seen of it. -/
theorem map_modify
    {α β : Type}
    (view : α → β)
    (change : α → α)
    (changed : β → β)
    (h : ∀ x, view (change x) = changed (view x))
    (xs : List α)
    (n : Nat) :
    (xs.modify n change).map view = (xs.map view).modify n changed := by
  apply List.ext_getElem?
  intro m
  simp only [List.getElem?_map, List.getElem?_modify]
  cases xs[m]? with
  | none =>
      rfl
  | some x =>
      by_cases hn : n = m
      · simp [hn, h]
      · simp [hn]

/-! ## What is contributed -/

/-- A property on its way to the ending of a call, for one of the stages in which it may end. -/
structure Contribution where
  stage : TerminalStage
  key : String
  value : Json
deriving DecidableEq

/-- What an action contributes. -/
def Action.contributions : Action → List Contribution
  | .contribute _ stage key value => [⟨stage, key, value⟩]
  | .contributeAll stage data => data.map fun field => ⟨stage, field.1, field.2⟩
  | _ => []

/-- What the part that builds an operation contributes, up to its end or its panic. -/
def BuildStep.contributions : List BuildStep → List Contribution
  | .act a :: rest => a.contributions ++ contributions rest
  | .panic _ :: _ => []
  | [] => []

/-- Adds contributions one after the other. -/
def Contributions.addEach (c : Contributions) (given : List Contribution) : Contributions :=
  given.foldl (fun c g => c.add g.stage g.key g.value) c

/-- A call after it has been given contributions. -/
def Call.receive (given : List Contribution) (c : Call) : Call :=
  { c with contributions := c.contributions.addEach given }

theorem Call.receive_append
    (before after : List Contribution)
    (c : Call) :
    c.receive (before ++ after) = (c.receive before).receive after := by
  simp [Call.receive, Contributions.addEach]

namespace World

/-- Where the strands of a world run. -/
def places (w : World) : List (Nat × Option Nat) :=
  w.strands.map Strand.place

theorem getElem?_places
    {w : World}
    {id : Nat}
    {strand : Strand}
    (hstrand : w.strands[id]? = some strand) :
    w.places[id]? = some (strand.task, strand.scope) := by
  simp [places, hstrand, Strand.place]

/-- A part of a turn that has nothing to do with calls, listeners and extents. -/
structure Apart (w after : World) : Prop where
  calls : after.calls = w.calls
  channel : after.channel = w.channel
  source : after.source = w.source
  places : after.places = w.places

section Order

variable {w mid after : World}

theorem Apart.refl : Apart w w :=
  ⟨rfl, rfl, rfl, rfl⟩

theorem Apart.trans
    (h₁ : Apart w mid)
    (h₂ : Apart mid after) :
    Apart w after :=
  ⟨h₂.calls.trans h₁.calls, h₂.channel.trans h₁.channel, h₂.source.trans h₁.source,
    h₂.places.trans h₁.places⟩

end Order

/-! ## Parts that are apart -/

section Parts

variable (w : World) (id : Nat)

theorem apart_note
    (what : Happening) :
    Apart w (w.note what) :=
  ⟨rfl, rfl, rfl, rfl⟩

theorem apart_record
    (list : String)
    (deed : Deed)
    (finding : Finding) :
    Apart w (w.record list deed finding) :=
  ⟨rfl, rfl, rfl, rfl⟩

theorem apart_say
    (level : LogLevel)
    (source : LogSource)
    (message : String)
    (fields : Fields) :
    Apart w (w.say level source message fields) :=
  ⟨rfl, rfl, rfl, rfl⟩

/-- A strand may be changed as long as it stays in its task and its extent. -/
theorem apart_withStrand
    (change : Strand → Strand)
    (hplace : ∀ strand, (change strand).place = strand.place) :
    Apart w (w.withStrand id change) := by
  refine ⟨rfl, rfl, rfl, ?_⟩
  exact (map_modify Strand.place change (fun place => place) hplace w.strands id).trans
    (List.modify_id id w.places)

theorem apart_withStatus
    (status : StrandStatus) :
    Apart w (w.withStatus id status) :=
  w.apart_withStrand id _ fun _ => rfl

theorem apart_pass
    (rest : Script) :
    Apart w (w.pass id rest) :=
  w.apart_withStrand id _ fun _ => rfl

theorem apart_post
    (sender : Sender)
    (event : String)
    (properties : Fields) :
    Apart w (w.post sender event properties).2 := by
  unfold post
  cases w.reporter.client.transport with
  | none =>
      exact .refl
  | some transport =>
      simp only
      split
      · exact ⟨rfl, rfl, rfl, rfl⟩
      · exact ⟨rfl, rfl, rfl, rfl⟩

theorem apart_send
    (sender : Sender)
    (event : String)
    (properties : Fields) :
    Apart w (w.send sender event properties) := by
  have hpost := w.apart_post sender event (w.reporter.merged properties)
  unfold send
  split
  · cases hsent : w.post sender event (w.reporter.merged properties) with
    | mk sent after =>
        rw [hsent] at hpost
        cases sent with
        | none =>
            exact hpost
        | some delivery =>
            exact ⟨hpost.calls, hpost.channel, hpost.source, hpost.places⟩
  · exact .refl

theorem apart_report
    (call : Nat)
    (e : Event) :
    Apart w (w.report call e) :=
  w.apart_send _ _ _

theorem apart_finish
    (o : Outcome) :
    Apart w (w.finish id o) := by
  have hstatus := w.apart_withStatus id (.finished o)
  unfold finish
  cases w.strands[id]? with
  | none =>
      exact .refl
  | some strand =>
      simp only
      split
      · exact ⟨hstatus.calls, hstatus.channel, hstatus.source, hstatus.places⟩
      · exact hstatus

theorem apart_passOn
    (texts : List String) :
    Apart w (w.passOn id texts) := by
  unfold passOn
  split
  · exact w.apart_finish id _
  · exact w.apart_finish id _
  · exact .refl

theorem apart_hand
    (o : Outcome)
    (propagate : Bool) :
    Apart w (w.hand id o propagate) := by
  have hready := w.apart_withStatus id .ready
  cases o with
  | ok v =>
      exact hready
  | _ =>
      simp only [hand]
      split
      · exact w.apart_finish id _
      · exact hready

theorem apart_handAll
    (outcomes : List Outcome)
    (propagate : Bool) :
    Apart w (w.handAll id outcomes propagate) := by
  unfold handAll
  split
  · exact w.apart_hand id _ propagate
  · exact w.apart_withStatus id .ready

theorem apart_announce
    (s : Settlement) :
    Apart w (w.announce s) := by
  cases s with
  | interrupted signal =>
      exact w.apart_say _ _ _ _
  | _ =>
      exact .refl

theorem apart_complain
    (batch : List Nat) :
    Apart w (w.complain batch) := by
  unfold complain
  induction batch generalizing w with
  | nil =>
      exact .refl
  | cons delivery rest ih =>
      rw [List.foldl_cons]
      refine .trans ?_ (ih _)
      split
      · exact w.apart_say _ _ _ _
      · exact .refl

theorem apart_startDrain
    (recorded : Bool) :
    Apart w (w.startDrain id recorded) := by
  have hemptied : Apart w { w with pending := [] } := ⟨rfl, rfl, rfl, rfl⟩
  simp only [startDrain]
  refine Apart.trans ?_ (apart_withStatus _ id (.draining w.pending recorded))
  split
  · exact hemptied
  · exact hemptied.trans (apart_say _ _ _ _ _)

theorem apart_drain
    (list : String)
    (batch : List Nat)
    (recorded : Bool) :
    Apart w (w.drain id list batch recorded) := by
  have hcomplain := w.apart_complain (batch.filter w.isDelivered)
  simp only [drain]
  refine hcomplain.trans ?_
  split
  · refine Apart.trans ?_ (apart_withStatus _ id .ready)
    split
    · exact apart_record _ _ _ _
    · exact .refl
  · exact apart_withStatus _ id _

end Parts

/-! ## Actions -/

section Actions

variable (w : World)

/-- Raising an interrupt leaves everybody who listens where he is. -/
theorem ids_trigger
    (c : Channel)
    (s : Signal) :
    (c.trigger s).ids = c.ids ∧
      (c.trigger s).nextId = c.nextId := by
  refine ⟨?_, rfl⟩
  simp [Channel.ids, Channel.trigger]

/-- An action gives what it contributes to the call in whose extent it is carried out. Apart from
that it may raise an interrupt, which removes nobody who listens. -/
structure Acts (w : World) (scope : Option Nat) (given : List Contribution) (after : World) :
    Prop where
  calls : after.calls =
    match scope with
    | some n => w.calls.modify n (Call.receive given)
    | none => w.calls
  ids : after.channel.ids = w.channel.ids
  nextId : after.channel.nextId = w.channel.nextId
  source : after.source = w.source
  places : after.places = w.places

theorem Apart.acts
    {w after : World}
    (h : Apart w after)
    (scope : Option Nat) :
    Acts w scope [] after := by
  refine ⟨?_, by rw [h.channel], by rw [h.channel], h.source, h.places⟩
  cases scope with
  | none =>
      exact h.calls
  | some n =>
      exact h.calls.trans (List.modify_id n w.calls).symm

theorem Acts.apart
    {w mid after : World}
    {scope : Option Nat}
    {given : List Contribution}
    (h₁ : Acts w scope given mid)
    (h₂ : Apart mid after) :
    Acts w scope given after :=
  ⟨h₂.calls.trans h₁.calls, by rw [h₂.channel, h₁.ids], by rw [h₂.channel, h₁.nextId],
    h₂.source.trans h₁.source, h₂.places.trans h₁.places⟩

/-- A call is given something only where it is the one in whose extent an action is carried out. -/
theorem Acts.getElem?_calls
    {w after : World}
    {scope : Option Nat}
    {given : List Contribution}
    (h : Acts w scope given after)
    (n : Nat) :
    after.calls[n]? =
      (w.calls[n]?).map (Call.receive (if scope = some n then given else [])) := by
  have hcalls := h.calls
  have hsame : ∀ call : Option Call, call = call.map (Call.receive []) := by
    intro call
    cases call <;> rfl
  cases scope with
  | none =>
      rw [hcalls]
      exact hsame _
  | some number =>
      simp only at hcalls
      rw [hcalls, List.getElem?_modify]
      by_cases hn : number = n
      · simp [hn]
      · simp only [hn, Option.some.injEq, if_false]
        simpa using hsame w.calls[n]?

theorem acts_contribute?
    {after : World}
    {scope : Option Nat}
    {stage : TerminalStage}
    {key : String}
    {value : Json}
    (h : w.contribute? scope stage key value = some after) :
    Acts w scope [⟨stage, key, value⟩] after := by
  cases scope with
  | none =>
      cases h
  | some n =>
      cases h
      exact ⟨rfl, rfl, rfl, rfl, rfl⟩

theorem Acts.append
    {w mid after : World}
    {scope : Option Nat}
    {before further : List Contribution}
    (h₁ : Acts w scope before mid)
    (h₂ : Acts mid scope further after) :
    Acts w scope (before ++ further) after := by
  refine ⟨?_, h₂.ids.trans h₁.ids, h₂.nextId.trans h₁.nextId, h₂.source.trans h₁.source,
    h₂.places.trans h₁.places⟩
  have hbefore := h₁.calls
  have hafter := h₂.calls
  cases scope with
  | none =>
      exact hafter.trans hbefore
  | some n =>
      simp only at hbefore hafter ⊢
      rw [hafter, hbefore, List.modify_modify_eq]
      congr 1
      funext c
      exact (Call.receive_append before further c).symm

theorem acts_contributeAll?
    {after : World}
    {scope : Option Nat}
    {stage : TerminalStage}
    {data : Fields}
    (h : w.contributeAll? scope stage data = some after) :
    Acts w scope (data.map fun field => ⟨stage, field.1, field.2⟩) after := by
  induction data generalizing w with
  | nil =>
      cases h
      exact Apart.refl.acts scope
  | cons field rest ih =>
      rw [contributeAll?] at h
      cases hfirst : w.contribute? scope stage field.1 field.2 with
      | none =>
          simp [hfirst] at h
      | some mid =>
          simp only [hfirst] at h
          exact (w.acts_contribute? hfirst).append (ih mid h)

/-- Outside of every extent nothing can be contributed, unless there is nothing to contribute. -/
theorem contributeAll?_none
    (stage : TerminalStage)
    (data : Fields) :
    w.contributeAll? none stage data = if data = [] then some w else none := by
  cases data with
  | nil =>
      rfl
  | cons field rest =>
      rfl

/-- Within an extent everything can be contributed, and comes to one change of the call. -/
theorem contributeAll?_some
    (n : Nat)
    (stage : TerminalStage)
    (data : Fields) :
    w.contributeAll? (some n) stage data =
      some (w.withCall n (Call.receive (data.map fun field => ⟨stage, field.1, field.2⟩))) := by
  induction data generalizing w with
  | nil =>
      have hsame : w.withCall n (Call.receive []) = w := by
        simp only [withCall]
        rw [show w.calls.modify n (Call.receive []) = w.calls from List.modify_id n w.calls]
      simp [contributeAll?, hsame]
  | cons field rest ih =>
      obtain ⟨key, value⟩ := field
      simp only [contributeAll?, contribute?, Option.map_some, ih, withCall, List.modify_modify_eq]
      rfl

theorem contributeAll?_isSome
    (n : Nat)
    (stage : TerminalStage)
    (data : Fields) :
    (w.contributeAll? (some n) stage data).isSome = true := by
  rw [contributeAll?_some]
  rfl

theorem Acts.outside
    {w after : World}
    (h : Acts w none [] after)
    (given : List Contribution) :
    Acts w none given after :=
  ⟨h.calls, h.ids, h.nextId, h.source, h.places⟩

theorem acts_act
    (list : String)
    (scope : Option Nat)
    (a : Action) :
    Acts w scope a.contributions (w.act list scope a) := by
  have hrecord := fun deed finding => (w.apart_record list deed finding).acts scope
  cases a with
  | contribute accessor stage key value =>
      simp only [act]
      cases scope with
      | none =>
          exact (hrecord _ _).outside _
      | some n =>
          exact (w.acts_contribute? rfl).apart (apart_record _ _ _ _)
  | contributeAll stage data =>
      simp only [act]
      cases h : w.contributeAll? scope stage data with
      | some mid =>
          exact (w.acts_contributeAll? h).apart (apart_record _ _ _ _)
      | none =>
          cases scope with
          | none =>
              exact (hrecord _ _).outside _
          | some n =>
              simp [contributeAll?_some] at h
  | trigger s =>
      have htrigger : Acts w scope [] (w.trigger s).2 := by
        obtain ⟨hids, hnextId⟩ := ids_trigger w.channel s
        exact ⟨(Apart.refl.acts scope).calls, hids, hnextId, rfl, rfl⟩
      exact htrigger.apart (apart_record _ _ _ _)
  | send name properties =>
      exact ((w.apart_send _ _ _).trans (apart_record _ _ _ _)).acts scope
  | post event properties =>
      have hpost := w.apart_post .program event properties
      have hposted : Apart w { (w.post .program event properties).2 with
          posted := (w.post .program event properties).2.posted ++
            [(w.post .program event properties).1] } :=
        ⟨hpost.calls, hpost.channel, hpost.source, hpost.places⟩
      exact (hposted.trans (apart_record _ _ _ _)).acts scope
  | currentTitle =>
      exact hrecord _ _
  | countListeners =>
      exact hrecord _ _
  | countPending =>
      exact hrecord _ _
  | describeReporter =>
      exact hrecord _ _
  | isDelivered posted =>
      exact hrecord _ _
  | log line =>
      exact (w.apart_note _).acts scope

/-- The part that builds an operation gives what it contributes to the call of the operation. -/
theorem acts_build
    (list : String)
    (call : Nat)
    (steps : List BuildStep) :
    Acts w (some call) (BuildStep.contributions steps) (w.build list call steps).2 := by
  induction steps generalizing w with
  | nil =>
      exact Apart.refl.acts _
  | cons step rest ih =>
      cases step with
      | panic p =>
          exact Apart.refl.acts _
      | act a =>
          exact (w.acts_act list (some call) a).append (ih _)

end Actions

/-! ## New strands -/

section Strands

variable (w : World)

/-- A part of a turn that adds strands and has nothing to do with calls and listeners. -/
structure Adds (w : World) (added : List (Nat × Option Nat)) (after : World) : Prop where
  calls : after.calls = w.calls
  channel : after.channel = w.channel
  source : after.source = w.source
  places : after.places = w.places ++ added

theorem adds_addStrand
    (strand : Strand) :
    Adds w [strand.place] (w.addStrand strand).2 :=
  ⟨rfl, rfl, rfl, by simp [places, addStrand]⟩

/-- A new task is a strand of its own. -/
theorem adds_spawnTask
    (list : String)
    (script : Script)
    (scope : Option Nat) :
    Adds w [(w.strands.length, scope)] (w.spawnTask list script scope).2 :=
  ⟨rfl, rfl, rfl, (w.adds_addStrand _).places⟩

/-- Branches run in the task and in the extent of the strand that they come from. -/
theorem adds_addBranches
    (of : Strand)
    (inner : String)
    (number : Nat)
    (branches : List Script) :
    Adds w (branches.map fun _ => of.place) (w.addBranches of inner number branches).2 := by
  induction branches generalizing w number with
  | nil =>
      exact ⟨rfl, rfl, rfl, (List.append_nil _).symm⟩
  | cons branch rest ih =>
      have hrest := ih (w.addStrand
        ⟨of.task, inner ++ "[" ++ toString number ++ "]", 0, branch, of.scope, .ready⟩).2
        (number + 1)
      refine ⟨hrest.calls, hrest.channel, hrest.source, hrest.places.trans ?_⟩
      rw [(w.adds_addStrand _).places, List.append_assoc]
      rfl

theorem Adds.apart
    {w mid after : World}
    {added : List (Nat × Option Nat)}
    (h₁ : Adds w added mid)
    (h₂ : Apart mid after) :
    Adds w added after :=
  ⟨h₂.calls.trans h₁.calls, h₂.channel.trans h₁.channel, h₂.source.trans h₁.source,
    h₂.places.trans h₁.places⟩

theorem Apart.adds
    {w mid after : World}
    {added : List (Nat × Option Nat)}
    (h₁ : Apart w mid)
    (h₂ : Adds mid added after) :
    Adds w added after :=
  ⟨h₂.calls.trans h₁.calls, h₂.channel.trans h₁.channel, h₂.source.trans h₁.source,
    by rw [h₂.places, h₁.places]⟩

end Strands

/-! ## Making and leaving a call -/

section Calls

/-- What follows in a strand when the part that builds the operation of a call is over. -/
def afterBuild (id : Nat) (list inner : String) (call : Nat) (body : Script) (propagate : Bool) :
    Option PanicPayload × World → World
  | (some p, w) => w.collapse id list call p propagate
  | (none, w) => w.startRace id inner call body

variable (w : World)

theorem instrument_eq
    (id : Nat)
    (list inner : String)
    (subject : Subject)
    (steps : List BuildStep)
    (body : Script)
    (propagate : Bool)
    (abandonAfter : Option Nat) :
    w.instrument id list inner subject steps body propagate abandonAfter =
      afterBuild id list inner w.calls.length body propagate
        ((w.openCall id subject propagate abandonAfter).build inner w.calls.length
          (w.readied steps)) := by
  simp only [instrument]
  cases (w.openCall id subject propagate abandonAfter).build inner w.calls.length
    (w.readied steps) with
  | mk panic built =>
      cases panic with
      | _ =>
          rfl

/-- The part that builds an operation can be carried out in two parts. -/
theorem build_append
    (list : String)
    (call : Nat)
    (before after : List BuildStep)
    (hgoes : (w.build list call before).1 = none) :
    w.build list call (before ++ after) = (w.build list call before).2.build list call after := by
  induction before generalizing w with
  | nil =>
      rfl
  | cons step rest ih =>
      cases step with
      | panic p =>
          cases hgoes
      | act a =>
          exact ih (w.act list (some call) a) hgoes

/-- What the part that builds an operation does is the same without a runtime; only then it panics. -/
theorem build_readied
    (v : World)
    (list : String)
    (call : Nat)
    (steps : List BuildStep) :
    (w.build list call (v.readied steps)).2 = (w.build list call steps).2 := by
  unfold readied
  split
  · rfl
  · induction steps generalizing w with
    | nil =>
        rfl
    | cons step rest ih =>
        cases step with
        | panic p =>
            rfl
        | act a =>
            exact ih (w.act list (some call) a)

/-- A call whose listener is released is left without one. -/
theorem calls_release
    (number : Nat) :
    (w.release number).calls =
      w.calls.modify number fun c => { c with listener := .unarmed } := by
  unfold release
  cases hcall : w.calls[number]? with
  | none =>
      exact (List.modify_eq_self (List.getElem?_eq_none_iff.mp hcall)).symm
  | some c =>
      rfl

theorem apart_listen :
    Apart { w with channel := w.listen.2.channel } w.listen.2 := by
  unfold listen
  cases w.source.listen? w.clock w.channel with
  | none =>
      exact apart_say _ _ _ _ _
  | some installed =>
      exact .refl

/-- A new call joins the others. Some listener has been installed for it, if listening has not
failed. -/
theorem calls_openCall
    (id : Nat)
    (subject : Subject)
    (propagate : Bool)
    (abandonAfter : Option Nat) :
    (w.openCall id subject propagate abandonAfter).places = w.places ∧
      ∃ listener, (w.openCall id subject propagate abandonAfter).calls =
        w.calls ++ [{ w.newCall id subject propagate abandonAfter with listener }] := by
  have hreport := apart_report (w.addCall (w.newCall id subject propagate abandonAfter))
    w.calls.length ⟨subject, .started⟩
  simp only [openCall]
  generalize (w.addCall (w.newCall id subject propagate abandonAfter)).report w.calls.length
    ⟨subject, .started⟩ = reported at hreport ⊢
  have hlisten := reported.apart_listen
  refine ⟨hlisten.places.trans hreport.places, reported.listen.1, ?_⟩
  have hcalls : reported.listen.2.calls =
      w.calls ++ [w.newCall id subject propagate abandonAfter] :=
    hlisten.calls.trans hreport.calls
  simp only [listenFor, withCall, hcalls]
  exact modify_length_append w.calls _ _

/-- A call is left by releasing its listener and giving it a new phase, whatever else happens to the
strand. -/
theorem calls_leave
    (number : Nat)
    (change : Call → Call) :
    ((w.release number).withCall number change).places = w.places ∧
      ((w.release number).withCall number change).calls =
        w.calls.modify number fun c => change { c with listener := .unarmed } := by
  constructor
  · unfold release
    cases w.calls[number]? with
    | _ =>
        rfl
  · rw [withCall, calls_release]
    exact List.modify_modify_eq _ _ _ _

theorem apart_collapse
    (id : Nat)
    (list : String)
    (number : Nat)
    (p : PanicPayload)
    (propagate : Bool) :
    Apart ((w.release number).withCall number fun c => { c with phase := .collapsed p })
      (w.collapse id list number p propagate) := by
  have hrecord := apart_record
    ((w.release number).withCall number fun c => { c with phase := .collapsed p })
    list .instrument (.outcome (.panic p))
  exact hrecord.trans (apart_hand _ id (.panic p) propagate)

theorem calls_collapse
    (id : Nat)
    (list : String)
    (number : Nat)
    (p : PanicPayload)
    (propagate : Bool) :
    (w.collapse id list number p propagate).places = w.places ∧
      (w.collapse id list number p propagate).calls =
        w.calls.modify number fun c => { c with listener := .unarmed, phase := .collapsed p } := by
  obtain ⟨hplaces, hcalls⟩ :=
    w.calls_leave number fun c => { c with phase := .collapsed p }
  have hafter := w.apart_collapse id list number p propagate
  exact ⟨hafter.places.trans hplaces, hafter.calls.trans hcalls⟩

theorem apart_conclude
    (id : Nat)
    (list : String)
    (number : Nat)
    (call : Call)
    (s : Settlement) :
    Apart (((w.announce s).release number).settle number call s)
      (w.conclude id list number call s) := by
  have hreport := apart_report (((w.announce s).release number).settle number call s) number
    (endingOf call s (((w.announce s).release number).settle number call s).clock)
  have hrecord := apart_record (w.reportEnding number call s) list .instrument (.outcome s.outcome)
  exact hreport.trans (hrecord.trans (apart_hand _ id s.outcome call.propagate))

theorem calls_conclude
    (id : Nat)
    (list : String)
    (number : Nat)
    (call : Call)
    (s : Settlement) :
    (w.conclude id list number call s).places = w.places ∧
      (w.conclude id list number call s).calls =
        w.calls.modify number fun c =>
          { c with
            listener := .unarmed
            contributions := (call.contributions.take s.ending.stage).2
            phase := .settled s } := by
  have hannounce := w.apart_announce s
  obtain ⟨hplaces, hcalls⟩ := (w.announce s).calls_leave number fun c =>
    { c with
      contributions := (call.contributions.take s.ending.stage).2
      phase := .settled s }
  have hafter := w.apart_conclude id list number call s
  refine ⟨hafter.places.trans (hplaces.trans hannounce.places), hafter.calls.trans ?_⟩
  rw [← hannounce.calls]
  exact hcalls

theorem calls_dropCall
    (number : Nat) :
    (w.dropCall number).places = w.places ∧
      (w.dropCall number).calls =
        w.calls.modify number fun c => { c with listener := .unarmed, phase := .abandoned } :=
  w.calls_leave number fun c => { c with phase := .abandoned }

/-- A call that is given up is dropped, and its strand goes on. -/
theorem apart_abandon
    (id : Nat)
    (list : String)
    (number : Nat) :
    Apart (w.dropCall number) (w.abandon id list number) :=
  (apart_record _ _ _ _).trans (apart_withStatus _ id _)

theorem calls_startRace
    (id : Nat)
    (inner : String)
    (number : Nat)
    (body : Script) :
    (w.startRace id inner number body).places =
        w.places ++ [(w.places.length, some number)] ∧
      (w.startRace id inner number body).calls =
        w.calls.modify number fun c => { c with phase := .racing w.places.length } := by
  have hspawn := w.adds_spawnTask inner body (some number)
  have hlength : w.strands.length = w.places.length := (List.length_map _).symm
  rw [hlength] at hspawn
  have hracing : Apart
      ((w.spawnTask inner body (some number)).2.withCall number fun c =>
        { c with phase := .racing w.strands.length })
      (w.startRace id inner number body) :=
    apart_withStatus _ id _
  rw [hlength] at hracing
  exact ⟨hracing.places.trans hspawn.places, hracing.calls⟩

end Calls

/-! ## The kinds of turns -/

/-- The next step of a strand neither acts nor makes a call. -/
def IsCalm (w : World) (id : Nat) : Prop :=
  ∀ strand step, w.strands[id]? = some strand → strand.next? = some step → step.isCalm = true

/-- What a turn of a strand does to calls, listeners and extents. -/
inductive Stride (w : World) (id : Nat) : World → Prop where
  | apart
      {after : World}
      (hcalm : IsCalm w id)
      (h : Apart w after) :
      Stride w id after
  | acts
      {strand : Strand}
      {a : Action}
      {rest : Script}
      (hstrand : w.strands[id]? = some strand)
      (hready : strand.status = .ready)
      (hrest : strand.rest = .act a :: rest) :
      Stride w id ((w.pass id rest).act strand.list strand.scope a)
  | adds
      {strand : Strand}
      {added : List (Nat × Option Nat)}
      {after : World}
      (hstrand : w.strands[id]? = some strand)
      (hcalm : IsCalm w id)
      (h : Adds w added after)
      (hadded : (∀ place ∈ added, place = strand.place) ∨ added = [(w.strands.length, none)]) :
      Stride w id after
  | opens
      {strand : Strand}
      {name : Option String}
      {subject : Subject}
      {steps : List BuildStep}
      {body rest : Script}
      {propagate : Bool}
      {abandonAfter : Option Nat}
      (hstrand : w.strands[id]? = some strand)
      (hready : strand.status = .ready)
      (hrest : strand.rest =
        .instrument name subject steps body propagate abandonAfter :: rest) :
      Stride w id
        ((w.pass id rest).instrument id strand.list (innerName strand.list strand.index name)
          subject steps body propagate abandonAfter)
  | concludes
      {strand : Strand}
      {number : Nat}
      {call : Call}
      {s : Settlement}
      (hstrand : w.strands[id]? = some strand)
      (hracing : strand.status = .racing number)
      (hcall : w.calls[number]? = some call)
      (hsettled : w.settlement? call = some s) :
      Stride w id (w.conclude id strand.list number call s)
  | abandons
      {strand : Strand}
      {number : Nat}
      (hstrand : w.strands[id]? = some strand)
      (hracing : strand.status = .racing number) :
      Stride w id (w.abandon id strand.list number)

section Strides

variable (w : World) (id : Nat)

theorem isCalm_of_next
    {strand : Strand}
    (hstrand : w.strands[id]? = some strand)
    (hnext : ∀ step, strand.next? = some step → step.isCalm = true) :
    IsCalm w id := by
  intro other step hother hstep
  rw [hstrand] at hother
  cases hother
  exact hnext step hstep

/-- A strand that waits or is over carries out no step. -/
theorem isCalm_of_waiting
    {strand : Strand}
    (hstrand : w.strands[id]? = some strand)
    (hwaiting : strand.next? = none) :
    IsCalm w id :=
  w.isCalm_of_next id hstrand fun step hstep => by simp [hwaiting] at hstep

theorem stride_stepForward
    {strand : Strand}
    (hstrand : w.strands[id]? = some strand)
    (hready : strand.status = .ready) :
    Stride w id (w.stepForward id strand) := by
  unfold stepForward
  cases hrest : strand.rest with
  | nil =>
      have hcalm := w.isCalm_of_waiting id hstrand (by simp [Strand.next?, hready, hrest])
      exact .apart hcalm (w.apart_finish id _)
  | cons step rest =>
      have hcalm : step.isCalm = true → IsCalm w id := fun hstep =>
        w.isCalm_of_next id hstrand (by simp [Strand.next?, hready, hrest, hstep])
      have hpass := w.apart_pass id rest
      have hlength : (w.pass id rest).strands.length = w.strands.length := List.length_modify _ _ _
      simp only
      cases step with
      | act a =>
          exact .acts hstrand hready hrest
      | succeed value =>
          exact .apart (hcalm rfl) (hpass.trans (apart_finish _ id _))
      | fail f =>
          exact .apart (hcalm rfl) (hpass.trans (apart_finish _ id _))
      | panic p =>
          exact .apart (hcalm rfl) (hpass.trans (apart_finish _ id _))
      | hang =>
          exact .apart (hcalm rfl) (hpass.trans (apart_withStatus _ id _))
      | sleep duration =>
          have hticket : Apart (w.pass id rest) (w.pass id rest).ticket.2 := ⟨rfl, rfl, rfl, rfl⟩
          exact .apart (hcalm rfl) (hpass.trans (hticket.trans (apart_withStatus _ id _)))
      | giveWay =>
          exact .apart (hcalm rfl) (hpass.trans (apart_withStatus _ id _))
      | drain recorded =>
          exact .apart (hcalm rfl) (hpass.trans (apart_startDrain _ id recorded))
      | settle posted =>
          simp only [perform]
          split
          · exact .apart (hcalm rfl) (hpass.trans (apart_withStatus _ id _))
          · exact .apart (hcalm rfl) (hpass.trans (apart_record _ _ _ _))
      | instrument name subject build body propagate abandonAfter =>
          exact .opens hstrand hready hrest
      | passOn texts =>
          exact .apart (hcalm rfl) (hpass.trans (apart_passOn _ id texts))
      | parallel name branches propagate =>
          have hadds := adds_addBranches (w.pass id rest) strand
            (innerName strand.list strand.index name) 0 branches
          refine .adds hstrand (hcalm rfl) (hpass.adds (hadds.apart (apart_withStatus _ id _))) (Or.inl ?_)
          intro place hplace
          obtain ⟨_, -, heq⟩ := List.mem_map.mp hplace
          exact heq.symm
      | spawn name body wait =>
          have hadds := adds_spawnTask (w.pass id rest)
            (innerName strand.list strand.index name) body none
          rw [hlength] at hadds
          simp only [perform]
          by_cases hruntime : (w.pass id rest).hasRuntime = true
          · simp only [hruntime, if_true]
            split
            · exact .adds hstrand (hcalm rfl) (hpass.adds (hadds.apart (apart_withStatus _ id _)))
                (Or.inr rfl)
            · exact .adds hstrand (hcalm rfl) (hpass.adds hadds) (Or.inr rfl)
          · simp only [hruntime]
            exact .apart (hcalm rfl) (hpass.trans (apart_finish _ id _))

theorem stride_decide
    {strand : Strand}
    {number : Nat}
    (hstrand : w.strands[id]? = some strand)
    (hracing : strand.status = .racing number) :
    Stride w id (w.decide id strand.list number) := by
  have hcalm := w.isCalm_of_waiting id hstrand (by simp [Strand.next?, hracing])
  unfold decide
  cases hcall : w.calls[number]? with
  | none =>
      exact .apart hcalm .refl
  | some call =>
      simp only
      cases hsettled : w.settlement? call with
      | some s =>
          exact .concludes hstrand hracing hcall hsettled
      | none =>
          simp only
          split
          · exact .abandons hstrand hracing
          · exact .apart hcalm .refl

/-- Whatever a strand does in its turn, it touches calls, listeners and extents in one of six ways. -/
theorem stride_advance :
    Stride w id (w.advance id) := by
  unfold advance
  cases hstrand : w.strands[id]? with
  | none =>
      exact .apart (fun _ _ h => by simp [hstrand] at h) .refl
  | some strand =>
      have hwaiting : strand.next? = none → IsCalm w id := w.isCalm_of_waiting id hstrand
      simp only
      split
      · cases hstatus : strand.status with
        | ready =>
            exact w.stride_stepForward id hstrand hstatus
        | racing call =>
            exact w.stride_decide id hstrand hstatus
        | sleeping deadline ticket =>
            exact .apart (hwaiting (by simp [Strand.next?, hstatus])) (w.apart_withStatus id _)
        | gaveWay =>
            exact .apart (hwaiting (by simp [Strand.next?, hstatus])) (w.apart_withStatus id _)
        | joining branches propagate =>
            have hcalm := hwaiting (by simp [Strand.next?, hstatus])
            simp only
            split
            · exact .apart hcalm ((w.apart_record _ _ _).trans (apart_handAll _ id _ propagate))
            · exact .apart hcalm .refl
        | awaiting task =>
            have hcalm := hwaiting (by simp [Strand.next?, hstatus])
            simp only
            split
            · exact .apart hcalm ((w.apart_record _ _ _).trans (apart_withStatus _ id _))
            · exact .apart hcalm ((w.apart_record _ _ _).trans (apart_withStatus _ id _))
        | draining batch recorded =>
            exact .apart (hwaiting (by simp [Strand.next?, hstatus])) (w.apart_drain id _ _ _)
        | settling delivery =>
            have hcalm := hwaiting (by simp [Strand.next?, hstatus])
            have hrecord := apart_record (w.complain [delivery]) strand.list .settle .done
            exact .apart hcalm
              ((w.apart_complain _).trans (hrecord.trans (apart_withStatus _ id _)))
        | _ =>
            exact .apart (hwaiting (by simp [Strand.next?, hstatus])) .refl
      · next hstays =>
          refine .apart (hwaiting ?_) .refl
          cases hstatus : strand.status with
          | ready =>
              simp [canAdvance, hstrand, hstatus] at hstays
          | _ =>
              simp [Strand.next?, hstatus]

end Strides

/-! ## Deliveries -/

section Deliveries

variable (w : World) (id : Nat)

theorem apart_endDelivery
    (d : Delivery) :
    Apart w (w.endDelivery id d) := by
  unfold endDelivery
  cases d.plan.ending with
  | _ =>
      exact ⟨rfl, rfl, rfl, rfl⟩

/-- Deliveries have nothing to do with calls, listeners and extents. -/
theorem apart_deliver :
    Apart w (w.deliver id) := by
  have hticket : Apart w w.ticket.2 := ⟨rfl, rfl, rfl, rfl⟩
  unfold deliver
  cases w.deliveries[id]? with
  | none =>
      exact .refl
  | some d =>
      simp only
      split
      · split
        · split
          · exact hticket.trans (apart_endDelivery _ id d)
          · exact ⟨rfl, rfl, rfl, rfl⟩
        · exact w.apart_endDelivery id d
      · split
        · exact w.apart_endDelivery id d
        · exact .refl
      · exact .refl
      · exact .refl

end Deliveries
end World
end LifecycleTelemetry
