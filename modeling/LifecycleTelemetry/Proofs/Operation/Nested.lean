import LifecycleTelemetry.Proofs.Operation.Extent
import LifecycleTelemetry.Proofs.Operation.Hearing
import LifecycleTelemetry.Proofs.Operation.Verdict

/-!
# Nests of operations

Operations may be nested: the operation of a call makes a call of its own, waits for it, and passes its
failure on, possibly with texts around it. When a signal is raised while all the calls of such a nest are
being raced, every one of them has two ways to learn of it. Its own listener has been handed the signal, and
the call inside it will fail with the mark of the signal.

The invariant `Resolving` says how far the calls of a nest may be after a signal, as long as nothing else
settles. A turn of the strand that waits for a call takes that call to its end, whichever way it has learnt
of the signal; a turn of any other strand leaves it alone.
-/

namespace LifecycleTelemetry

/-! ## Failures and settlements that name a signal -/

namespace Failure

/-- Texts around a failure change nothing about its being a cancellation. -/
theorem cancellation?_withContexts
    (f : Failure)
    (texts : List String) :
    (f.withContexts (texts.map .text)).cancellation? = f.cancellation? := by
  induction texts generalizing f with
  | nil =>
      rfl
  | cons text rest ih =>
      exact ih (f.withText text)

/-- Whether the mark that counts in a failure names a signal. -/
def Names (f : Failure) (s : Signal) : Prop :=
  f.cancellation? = some ⟨some s.name⟩

end Failure

/-- A race that has been decided by a signal, in whichever way the call has learnt of it. -/
structure Settlement.CalledOff (s : Signal) (σ : Settlement) : Prop where
  ending : σ.ending = .cancelled (some s.name)
  outcome : ∃ f, σ.outcome = .err f ∧ f.Names s

theorem calledOff_interrupted
    (s : Signal) :
    (Settlement.interrupted s).CalledOff s :=
  ⟨rfl, _, rfl, rfl⟩

theorem calledOff_failure
    {s : Signal}
    {f : Failure}
    (h : f.Names s) :
    (Settlement.failure f).CalledOff s := by
  refine ⟨?_, f, rfl, h⟩
  simp only [Settlement.ending, show f.cancellation? = some ⟨some s.name⟩ from h]

/-- Whether a strand is about to end as its last call has ended, with texts around the failure. -/
def Strand.passesOn (strand : Strand) : Bool :=
  match strand.rest with
  | .passOn _ :: _ => true
  | _ => false

theorem Strand.passesOn_iff
    {strand : Strand} :
    strand.passesOn = true ↔ ∃ texts rest, strand.rest = .passOn texts :: rest := by
  unfold Strand.passesOn
  split
  · next texts rest hrest =>
      exact ⟨fun _ => ⟨texts, rest, hrest⟩, fun _ => rfl⟩
  · next hother =>
      refine ⟨nofun, ?_⟩
      rintro ⟨texts, rest, hrest⟩
      exact (hother texts rest hrest).elim

namespace World

/-! ## Nests -/

/-- Where a call of a nest is: the strand that has made it, the call, and the strand of its operation. -/
structure Level where
  owner : Nat
  call : Nat
  body : Nat
deriving DecidableEq

/-- A strand waits for a call that is being raced. -/
structure Racing (w : World) (l : Level) : Prop where
  race : w.race? l.owner = some l.call
  raced : w.operation? l.call = some l.body

/-- When the call of a strand fails the strand ends with that failure, either at once or by its next step,
which puts texts around it. -/
def HandsOn (w : World) (l : Level) : Prop :=
  (w.calls[l.call]?).map Call.propagate = some true ∨
    (w.strands[l.owner]?).map Strand.passesOn = some true

/-- A nest of calls that are being raced, the outermost first, and the strand of the operation inside all
of them. -/
structure Nest (w : World) (core : Nat) (levels : List Level) : Prop where
  racing : ∀ l ∈ levels, w.Racing l
  undecided : ∀ l ∈ levels, (w.calls[l.call]?).bind w.settlement? = none
  distinct : (levels.map Level.call).Nodup
  /-- The operation of a call is what makes the next call, down to the innermost one. -/
  linked : levels.map Level.body = levels.tail.map Level.owner ++ [core]
  handsOn : ∀ l ∈ levels.tail, w.HandsOn l
  /-- There are no other calls under way. -/
  whole : ∀ n call, w.calls[n]? = some call → call.phase.isOver = false → n ∈ levels.map Level.call

/-- Whether a strand is there and has not come to its end. -/
def isOngoing (w : World) (id : Nat) : Bool :=
  match (w.strands[id]?).map Strand.status with
  | some (.finished _) => false
  | some .aborted => false
  | some _ => true
  | none => false

/-- Whether a move is one by which nothing settles from outside: no interrupt is raised, no task aborted,
and the innermost operation does not come to its end. -/
def permits (w : World) (core : Nat) : Move → Bool
  | .advance id => !w.raises id && (w.advance id).isOngoing core
  | .deliver _ => true
  | .pass _ => true
  | .signal _ => false
  | .abort _ => false

/-- Whether all of several moves are. -/
def permitsAll (core : Nat) : World → List Move → Bool
  | _, [] => true
  | w, m :: ms => w.permits core m && permitsAll core (w.move m) ms

/-! ## On the way -/

section Views

variable {w after : World} {id n : Nat}

theorem isOngoing_of_race?
    (h : w.race? id = some n) :
    w.isOngoing id = true := by
  obtain ⟨strand, hstrand, hrace⟩ := Option.bind_eq_some_iff.mp h
  cases hstatus : strand.status with
  | racing call =>
      simp [isOngoing, hstrand, hstatus]
  | _ =>
      rw [hstatus] at hrace
      cases hrace

theorem isOngoing_of_ready
    {strand : Strand}
    (hstrand : w.strands[id]? = some strand)
    (hready : strand.status = .ready) :
    w.isOngoing id = true := by
  simp [isOngoing, hstrand, hready]

end Views

/-- The operation of a call may still go on, but when it has come to its end it has failed with the mark of
a signal. -/
def Yields (w : World) (s : Signal) (body : Nat) : Prop :=
  w.isOngoing body = true ∨ ∃ f, w.outcome? body = some (.err f) ∧ f.Names s

/-- A call that is being raced has been handed a signal. -/
structure Hears (w : World) (s : Signal) (l : Level) : Prop where
  race : w.race? l.owner = some l.call
  handed : ∃ r, w.ListensAt l.call l.body r ∧ w.channel.first? r = some s

/-- The race of a call has been decided by a signal. -/
def SettledBy (w : World) (s : Signal) (l : Level) : Prop :=
  ∃ σ : Settlement, (w.calls[l.call]?).map Call.phase = some (.settled σ) ∧ σ.CalledOff s

/-- A call is the one that a strand has made last. -/
def IsLatest (w : World) (id n : Nat) : Prop :=
  (w.calls[n]?).map Call.owner = some id ∧
    ∀ (m : Nat) (call : Call), w.outlines[m]? = some call → call.owner = id → m ≤ n

/-- How far a strand is that makes a call of the nest for an operation around it: it waits for the call, has
been handed its failure and is about to pass it on, or has ended with it. -/
inductive Passing (w : World) (s : Signal) (l : Level) : Prop where
  | waits
      (hrace : w.race? l.owner = some l.call)
      (hands : w.HandsOn l)
  | holds
      {strand : Strand}
      (hstrand : w.strands[l.owner]? = some strand)
      (hready : strand.status = .ready)
      (hpasses : strand.passesOn = true)
      (hlatest : w.IsLatest l.owner l.call)
  | passed
      {f : Failure}
      (hended : w.outcome? l.owner = some (.err f))
      (hnames : f.Names s)

/-- How far the calls of a nest may be after a signal, while nothing else settles. -/
structure Resolving (w : World) (s : Signal) (core : Nat) (levels : List Level) : Prop where
  heard : ∀ l ∈ levels, w.Hears s l ∨ w.SettledBy s l
  passing : ∀ l ∈ levels.tail, w.Passing s l
  ongoing : w.isOngoing core = true

section Deciding

variable {w : World} {s : Signal} {l : Level}

/-- An inner strand never ends in another way. -/
theorem Passing.yields
    (h : w.Passing s l) :
    w.Yields s l.owner := by
  cases h with
  | waits hrace _ =>
      exact Or.inl (isOngoing_of_race? hrace)
  | holds hstrand hready _ _ =>
      exact Or.inl (isOngoing_of_ready hstrand hready)
  | passed hended hnames =>
      exact Or.inr ⟨_, hended, hnames⟩

/-- So neither does the operation of any call of the nest. -/
theorem Resolving.yields
    {core : Nat}
    {levels : List Level}
    (h : w.Resolving s core levels)
    (hlinked : levels.map Level.body = levels.tail.map Level.owner ++ [core])
    (hl : l ∈ levels) :
    w.Yields s l.body := by
  have hmem : l.body ∈ levels.tail.map Level.owner ++ [core] :=
    hlinked ▸ List.mem_map_of_mem hl
  rcases List.mem_append.mp hmem with hinner | hcore
  · obtain ⟨inner, hinner, howner⟩ := List.mem_map.mp hinner
    exact howner ▸ (h.passing inner hinner).yields
  · exact Or.inl (List.mem_singleton.mp hcore ▸ h.ongoing)

/-- The race of a call that has been handed a signal is decided by it, whether the operation goes on or has
learnt of the signal before. -/
theorem settlement?_of_handed
    {call : Call}
    {body : Nat}
    (hphase : call.phase = .racing body)
    (hsignal : call.listener.signal? w.clock w.channel = some s)
    (hyields : w.Yields s body) :
    ∃ σ : Settlement, w.settlement? call = some σ ∧ σ.CalledOff s := by
  rcases hyields with hongoing | ⟨f, hended, hnames⟩
  · refine ⟨.interrupted s, ?_, calledOff_interrupted s⟩
    unfold isOngoing at hongoing
    simp only [settlement?, hphase, hsignal]
    cases hstatus : (w.strands[body]?).map Strand.status with
    | none =>
        simp [hstatus] at hongoing
    | some status =>
        cases status with
        | finished o =>
            simp [hstatus] at hongoing
        | aborted =>
            simp [hstatus] at hongoing
        | _ =>
            rfl
  · exact ⟨.failure f, settlement?_of_ended hphase hended, calledOff_failure hnames⟩

/-- The strand of a call that has been handed a signal finds its race decided. -/
theorem Hears.decided
    (h : w.Hears s l)
    (hyields : w.Yields s l.body) :
    ∃ strand call σ, w.strands[l.owner]? = some strand ∧ strand.status = .racing l.call ∧
      w.calls[l.call]? = some call ∧ w.settlement? call = some σ ∧ Settlement.CalledOff s σ := by
  obtain ⟨strand, hstrand, hrace⟩ := Option.bind_eq_some_iff.mp h.race
  obtain ⟨r, hlistens, hfirst⟩ := h.handed
  obtain ⟨call, hcall, hear⟩ := call_of_ears hlistens
  have hlistener : call.listener = .receiver r := congrArg Prod.fst hear
  have hphase : call.phase = .racing l.body := congrArg Prod.snd hear
  obtain ⟨σ, hsettled, hcalled⟩ :=
    settlement?_of_handed hphase (by rw [hlistener]; exact hfirst) hyields
  refine ⟨strand, call, σ, hstrand, ?_, hcall, hsettled, hcalled⟩
  cases hstatus : strand.status with
  | racing number =>
      rw [hstatus] at hrace
      cases hrace
      rfl
  | _ =>
      rw [hstatus] at hrace
      cases hrace

end Deciding

/-! ## Turns on the way -/

section Turns

variable {w after : World} {s : Signal} {l : Level} {id n : Nat}

/-- A call is decided at most once. -/
theorem SettledBy.race?_ne
    (h : w.SettledBy s l)
    (hw : RacesOwned w) :
    w.race? id ≠ some l.call := by
  intro hrace
  obtain ⟨call, body, hcall, hphase, -⟩ := hw id l.call hrace
  obtain ⟨σ, hsettled, -⟩ := h
  rw [w.map_calls Call.phase fun _ => rfl, hcall] at hsettled
  simp [hphase] at hsettled

theorem SettledBy.evolves
    (h : w.SettledBy s l)
    (hw : RacesOwned w)
    (hafter : Evolves w after) :
    after.SettledBy s l := by
  obtain ⟨σ, hsettled, hcalled⟩ := h
  rw [w.map_calls Call.phase fun _ => rfl] at hsettled
  obtain ⟨call, hcall, hphase⟩ := Option.map_eq_some_iff.mp hsettled
  obtain ⟨hkept, -⟩ := hafter.of_isOver hw hcall (by rw [hphase]; rfl)
  exact ⟨σ, by rw [after.map_calls Call.phase fun _ => rfl, hkept, Option.map_some, hphase], hcalled⟩

/-- The turn of another strand leaves a call that has been handed a signal alone. -/
theorem Hears.advance
    (h : w.Hears s l)
    (hattuned : Attuned w)
    (howned : RacesOwned w)
    (hne : l.owner ≠ id)
    (hcalm : w.raises id = false) :
    (w.advance id).Hears s l := by
  obtain ⟨r, hlistens, hfirst⟩ := h.handed
  have hleft := hattuned.undisturbed_advance hlistens hcalm fun hrace =>
    hne (howned.unique h.race hrace)
  refine ⟨?_, r, hleft.listensAt hlistens, hleft.first.trans hfirst⟩
  exact (spares_of_turn (w.turn_advance id)).race?_of_ne hne h.race

/-- In a turn of its own strand it is cancelled. -/
theorem Hears.settles
    (h : w.Hears s l)
    (hyields : w.Yields s l.body) :
    (w.advance l.owner).SettledBy s l := by
  obtain ⟨strand, call, σ, hstrand, hracing, hcall, hsettled, hcalled⟩ := h.decided hyields
  refine ⟨σ, ?_, hcalled⟩
  rw [w.advance_of_decided l.owner hstrand hracing hcall hsettled, map_calls _ Call.phase fun _ => rfl,
    (concludes_conclude l.owner w strand.list l.call call σ).outlines]
  simp [getElem?_outlines hcall, Call.withPhase]

/-- A call stays the latest one of its strand until the strand makes another. -/
theorem IsLatest.turn
    {other : Nat}
    (h : w.IsLatest other n)
    (hw : RacesOwned w)
    (hturn : Turn w id after)
    (hmakes : ∀ (m : Nat) (call : Call), after.outlines[m]? = some call → call.owner = other →
      ∃ old, w.outlines[m]? = some old ∧ old.owner = call.owner) :
    after.IsLatest other n := by
  refine ⟨made_of_change hw (.turn hturn) (fun _ => rfl) (fun _ _ => rfl) h.1, fun m call hcall howner => ?_⟩
  obtain ⟨old, hold, hsame⟩ := hmakes m call hcall howner
  exact h.2 m old hold (hsame.trans howner)

theorem HandsOn.advance
    (h : w.HandsOn l)
    (hw : RacesOwned w)
    (hne : l.owner ≠ id) :
    (w.advance id).HandsOn l := by
  have hturn := w.turn_advance id
  rcases h with hpropagate | hpasses
  · exact Or.inl (made_of_change hw (.turn hturn) (fun _ => rfl) (fun _ _ => rfl) hpropagate)
  · obtain ⟨strand, hstrand, hrest⟩ := Option.map_eq_some_iff.mp hpasses
    have hkept := (spares_of_turn hturn).strands _ hne strand hstrand
    exact Or.inr (by rw [hkept, Option.map_some, hrest])

/-- In the turn of another strand, an inner strand stays where it is. -/
theorem Passing.advance
    (h : w.Passing s l)
    (hw : RacesOwned w)
    (hne : l.owner ≠ id) :
    (w.advance id).Passing s l := by
  have hturn := w.turn_advance id
  have hspares := spares_of_turn hturn
  cases h with
  | waits hrace hands =>
      exact .waits (hspares.race?_of_ne hne hrace) (hands.advance hw hne)
  | holds hstrand hready hrest hlatest =>
      refine .holds (hspares.strands _ hne _ hstrand) hready hrest (hlatest.turn hw hturn ?_)
      intro m call hcall howner
      exact (owner_of_turn hturn hcall).resolve_left fun hid => hne (howner.symm.trans hid)
  | passed hended hnames =>
      obtain ⟨strand, hstrand, hstatus⟩ := outcome?_eq_some_iff.mp hended
      have hkept := hspares.strands _ hne strand hstrand
      exact .passed (outcome?_eq_some_iff.mpr ⟨strand, hkept, hstatus⟩) hnames

theorem RacesLatest.isLatest
    (hw : RacesLatest w)
    (howned : RacesOwned w)
    (hrace : w.race? id = some n) :
    w.IsLatest id n := by
  obtain ⟨call, -, hcall, -, howner⟩ := howned id n hrace
  refine ⟨?_, hw id n hrace⟩
  rw [w.map_calls Call.owner fun _ => rfl, hcall, Option.map_some, howner]

theorem IsLatest.lastCall?
    (h : w.IsLatest id n) :
    w.lastCall? id = w.calls[n]? := by
  obtain ⟨⟨call, hcall, howner⟩, hlatest⟩ := And.imp_left Option.map_eq_some_iff.mp h
  obtain ⟨hlt, hget⟩ := List.getElem?_eq_some_iff.mp hcall
  rw [hcall, World.lastCall?, List.find?_eq_some_iff_getElem]
  refine ⟨by simpa using howner, w.calls.length - 1 - n, ?_, ?_, ?_⟩
  · rw [List.length_reverse]
    omega
  · rw [List.getElem_reverse, ← hget]
    congr 1
    omega
  · intro j hj
    rw [List.getElem_reverse]
    have hbound : w.calls.length - 1 - j < w.calls.length := by omega
    have hlater := hlatest _ _ (getElem?_outlines (List.getElem?_eq_getElem hbound))
    have hne : ¬ (w.calls[w.calls.length - 1 - j]).owner = id := by
      intro heq
      have hle := hlater heq
      omega
    simpa using hne

/-- A strand that has been handed the failure of its call, and is about to pass it on, ends with it. -/
theorem passes_on
    (h : w.SettledBy s l)
    {strand : Strand}
    (hstrand : w.strands[l.owner]? = some strand)
    (hready : strand.status = .ready)
    (hpasses : strand.passesOn = true)
    (hlatest : w.IsLatest l.owner l.call) :
    ∃ f : Failure, (w.advance l.owner).outcome? l.owner = some (.err f) ∧ f.Names s := by
  obtain ⟨texts, rest, hrest⟩ := Strand.passesOn_iff.mp hpasses
  obtain ⟨σ, hphase, -, f, houtcome, hnames⟩ := h
  refine ⟨f.withContexts (texts.map .text), ?_, (f.cancellation?_withContexts texts).trans hnames⟩
  obtain ⟨call, hcall, hsettled⟩ := Option.map_eq_some_iff.mp hphase
  have hlast : (w.pass l.owner rest).lastCall? l.owner = some call :=
    hlatest.lastCall?.trans hcall
  have hpassed : (w.pass l.owner rest).strands[l.owner]? =
      some { strand with index := strand.index + 1, rest } := by
    simp [pass, withStrand, hstrand]
  have hturn : w.advance l.owner =
      (w.pass l.owner rest).finish l.owner (.err (f.withContexts (texts.map .text))) := by
    rw [w.advance_of_ready l.owner hstrand hready, stepForward, hrest]
    simp only [perform, passOn, hlast, Option.bind_some, hsettled, CallPhase.outcome?, houtcome]
  rw [hturn]
  exact outcome?_eq_some_iff.mpr ⟨_, strand_finish _ l.owner hpassed _, rfl⟩

/-- In its own turn an inner strand goes one step further on its way to the end. -/
theorem Passing.ownTurn
    (h : w.Passing s l)
    (hheard : w.Hears s l ∨ w.SettledBy s l)
    (hyields : w.Yields s l.body)
    (howned : RacesOwned w)
    (hlatest : RacesLatest w) :
    (w.advance l.owner).Passing s l := by
  cases h with
  | waits hrace hands =>
      have hhears := hheard.resolve_right fun hsettled => hsettled.race?_ne howned hrace
      obtain ⟨strand, call, σ, hstrand, hracing, hcall, hsettled, -, f, houtcome, hnames⟩ :=
        hhears.decided hyields
      have hturn := w.advance_of_decided l.owner hstrand hracing hcall hsettled
      have hhanded := strand_conclude l.owner w hstrand strand.list l.call call σ
      rw [← hturn, houtcome] at hhanded
      cases hpropagate : call.propagate with
      | true =>
          rw [hpropagate] at hhanded
          exact .passed (outcome?_eq_some_iff.mpr ⟨_, hhanded, rfl⟩) hnames
      | false =>
          rw [hpropagate] at hhanded
          rcases hands with hthen | hpasses
          · rw [hcall, Option.map_some, hpropagate] at hthen
            cases hthen
          · rw [hstrand, Option.map_some, Option.some.injEq] at hpasses
            refine .holds hhanded rfl hpasses
              ((hlatest.isLatest howned hrace).turn howned (w.turn_advance l.owner) ?_)
            intro m other hother _
            rw [hturn] at hother
            exact owner_of_modify
              (concludes_conclude l.owner w strand.list l.call call σ).outlines hother
  | holds hstrand hready hrest hlast =>
      have hfree := race?_eq_none hstrand (by rw [hready]; rfl)
      have hsettled := hheard.resolve_left fun hhears => by
        rw [hhears.race] at hfree
        cases hfree
      obtain ⟨f, hended, hnames⟩ := passes_on hsettled hstrand hready hrest hlast
      exact .passed hended hnames
  | passed hended hnames =>
      obtain ⟨strand, hstrand, hstatus⟩ := outcome?_eq_some_iff.mp hended
      have hstays : w.advance l.owner = w := by
        simp [World.advance, canAdvance, hstrand, hstatus]
      exact hstays.symm ▸ .passed hended hnames

end Turns

/-! ## Runs -/

section Runs

variable {w after : World} {s : Signal} {l : Level} {core : Nat} {levels : List Level}

/-- Where the calls of a nest are depends on the strands, the calls and the channel only. -/
theorem Hears.congr
    (h : w.Hears s l)
    (hstrands : after.strands = w.strands)
    (hcalls : after.calls = w.calls)
    (hchannel : after.channel = w.channel) :
    after.Hears s l := by
  obtain ⟨r, hlistens, hfirst⟩ := h.handed
  have hleft : Undisturbed l.call r w after := undisturbed_of_eq hcalls hchannel
  refine ⟨?_, r, hleft.listensAt hlistens, hleft.first.trans hfirst⟩
  rw [race?, hstrands]
  exact h.race

theorem Passing.congr
    (h : w.Passing s l)
    (hstrands : after.strands = w.strands)
    (hcalls : after.calls = w.calls) :
    after.Passing s l := by
  cases h with
  | waits hrace hands =>
      refine .waits ?_ ?_
      · rw [race?, hstrands]
        exact hrace
      · rw [HandsOn, hstrands, hcalls]
        exact hands
  | holds hstrand hready hrest hlatest =>
      refine .holds (hstrands ▸ hstrand) hready hrest ?_
      rw [IsLatest, outlines, hcalls]
      exact hlatest
  | passed hended hnames =>
      refine .passed ?_ hnames
      rw [World.outcome?, hstrands]
      exact hended

theorem Resolving.congr
    (h : w.Resolving s core levels)
    (hstrands : after.strands = w.strands)
    (hcalls : after.calls = w.calls)
    (hchannel : after.channel = w.channel) :
    after.Resolving s core levels := by
  refine ⟨fun l hl => ?_, fun l hl => (h.passing l hl).congr hstrands hcalls, ?_⟩
  · rcases h.heard l hl with hhears | hsettled
    · exact Or.inl (hhears.congr hstrands hcalls hchannel)
    · right
      rw [SettledBy, hcalls]
      exact hsettled
  · rw [isOngoing, hstrands]
    exact h.ongoing

/-- A turn that raises no interrupt and leaves the innermost operation going takes the calls of a nest
further on their way, and the one whose strand has the turn to its end. -/
theorem Resolving.advance
    (h : w.Resolving s core levels)
    (hlinked : levels.map Level.body = levels.tail.map Level.owner ++ [core])
    (hattuned : Attuned w)
    (howned : RacesOwned w)
    (hlatest : RacesLatest w)
    {id : Nat}
    (hcalm : w.raises id = false)
    (hongoing : (w.advance id).isOngoing core = true) :
    (w.advance id).Resolving s core levels ∧
      ∀ l ∈ levels, l.owner = id → (w.advance id).SettledBy s l := by
  have hafter : Evolves w (w.advance id) := .move (.advance id) .refl
  have hown : ∀ l ∈ levels, l.owner = id → (w.advance id).SettledBy s l := by
    rintro l hl rfl
    rcases h.heard l hl with hhears | hsettled
    · exact hhears.settles (h.yields hlinked hl)
    · exact hsettled.evolves howned hafter
  refine ⟨⟨fun l hl => ?_, fun l hl => ?_, hongoing⟩, hown⟩
  · by_cases hid : l.owner = id
    · exact Or.inr (hown l hl hid)
    · exact (h.heard l hl).imp (fun hhears => hhears.advance hattuned howned hid hcalm)
        fun hsettled => hsettled.evolves howned hafter
  · by_cases hid : l.owner = id
    · subst hid
      have hmem := List.mem_of_mem_tail hl
      exact (h.passing l hl).ownTurn (h.heard l hmem) (h.yields hlinked hmem) howned hlatest
    · exact (h.passing l hl).advance howned hid

variable {reporter : Reporter}
variable {hasRuntime : Bool}
variable {stamps : Nat → Int}
variable {plans : List DeliveryPlan}

/-- So does every move by which nothing settles from outside. -/
theorem Resolving.move
    (hw : Evolves (World.start reporter hasRuntime stamps .channel plans) w)
    (h : w.Resolving s core levels)
    (hlinked : levels.map Level.body = levels.tail.map Level.owner ++ [core])
    {m : Move}
    (hpermits : w.permits core m = true) :
    (w.move m).Resolving s core levels ∧
      ∀ l ∈ levels, m = .advance l.owner → (w.move m).SettledBy s l := by
  cases m with
  | advance id =>
      simp only [permits, Bool.and_eq_true, Bool.not_eq_true'] at hpermits
      have hattuned := (attuned_start reporter hasRuntime stamps plans).evolves hw
      obtain ⟨hafter, hown⟩ := h.advance hlinked hattuned (racesOwned_of_evolves hw)
        (racesLatest_of_evolves hw) hpermits.1 hpermits.2
      refine ⟨hafter, fun l hl hm => hown l hl ?_⟩
      cases hm
      rfl
  | deliver id =>
      have hapart := w.apart_deliver id
      exact ⟨h.congr (background_deliver w id).strands hapart.calls hapart.channel, nofun⟩
  | pass time =>
      exact ⟨h.congr rfl rfl rfl, nofun⟩
  | signal s =>
      cases hpermits
  | abort task =>
      cases hpermits

/-- Whatever the order of turns, every strand of the nest that has had one has its call cancelled. -/
theorem Resolving.moves
    (hw : Evolves (World.start reporter hasRuntime stamps .channel plans) w)
    (h : w.Resolving s core levels)
    (hlinked : levels.map Level.body = levels.tail.map Level.owner ++ [core])
    {ms : List Move}
    (hpermits : permitsAll core w ms = true) :
    ∀ l ∈ levels, .advance l.owner ∈ ms → (w.moves ms).SettledBy s l := by
  induction ms generalizing w with
  | nil =>
      intro l hl hmem
      cases hmem
  | cons m rest ih =>
      simp only [permitsAll, Bool.and_eq_true] at hpermits
      obtain ⟨hafter, hown⟩ := h.move hw hlinked hpermits.1
      have hmove : Evolves w (w.move m) := .move m .refl
      intro l hl hmem
      rcases List.mem_cons.mp hmem with hfirst | hlater
      · exact (hown l hl hfirst.symm).evolves (racesOwned_of_evolves (hw.trans hmove)) (Evolves.moves _ rest)
      · exact ih (hw.trans hmove) hafter hpermits.2 l hl hlater

/-- A strand of the nest that has had no turn still waits for its call. -/
theorem race?_of_permitted
    {id n : Nat}
    {ms : List Move}
    (hrace : w.race? id = some n)
    (hpermits : permitsAll core w ms = true)
    (hturns : .advance id ∉ ms) :
    (w.moves ms).race? id = some n := by
  induction ms generalizing w with
  | nil =>
      exact hrace
  | cons m rest ih =>
      simp only [permitsAll, Bool.and_eq_true] at hpermits
      simp only [List.mem_cons, not_or] at hturns
      refine ih ?_ hpermits.2 hturns.2
      cases m with
      | advance other =>
          have hne : id ≠ other := fun h => hturns.1 (h ▸ rfl)
          exact (spares_of_turn (w.turn_advance other)).race?_of_ne hne hrace
      | deliver other =>
          simpa only [race?, World.move, (background_deliver w other).strands] using hrace
      | pass time =>
          exact hrace
      | signal s =>
          exact hrace
      | abort task =>
          cases hpermits.1

end Runs

end World
end LifecycleTelemetry
