import LifecycleTelemetry.Proofs.Operation.Attribution
import LifecycleTelemetry.Proofs.Operation.Nested
import LifecycleTelemetry.Proofs.Operation.ReportsOnce

/-!
# A signal for a whole nest

When a signal is raised while all the calls of a nest are being raced, it reaches just these calls. Which of
them learns of it by itself, and which from the call inside it, is up to the order in which the strands take
their turns.

The main result is `nest_cancelled`: it makes no difference. Whatever the order, a call of the nest whose
strand has had a turn since is cancelled by the signal, what it has reported and what its caller has been
given both name it, and in the end nobody of the nest listens any more.
-/

namespace LifecycleTelemetry
namespace World

/-! ## The signal -/

/-- A signal is raised, from outside or by a step of some strand, and the number of listeners that it has
reached is told. -/
inductive Raises (w : World) (s : Signal) : Nat → World → Prop where
  | outside : Raises w s (w.trigger s).1 (w.move (.signal s))
  | inside
      {id reached : Nat}
      {strand : Strand}
      {rest : Script}
      (hstrand : w.strands[id]? = some strand)
      (hready : strand.status = .ready)
      (hrest : strand.rest = .act (.trigger s) :: rest)
      (htold : (w.advance id).history.head? =
        some ⟨w.clock, .recorded strand.list .trigger (.count reached)⟩) :
      Raises w s reached (w.advance id)

section Raising

variable {w after : World} {s : Signal} {l : Level} {core reached : Nat} {levels : List Level}

/-- When a signal is raised all who listen are told, and a strand that waits does not notice. -/
structure Raised (w : World) (s : Signal) (after : World) : Prop where
  evolves : Evolves w after
  calls : after.calls = w.calls
  channel : after.channel = w.channel.trigger s
  waiting : ∀ (id : Nat) (strand : Strand), w.strands[id]? = some strand → strand.status ≠ .ready →
    after.strands[id]? = some strand
  ongoing : ∀ id, after.isOngoing id = w.isOngoing id

/-- A step that raises a signal tells how many listen. -/
theorem advance_of_raising
    {id : Nat}
    {strand : Strand}
    {rest : Script}
    (hstrand : w.strands[id]? = some strand)
    (hready : strand.status = .ready)
    (hrest : strand.rest = .act (.trigger s) :: rest) :
    w.advance id = ((w.pass id rest).trigger s).2.record strand.list .trigger
      (.count w.channel.active) := by
  rw [w.advance_of_ready id hstrand hready, stepForward, hrest]
  rfl

theorem isOngoing_pass
    (w : World)
    (id other : Nat)
    (rest : Script) :
    (w.pass id rest).isOngoing other = w.isOngoing other := by
  have hstatuses : ((w.pass id rest).strands.map Strand.status) = w.strands.map Strand.status :=
    (map_modify Strand.status (fun strand => { strand with index := strand.index + 1, rest })
      (fun status => status) (fun _ => rfl) w.strands id).trans (List.modify_id id _)
  simp only [isOngoing, ← List.getElem?_map, hstatuses]

theorem Raises.raised
    (h : w.Raises s reached after) :
    w.Raised s after ∧ reached = w.channel.active := by
  cases h with
  | outside =>
      exact ⟨⟨.move (.signal s) .refl, rfl, rfl, fun _ _ h _ => h, fun _ => rfl⟩, rfl⟩
  | @inside id _ strand rest hstrand hready hrest htold =>
      have hturn := advance_of_raising hstrand hready hrest
      refine ⟨⟨.move (.advance id) .refl, ?_, ?_, ?_, ?_⟩, ?_⟩
      · rw [hturn]
        rfl
      · rw [hturn]
        rfl
      · intro other waiting hwaiting hstatus
        have hne : id ≠ other := by
          rintro rfl
          rw [hstrand] at hwaiting
          cases hwaiting
          exact hstatus hready
        rw [hturn]
        exact (List.getElem?_modify_ne _ _ hne).trans hwaiting
      · intro other
        rw [hturn]
        exact w.isOngoing_pass id other rest
      · rw [hturn] at htold
        simp only [record, note, List.head?_cons, Option.some.injEq, Entry.mk.injEq,
          Happening.recorded.injEq, Finding.count.injEq, true_and] at htold
        exact htold.2.symm

/-- Whoever waits for a call goes on waiting when a signal is raised. -/
theorem Raised.race?
    (h : w.Raised s after)
    {id n : Nat}
    (hrace : w.race? id = some n) :
    after.race? id = some n := by
  obtain ⟨strand, hstrand, hn⟩ := Option.bind_eq_some_iff.mp hrace
  refine Option.bind_eq_some_iff.mpr ⟨strand, h.waiting id strand hstrand ?_, hn⟩
  intro hready
  rw [hready] at hn
  cases hn

/-- A call whose race nothing has decided so far is handed the signal. -/
theorem Raised.hears
    (h : w.Raised s after)
    (hattuned : Attuned w)
    (hracing : w.Racing l)
    (hundecided : (w.calls[l.call]?).bind w.settlement? = none) :
    after.Hears s l := by
  obtain ⟨call, hcall, hphase⟩ := operation?_eq_some.mp hracing.raced
  obtain ⟨r, hlistener, hlistens⟩ := hattuned.listensAt hcall hphase
  have hsilent : w.channel.first? r = none := by
    rw [hcall, Option.bind_some] at hundecided
    unfold settlement? at hundecided
    simp only [hphase, hlistener, Listener.signal?] at hundecided
    split at hundecided
    · cases hundecided
    · cases hundecided
    · exact Option.map_eq_none_iff.mp hundecided
  refine ⟨h.race? hracing.race, r, ?_, ?_⟩
  · rw [ListensAt, ears, h.calls]
    exact hlistens
  · rw [h.channel]
    exact w.channel.first?_trigger s (hattuned.mem_ids hlistens) hsilent

variable {reporter : Reporter}
variable {hasRuntime : Bool}
variable {stamps : Nat → Int}
variable {plans : List DeliveryPlan}

/-- The operation inside all calls of a nest goes on, as nothing has decided the innermost race. -/
theorem Nest.ongoing
    (hw : Evolves (World.start reporter hasRuntime stamps .channel plans) w)
    (h : w.Nest core levels) :
    w.isOngoing core = true := by
  have hcore : core ∈ levels.map Level.body := by
    rw [h.linked]
    exact List.mem_append_right _ List.mem_cons_self
  obtain ⟨l, hl, rfl⟩ := List.mem_map.mp hcore
  have hraced := (h.racing l hl).raced
  obtain ⟨call, hcall, hphase⟩ := operation?_eq_some.mp hraced
  obtain ⟨given, hgiven⟩ := hw.gathers 0
  have hplace := (hgiven.extents (unstarted_start _ _ _ _ _).extents).raced l.call l.body hraced
  rw [places, List.getElem?_map] at hplace
  obtain ⟨strand, hstrand, -⟩ := Option.map_eq_some_iff.mp hplace
  have hnone := h.undecided l hl
  rw [hcall, Option.bind_some] at hnone
  unfold settlement? at hnone
  simp only [hphase, hstrand, Option.map_some] at hnone
  unfold isOngoing
  cases hstatus : strand.status with
  | finished o =>
      simp [hstatus] at hnone
  | aborted =>
      simp [hstatus] at hnone
  | _ =>
      simp [hstrand, hstatus]

/-- When a signal has been raised the calls of a nest are on the way. -/
theorem Nest.resolving
    (hw : Evolves (World.start reporter hasRuntime stamps .channel plans) w)
    (h : w.Nest core levels)
    (hraised : w.Raised s after) :
    after.Resolving s core levels := by
  have hattuned := (attuned_start reporter hasRuntime stamps plans).evolves hw
  refine ⟨fun l hl => Or.inl ?_, fun l hl => ?_, ?_⟩
  · exact hraised.hears hattuned (h.racing l hl) (h.undecided l hl)
  · have hracing := h.racing l (List.mem_of_mem_tail hl)
    refine .waits (hraised.race? hracing.race) ?_
    rcases h.handsOn l hl with hpropagate | hpasses
    · exact Or.inl (hraised.calls ▸ hpropagate)
    · obtain ⟨strand, hstrand, hrest⟩ := Option.map_eq_some_iff.mp hpasses
      have hkept := hraised.waiting l.owner strand hstrand fun hready => by
        have hfree := race?_eq_none hstrand (by rw [hready]; rfl)
        rw [hracing.race] at hfree
        cases hfree
      exact Or.inr (by rw [hkept, Option.map_some, hrest])
  · rw [hraised.ongoing core]
    exact h.ongoing hw

end Raising

/-! ## Listeners -/

section Counting

variable {w : World} {core : Nat} {levels : List Level}

/-- The calls of a nest are all that is under way. -/
theorem Nest.undecided_eq
    (h : w.Nest core levels) :
    World.undecided w = levels.length := by
  have hplaces : ∀ n, n ∈ levels.map Level.call ↔
      n ∈ (List.range w.calls.length).filter fun n => (w.calls[n]?).any fun c => !c.phase.isOver := by
    intro n
    rw [List.mem_filter, List.mem_range]
    constructor
    · intro hn
      obtain ⟨l, hl, rfl⟩ := List.mem_map.mp hn
      obtain ⟨call, hcall, hphase⟩ := operation?_eq_some.mp (h.racing l hl).raced
      exact ⟨(List.getElem?_eq_some_iff.mp hcall).1, by simp [hcall, hphase, CallPhase.isOver]⟩
    · rintro ⟨hlt, hopen⟩
      have hcall := List.getElem?_eq_getElem hlt
      refine h.whole n _ hcall ?_
      simpa [hcall] using hopen
  have hperm := (List.perm_ext_iff_of_nodup h.distinct
    (List.nodup_range.filter _)).mpr hplaces
  rw [World.undecided, countP_eq_places, ← hperm.length_eq, List.length_map]

end Counting

/-! ## The whole nest -/

/-- What becomes of a call of a nest, on the way from the world in which a signal has been raised. -/
structure CancelledBy (first w : World) (s : Signal) (l : Level) : Prop where
  /-- It has reported its start and one ending, a cancellation that names the signal. -/
  reported : ∃ call stop contributed, w.calls[l.call]? = some call ∧
    w.reports l.call = [w.startReport call, w.reportAt stop ⟨call.subject,
      .ended (.cancelled (some s.name)) contributed (elapsed call.startedAt stop)⟩]
  /-- Its strand has had a turn in which this has been reported, and in which its caller has been given a
  failure that names the signal. -/
  returned : ∃ u strand call settlement f,
    Evolves first u ∧ u.strands[l.owner]? = some strand ∧ strand.status = .racing l.call ∧
      u.calls[l.call]? = some call ∧
      Verdict u l.owner l.call strand call settlement (.cancelled (some s.name)) (.err f) ∧
      f.Names s ∧ Evolves (u.advance l.owner) w

section Whole

variable {reporter : Reporter}
variable {stamps : Nat → Int}
variable {plans : List DeliveryPlan}
variable {w after : World} {s : Signal} {l : Level} {core reached : Nat} {levels : List Level}

/-- A race that has been decided by a signal was decided in a turn of the strand that has made the call. -/
theorem SettledBy.cancelledBy
    {first : World}
    (hfirst : Accounted first)
    (hracing : first.Racing l)
    (hlater : Evolves first w)
    (h : w.SettledBy s l) :
    CancelledBy first w s l := by
  obtain ⟨σ, hsettled, hending, f, houtcome, hnames⟩ := h
  obtain ⟨call, hcall, hphase⟩ := Option.map_eq_some_iff.mp hsettled
  have howned := hfirst.owned
  constructor
  · obtain ⟨stop, contributed, -, -, hreports⟩ :=
      (hfirst.evolves hlater).reportsOnce.decided l.call call σ hcall hphase
    rw [endReport, hending] at hreports
    exact ⟨call, stop, contributed, hcall, hreports⟩
  · obtain ⟨old, body, hold, hraced, howner⟩ := howned l.owner l.call hracing.race
    rcases hlater.origin_settled howned (getElem?_outlines hcall) hphase with
      hstill | ⟨u, id, strand, before, hpast, hstrand, hstatus, hbefore, hdecided, -, hafter⟩
    · rw [hold] at hstill
      cases hstill
      rw [show call.outline.phase = call.phase from rfl, hphase] at hraced
      cases hraced
    · have hmade := owner_of_evolves howned hpast
        (by rw [first.map_calls Call.owner fun _ => rfl, hold, Option.map_some, howner])
      obtain ⟨seen, -, hseen, -, hid⟩ := (howned.evolves hpast) id l.call (race?_of_racing hstrand hstatus)
      rw [u.map_calls Call.owner fun _ => rfl, hseen, Option.map_some, hid] at hmade
      cases hmade
      have hverdict := verdict_of_settlement? hstrand hstatus hbefore hdecided
      rw [hending, houtcome] at hverdict
      exact ⟨u, strand, before, σ, f, hpast, hstrand, hstatus, hbefore, hverdict, hnames, hafter⟩

/-- When all calls of a nest have been cancelled, only calls that have been made since are under way. -/
theorem Nest.active
    (hnest : w.Nest core levels)
    (howned : RacesOwned w)
    {v : World}
    (hv : Attuned v)
    (hlater : Evolves w v)
    (hsettled : ∀ l ∈ levels, v.SettledBy s l) :
    v.channel.active = (v.calls.drop w.calls.length).countP fun c => !c.phase.isOver := by
  have hover : ∀ c ∈ v.calls.take w.calls.length, ¬ (!c.phase.isOver) = true := by
    intro c hc
    obtain ⟨n, hn⟩ := List.getElem?_of_mem hc
    rw [List.getElem?_take] at hn
    split at hn
    · next hlt =>
        have hold := List.getElem?_eq_getElem hlt
        by_cases hopen : (w.calls[n]).phase.isOver = true
        · have hkept := (hlater.of_isOver howned (getElem?_outlines hold) hopen).1
          rw [getElem?_outlines hn] at hkept
          have houtline : c.outline = (w.calls[n]).outline := Option.some.inj hkept
          have hphase := congrArg Call.phase houtline
          simp only [Call.outline] at hphase
          simp [hphase, hopen]
        · obtain ⟨l, hl, rfl⟩ := List.mem_map.mp (hnest.whole n _ hold (by simpa using hopen))
          obtain ⟨σ, hphase, -⟩ := hsettled l hl
          rw [hn, Option.map_some, Option.some.injEq] at hphase
          simp [hphase, CallPhase.isOver]
    · cases hn
  calc
    v.channel.active = v.calls.countP fun c => !c.phase.isOver := hv.active
    _ = (v.calls.take w.calls.length ++ v.calls.drop w.calls.length).countP
        fun c => !c.phase.isOver := by rw [List.take_append_drop]
    _ = (v.calls.drop w.calls.length).countP fun c => !c.phase.isOver := by
      rw [List.countP_append, List.countP_eq_zero.mpr hover, Nat.zero_add]

/-- When a signal is raised while all calls of a nest are being raced, it reaches just these calls. In
whatever order strands then take their turns, and whichever way a call learns of the signal, the call of
every strand of the nest that has had a turn is cancelled by the signal, and the others are still being
raced. When all have had one, no listener is left but those of calls that have been made since. -/
theorem nest_cancelled
    (henabled : reporter.enabled = true)
    (htransport : reporter.client.isEnabled = true)
    (hw : Evolves (World.start reporter true stamps .channel plans) w)
    (hnest : w.Nest core levels)
    (hraises : w.Raises s reached after)
    {ms : List Move}
    (hpermits : permitsAll core after ms = true) :
    reached = levels.length ∧
      (∀ l ∈ levels,
        (.advance l.owner ∈ ms → CancelledBy after (after.moves ms) s l) ∧
          (.advance l.owner ∉ ms → (after.moves ms).race? l.owner = some l.call)) ∧
      ((∀ l ∈ levels, .advance l.owner ∈ ms) →
        (after.moves ms).channel.active =
          ((after.moves ms).calls.drop w.calls.length).countP fun c => !c.phase.isOver) := by
  obtain ⟨hraised, hreached⟩ := hraises.raised
  have hafter := hw.trans hraised.evolves
  have hlater := Evolves.moves after ms
  have hattuned : ∀ {u}, Evolves (World.start reporter true stamps .channel plans) u → Attuned u :=
    (attuned_start reporter true stamps plans).evolves
  have haccounted := (accounted_start henabled htransport stamps .channel plans).evolves hafter
  have hsettled := (hnest.resolving hw hraised).moves hafter hnest.linked hpermits
  refine ⟨?_, fun l hl => ⟨fun hturn => ?_, fun hturn => ?_⟩, fun hturns => ?_⟩
  · rw [hreached, (hattuned hw).active, hnest.undecided_eq]
  · have hracing : after.Racing l := by
      refine ⟨hraised.race? (hnest.racing l hl).race, ?_⟩
      rw [operation?, hraised.calls]
      exact (hnest.racing l hl).raced
    exact (hsettled l hl hturn).cancelledBy haccounted hracing hlater
  · exact race?_of_permitted (hraised.race? (hnest.racing l hl).race) hpermits hturn
  · exact hnest.active (racesOwned_of_evolves hw) (hattuned (hafter.trans hlater))
      (hraised.evolves.trans hlater) fun l hl => hsettled l hl (hturns l hl)

end Whole

/-- For instance, in a nest of three calls, of which the innermost but one puts a text around the failure
that it passes on. From the outside to the inside each call learns of the signal by itself, and in the other
direction from the call inside it; what the calls report is the same. -/
theorem nest_cancelled_plainRun :
    let inner : Step := .instrument none (.prompt "name" .null) [] [.hang] true none
    let middle : Step := .instrument none (.prompt "id" .null) [] [inner] false none
    let script : Script :=
      [.instrument none (.session []) [] [middle, .passOn ["while setting up"]] false none]
    let w := plainRun [] script [.advance 0, .advance 1, .advance 2, .advance 3]
    let after := w.move (.signal .interrupt)
    let levels : List Level := [⟨0, 0, 1⟩, ⟨1, 1, 2⟩, ⟨2, 2, 3⟩]
    let inwards : List Move := [.advance 0, .advance 1, .advance 2]
    let outwards : List Move := [.advance 2, .advance 1, .advance 1, .advance 0]
    w.Nest 3 levels ∧ w.Raises .interrupt 3 after ∧
      permitsAll 3 after inwards = true ∧ permitsAll 3 after outwards = true ∧
      (after.moves inwards).channel.active = 0 ∧ (after.moves outwards).channel.active = 0 ∧
      (∀ l ∈ levels, CancelledBy after (after.moves inwards) .interrupt l ∧
        CancelledBy after (after.moves outwards) .interrupt l) ∧
      ∀ n < 3, (after.moves inwards).reports n = (after.moves outwards).reports n := by
  intro inner middle script w after levels inwards outwards
  have hw : Evolves (World.start plainReporter true plainStamps .channel []) w := evolves_plainRun _ _ _
  have hnest : w.Nest 3 levels := by
    refine ⟨?_, ?_, by decide, rfl, ?_, ?_⟩
    · simp only [levels, List.forall_mem_cons]
      exact ⟨⟨by decide +kernel, by decide +kernel⟩, ⟨by decide +kernel, by decide +kernel⟩,
        ⟨by decide +kernel, by decide +kernel⟩, nofun⟩
    · simp only [levels, List.forall_mem_cons]
      exact ⟨by decide +kernel, by decide +kernel, by decide +kernel, nofun⟩
    · simp only [levels, List.tail_cons, List.forall_mem_cons]
      exact ⟨Or.inr (by decide +kernel), Or.inl (by decide +kernel), nofun⟩
    · intro n call hcall _
      have hlength : w.calls.length = 3 := by decide +kernel
      have hlt : n < w.calls.length := (List.getElem?_eq_some_iff.mp hcall).1
      simp only [levels, List.map_cons, List.map_nil, List.mem_cons]
      omega
  have hreached : (w.trigger .interrupt).1 = 3 := by decide +kernel
  have hraises : w.Raises .interrupt 3 after := by
    rw [← hreached]
    exact .outside
  have hinwards : permitsAll 3 after inwards = true := by decide +kernel
  have houtwards : permitsAll 3 after outwards = true := by decide +kernel
  obtain ⟨-, hin, -⟩ := nest_cancelled rfl rfl hw hnest hraises hinwards
  obtain ⟨-, hout, -⟩ := nest_cancelled rfl rfl hw hnest hraises houtwards
  refine ⟨hnest, hraises, hinwards, houtwards, by decide +kernel, by decide +kernel, ?_,
    by decide +kernel⟩
  have hturns : ∀ l ∈ levels, .advance l.owner ∈ inwards ∧ .advance l.owner ∈ outwards := by decide
  exact fun l hl => ⟨(hin l hl).1 (hturns l hl).1, (hout l hl).1 (hturns l hl).2⟩

end World
end LifecycleTelemetry
