import LifecycleTelemetry.Proofs.Operation.Evolution
import LifecycleTelemetry.Proofs.Operation.Stride

/-!
# Clocks that go on in the middle of a turn

In a world a turn takes no time, and time never goes back. A clock on the wall knows nothing of turns: it may
show another time after every part of one, and an earlier one after it has been set back. This module runs the
same programs under any clock.

A turn in which a call is made, or in which its race is decided, is taken apart. `World.through` carries out
the parts, and after each of them lets the clock show the next of some given times. What the reporter reads
off the clock for its durations is told beside the world: one reading when a call begins, one right after its
race has been decided. `timedTurn_still` says that nothing has been made up: when the clock shows the same
time all along, the parts are the turn.

`Timed law first` says what a world may become under a clock that keeps a law. Every evolution is such a run,
of a clock that stands still in turns and never goes back.
-/

namespace LifecycleTelemetry

/-! ## Readings -/

/-- What the reporter reads off the clock: a time when a call begins, with the call in whose extent its strand
runs, and a time when its race has been decided. -/
inductive ClockReading where
  | began (call : Nat) (inside : Option Nat) (time : Nat)
  | decided (call : Nat) (time : Nat)
deriving DecidableEq

/-- The call that a reading is made for. -/
def ClockReading.call : ClockReading → Nat
  | .began call _ _ => call
  | .decided call _ => call

/-- The time that has been read. -/
def ClockReading.time : ClockReading → Nat
  | .began _ _ time => time
  | .decided _ time => time

/-- The panic that ends the part that builds an operation, if there is one. -/
def BuildStep.panic? : List BuildStep → Option PanicPayload
  | [] => none
  | .panic p :: _ => some p
  | .act _ :: rest => panic? rest

namespace World

/-! ## Turns in parts -/

/-- A world whose clock shows a time. -/
def showing (w : World) (time : Nat) : World :=
  { w with clock := time }

/-- Carries out parts of a turn, one after the other. After each of them the clock shows the next of some
times, as long as there is one. -/
def through : List (World → World) → List Nat → World → World
  | [], _, w => w
  | part :: parts, [], w => through parts [] (part w)
  | part :: parts, time :: times, w => through parts times ((part w).showing time)

/-- The steps that build an operation, as parts of a turn. -/
def buildParts (inner : String) (call : Nat) : List BuildStep → List (World → World)
  | .act a :: rest => (fun w => w.act inner (some call) a) :: buildParts inner call rest
  | _ => []

/-- The parts of the turn in which a strand makes a call. The first one looks at the clock for the start of
the call. -/
def openingParts (id : Nat) (list inner : String) (call : Nat) (subject : Subject)
    (steps : List BuildStep) (body : Script) (propagate : Bool) (abandonAfter : Option Nat) :
    List (World → World) :=
  [fun w => w.addCall (w.newCall id subject propagate abandonAfter),
    fun w => w.report call ⟨subject, .started⟩,
    fun w => w.listenFor call] ++
  buildParts inner call steps ++
  [fun w => afterBuild id list inner call body propagate (BuildStep.panic? steps, w)]

/-- The parts in which a race that has been decided is left. -/
def leavingParts (number : Nat) (s : Settlement) : List (World → World) :=
  [fun w => w.announce s, fun w => w.release number]

/-- The parts that follow in the same turn, once the time has been read. -/
def closingParts (id : Nat) (list : String) (number : Nat) (call : Call) (s : Settlement)
    (reading : Nat) : List (World → World) :=
  [fun w => w.settle number call s,
    fun w => w.report number (endingOf call s reading),
    fun w => w.record list .instrument (.outcome s.outcome),
    fun w => w.hand id s.outcome call.propagate]

/-- What a strand is about to do in its turn, as far as the reporter looks at the clock then. -/
inductive Errand where
  | opens (strand : Strand) (name : Option String) (subject : Subject) (steps : List BuildStep)
      (body : Script) (propagate : Bool) (abandonAfter : Option Nat) (rest : Script)
  | decides (strand : Strand) (number : Nat) (call : Call) (s : Settlement)
  | other

/-- What a strand is about to do. -/
def errand (w : World) (id : Nat) : Errand :=
  match w.strands[id]? with
  | none => .other
  | some strand =>
      match strand.status with
      | .ready =>
          match strand.rest with
          | .instrument name subject steps body propagate abandonAfter :: rest =>
              .opens strand name subject steps body propagate abandonAfter rest
          | _ => .other
      | .racing number =>
          match w.calls[number]? with
          | none => .other
          | some call =>
              match w.settlement? call with
              | some s => .decides strand number call s
              | none => .other
      | _ => .other

/-- The turn of a strand in the middle of which the clock shows some times, one after each part. -/
def timedTurn (w : World) (id : Nat) (times : List Nat) : World :=
  match w.errand id with
  | .opens strand name subject steps body propagate abandonAfter rest =>
      through
        (openingParts id strand.list (innerName strand.list strand.index name) w.calls.length subject
          (w.readied steps) body propagate abandonAfter)
        times (w.pass id rest)
  | .decides strand number call s =>
      let left := through (leavingParts number s) times w
      through (closingParts id strand.list number call s left.clock)
        (times.drop (leavingParts number s).length) left
  | .other => w.advance id

/-- What is read off the clock in such a turn. -/
def turnReadings (w : World) (id : Nat) (times : List Nat) : List ClockReading :=
  match w.errand id with
  | .opens strand _ _ _ _ _ _ _ => [.began w.calls.length strand.scope w.clock]
  | .decides _ number _ s => [.decided number (through (leavingParts number s) times w).clock]
  | .other => []

end World

/-! ## Moves under a clock -/

/-- Something that happens to a world under a clock that goes on by itself. -/
inductive TimedMove where
  | turn (strand : Nat) (times : List Nat)
  | deliver (delivery : Nat)
  | set (time : Nat)
  | signal (s : Signal)
  | abort (task : Nat)
deriving DecidableEq

namespace World

/-- The world after such a move. -/
def timedMove (w : World) : TimedMove → World
  | .turn strand times => w.timedTurn strand times
  | .deliver delivery => w.deliver delivery
  | .set time => w.showing time
  | .signal s => (w.trigger s).2
  | .abort task => w.abort task

/-- What is read off the clock in a move. -/
def moveReadings (w : World) : TimedMove → List ClockReading
  | .turn strand times => w.turnReadings strand times
  | _ => []

/-- The world after moves, the first of the list first. -/
def timedMoves (w : World) (ms : List TimedMove) : World :=
  ms.foldl timedMove w

/-- What is read off the clock in moves, in the order of time. -/
def readings (w : World) : List TimedMove → List ClockReading
  | [] => []
  | m :: rest => w.moveReadings m ++ (w.timedMove m).readings rest

end World

/-! ## Laws of clocks -/

/-- Each of some times may follow the one before it, the first a given one. -/
def Follows (may : Nat → Nat → Prop) : Nat → List Nat → Prop
  | _, [] => True
  | time, next :: rest => may time next ∧ Follows may next rest

instance decidableFollows (may : Nat → Nat → Prop) [DecidableRel may] :
    (time : Nat) → (times : List Nat) → Decidable (Follows may time times)
  | _, [] => .isTrue trivial
  | time, next :: rest =>
      have := decidableFollows may next rest
      inferInstanceAs (Decidable (may time next ∧ Follows may next rest))

/-- What a clock may do: which time it may show after another one in the middle of a turn, and which one
between turns. -/
structure ClockLaw where
  within : Nat → Nat → Prop
  between : Nat → Nat → Prop

namespace ClockLaw

/-- No law: a clock that may be set to any time at any moment. -/
def any : ClockLaw :=
  ⟨fun _ _ => True, fun _ _ => True⟩

/-- The law of the clock of a world: it stands still in turns, and never goes back. -/
def own : ClockLaw :=
  ⟨(· = ·), (· ≤ ·)⟩

/-- The law of a clock that may go on at any moment, but never goes back. -/
def forward : ClockLaw :=
  ⟨(· ≤ ·), (· ≤ ·)⟩

instance : DecidableRel forward.within :=
  inferInstanceAs (DecidableRel fun time next : Nat => time ≤ next)

instance : DecidableRel forward.between :=
  inferInstanceAs (DecidableRel fun time next : Nat => time ≤ next)

/-- A clock that never goes back. -/
def IsForward (law : ClockLaw) : Prop :=
  (∀ time next, law.within time next → time ≤ next) ∧
    ∀ time next, law.between time next → time ≤ next

/-- A clock that moves only between turns. -/
def IsIdle (law : ClockLaw) : Prop :=
  ∀ time next, law.within time next → next = time

/-- Whether a clock that keeps a law may go on as it does in a move. -/
def Allows (law : ClockLaw) (w : World) : TimedMove → Prop
  | .turn _ times => Follows law.within w.clock times
  | .set time => law.between w.clock time
  | _ => True

/-- Whether a clock keeps a law in all of some moves, the first of the list first. -/
def Keeps (law : ClockLaw) : World → List TimedMove → Prop
  | _, [] => True
  | w, m :: rest => law.Allows w m ∧ law.Keeps (w.timedMove m) rest

section Decidable

variable (law : ClockLaw) [DecidableRel law.within] [DecidableRel law.between]

instance (w : World) (m : TimedMove) : Decidable (law.Allows w m) :=
  match m with
  | .turn _ times => inferInstanceAs (Decidable (Follows law.within w.clock times))
  | .set time => inferInstanceAs (Decidable (law.between w.clock time))
  | .deliver _ | .signal _ | .abort _ => .isTrue trivial

instance decidableKeeps : (w : World) → (ms : List TimedMove) → Decidable (law.Keeps w ms)
  | _, [] => .isTrue trivial
  | w, m :: rest =>
      have := decidableKeeps (w.timedMove m) rest
      inferInstanceAs (Decidable (law.Allows w m ∧ law.Keeps (w.timedMove m) rest))

end Decidable

/-- One time is the other one, or may follow it in the middle of a turn. -/
def Near (law : ClockLaw) (time next : Nat) : Prop :=
  next = time ∨ law.within time next

theorem IsIdle.eq_of_near
    {law : ClockLaw}
    (hidle : law.IsIdle)
    {time next : Nat}
    (h : law.Near time next) :
    next = time :=
  h.elim id (hidle time next)

end ClockLaw

namespace World

/-- What a world may become under a clock that keeps a law, and what is read off the clock on the way. -/
inductive Timed (law : ClockLaw) (first : World) : World → List ClockReading → Prop where
  | refl : Timed law first first []
  | move
      {v : World}
      {told : List ClockReading}
      (m : TimedMove)
      (h : Timed law first v told)
      (hlaw : law.Allows v m) :
      Timed law first (v.timedMove m) (told ++ v.moveReadings m)
  | script
      {v : World}
      {told : List ClockReading}
      (s : Script)
      (h : Timed law first v told)
      (hover : (v.outcome? 0).isSome) :
      Timed law first (v.beginScript s) told
  | rouse
      {v : World}
      {told : List ClockReading}
      (woken : List TaskId)
      (h : Timed law first v told) :
      Timed law first { v with woken } told
  | mark
      {v : World}
      {told : List ClockReading}
      (pending listeners : Nat)
      (h : Timed law first v told) :
      Timed law first (v.note (.scriptEnded pending listeners)) told

/-- Moves in which the clock keeps the law. -/
theorem Timed.moves
    {law : ClockLaw}
    {first w : World}
    {told : List ClockReading}
    (h : Timed law first w told)
    {ms : List TimedMove}
    (hlaw : law.Keeps w ms) :
    Timed law first (w.timedMoves ms) (told ++ w.readings ms) := by
  induction ms generalizing w told with
  | nil =>
      rw [readings, List.append_nil]
      exact h
  | cons m rest ih =>
      rw [readings, ← List.append_assoc]
      exact ih (h.move m hlaw.1) hlaw.2

/-! ## What a strand is about to do -/

/-- What has to be the case for a strand to be about to do something. -/
inductive Minds (w : World) (id : Nat) : Errand → Prop where
  | opens
      {strand : Strand}
      {name : Option String}
      {subject : Subject}
      {steps : List BuildStep}
      {body rest : Script}
      {propagate : Bool}
      {abandonAfter : Option Nat}
      (hstrand : w.strands[id]? = some strand)
      (hready : strand.status = .ready)
      (hrest : strand.rest =
        .instrument name subject steps body propagate abandonAfter :: rest) :
      Minds w id (.opens strand name subject steps body propagate abandonAfter rest)
  | decides
      {strand : Strand}
      {number : Nat}
      {call : Call}
      {s : Settlement}
      (hstrand : w.strands[id]? = some strand)
      (hracing : strand.status = .racing number)
      (hcall : w.calls[number]? = some call)
      (hsettled : w.settlement? call = some s) :
      Minds w id (.decides strand number call s)
  | other
      (hopens : ∀ strand name subject steps body propagate abandonAfter rest,
        w.strands[id]? = some strand → strand.status = .ready →
        strand.rest ≠ .instrument name subject steps body propagate abandonAfter :: rest)
      (hdecides : ∀ strand number call,
        w.strands[id]? = some strand → strand.status = .racing number →
        w.calls[number]? = some call → w.settlement? call = none) :
      Minds w id .other

section Errands

variable (w : World) (id : Nat)

/-- A strand that makes no call and races none. -/
theorem minds_other
    {strand : Strand}
    (hstrand : w.strands[id]? = some strand)
    (hopens : strand.status = .ready → ∀ name subject steps body propagate abandonAfter rest,
      strand.rest ≠ .instrument name subject steps body propagate abandonAfter :: rest)
    (hdecides : ∀ number call, strand.status = .racing number → w.calls[number]? = some call →
      w.settlement? call = none) :
    Minds w id .other := by
  refine .other ?_ ?_
  · intro own name subject steps body propagate abandonAfter rest hown hready
    obtain rfl : strand = own := Option.some.inj (hstrand.symm.trans hown)
    exact hopens hready name subject steps body propagate abandonAfter rest
  · intro own number call hown hracing hcall
    obtain rfl : strand = own := Option.some.inj (hstrand.symm.trans hown)
    exact hdecides number call hracing hcall

theorem minds_errand :
    Minds w id (w.errand id) := by
  unfold errand
  cases hstrand : w.strands[id]? with
  | none =>
      exact .other (fun _ _ _ _ _ _ _ _ h => by simp [hstrand] at h)
        (fun _ _ _ h => by simp [hstrand] at h)
  | some strand =>
      cases hstatus : strand.status with
      | ready =>
          cases hrest : strand.rest with
          | nil =>
              simp only [hstatus, hrest]
              exact w.minds_other id hstrand (by simp [hrest]) (by simp [hstatus])
          | cons step rest =>
              cases step with
              | instrument name subject steps body propagate abandonAfter =>
                  simp only [hstatus, hrest]
                  exact .opens hstrand hstatus hrest
              | _ =>
                  simp only [hstatus, hrest]
                  exact w.minds_other id hstrand (by simp [hrest]) (by simp [hstatus])
      | racing number =>
          simp only [hstatus]
          cases hcall : w.calls[number]? with
          | none =>
              refine w.minds_other id hstrand (by simp [hstatus]) ?_
              intro other own hother hown
              rw [hstatus] at hother
              cases hother
              rw [hcall] at hown
              cases hown
          | some call =>
              simp only
              cases hsettled : w.settlement? call with
              | some s =>
                  exact .decides hstrand hstatus hcall hsettled
              | none =>
                  refine w.minds_other id hstrand (by simp [hstatus]) ?_
                  intro other own hother hown
                  rw [hstatus] at hother
                  cases hother
                  rw [hcall] at hown
                  cases hown
                  exact hsettled
      | _ =>
          simp only [hstatus]
          exact w.minds_other id hstrand (by simp [hstatus]) (by simp [hstatus])

end Errands

/-! ## Parts of turns -/

section Parts

theorem through_append
    (parts more : List (World → World))
    (times : List Nat)
    (w : World) :
    through (parts ++ more) times w =
      through more (times.drop parts.length) (through parts times w) := by
  induction parts generalizing times w with
  | nil =>
      rfl
  | cons part rest ih =>
      cases times with
      | nil =>
          have hrest := ih [] (part w)
          rw [List.drop_nil] at hrest ⊢
          exact hrest
      | cons time times =>
          exact ih times ((part w).showing time)

/-- The parts of turns do not touch the clock. -/
def Timeless (parts : List (World → World)) : Prop :=
  ∀ part ∈ parts, ∀ w : World, (part w).clock = w.clock

/-- A clock that shows the same time all along may as well be left alone. -/
theorem through_still
    {parts : List (World → World)}
    (hparts : Timeless parts)
    (w : World)
    (times : List Nat)
    (htimes : ∀ time ∈ times, time = w.clock) :
    through parts times w = through parts [] w ∧ (through parts times w).clock = w.clock := by
  induction parts generalizing times w with
  | nil =>
      exact ⟨rfl, rfl⟩
  | cons part rest ih =>
      obtain ⟨hpart, hrest⟩ := List.forall_mem_cons.mp hparts
      have hclock := hpart w
      cases times with
      | nil =>
          have hnone := ih hrest (part w) [] nofun
          exact ⟨rfl, hnone.2.trans hclock⟩
      | cons time times =>
          obtain ⟨rfl, hlater⟩ := List.forall_mem_cons.mp htimes
          have hshowing : (part w).showing w.clock = part w := by rw [← hclock]; rfl
          have hsame := ih hrest (part w) times fun time h =>
            (hlater time h).trans hclock.symm
          simp only [through, hshowing]
          exact ⟨hsame.1, hsame.2.trans hclock⟩

theorem timeless_buildParts
    (inner : String)
    (call : Nat)
    (steps : List BuildStep) :
    Timeless (buildParts inner call steps) := by
  induction steps with
  | nil =>
      exact fun _ h => by cases h
  | cons step rest ih =>
      cases step with
      | panic p =>
          exact fun _ h => by cases h
      | act a =>
          exact List.forall_mem_cons.mpr ⟨fun w => (quiet_act 0 w inner (some call) a).clock, ih⟩

theorem clock_afterBuild
    (id : Nat)
    (list inner : String)
    (call : Nat)
    (body : Script)
    (propagate : Bool)
    (panic : Option PanicPayload)
    (w : World) :
    (afterBuild id list inner call body propagate (panic, w)).clock = w.clock := by
  cases panic with
  | some p =>
      exact (leaves_collapse id w list p propagate).clock
  | none =>
      exact (enters_startRace id w inner call body).clock

theorem timeless_openingParts
    (id : Nat)
    (list inner : String)
    (call : Nat)
    (subject : Subject)
    (steps : List BuildStep)
    (body : Script)
    (propagate : Bool)
    (abandonAfter : Option Nat) :
    Timeless (openingParts id list inner call subject steps body propagate abandonAfter) := by
  refine List.forall_mem_append.mpr ⟨List.forall_mem_append.mpr ⟨?_,
    timeless_buildParts inner call steps⟩, List.forall_mem_singleton.mpr fun w =>
      clock_afterBuild id list inner call body propagate _ w⟩
  refine List.forall_mem_cons.mpr ⟨fun _ => rfl, List.forall_mem_cons.mpr ⟨fun w => ?_,
    List.forall_mem_singleton.mpr fun w => (quiet_listenFor 0 w call).clock⟩⟩
  exact (spares_report 0 w call ⟨subject, .started⟩).clock

theorem timeless_leavingParts
    (number : Nat)
    (s : Settlement) :
    Timeless (leavingParts number s) :=
  List.forall_mem_cons.mpr ⟨fun w => (quiet_announce 0 w s).clock,
    List.forall_mem_singleton.mpr fun w => (quiet_release 0 w number).clock⟩

theorem timeless_closingParts
    (id : Nat)
    (list : String)
    (number : Nat)
    (call : Call)
    (s : Settlement)
    (reading : Nat) :
    Timeless (closingParts id list number call s reading) :=
  List.forall_mem_cons.mpr ⟨fun _ => rfl, List.forall_mem_cons.mpr
    ⟨fun w => (spares_report 0 w number (endingOf call s reading)).clock, List.forall_mem_cons.mpr
      ⟨fun _ => rfl, List.forall_mem_singleton.mpr fun w =>
        (quiet_hand id w s.outcome call.propagate).clock⟩⟩⟩

end Parts

/-! ## Turns in one piece -/

section Whole

variable (w : World) (id : Nat)

/-- The parts that build an operation build it. -/
theorem through_buildParts
    (inner : String)
    (call : Nat)
    (steps : List BuildStep) :
    (BuildStep.panic? steps, through (buildParts inner call steps) [] w) =
      w.build inner call steps := by
  induction steps generalizing w with
  | nil =>
      rfl
  | cons step rest ih =>
      cases step with
      | panic p =>
          rfl
      | act a =>
          exact ih (w.act inner (some call) a)

theorem through_openingParts
    (list inner : String)
    (subject : Subject)
    (steps : List BuildStep)
    (body : Script)
    (propagate : Bool)
    (abandonAfter : Option Nat) :
    through
        (openingParts id list inner w.calls.length subject (w.readied steps) body propagate
          abandonAfter)
        [] w =
      w.instrument id list inner subject steps body propagate abandonAfter := by
  rw [instrument_eq, ← through_buildParts, openingParts, through_append, through_append]
  simp only [List.drop_nil]
  rfl

/-- Under a clock that stands still for the whole of it a turn is the turn of the strand. -/
theorem timedTurn_still
    {times : List Nat}
    (htimes : ∀ time ∈ times, time = w.clock) :
    w.timedTurn id times = w.advance id := by
  have hminds := w.minds_errand id
  unfold timedTurn
  generalize w.errand id = errand at hminds
  cases hminds with
  | @opens strand name subject steps body rest propagate abandonAfter hstrand hready hrest =>
      have hparts := timeless_openingParts id strand.list (innerName strand.list strand.index name)
        w.calls.length subject (w.readied steps) body propagate abandonAfter
      have hstill := (through_still hparts (w.pass id rest) times htimes).1
      rw [w.advance_of_opening id hstrand hready hrest]
      exact hstill.trans (through_openingParts (w.pass id rest) id _ _ _ _ _ _ _)
  | @decides strand number call s hstrand hracing hcall hsettled =>
      obtain ⟨hleft, hclock⟩ := through_still (timeless_leavingParts number s) w times htimes
      have hparts := timeless_closingParts id strand.list number call s
        (through (leavingParts number s) times w).clock
      have hclosing := (through_still hparts _ (times.drop (leavingParts number s).length)
        fun time htime => (htimes time (List.mem_of_mem_drop htime)).trans hclock.symm).1
      -- The time that is read is that of the whole turn, since the race is left at once.
      rw [w.advance_of_decided id hstrand hracing hcall hsettled]
      refine hclosing.trans ?_
      rw [hleft]
      rfl
  | other hopens hdecides =>
      rfl

end Whole

/-! ## Evolutions are timed -/

/-- Every evolution is a run of a clock that stands still in turns and never goes back. -/
theorem Evolves.timed
    {first w : World}
    (h : Evolves first w) :
    ∃ told, Timed .own first w told := by
  induction h with
  | refl =>
      exact ⟨[], .refl⟩
  | @move v m _ ih =>
      obtain ⟨told, htold⟩ := ih
      cases m with
      | advance id =>
          have hturn : v.timedMove (.turn id []) = v.advance id :=
            v.timedTurn_still id fun _ h => by cases h
          have hmoved := htold.move (.turn id []) trivial
          rw [hturn] at hmoved
          exact ⟨_, hmoved⟩
      | deliver id =>
          exact ⟨_, htold.move (.deliver id) trivial⟩
      | pass time =>
          exact ⟨_, htold.move (.set (max v.clock time)) (Nat.le_max_left _ _)⟩
      | signal s =>
          exact ⟨_, htold.move (.signal s) trivial⟩
      | abort task =>
          exact ⟨_, htold.move (.abort task) trivial⟩
  | script s _ hover ih =>
      obtain ⟨told, htold⟩ := ih
      exact ⟨told, htold.script s hover⟩
  | rouse woken _ ih =>
      obtain ⟨told, htold⟩ := ih
      exact ⟨told, htold.rouse woken⟩
  | mark pending listeners _ ih =>
      obtain ⟨told, htold⟩ := ih
      exact ⟨told, htold.mark pending listeners⟩

end World
end LifecycleTelemetry
