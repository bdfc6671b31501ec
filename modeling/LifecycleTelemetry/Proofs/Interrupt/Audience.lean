import LifecycleTelemetry.Interrupt.Audience
import LifecycleTelemetry.Proofs.Operation.Hearing
import Mathlib.Data.List.TakeWhile

/-!
# A channel loses and invents nothing

Whatever a program does with a channel, the channel counts the listeners that have neither been dropped
nor fired, and what such a listener is asked for is settled by the signals that have been raised since
its installation: it fires with the oldest of those that are kept, if there are any. It does so once.

All of this is read off the record. `Accounts` compares what is held of a listener with the record, and
`Recorded` says that they agree for every listener, and that each has a place of its own on the channel.
-/

namespace LifecycleTelemetry

/-- The signal that a use raises, if it does. -/
def ChannelUse.signal? : ChannelUse → Option Signal
  | .trigger s => some s
  | _ => none

/-- The signal with which a listener has fired, if that is what an entry of a record says. -/
def receipt? (i : Nat) : ChannelUse × ChannelAnswer → Option Signal
  | (.poll j, .fired s) => if j = i then some s else none
  | _ => none

/-- The place on the channel of what is held of a listener, if it has one. -/
def Seat.place? (seat : Option Seat) : Option Nat :=
  seat.bind fun seat => seat.listener.receiver?

namespace Audience

open Channel (keepLast oldestKept)

/-- Whether a listener has been installed. -/
def isSeated (a : Audience) (i : Nat) : Bool :=
  a.record.any fun e => e.2 == .seated i

/-- Whether a listener has been dropped. -/
def hasLeft (a : Audience) (i : Nat) : Bool :=
  a.record.any fun e => e.1 == .leave i

/-- The signals that have been raised since a listener was installed. -/
def heard (a : Audience) (i : Nat) : List Signal :=
  (a.record.dropWhile fun e => e.2 != .seated i).filterMap fun e => e.1.signal?

/-- The signals with which a listener has fired. -/
def received (a : Audience) (i : Nat) : List Signal :=
  a.record.filterMap (receipt? i)

/-- Whether a listener has been installed, and has neither been dropped nor fired. -/
def isOutstanding (a : Audience) (i : Nat) : Bool :=
  a.isSeated i && !a.hasLeft i && (a.received i).isEmpty

/-- The listeners that have neither been dropped nor fired. -/
def outstanding (a : Audience) : List Nat :=
  (List.range a.seats.length).filter a.isOutstanding

/-! ## How the record grows -/

section Record

variable {a : Audience} {u : ChannelUse}

theorem record_use
    (h : a.allows u = true) :
    (a.use u).record = a.record ++ [(u, a.answer u)] := by
  rw [use, if_pos h]

theorem isSeated_use
    (h : a.allows u = true)
    (i : Nat) :
    (a.use u).isSeated i = (a.isSeated i || a.answer u == .seated i) := by
  simp [isSeated, record_use h]

theorem hasLeft_use
    (h : a.allows u = true)
    (i : Nat) :
    (a.use u).hasLeft i = (a.hasLeft i || u == .leave i) := by
  simp [hasLeft, record_use h]

theorem received_use
    (h : a.allows u = true)
    (i : Nat) :
    (a.use u).received i = a.received i ++ (receipt? i (u, a.answer u)).toList := by
  rw [received, record_use h, List.filterMap_append, received]
  cases hreceipt : receipt? i (u, a.answer u) with
  | _ =>
      simp [hreceipt]

/-- Only who listens is given a number. -/
theorem eq_listen_of_answer
    {i : Nat}
    (h : a.answer u = .seated i) :
    u = .listen ∧ i = a.seats.length := by
  cases u with
  | listen =>
      cases h
      exact ⟨rfl, rfl⟩
  | poll j =>
      simp only [answer, perform] at h
      split at h
      · rename_i seat _
        simp only [ask] at h
        cases hpoll : (seat.poll (a.handles == 0) a.channel).1 with
        | _ =>
            simp [hpoll, ChannelAnswer.ofSignal?] at h
      · cases h
  | giveUp j =>
      simp only [answer, perform] at h
      split at h
      · cases h
      · cases h
  | leave j =>
      simp only [answer, perform] at h
      split at h
      · cases h
      · cases h
  | _ =>
      cases h

theorem heard_of_unseated
    {i : Nat}
    (h : a.isSeated i = false) :
    a.heard i = [] := by
  have hall : ∀ e ∈ a.record, (e.2 != .seated i) = true := by
    simpa [isSeated] using h
  rw [heard, List.dropWhile_eq_nil_iff.mpr hall]
  rfl

/-- A listener hears what is raised after its installation. -/
theorem heard_use
    (h : a.allows u = true)
    (i : Nat) :
    (a.use u).heard i = a.heard i ++ if a.isSeated i then u.signal?.toList else [] := by
  rw [heard, record_use h, List.dropWhile_append]
  cases hseated : a.isSeated i with
  | true =>
      have hrest : (a.record.dropWhile fun e => e.2 != .seated i) ≠ [] := by
        intro hnil
        obtain ⟨e, he, heq⟩ := List.any_eq_true.mp hseated
        have hne := List.dropWhile_eq_nil_iff.mp hnil e he
        simp only [bne, heq] at hne
        cases hne
      rw [if_neg (by simpa using hrest), List.filterMap_append, heard]
      cases hsignal : u.signal? with
      | _ =>
          simp [hsignal]
  | false =>
      have hnil : (a.record.dropWhile fun e => e.2 != .seated i) = [] :=
        List.dropWhile_eq_nil_iff.mpr (by simpa [isSeated] using hseated)
      rw [hnil, List.isEmpty_nil, if_pos rfl, heard_of_unseated hseated]
      by_cases hanswer : a.answer u = .seated i
      · obtain ⟨rfl, -⟩ := eq_listen_of_answer hanswer
        simp [hanswer, ChannelUse.signal?]
      · simp [hanswer]

/-- Without a handle nothing is raised any more, and there will not be a handle again. -/
theorem closed_use
    (h : a.allows u = true)
    (hclosed : a.handles = 0) :
    (a.use u).handles = 0 ∧ u.signal? = none := by
  have hhandles : (a.use u).handles = (a.perform u).2.handles := by
    rw [use, if_pos h]
  rw [hhandles]
  cases u with
  | poll i =>
      simp only [perform]
      split
      · exact ⟨hclosed, rfl⟩
      · exact ⟨hclosed, rfl⟩
  | giveUp i =>
      simp only [perform]
      split
      · exact ⟨hclosed, rfl⟩
      · exact ⟨hclosed, rfl⟩
  | leave i =>
      simp only [perform]
      split
      · exact ⟨hclosed, rfl⟩
      · exact ⟨hclosed, rfl⟩
  | _ =>
      simp [allows, hclosed] at h

end Record

/-! ## Asking -/

section Asking

variable {r : Nat} {reception : Reception} {closed : Bool} {c : Channel}

theorem poll_fires
    {s : Signal}
    (hhope : reception ≠ .hopeless)
    (hfirst : c.first? r = some s) :
    Seat.poll ⟨.receiver r, reception⟩ closed c = (some s, ⟨.unarmed, .idle⟩, c.drop r) := by
  cases reception with
  | hopeless =>
      exact absurd rfl hhope
  | _ =>
      simp [Seat.poll, Listener.poll, Listener.signal?, hfirst, Listener.release]

theorem poll_waits
    (hhope : reception ≠ .hopeless)
    (hfirst : c.first? r = none) :
    Seat.poll ⟨.receiver r, reception⟩ false c = (none, ⟨.receiver r, .waiting⟩, c) := by
  cases reception with
  | hopeless =>
      exact absurd rfl hhope
  | _ =>
      simp [Seat.poll, Listener.poll, Listener.signal?, hfirst, Listener.isArmed]

/-- A listener that nothing can reach any more is taken off its channel. -/
theorem poll_ends
    (hhope : reception ≠ .hopeless)
    (hfirst : c.first? r = none) :
    Seat.poll ⟨.receiver r, reception⟩ true c = (none, ⟨.unarmed, .hopeless⟩, c.drop r) := by
  cases reception with
  | hopeless =>
      exact absurd rfl hhope
  | _ =>
      simp [Seat.poll, Listener.poll, Listener.signal?, hfirst, Listener.isArmed, Listener.release]

theorem poll_unarmed :
    Seat.poll ⟨.unarmed, reception⟩ closed c = (none, ⟨.unarmed, .hopeless⟩, c) := by
  cases reception with
  | _ =>
      rfl

end Asking

/-! ## What is held of a listener, by the record -/

/-- What is held of a listener agrees with the record. It has been dropped; or nothing has been received
from it, and what has been raised since its installation waits for it; or it has fired; or it has been
found out that its source is at an end. -/
inductive Accounts (a : Audience) (i : Nat) : Option Seat → Prop
  | left :
      a.hasLeft i = true →
      Accounts a i none
  | armed {r : Nat} {reception : Reception} :
      a.hasLeft i = false →
      a.received i = [] →
      reception ≠ .hopeless →
      a.channel.waiting? r = some (keepLast (a.heard i)) →
      Accounts a i (some ⟨.receiver r, reception⟩)
  | fired {s : Signal} {reception : Reception} :
      a.hasLeft i = false →
      a.received i = [s] →
      Accounts a i (some ⟨.unarmed, reception⟩)
  | closed {reception : Reception} :
      a.hasLeft i = false →
      a.received i = [] →
      a.handles = 0 →
      a.heard i = [] →
      Accounts a i (some ⟨.unarmed, reception⟩)

/-- What has been received from a listener is nothing, or the oldest of the signals that were kept at
some time since its installation. -/
def Honest (a : Audience) (i : Nat) : Prop :=
  a.received i = [] ∨
    ∃ (before : List Signal) (s : Signal),
      a.received i = [s] ∧ before <+: a.heard i ∧ oldestKept before = some s

/-- The record tells of every listener what is held of it, and each has a place of its own. -/
structure Recorded (a : Audience) : Prop where
  seated : ∀ i, a.isSeated i = true ↔ i < a.seats.length
  unseated : ∀ i, a.isSeated i = false → a.received i = [] ∧ a.hasLeft i = false
  accounts : ∀ i seat, a.seats[i]? = some seat → a.Accounts i seat
  honest : ∀ i, a.Honest i
  places : a.channel.ids = a.seats.filterMap Seat.place?
  distinct : a.channel.ids.Nodup
  fresh : ∀ r ∈ a.channel.ids, r < a.channel.nextId

theorem recorded_new : Recorded new where
  seated := by
    intro i
    constructor
    · intro h
      cases h
    · intro h
      exact absurd h (Nat.not_lt_zero i)
  unseated := fun _ _ => ⟨rfl, rfl⟩
  accounts := by
    intro i seat h
    cases h
  honest := fun _ => .inl rfl
  places := rfl
  distinct := List.nodup_nil
  fresh := by
    intro r hr
    cases hr

/-! ## What a use leaves alone -/

section Uses

variable {a : Audience} {u : ChannelUse} {i : Nat}

theorem seat?_eq_some
    {seat : Seat} :
    a.seat? i = some seat ↔ a.seats[i]? = some (some seat) :=
  Option.join_eq_some_iff

theorem perform_poll
    {seat next : Seat}
    {fired : Option Signal}
    {c : Channel}
    (hseat : a.seats[i]? = some (some seat))
    (hpoll : seat.poll (a.handles == 0) a.channel = (fired, next, c)) :
    a.perform (.poll i) = (.ofSignal? fired, { a with channel := c }.withSeat i (some next)) := by
  simp only [perform, seat?_eq_some.mpr hseat, ask, hpoll]

theorem perform_giveUp
    {seat : Seat}
    (hseat : a.seats[i]? = some (some seat)) :
    a.perform (.giveUp i) = (.done, a.withSeat i (some { seat with reception := .idle })) := by
  simp only [perform, seat?_eq_some.mpr hseat]

theorem perform_leave
    {seat : Seat}
    (hseat : a.seats[i]? = some (some seat)) :
    a.perform (.leave i) =
      (.done, { a with channel := seat.listener.release a.channel }.withSeat i none) := by
  simp only [perform, seat?_eq_some.mpr hseat]

/-- Who asks a listener has it. -/
theorem seats_of_allows
    (h : a.allows u = true)
    (hu : u = .poll i ∨ u = .giveUp i ∨ u = .leave i) :
    ∃ seat, a.seats[i]? = some (some seat) := by
  have hsome : (a.seat? i).isSome = true := by
    rcases hu with rfl | rfl | rfl
    · exact h
    · exact h
    · exact h
  obtain ⟨seat, hseat⟩ := Option.isSome_iff_exists.mp hsome
  exact ⟨seat, seat?_eq_some.mp hseat⟩

theorem channel_use
    (h : a.allows u = true) :
    (a.use u).channel = (a.perform u).2.channel := by
  rw [use, if_pos h]

theorem seats_use
    (h : a.allows u = true) :
    (a.use u).seats = (a.perform u).2.seats := by
  rw [use, if_pos h]

theorem receipt?_of_ne
    (hu : u ≠ .poll i)
    (x : ChannelAnswer) :
    receipt? i (u, x) = none := by
  cases u with
  | poll j =>
      have hj : j ≠ i := fun hj => hu (hj ▸ rfl)
      cases x with
      | fired s =>
          exact if_neg hj
      | _ =>
          rfl
  | _ =>
      rfl

/-- Asking a listener takes at most the listener itself off the channel. -/
theorem channel_poll
    (seat : Seat)
    (closed : Bool)
    (c : Channel) :
    (seat.poll closed c).2.2 = c ∨ (seat.poll closed c).2.2 = seat.listener.release c := by
  obtain ⟨l, reception⟩ := seat
  cases l with
  | receiver r =>
      by_cases hhope : reception = .hopeless
      · subst hhope
        exact .inl rfl
      · cases hfirst : c.first? r with
        | some s =>
            rw [poll_fires hhope hfirst]
            exact .inr rfl
        | none =>
            cases closed with
            | true =>
                rw [poll_ends hhope hfirst]
                exact .inr rfl
            | false =>
                rw [poll_waits hhope hfirst]
                exact .inl rfl
  | unarmed =>
      rw [poll_unarmed]
      exact .inl rfl
  | timed deadline s =>
      left
      cases reception with
      | hopeless =>
          rfl
      | _ =>
          by_cases htime : deadline ≤ 0
          · simp [Seat.poll, Listener.poll, Listener.signal?, htime, Listener.release]
          · simp [Seat.poll, Listener.poll, Listener.signal?, htime]
  | closed =>
      left
      cases reception with
      | _ =>
          rfl

/-- A listener that goes leaves alone what waits for the others. -/
theorem waiting?_release
    {l : Listener}
    {r : Nat}
    (hr : l.receiver? ≠ some r)
    (c : Channel) :
    (l.release c).waiting? r = c.waiting? r := by
  cases l with
  | receiver other =>
      exact c.waiting?_drop fun h => hr (congrArg some h.symm)
  | _ =>
      rfl

/-- What is done with a channel changes what waits for a listener only when a signal is raised, or when
it is done with that listener. -/
theorem waiting?_use
    (ha : Recorded a)
    (h : a.allows u = true)
    {seat : Option Seat}
    {r : Nat}
    (hseat : a.seats[i]? = some seat)
    (hplace : Seat.place? seat = some r)
    (hpoll : u ≠ .poll i)
    (hleave : u ≠ .leave i) :
    (a.use u).channel.waiting? r =
      (u.signal?.toList.foldl Channel.trigger a.channel).waiting? r := by
  have hdistinct : (a.seats.filterMap Seat.place?).Nodup := ha.places ▸ ha.distinct
  -- Another listener has another place.
  have hother : ∀ {j : Nat} {other : Seat}, j ≠ i → a.seats[j]? = some (some other) →
      other.listener.receiver? ≠ some r := by
    intro j other hne hj hr
    exact hne (World.index_unique Seat.place? hdistinct hj hseat hr hplace)
  rw [channel_use h]
  cases u with
  | listen =>
      have hr : r ∈ a.channel.ids := by
        rw [ha.places]
        exact List.mem_filterMap.mpr ⟨seat, List.mem_of_getElem? hseat, hplace⟩
      exact a.channel.waiting?_listen (Nat.ne_of_lt (ha.fresh r hr))
  | poll j =>
      obtain ⟨other, hj⟩ := seats_of_allows h (.inl rfl)
      have hne : other.listener.receiver? ≠ some r :=
        hother (fun hij => hpoll (hij ▸ rfl)) hj
      rw [perform_poll hj rfl]
      rcases channel_poll other (a.handles == 0) a.channel with hsame | hreleased
      · exact congrArg (Channel.waiting? · r) hsame
      · exact (congrArg (Channel.waiting? · r) hreleased).trans (waiting?_release hne _)
  | giveUp j =>
      obtain ⟨other, hj⟩ := seats_of_allows h (.inr (.inl rfl))
      rw [perform_giveUp hj]
      rfl
  | leave j =>
      obtain ⟨other, hj⟩ := seats_of_allows h (.inr (.inr rfl))
      have hne : other.listener.receiver? ≠ some r :=
        hother (fun hij => hleave (hij ▸ rfl)) hj
      rw [perform_leave hj]
      exact waiting?_release hne _
  | _ =>
      rfl

theorem Recorded.isSeated
    (ha : Recorded a)
    {seat : Option Seat}
    (hseat : a.seats[i]? = some seat) :
    a.isSeated i = true :=
  (ha.seated i).mpr (List.getElem?_eq_some_iff.mp hseat).1

/-- The other listeners are as the record tells. -/
theorem Recorded.accounts_use
    (ha : Recorded a)
    (h : a.allows u = true)
    {seat : Option Seat}
    (hseat : a.seats[i]? = some seat)
    (hpoll : u ≠ .poll i)
    (hleave : u ≠ .leave i) :
    (a.use u).Accounts i seat := by
  have hleft : (a.use u).hasLeft i = a.hasLeft i := by
    rw [hasLeft_use h, beq_eq_false_iff_ne.mpr hleave, Bool.or_false]
  have hreceived : (a.use u).received i = a.received i := by
    rw [received_use h, receipt?_of_ne hpoll]
    exact List.append_nil _
  have hheard : (a.use u).heard i = a.heard i ++ u.signal?.toList := by
    rw [heard_use h, ha.isSeated hseat, if_pos rfl]
  cases ha.accounts i seat hseat with
  | left hgone =>
      exact .left (hleft.trans hgone)
  | armed hstays hsilent hhope hwaits =>
      refine .armed (hleft.trans hstays) (hreceived.trans hsilent) hhope ?_
      rw [waiting?_use ha h hseat rfl hpoll hleave, hheard]
      exact a.channel.waiting?_foldl_trigger _ hwaits
  | fired hstays hfired =>
      exact .fired (hleft.trans hstays) (hreceived.trans hfired)
  | closed hstays hsilent hhandles hnone =>
      obtain ⟨hclosed, hsignal⟩ := closed_use h hhandles
      refine .closed (hleft.trans hstays) (hreceived.trans hsilent) hclosed ?_
      rw [hheard, hnone, hsignal]
      rfl

theorem Honest.use
    (hi : a.Honest i)
    (h : a.allows u = true)
    (hpoll : u ≠ .poll i) :
    (a.use u).Honest i := by
  have hreceived : (a.use u).received i = a.received i := by
    rw [received_use h, receipt?_of_ne hpoll]
    exact List.append_nil _
  rcases hi with hnone | ⟨before, s, hone, hbefore, hs⟩
  · exact .inl (hreceived.trans hnone)
  · refine .inr ⟨before, s, hreceived.trans hone, hbefore.trans ?_, hs⟩
    rw [heard_use h]
    exact List.prefix_append _ _

/-- Nothing is known of a listener before its installation. -/
theorem Recorded.unseated_use
    (ha : Recorded a)
    (h : a.allows u = true)
    (hunseated : (a.use u).isSeated i = false) :
    (a.use u).received i = [] ∧ (a.use u).hasLeft i = false := by
  rw [isSeated_use h, Bool.or_eq_false_iff] at hunseated
  have hnot : ∀ seat, a.seats[i]? ≠ some seat := by
    intro seat hseat
    rw [ha.isSeated hseat] at hunseated
    cases hunseated.1
  have hpoll : u ≠ .poll i := by
    intro hu
    obtain ⟨seat, hseat⟩ := seats_of_allows h (.inl hu)
    exact hnot _ hseat
  have hleave : u ≠ .leave i := by
    intro hu
    obtain ⟨seat, hseat⟩ := seats_of_allows h (.inr (.inr hu))
    exact hnot _ hseat
  obtain ⟨hreceived, hleft⟩ := ha.unseated i hunseated.1
  refine ⟨?_, ?_⟩
  · rw [received_use h, receipt?_of_ne hpoll, hreceived]
    rfl
  · rw [hasLeft_use h, hleft, beq_eq_false_iff_ne.mpr hleave]
    rfl

theorem Recorded.seated_use
    (ha : Recorded a)
    (h : a.allows u = true)
    (hu : u ≠ .listen)
    (hlength : (a.use u).seats.length = a.seats.length)
    (i : Nat) :
    (a.use u).isSeated i = true ↔ i < (a.use u).seats.length := by
  have hanswer : a.answer u ≠ .seated i := fun h => hu (eq_listen_of_answer h).1
  rw [isSeated_use h, beq_eq_false_iff_ne.mpr hanswer, Bool.or_false, hlength]
  exact ha.seated i

end Uses
end Audience
end LifecycleTelemetry
