import LifecycleTelemetry.Proofs.Interrupt.Audience

/-!
# Every history of a channel

The record tells what is held of every listener, whatever a program does with a channel: this holds at
the beginning, and every use keeps it. What a program is told about its listeners is then a matter of
the record alone.
-/

namespace LifecycleTelemetry
namespace Audience

open Channel (keepLast oldestKept)

/-! ## One use -/

section Use

variable {a : Audience} {u : ChannelUse}

/-- A use that neither adds nor changes a listener keeps what the record tells. -/
theorem Recorded.apart
    (ha : Recorded a)
    (h : a.allows u = true)
    (hseats : (a.use u).seats = a.seats)
    (hids : (a.use u).channel.ids = a.channel.ids)
    (hnextId : (a.use u).channel.nextId = a.channel.nextId)
    (hlisten : u ≠ .listen)
    (hpoll : ∀ i, u ≠ .poll i)
    (hleave : ∀ i, u ≠ .leave i) :
    Recorded (a.use u) where
  seated := ha.seated_use h hlisten (congrArg List.length hseats)
  unseated := fun _ hi => ha.unseated_use h hi
  accounts := by
    intro i seat hseat
    rw [hseats] at hseat
    exact ha.accounts_use h hseat (hpoll i) (hleave i)
  honest := fun i => (ha.honest i).use h (hpoll i)
  places := by
    rw [hids, hseats]
    exact ha.places
  distinct := hids ▸ ha.distinct
  fresh := by
    rw [hids, hnextId]
    exact ha.fresh

/-- A new listener has heard nothing, and has a place of its own. -/
theorem Recorded.listen
    (ha : Recorded a)
    (h : a.allows .listen = true) :
    Recorded (a.use .listen) := by
  have hseats : (a.use .listen).seats = a.seats ++ [some ⟨.receiver a.channel.nextId, .idle⟩] :=
    seats_use h
  have hchannel : (a.use .listen).channel = a.channel.listen.2 := channel_use h
  have hids : (a.use .listen).channel.ids = a.channel.ids ++ [a.channel.nextId] := by
    rw [hchannel]
    simp [Channel.ids, Channel.listen]
  have hnew : a.isSeated a.seats.length = false := by
    rw [← Bool.not_eq_true, ha.seated]
    exact Nat.lt_irrefl _
  refine ⟨?_, fun _ hi => ha.unseated_use h hi, ?_, ?_, ?_, ?_, ?_⟩
  · intro i
    have hanswer : a.answer .listen = .seated i ↔ i = a.seats.length := by
      constructor
      · intro hi
        exact (eq_listen_of_answer hi).2
      · rintro rfl
        rfl
    rw [isSeated_use h, hseats, List.length_append, Bool.or_eq_true, ha.seated i, beq_iff_eq,
      hanswer]
    simp only [List.length_cons, List.length_nil]
    omega
  · intro i seat hseat
    rw [hseats, List.getElem?_append] at hseat
    split at hseat
    · exact ha.accounts_use h hseat (by simp) (by simp)
    · -- The listener that is added is the last one, and nothing is known of it before.
      rename_i hbehind
      obtain ⟨hi, rfl⟩ := List.getElem?_eq_some_iff.mp hseat
      simp only [List.length_cons, List.length_nil] at hi
      have hlast : i = a.seats.length := by omega
      subst hlast
      obtain ⟨hreceived, hleft⟩ := ha.unseated _ hnew
      have hheard : (a.use .listen).heard a.seats.length = [] := by
        rw [heard_use h, hnew, heard_of_unseated hnew]
        rfl
      simp only [Nat.sub_self, List.getElem_cons_zero]
      refine .armed ?_ ?_ (by simp) ?_
      · rw [hasLeft_use h, hleft]
        rfl
      · rw [received_use h, hreceived]
        rfl
      · rw [hchannel, hheard]
        refine a.channel.waiting?_listen_self fun r hr hid => ?_
        exact Nat.lt_irrefl _ (hid ▸ ha.fresh r.id (List.mem_map_of_mem hr))
  · intro i
    exact (ha.honest i).use h (by simp)
  · rw [hids, hseats, List.filterMap_append, ha.places]
    rfl
  · rw [hids]
    refine List.nodup_append.mpr ⟨ha.distinct, by simp, ?_⟩
    intro r hr other hother heq
    have hfresh := ha.fresh r hr
    rw [heq, List.mem_singleton.mp hother] at hfresh
    exact Nat.lt_irrefl _ hfresh
  · intro r hr
    rw [hids, List.mem_append] at hr
    have hnextId : (a.use .listen).channel.nextId = a.channel.nextId + 1 := by
      rw [hchannel]
      rfl
    rw [hnextId]
    rcases hr with hr | hr
    · exact Nat.lt_succ_of_lt (ha.fresh r hr)
    · exact List.mem_singleton.mp hr ▸ Nat.lt_succ_self _

/-- An element that keeps its view leaves the views of a list as they are. -/
theorem filterMap_modify_same
    {α : Type}
    (view : α → Option Nat)
    (change : α → α)
    {xs : List α}
    {n : Nat}
    {x : α}
    (hx : xs[n]? = some x)
    (hsame : view (change x) = view x) :
    (xs.modify n change).filterMap view = xs.filterMap view := by
  obtain ⟨before, y, behind, hxs, hlength, hmodify⟩ :=
    List.exists_of_modify change (List.getElem?_eq_some_iff.mp hx).1
  have hy : y = x := by
    rw [hxs, ← hlength] at hx
    simpa using hx
  rw [hmodify, hxs, hy]
  simp only [List.filterMap_append, List.filterMap_cons, hsame]

/-- A use of one listener keeps what the record tells of the others. -/
theorem Recorded.change
    (ha : Recorded a)
    (h : a.allows u = true)
    {i : Nat}
    (hu : u = .poll i ∨ u = .giveUp i ∨ u = .leave i)
    {old : Seat}
    {next : Option Seat}
    (hold : a.seats[i]? = some (some old))
    (hseats : (a.use u).seats = a.seats.modify i fun _ => next)
    (hchannel :
      Seat.place? next = old.listener.receiver? ∧ (a.use u).channel = a.channel ∨
        Seat.place? next = none ∧ (a.use u).channel = old.listener.release a.channel)
    (haccounts : (a.use u).Accounts i next)
    (hhonest : (a.use u).Honest i) :
    Recorded (a.use u) := by
  have hother : ∀ j, j ≠ i → u ≠ .poll j ∧ u ≠ .leave j := by
    intro j hj
    rcases hu with rfl | rfl | rfl
    · exact ⟨by simpa using fun h : i = j => hj h.symm, by simp⟩
    · exact ⟨by simp, by simp⟩
    · exact ⟨by simp, by simpa using fun h : i = j => hj h.symm⟩
  have hlisten : u ≠ .listen := by
    rcases hu with rfl | rfl | rfl
    · simp
    · simp
    · simp
  have hplaces : (a.use u).channel.ids = (a.use u).seats.filterMap Seat.place? ∧
      (a.use u).channel.ids.Sublist a.channel.ids ∧
      (a.use u).channel.nextId = a.channel.nextId := by
    rw [hseats]
    rcases hchannel with ⟨hplace, hsame⟩ | ⟨hplace, hreleased⟩
    · rw [hsame, filterMap_modify_same Seat.place? (fun _ => next) hold hplace]
      exact ⟨ha.places, List.Sublist.refl _, rfl⟩
    · obtain ⟨hnextId, hids⟩ := World.ids_release old.listener a.channel
      rw [hreleased, hnextId, hids, World.filterMap_modify Seat.place? (fun _ => next) hold hplace
        (ha.places ▸ ha.distinct), ← ha.places]
      refine ⟨rfl, ?_, rfl⟩
      cases old.listener.receiver? with
      | some r =>
          exact List.filter_sublist
      | none =>
          exact List.Sublist.refl _
  obtain ⟨hids, hsublist, hnextId⟩ := hplaces
  refine ⟨?_, fun _ hi => ha.unseated_use h hi, ?_, ?_, hids, ha.distinct.sublist hsublist, ?_⟩
  · exact ha.seated_use h hlisten (by rw [hseats, List.length_modify])
  · intro j seat hseat
    rw [hseats, List.getElem?_modify] at hseat
    obtain ⟨before, hbefore, rfl⟩ := Option.map_eq_some_iff.mp hseat
    by_cases hj : i = j
    · subst hj
      rw [if_pos rfl]
      exact haccounts
    · rw [if_neg hj]
      obtain ⟨hpoll, hleave⟩ := hother j fun h => hj h.symm
      exact ha.accounts_use h hbefore hpoll hleave
  · intro j
    by_cases hj : i = j
    · exact hj ▸ hhonest
    · exact (ha.honest j).use h (hother j fun h => hj h.symm).1
  · intro r hr
    rw [hnextId]
    exact ha.fresh r (hsublist.subset hr)

/-- What a listener that waits for its signal is asked for is settled by what it has heard. -/
theorem first?_of_waits
    {c : Channel}
    {r : Nat}
    {signals : List Signal}
    (h : c.waiting? r = some (keepLast signals)) :
    c.first? r = oldestKept signals := by
  rw [Channel.first?_eq_bind, h, Option.bind_some, Channel.head?_keepLast]

/-- What a listener answers is received, and what it becomes is held of it from then on. -/
theorem use_poll
    {i : Nat}
    {seat next : Seat}
    {fired : Option Signal}
    {c : Channel}
    (h : a.allows (.poll i) = true)
    (hseat : a.seats[i]? = some (some seat))
    (hpoll : seat.poll (a.handles == 0) a.channel = (fired, next, c)) :
    (a.use (.poll i)).received i = a.received i ++ fired.toList ∧
      (a.use (.poll i)).channel = c ∧
      (a.use (.poll i)).handles = a.handles ∧
      (a.use (.poll i)).seats = a.seats.modify i fun _ => some next := by
  have hperform := perform_poll hseat hpoll
  refine ⟨?_, ?_, ?_, ?_⟩
  · rw [received_use h, answer, hperform]
    cases fired with
    | some s =>
        simp [ChannelAnswer.ofSignal?, receipt?]
    | none =>
        rfl
  · rw [channel_use h, hperform]
    rfl
  · rw [use, if_pos h, hperform]
    rfl
  · rw [seats_use h, hperform]
    rfl

/-- Asking a listener keeps what the record tells. -/
theorem Recorded.poll
    (ha : Recorded a)
    {i : Nat}
    (h : a.allows (.poll i) = true) :
    Recorded (a.use (.poll i)) := by
  obtain ⟨⟨l, reception⟩, hseat⟩ := seats_of_allows h (.inl rfl)
  have hleft : (a.use (.poll i)).hasLeft i = a.hasLeft i := by
    rw [hasLeft_use h]
    exact Bool.or_false _
  have hheard : (a.use (.poll i)).heard i = a.heard i := by
    rw [heard_use h, ha.isSeated hseat]
    exact List.append_nil _
  cases ha.accounts i _ hseat with
  | @armed r _ hstays hsilent hhope hwaits =>
      have hfirst : a.channel.first? r = oldestKept (a.heard i) := first?_of_waits hwaits
      cases hs : oldestKept (a.heard i) with
      | some s =>
          obtain ⟨hreceived, hchannel, -, hseats⟩ :=
            use_poll h hseat (poll_fires hhope (hfirst.trans hs))
          rw [hsilent] at hreceived
          exact ha.change h (.inl rfl) hseat hseats (.inr ⟨rfl, hchannel⟩)
            (.fired (hleft.trans hstays) hreceived)
            (.inr ⟨a.heard i, s, hreceived, hheard ▸ List.prefix_refl _, hs⟩)
      | none =>
          have hnone : a.heard i = [] := (Channel.oldestKept_eq_none_iff _).mp hs
          cases hclosed : a.handles == 0 with
          | true =>
              obtain ⟨hreceived, hchannel, hhandles, hseats⟩ :=
                use_poll h hseat (hclosed ▸ poll_ends hhope (hfirst.trans hs))
              rw [hsilent] at hreceived
              exact ha.change h (.inl rfl) hseat hseats (.inr ⟨rfl, hchannel⟩)
                (.closed (hleft.trans hstays) hreceived (hhandles.trans (beq_iff_eq.mp hclosed))
                  (hheard.trans hnone)) (.inl hreceived)
          | false =>
              obtain ⟨hreceived, hchannel, -, hseats⟩ :=
                use_poll h hseat (hclosed ▸ poll_waits hhope (hfirst.trans hs))
              rw [hsilent] at hreceived
              refine ha.change h (.inl rfl) hseat hseats (.inl ⟨rfl, hchannel⟩)
                (.armed (hleft.trans hstays) hreceived (by simp) ?_) (.inl hreceived)
              rw [hchannel, hheard]
              exact hwaits
  | fired hstays hfired =>
      obtain ⟨hreceived, hchannel, -, hseats⟩ := use_poll h hseat poll_unarmed
      rw [Option.toList_none, List.append_nil] at hreceived
      refine ha.change h (.inl rfl) hseat hseats (.inl ⟨rfl, hchannel⟩)
        (.fired (hleft.trans hstays) (hreceived.trans hfired)) ?_
      rw [Honest, hreceived, hheard]
      exact ha.honest i
  | closed hstays hsilent hclosed hnone =>
      obtain ⟨hreceived, hchannel, hhandles, hseats⟩ := use_poll h hseat poll_unarmed
      rw [hsilent] at hreceived
      exact ha.change h (.inl rfl) hseat hseats (.inl ⟨rfl, hchannel⟩)
        (.closed (hleft.trans hstays) hreceived (hhandles.trans hclosed) (hheard.trans hnone))
        (.inl hreceived)

/-- Giving up keeps what the record tells: what waits for the listener goes on waiting. -/
theorem Recorded.giveUp
    (ha : Recorded a)
    {i : Nat}
    (h : a.allows (.giveUp i) = true) :
    Recorded (a.use (.giveUp i)) := by
  obtain ⟨seat, hseat⟩ := seats_of_allows h (.inr (.inl rfl))
  have hperform := perform_giveUp hseat
  have hseats : (a.use (.giveUp i)).seats =
      a.seats.modify i fun _ => some { seat with reception := .idle } := by
    rw [seats_use h, hperform]
    rfl
  have hchannel : (a.use (.giveUp i)).channel = a.channel := by
    rw [channel_use h, hperform]
    rfl
  refine ha.change h (.inr (.inl rfl)) hseat hseats (.inl ⟨rfl, hchannel⟩) ?_
    ((ha.honest i).use h (by simp))
  have hsame := ha.accounts_use h hseat (by simp) (by simp)
  cases hsame with
  | armed hstays hsilent _ hwaits =>
      exact .armed hstays hsilent (by simp) hwaits
  | fired hstays hfired =>
      exact .fired hstays hfired
  | closed hstays hsilent hclosed hnone =>
      exact .closed hstays hsilent hclosed hnone

theorem Recorded.leave
    (ha : Recorded a)
    {i : Nat}
    (h : a.allows (.leave i) = true) :
    Recorded (a.use (.leave i)) := by
  obtain ⟨seat, hseat⟩ := seats_of_allows h (.inr (.inr rfl))
  have hperform := perform_leave hseat
  have hseats : (a.use (.leave i)).seats = a.seats.modify i fun _ => none := by
    rw [seats_use h, hperform]
    rfl
  have hchannel : (a.use (.leave i)).channel = seat.listener.release a.channel := by
    rw [channel_use h, hperform]
    rfl
  refine ha.change h (.inr (.inr rfl)) hseat hseats (.inr ⟨rfl, hchannel⟩) (.left ?_)
    ((ha.honest i).use h (by simp))
  rw [hasLeft_use h]
  simp

/-- Every use keeps what the record tells. -/
theorem Recorded.use
    (ha : Recorded a)
    (u : ChannelUse) :
    Recorded (a.use u) := by
  cases h : a.allows u with
  | false =>
      rw [Audience.use, if_neg (by simp [h])]
      exact ha
  | true =>
      cases u with
      | listen =>
          exact ha.listen h
      | poll i =>
          exact ha.poll h
      | giveUp i =>
          exact ha.giveUp h
      | leave i =>
          exact ha.leave h
      | trigger s =>
          have hchannel : (a.use (.trigger s)).channel = a.channel.trigger s := channel_use h
          have hids : (a.channel.trigger s).ids = a.channel.ids := by
            simp [Channel.ids, Channel.trigger]
          exact ha.apart h (seats_use h) (by rw [hchannel, hids]) (by rw [hchannel]; rfl)
            (by simp) (by simp) (by simp)
      | _ =>
          exact ha.apart h (seats_use h) (by rw [channel_use h]; rfl) (by rw [channel_use h]; rfl)
            (by simp) (by simp) (by simp)

/-- The record tells everything, whatever has been done. -/
theorem Recorded.after
    (ha : Recorded a)
    (us : List ChannelUse) :
    Recorded (a.after us) := by
  induction us generalizing a with
  | nil =>
      exact ha
  | cons u rest ih =>
      exact ih (ha.use u)

end Use

/-! ## What a program is told -/

section Told

variable {a : Audience}

theorem outstanding_iff
    {i : Nat} :
    a.isOutstanding i = true ↔
      a.isSeated i = true ∧ a.hasLeft i = false ∧ a.received i = [] := by
  simp [isOutstanding, and_assoc]

/-- Of a listener that has neither been dropped nor fired, everything that has been raised since its
installation waits at its place; or it has found out that its source is at an end. -/
theorem Recorded.seat_of_outstanding
    (ha : Recorded a)
    {i : Nat}
    (hi : a.isOutstanding i = true) :
    ∃ seat, a.seats[i]? = some (some seat) ∧
      ((∃ r, seat.listener = .receiver r ∧ seat.reception ≠ .hopeless ∧
          a.channel.waiting? r = some (keepLast (a.heard i))) ∨
        seat.listener = .unarmed ∧ a.handles = 0 ∧ a.heard i = []) := by
  obtain ⟨hseated, hstays, hsilent⟩ := outstanding_iff.mp hi
  have hlength := (ha.seated i).mp hseated
  cases hseat : a.seats[i]? with
  | none =>
      rw [List.getElem?_eq_none_iff] at hseat
      omega
  | some seat =>
      cases ha.accounts i seat hseat with
      | left hgone =>
          rw [hstays] at hgone
          cases hgone
      | armed _ _ hhope hwaits =>
          exact ⟨_, rfl, .inl ⟨_, rfl, hhope, hwaits⟩⟩
      | fired _ hfired =>
          rw [hsilent] at hfired
          cases hfired
      | closed _ _ hclosed hnone =>
          exact ⟨_, rfl, .inr ⟨rfl, hclosed, hnone⟩⟩

theorem allows_poll
    {i : Nat}
    {seat : Seat}
    (hseat : a.seats[i]? = some (some seat)) :
    a.allows (.poll i) = true := by
  rw [allows, seat?_eq_some.mpr hseat]
  rfl

/-- What a listener answers that has neither been dropped nor fired. -/
theorem Recorded.answer_poll
    (ha : Recorded a)
    {i : Nat}
    (hi : a.isOutstanding i = true) :
    a.allows (.poll i) = true ∧ a.answer (.poll i) = .ofSignal? (oldestKept (a.heard i)) := by
  obtain ⟨⟨l, reception⟩, hseat, hheld⟩ := ha.seat_of_outstanding hi
  refine ⟨allows_poll hseat, ?_⟩
  rcases hheld with ⟨r, rfl, hhope, hwaits⟩ | ⟨rfl, -, hnone⟩
  · have hfirst : a.channel.first? r = oldestKept (a.heard i) := first?_of_waits hwaits
    cases hs : oldestKept (a.heard i) with
    | some s =>
        rw [answer, perform_poll hseat (poll_fires hhope (hfirst.trans hs))]
    | none =>
        cases hclosed : a.handles == 0 with
        | true =>
            rw [answer, perform_poll hseat (hclosed ▸ poll_ends hhope (hfirst.trans hs))]
        | false =>
            rw [answer, perform_poll hseat (hclosed ▸ poll_waits hhope (hfirst.trans hs))]
  · rw [answer, perform_poll hseat poll_unarmed, hnone]
    rfl

/-- A channel with a handle on it counts the listeners that have neither been dropped nor fired. -/
theorem Recorded.active
    (ha : Recorded a)
    (hopen : a.handles ≠ 0) :
    a.channel.active = a.outstanding.length := by
  have hlength : a.channel.active = a.channel.ids.length := (List.length_map _).symm
  rw [hlength, ha.places, List.length_filterMap_eq_countP, World.countP_eq_places, outstanding]
  refine congrArg List.length (List.filter_congr fun i hi => ?_)
  have hseated : a.isSeated i = true := (ha.seated i).mpr (List.mem_range.mp hi)
  cases hseat : a.seats[i]? with
  | none =>
      rw [List.getElem?_eq_none_iff] at hseat
      exact absurd (List.mem_range.mp hi) (Nat.not_lt.mpr hseat)
  | some seat =>
      cases ha.accounts i seat hseat with
      | left hgone =>
          simp [isOutstanding, hgone, Seat.place?]
      | armed hstays hsilent _ _ =>
          simp [isOutstanding, hseated, hstays, hsilent, Seat.place?, Listener.receiver?]
      | fired _ hfired =>
          simp [isOutstanding, hfired, Seat.place?, Listener.receiver?]
      | closed _ _ hclosed _ =>
          exact absurd hclosed hopen

end Told

/-! ## Later on -/

section Later

variable {a : Audience} {i : Nat}

/-- What is done with the channel and with other listeners, and giving up, leaves a listener as it is,
but for the signals that it hears. -/
theorem outstanding_use
    (hi : a.isOutstanding i = true)
    {u : ChannelUse}
    (hu : u ≠ .poll i ∧ u ≠ .leave i) :
    (a.use u).isOutstanding i = true ∧ a.heard i <+: (a.use u).heard i := by
  cases h : a.allows u with
  | false =>
      rw [use, if_neg (by simp [h])]
      exact ⟨hi, List.prefix_refl _⟩
  | true =>
      obtain ⟨hseated, hstays, hsilent⟩ := outstanding_iff.mp hi
      refine ⟨outstanding_iff.mpr ⟨?_, ?_, ?_⟩, ?_⟩
      · rw [isSeated_use h, hseated]
        rfl
      · rw [hasLeft_use h, hstays, beq_eq_false_iff_ne.mpr hu.2]
        rfl
      · rw [received_use h, hsilent, receipt?_of_ne hu.1]
        rfl
      · rw [heard_use h]
        exact List.prefix_append _ _

theorem outstanding_after
    (hi : a.isOutstanding i = true)
    {us : List ChannelUse}
    (hus : ∀ u ∈ us, u ≠ .poll i ∧ u ≠ .leave i) :
    (a.after us).isOutstanding i = true ∧ a.heard i <+: (a.after us).heard i := by
  induction us generalizing a with
  | nil =>
      exact ⟨hi, List.prefix_refl _⟩
  | cons u rest ih =>
      obtain ⟨hnext, hheard⟩ := outstanding_use hi (hus u List.mem_cons_self)
      obtain ⟨hlater, hmore⟩ := ih hnext fun v hv => hus v (List.mem_cons_of_mem u hv)
      exact ⟨hlater, hheard.trans hmore⟩

/-- What has been received remains so. -/
theorem received_after
    (us : List ChannelUse) :
    a.received i <+: (a.after us).received i := by
  induction us generalizing a with
  | nil =>
      exact List.prefix_refl _
  | cons u rest ih =>
      have hnow : a.received i <+: (a.use u).received i := by
        cases h : a.allows u with
        | false =>
            have hsame : a.use u = a := if_neg (by simp [h])
            exact hsame.symm ▸ List.prefix_refl _
        | true =>
            rw [received_use h]
            exact List.prefix_append _ _
      exact hnow.trans ih

/-- A listener that has heard nothing hears nothing once the last handle is gone. -/
theorem ended_after
    (hclosed : a.handles = 0)
    (hnone : a.heard i = [])
    (hseated : a.isSeated i = true)
    (us : List ChannelUse) :
    (a.after us).heard i = [] := by
  induction us generalizing a with
  | nil =>
      exact hnone
  | cons u rest ih =>
      cases h : a.allows u with
      | false =>
          have hsame : a.use u = a := by
            rw [use, if_neg (by simp [h])]
          have hrest := ih hclosed hnone hseated
          rw [← hsame] at hrest
          exact hrest
      | true =>
          obtain ⟨hstill, hsignal⟩ := closed_use h hclosed
          refine ih hstill ?_ ?_
          · rw [heard_use h, hnone, hsignal, hseated]
            rfl
          · rw [isSeated_use h, hseated]
            rfl

/-- A listener that is held answers with a signal only if it has not fired and has heard one. -/
theorem Recorded.answer_pending
    (ha : Recorded a)
    (h : a.allows (.poll i) = true)
    (hdone : a.received i ≠ [] ∨ a.heard i = []) :
    a.answer (.poll i) = .pending := by
  obtain ⟨⟨l, reception⟩, hseat⟩ := seats_of_allows h (.inl rfl)
  cases ha.accounts i _ hseat with
  | armed hstays hsilent _ _ =>
      have hi : a.isOutstanding i = true :=
        outstanding_iff.mpr ⟨ha.isSeated hseat, hstays, hsilent⟩
      have hnone : a.heard i = [] := hdone.resolve_left fun h => h hsilent
      rw [(ha.answer_poll hi).2, hnone]
      rfl
  | _ =>
      rw [answer, perform_poll hseat poll_unarmed]
      rfl

end Later

/-- What a program may rely on in its dealings with a channel. -/
structure Faithful (a : Audience) : Prop where
  /-- The channel counts the listeners that have neither been dropped nor fired. -/
  counted : a.handles ≠ 0 → a.channel.active = a.outstanding.length
  /-- Who raises a signal is told how many of them there are. -/
  reached : ∀ s, a.handles ≠ 0 → a.answer (.trigger s) = .reached a.outstanding.length
  /-- Such a listener can be asked for its signal, and fires with the oldest one that is kept of those
  raised since its installation. If there has been none, it does not fire. -/
  answered : ∀ i, a.isOutstanding i = true →
    a.allows (.poll i) = true ∧ a.answer (.poll i) = .ofSignal? (oldestKept (a.heard i))
  /-- When a signal has been raised, each of them fires as soon as it is asked, whatever else is done
  before. -/
  fires : ∀ s us i, a.handles ≠ 0 → a.isOutstanding i = true →
    (∀ u ∈ us, u ≠ .poll i ∧ u ≠ .leave i) →
    ((a.use (.trigger s)).after us).allows (.poll i) = true ∧
      ∃ fired, ((a.use (.trigger s)).after us).answer (.poll i) = .fired fired
  /-- Giving up changes nothing. -/
  abandoned : ∀ i, a.isOutstanding i = true →
    (a.use (.giveUp i)).isOutstanding i = true ∧
      (a.use (.giveUp i)).heard i = a.heard i ∧
      (a.use (.giveUp i)).answer (.poll i) = a.answer (.poll i)
  /-- A listener fires at most once, and only with a signal raised since its installation. -/
  honest : ∀ i, a.Honest i
  /-- After that it does not fire, for ever. -/
  silent : ∀ i us, a.received i ≠ [] → (a.after us).allows (.poll i) = true →
    (a.after us).answer (.poll i) = .pending
  /-- Neither does a listener without a signal once the last handle is gone. -/
  ended : ∀ i us, a.handles = 0 → a.isOutstanding i = true → a.heard i = [] →
    (a.after us).allows (.poll i) = true → (a.after us).answer (.poll i) = .pending

theorem Recorded.faithful
    {a : Audience}
    (ha : Recorded a) :
    Faithful a where
  counted := ha.active
  reached := by
    intro s hopen
    rw [← ha.active hopen]
    rfl
  answered := fun _ hi => ha.answer_poll hi
  fires := by
    intro s us i hopen hi hus
    have hallowed : a.allows (.trigger s) = true := by
      simpa [allows] using hopen
    obtain ⟨hseated, -, -⟩ := outstanding_iff.mp hi
    have hnow := (outstanding_use hi (u := .trigger s) ⟨by simp, by simp⟩).1
    obtain ⟨hlater, hmore⟩ := outstanding_after hnow hus
    have hheard : ((a.use (.trigger s)).after us).heard i ≠ [] := by
      intro hnil
      rw [hnil, heard_use hallowed, hseated, if_pos rfl, List.prefix_nil] at hmore
      simp [ChannelUse.signal?] at hmore
    obtain ⟨hallows, hanswer⟩ := ((ha.use (.trigger s)).after us).answer_poll hlater
    refine ⟨hallows, ?_⟩
    cases hs : oldestKept (((a.use (.trigger s)).after us).heard i) with
    | some fired =>
        rw [hs] at hanswer
        exact ⟨fired, hanswer⟩
    | none =>
        exact absurd ((Channel.oldestKept_eq_none_iff _).mp hs) hheard
  abandoned := by
    intro i hi
    obtain ⟨seat, hseat, -⟩ := ha.seat_of_outstanding hi
    have hallowed : a.allows (.giveUp i) = true := allows_poll hseat
    have hheard : (a.use (.giveUp i)).heard i = a.heard i := by
      rw [heard_use hallowed, ha.isSeated hseat]
      exact List.append_nil _
    have hnow := (outstanding_use hi (u := .giveUp i) ⟨by simp, by simp⟩).1
    refine ⟨hnow, hheard, ?_⟩
    rw [((ha.use (.giveUp i)).answer_poll hnow).2, (ha.answer_poll hi).2, hheard]
  honest := ha.honest
  silent := by
    intro i us hfired hallowed
    refine (ha.after us).answer_pending hallowed (.inl fun hnil => hfired ?_)
    have hmore : a.received i <+: (a.after us).received i := received_after us
    rw [hnil, List.prefix_nil] at hmore
    exact hmore
  ended := by
    intro i us hclosed hi hnone hallowed
    have hlater := ended_after hclosed hnone (outstanding_iff.mp hi).1 us
    exact (ha.after us).answer_pending hallowed (.inr hlater)

/-- A channel loses and invents nothing, whatever a program does with it. -/
theorem faithful_after
    (us : List ChannelUse) :
    Faithful (new.after us) :=
  (recorded_new.after us).faithful

/-- The first listener fires once. The second one is asked, given up and asked again after the last
handle is gone, and gets its signal. -/
example :
    (new.after [.listen, .listen, .poll 1, .trigger .terminate, .poll 0, .poll 0, .giveUp 1,
      .discard, .poll 1]).record.map Prod.snd =
      [.seated 0, .seated 1, .pending, .reached 2, .fired .terminate, .pending, .done, .done,
        .fired .terminate] := by
  decide

end Audience
end LifecycleTelemetry
