import LifecycleTelemetry.Proofs.Operation.Draining
import Mathlib.Data.List.Nodup
import Mathlib.Logic.ExistsUnique

/-!
# Sends and deliveries are conserved

A ledger is kept of a program on its way, move by move: what is handed over, and what drains take. The
ledger accounts for everything: `Chronicle.books` says that just these payloads have been handed over, each
once and in this order, and that of the deliveries that have been accepted those wait to be drained that no
drain has taken. As numbers are given to deliveries in their order, none can be in two places. And the
batch of a drain only ever gets smaller, by deliveries that are over, so that nothing that is sent after
its beginning is waited for.

Nothing of this depends on the order in which strands, deliveries and the clock have their turns, nor on
how deliveries end.
-/

namespace LifecycleTelemetry

open Json (Fields)

/-- The deliveries that the reporter has accepted by a ledger from the start of a world. -/
def acceptedIn (told : List Posting) : List Nat :=
  acceptedFrom 0 (dispatchesIn told)

/-- The drain that is the one with a number by a ledger has taken a delivery. -/
def IsTakenBy (told : List Posting) (i n : Nat) : Prop :=
  ∃ entry : Nat × List Nat, (batchesIn told)[i]? = some entry ∧ n ∈ entry.2

theorem mem_batchesIn_iff
    {told : List Posting}
    {id : Nat}
    {batch : List Nat} :
    (id, batch) ∈ batchesIn told ↔ .taken id batch ∈ told := by
  rw [batchesIn, List.mem_filterMap]
  constructor
  · rintro ⟨posting, hposting, hbatch⟩
    cases posting with
    | handed d =>
        cases hbatch
    | taken strand other =>
        cases hbatch
        exact hposting
  · exact fun h => ⟨_, h, rfl⟩

theorem mem_takenIn_iff
    {told : List Posting}
    {n : Nat} :
    n ∈ takenIn told ↔ ∃ i, IsTakenBy told i n := by
  rw [takenIn, List.mem_flatMap]
  constructor
  · rintro ⟨entry, hentry, hn⟩
    obtain ⟨i, hi⟩ := List.mem_iff_getElem?.mp hentry
    exact ⟨i, entry, hi, hn⟩
  · rintro ⟨i, entry, hi, hn⟩
    exact ⟨entry, List.mem_of_getElem? hi, hn⟩

theorem nodup_acceptedIn
    (told : List Posting) :
    (acceptedIn told).Nodup :=
  (pairwise_acceptedFrom 0 _).imp Nat.ne_of_lt

namespace World

/-- Nothing has been handed over in a world, and nothing is drained. -/
structure Untouched (w : World) : Prop where
  handed : w.handed = []
  deliveries : w.deliveries = []
  pending : w.pending = []
  idle : ∀ id, w.batch? id = none

section Kept

variable {first w : World} {told : List Posting}

/-! ## The ledger of a way -/

/-- Whatever becomes of a world, its ledger is kept to. -/
theorem Chronicle.books
    (h : Chronicle ledgerOf first w told) :
    Books first told w := by
  induction h with
  | refl =>
      exact books_of_tally rfl
  | move m _ ih =>
      exact ih.trans (books_move _ m)
  | script s _ _ ih =>
      exact ih.goes rfl
  | rouse woken _ ih =>
      exact ih.goes rfl
  | mark pending listeners _ ih =>
      exact ih.goes (tally_note _ rfl)

/-- A drain is all that is written down of the move in which it begins. -/
theorem of_ledgerOf_eq
    {m : Move}
    {before behind : List Posting}
    {id : Nat}
    {batch : List Nat}
    (h : w.ledgerOf m = before ++ .taken id batch :: behind) :
    m = .advance id ∧ w.isAboutToDrain id = true ∧ w.pending = batch ∧ before = [] ∧
      behind = [] := by
  by_cases habout : ∃ j, m = .advance j ∧ w.isAboutToDrain j = true
  · obtain ⟨j, rfl, habout⟩ := habout
    rw [w.ledgerOf_of_about habout] at h
    cases before with
    | nil =>
        cases h
        exact ⟨rfl, habout, rfl, rfl, rfl⟩
    | cons entry rest =>
        have hlength := congrArg List.length h
        simp at hlength
  · have hnone : batchesIn (w.ledgerOf m) = [] := by
      refine w.batchesIn_ledgerOf m fun j hm => ?_
      cases hj : w.isAboutToDrain j with
      | false =>
          rfl
      | true =>
          exact absurd ⟨j, hm, hj⟩ habout
    have hmem : (id, batch) ∈ batchesIn (w.ledgerOf m) :=
      mem_batchesIn_iff.mpr (by rw [h]; exact List.mem_append_right _ List.mem_cons_self)
    rw [hnone] at hmem
    cases hmem

/-- Where a drain is written down, a world has been on the way in which it began. -/
theorem Chronicle.begun
    (h : Chronicle ledgerOf first w told)
    {before behind : List Posting}
    {id : Nat}
    {batch : List Nat}
    (htold : told = before ++ .taken id batch :: behind) :
    ∃ u, Chronicle ledgerOf first u before ∧ u.isAboutToDrain id = true ∧ u.pending = batch ∧
      Chronicle ledgerOf (u.advance id) w behind := by
  induction h generalizing behind with
  | refl =>
      cases before <;> cases htold
  | @move v told m h ih =>
      rcases List.append_eq_append_iff.mp htold with ⟨more, rfl, hledger⟩ | ⟨more, rfl, hledger⟩
      · obtain ⟨rfl, habout, hpending, rfl, rfl⟩ := of_ledgerOf_eq hledger
        exact ⟨v, by simpa using h, habout, hpending, .refl⟩
      · cases more with
        | nil =>
            have hsame : v.ledgerOf m = [] ++ .taken id batch :: behind := hledger.symm
            obtain ⟨rfl, habout, hpending, -, rfl⟩ := of_ledgerOf_eq hsame
            exact ⟨v, by simpa using h, habout, hpending, .refl⟩
        | cons entry rest =>
            obtain ⟨rfl, rfl⟩ := List.cons.inj hledger
            obtain ⟨u, hu, habout, hpending, hlater⟩ := ih rfl
            exact ⟨u, hu, habout, hpending, hlater.move m⟩
  | script s _ hover ih =>
      obtain ⟨u, hu, habout, hpending, hlater⟩ := ih htold
      exact ⟨u, hu, habout, hpending, hlater.script s hover⟩
  | rouse woken _ ih =>
      obtain ⟨u, hu, habout, hpending, hlater⟩ := ih htold
      exact ⟨u, hu, habout, hpending, hlater.rouse woken⟩
  | mark pending listeners _ ih =>
      obtain ⟨u, hu, habout, hpending, hlater⟩ := ih htold
      exact ⟨u, hu, habout, hpending, hlater.mark pending listeners⟩

/-- A strand that drains has the batch in its hands with which it began last, but for what is over. -/
def Holds (w : World) (told : List Posting) (id : Nat) (rest : List Nat) : Prop :=
  ∃ before batch behind, told = before ++ .taken id batch :: behind ∧
    (∀ other, .taken id other ∉ behind) ∧ rest.Sublist batch ∧
    ∀ n ∈ batch, n ∉ rest → w.HasFinished n

/-- What is written down later does not matter to a batch, unless it is another drain of the strand. -/
theorem Holds.append
    {after : World}
    {id : Nat}
    {rest : List Nat}
    {later : List Posting}
    (h : Holds w told id rest)
    (hlater : ∀ other, .taken id other ∉ later)
    (hover : ∀ n, w.HasFinished n → after.HasFinished n) :
    Holds after (told ++ later) id rest := by
  obtain ⟨before, batch, behind, rfl, hlast, hsublist, hdone⟩ := h
  refine ⟨before, batch, behind ++ later, by simp, fun other hmem => ?_, hsublist, ?_⟩
  · rcases List.mem_append.mp hmem with hbehind | hmem
    · exact hlast other hbehind
    · exact hlater other hmem
  · exact fun n hn hrest => hover n (hdone n hn hrest)

/-- What is put away of a batch is over. -/
theorem Holds.unsettled
    {id : Nat}
    {rest : List Nat}
    (h : Holds w told id rest)
    (hmade : ∀ n ∈ takenIn told, n < w.deliveries.length) :
    Holds w told id (w.unsettled rest) := by
  obtain ⟨before, batch, behind, rfl, hlast, hsublist, hdone⟩ := h
  refine ⟨before, batch, behind, rfl, hlast, List.filter_sublist.trans hsublist, ?_⟩
  intro n hn hleft
  by_cases hrest : n ∈ rest
  · have hdelivered : w.isDelivered n = true := by
      simpa [World.unsettled, hrest] using hleft
    refine hasFinished_iff.mpr ⟨hmade n (mem_takenIn_iff.mpr ?_), hdelivered⟩
    have htaken : .taken id batch ∈ before ++ .taken id batch :: behind :=
      List.mem_append_right _ List.mem_cons_self
    obtain ⟨i, hi⟩ := List.mem_iff_getElem?.mp (mem_batchesIn_iff.mpr htaken)
    exact ⟨i, (id, batch), hi, hn⟩
  · exact hdone n hn hrest

/-- Every delivery that has been taken has been made. -/
theorem Books.made
    (h : Books first told w)
    (hfirst : Untouched first) :
    takenIn told ++ w.pending = acceptedIn told ∧
      ∀ n ∈ acceptedIn told, n < w.deliveries.length := by
  have hplaced := h.pending
  rw [hfirst.pending, hfirst.deliveries, List.nil_append] at hplaced
  have hlength := h.length
  rw [hfirst.deliveries, List.length_nil] at hlength
  refine ⟨hplaced, fun n hn => ?_⟩
  have hbound := (mem_acceptedFrom hn).2
  omega

/-- A drain that is under way does not begin. -/
theorem taken_notMem_ledgerOf
    {m : Move}
    {id : Nat}
    {rest : List Nat}
    (hbatch : w.batch? id = some rest)
    (other : List Nat) :
    .taken id other ∉ w.ledgerOf m := by
  intro hmem
  obtain ⟨before, behind, hledger⟩ := List.mem_iff_append.mp hmem
  obtain ⟨-, habout, -⟩ := of_ledgerOf_eq hledger
  rw [batch?_of_about habout] at hbatch
  cases hbatch

/-- Every strand that drains has the batch in its hands with which it began last. -/
theorem Chronicle.holds
    (h : Chronicle ledgerOf first w told)
    (hfirst : Untouched first)
    {id : Nat}
    {rest : List Nat}
    (hbatch : w.batch? id = some rest) :
    Holds w told id rest := by
  induction h generalizing rest with
  | refl =>
      rw [hfirst.idle] at hbatch
      cases hbatch
  | @move v told m h ih =>
      have hover : ∀ n, v.HasFinished n → (v.move m).HasFinished n :=
        fun n hn => hasFinished_of_change (change_move v m) hn
      rcases v.batch?_move m hbatch with hold | ⟨-, old, hold, rfl⟩ | ⟨rfl, habout, rfl⟩
      · exact (ih hold).append (taken_notMem_ledgerOf hold) hover
      · obtain ⟨hplaced, hmade⟩ := h.books.made hfirst
        have hleft := (ih hold).unsettled fun n hn =>
          hmade n (hplaced ▸ List.mem_append_left _ hn)
        exact hleft.append (taken_notMem_ledgerOf hold) hover
      · rw [v.ledgerOf_of_about habout]
        exact ⟨told, v.pending, [], rfl, fun _ => List.not_mem_nil, List.Sublist.refl _,
          fun n hn hnot => absurd hn hnot⟩
  | @script v told s _ _ ih =>
      have hidles : Idles v (v.beginScript s) := idles_modify rfl fun _ => .inl rfl
      exact ih (hidles id rest hbatch)
  | rouse woken _ ih =>
      exact ih hbatch
  | mark pending listeners _ ih =>
      exact ih hbatch

end Kept

/-! ## What is conserved -/

/-- What is conserved of the sends of a program and of its deliveries, by the ledger of its way. -/
structure Conserves (first : World) (told : List Posting) (w : World) : Prop where
  /-- What has been handed to the transport is what there was to hand over, each message once and in the
  same order, under the date with its number, -/
  handed : w.handed = handedFrom first.stamps 0 (dispatchesIn told)
  /-- and each payload has become the delivery with its number. -/
  delivered : w.deliveries.map Delivery.event = (dispatchesIn told).map fun d => d.message.event
  /-- An event that is sent by a reporter that reports is handed over once, and its delivery waits to be
  drained, when the sending comes back. -/
  sent : ∀ sender event properties, w.isReporting = true →
    (w.send sender event properties).tally =
      ⟨w.handed ++ [(sender, w.reporter.client.payload event (w.stamps w.deliveries.length)
          (w.reporter.merged properties))],
        w.deliveries.map Delivery.event ++ [event], w.pending ++ [w.deliveries.length], w.stamps⟩
  /-- A reporter that is disabled, has no transport or no runtime hands over nothing. -/
  refused : ∀ sender event properties,
    w.reporter.enabled = false ∨ w.reporter.client.transport = none ∨ w.hasRuntime = false →
      (w.send sender event properties).tally = w.tally
  /-- What drains have taken and what waits to be drained is what has been accepted, in its order. -/
  ordered : takenIn told ++ w.pending = acceptedIn told
  /-- Every accepted delivery either waits to be drained or has been taken by a single drain. -/
  placed : ∀ n ∈ acceptedIn told,
    n ∈ w.pending ∧ (∀ i, ¬ IsTakenBy told i n) ∨ n ∉ w.pending ∧ ∃! i, IsTakenBy told i n
  /-- Whoever asks for the number of those that wait to be drained gets that of those not taken. -/
  counted : ∀ list scope, w.act list scope .countPending =
    w.record list .countPending (.count ((acceptedIn told).length - (takenIn told).length))
  /-- They stay so, be they over or not, unless a drain begins, -/
  stays : ∀ m, (∀ id, m = .advance id → w.isAboutToDrain id = false) →
    w.pending <+: (w.move m).pending
  /-- and then they are in its hands. -/
  taken : ∀ id, w.isAboutToDrain id = true →
    (w.advance id).pending = [] ∧ (w.advance id).batch? id = some w.pending
  /-- Wherever a drain is written down, it has begun with what waited to be drained then. -/
  begun : ∀ before id batch behind, told = before ++ .taken id batch :: behind →
    ∃ u, Chronicle ledgerOf first u before ∧ u.isAboutToDrain id = true ∧ u.pending = batch ∧
      Chronicle ledgerOf (u.advance id) w behind
  /-- A drain that is under way waits for what is not over of its batch, and for nothing that has been
  handed over since. -/
  held : ∀ id rest, w.batch? id = some rest →
    ∃ before batch behind, told = before ++ .taken id batch :: behind ∧
      (∀ other, .taken id other ∉ behind) ∧ rest.Sublist batch ∧
      (∀ n ∈ batch, n ∉ rest → w.HasFinished n) ∧
      ∀ n ∈ rest, n ∈ acceptedIn before ∧ n < (dispatchesIn before).length
  /-- It is back after its turn just when all of this is over, whatever else waits to be drained. -/
  back : ∀ id rest, w.batch? id = some rest →
    ((w.advance id).isBack id = true ↔ ∀ n ∈ rest, w.HasFinished n) ∧
      (w.advance id).pending = w.pending

section Conserved

variable {first w : World} {told : List Posting}

/-- A delivery is taken at most once, and not while it waits to be drained. -/
theorem placed_of_nodup
    (h : (takenIn told ++ w.pending).Nodup)
    {n : Nat}
    (hn : n ∈ takenIn told ++ w.pending) :
    n ∈ w.pending ∧ (∀ i, ¬ IsTakenBy told i n) ∨ n ∉ w.pending ∧ ∃! i, IsTakenBy told i n := by
  obtain ⟨htaken, -, hapart⟩ := List.nodup_append.mp h
  by_cases hpending : n ∈ w.pending
  · refine .inl ⟨hpending, fun i hi => ?_⟩
    exact hapart n (mem_takenIn_iff.mpr ⟨i, hi⟩) n hpending rfl
  · have hmem : n ∈ takenIn told := (List.mem_append.mp hn).resolve_right hpending
    obtain ⟨i, hi⟩ := mem_takenIn_iff.mp hmem
    refine .inr ⟨hpending, i, hi, fun j hj => ?_⟩
    obtain ⟨entry, hentry, hmem⟩ := hi
    obtain ⟨other, hother, hmem'⟩ := hj
    obtain ⟨hlt, rfl⟩ := List.getElem?_eq_some_iff.mp hentry
    obtain ⟨hlt', rfl⟩ := List.getElem?_eq_some_iff.mp hother
    have hpairs := List.pairwise_iff_getElem.mp (List.nodup_flatMap.mp htaken).2
    rcases Nat.lt_trichotomy i j with hij | rfl | hji
    · exact absurd hmem' (hpairs i j hlt hlt' hij hmem)
    · rfl
    · exact absurd hmem (hpairs j i hlt' hlt hji hmem')

/-- Without a drain that begins, what waits to be drained only gets more. -/
theorem pending_move
    {m : Move}
    (habout : ∀ id, m = .advance id → w.isAboutToDrain id = false) :
    (w.move m).pending =
      w.pending ++ acceptedFrom w.deliveries.length (dispatchesIn (w.ledgerOf m)) := by
  have hpending := (w.books_move m).pending
  rw [takenIn, w.batchesIn_ledgerOf m habout] at hpending
  exact hpending

/-- A drain that begins leaves nothing behind. -/
theorem pending_advance_of_about
    {id : Nat}
    (habout : w.isAboutToDrain id = true) :
    (w.advance id).pending = [] := by
  have hpending := (w.books_move (.advance id)).pending
  have htaken : takenIn [.taken id w.pending] = w.pending := List.append_nil _
  rw [w.ledgerOf_of_about habout, htaken] at hpending
  exact List.append_cancel_left hpending

/-- A drain that is under way is back after its turn just when its batch is over. -/
theorem isBack_advance_of_draining
    {id : Nat}
    {rest : List Nat}
    (hbatch : w.batch? id = some rest) :
    (w.advance id).isBack id = true ↔ ∀ n ∈ rest, w.isDelivered n = true := by
  obtain ⟨strand, recorded, hstrand, hdraining⟩ := exists_of_batch? hbatch
  have hstrands := w.strands_advance_of_draining hstrand hdraining
  have hback : (w.advance id).isBack id = (w.unsettled rest).isEmpty := by
    cases hempty : (w.unsettled rest).isEmpty with
    | true =>
        simp [isBack, hstrands, hstrand, statusAfter, hempty, StrandStatus.isBack]
    | false =>
        simp [isBack, hstrands, hstrand, statusAfter, hempty, StrandStatus.isBack]
  rw [hback, List.isEmpty_iff, unsettled, List.filter_eq_nil_iff]
  simp

theorem pending_advance_of_draining
    {id : Nat}
    {rest : List Nat}
    (hbatch : w.batch? id = some rest) :
    (w.advance id).pending = w.pending := by
  obtain ⟨strand, recorded, hstrand, hdraining⟩ := exists_of_batch? hbatch
  have hpending := (w.books_move (.advance id)).pending
  simp only [ledgerOf, turnOf, hstrand, hdraining] at hpending
  exact hpending.trans (List.append_nil _)

/-- A reporter that reports nothing hands over nothing, and nothing more waits to be drained. -/
theorem tally_send_of_not_reporting
    (hsilent : w.isReporting = false)
    (sender : Sender)
    (event : String)
    (properties : Fields) :
    (w.send sender event properties).tally = w.tally := by
  have hbooks := w.books_send sender event properties
  have hledger : w.sendOf sender event properties = [] := by
    rw [sendOf, hsilent]
    rfl
  rw [hledger] at hbooks
  have hhanded := hbooks.handed
  have hevents := hbooks.events
  exact Tally.ext (hhanded.trans (List.append_nil _)) (hevents.trans (List.append_nil _))
    (hbooks.pending.trans (List.append_nil _)) hbooks.stamps

theorem tally_send_of_reporting
    (hreporting : w.isReporting = true)
    (sender : Sender)
    (event : String)
    (properties : Fields) :
    (w.send sender event properties).tally =
      ⟨w.handed ++ [(sender, w.reporter.client.payload event (w.stamps w.deliveries.length)
          (w.reporter.merged properties))],
        w.deliveries.map Delivery.event ++ [event], w.pending ++ [w.deliveries.length], w.stamps⟩ := by
  have hbooks := w.books_send sender event properties
  have hledger : w.sendOf sender event properties =
      [.handed ⟨sender, w.reporter.client.message event (w.reporter.merged properties), false⟩] := by
    rw [sendOf, hreporting]
    rfl
  rw [hledger] at hbooks
  exact Tally.ext hbooks.handed hbooks.events hbooks.pending hbooks.stamps

/-- What a drain still waits for had been handed over when it began. -/
theorem Chronicle.held
    (h : Chronicle ledgerOf first w told)
    (hfirst : Untouched first)
    {id : Nat}
    {rest : List Nat}
    (hbatch : w.batch? id = some rest) :
    ∃ before batch behind, told = before ++ .taken id batch :: behind ∧
      (∀ other, .taken id other ∉ behind) ∧ rest.Sublist batch ∧
      (∀ n ∈ batch, n ∉ rest → w.HasFinished n) ∧
      ∀ n ∈ rest, n ∈ acceptedIn before ∧ n < (dispatchesIn before).length := by
  obtain ⟨before, batch, behind, htold, hlast, hsublist, hdone⟩ :=
    h.holds hfirst hbatch
  refine ⟨before, batch, behind, htold, hlast, hsublist, hdone, fun n hn => ?_⟩
  obtain ⟨u, hu, -, hwaiting, -⟩ := h.begun htold
  obtain ⟨hplaced, -⟩ := hu.books.made hfirst
  have haccepted : n ∈ acceptedIn before := by
    rw [← hplaced, hwaiting]
    exact List.mem_append_right _ (hsublist.subset hn)
  have hbound := (mem_acceptedFrom haccepted).2
  exact ⟨haccepted, by omega⟩

/-- A drain that is under way is back after its turn just when what it waits for has finished. -/
theorem Chronicle.back
    (h : Chronicle ledgerOf first w told)
    (hfirst : Untouched first)
    {id : Nat}
    {rest : List Nat}
    (hbatch : w.batch? id = some rest) :
    (w.advance id).isBack id = true ↔ ∀ n ∈ rest, w.HasFinished n := by
  obtain ⟨before, batch, behind, rfl, -, -, -, hbefore⟩ := h.held hfirst hbatch
  have hlength := h.books.length
  rw [hfirst.deliveries, dispatchesIn_append, List.length_append, List.length_nil] at hlength
  have hmade : ∀ n ∈ rest, n < w.deliveries.length := by
    intro n hn
    have hbound := (hbefore n hn).2
    omega
  rw [isBack_advance_of_draining hbatch]
  constructor
  · exact fun hall n hn => hasFinished_iff.mpr ⟨hmade n hn, hall n hn⟩
  · exact fun hall n hn => (hasFinished_iff.mp (hall n hn)).2

theorem Chronicle.conserves
    (h : Chronicle ledgerOf first w told)
    (hfirst : Untouched first) :
    Conserves first told w := by
  obtain ⟨hplaced, -⟩ := h.books.made hfirst
  have hnodup : (takenIn told ++ w.pending).Nodup := hplaced ▸ nodup_acceptedIn told
  exact
    { handed := by
        have hsame := h.books.handed
        rw [hfirst.handed, hfirst.deliveries] at hsame
        exact hsame
      delivered := by
        have hsame := h.books.events
        rw [hfirst.deliveries] at hsame
        exact hsame
      sent := fun sender event properties hreporting =>
        tally_send_of_reporting hreporting sender event properties
      refused := by
        intro sender event properties hrefuses
        refine tally_send_of_not_reporting ?_ sender event properties
        rcases hrefuses with h | h | h
        · simp [isReporting, h]
        · simp [isReporting, DeliveryClient.isEnabled, h]
        · simp [isReporting, h]
      ordered := hplaced
      placed := fun n hn => placed_of_nodup hnodup (hplaced ▸ hn)
      counted := by
        intro list scope
        have hlength := congrArg List.length hplaced
        rw [List.length_append] at hlength
        have hcount : (acceptedIn told).length - (takenIn told).length = w.pending.length := by
          omega
        rw [hcount]
        rfl
      stays := fun m habout => pending_move habout ▸ List.prefix_append _ _
      taken := fun id habout =>
        ⟨pending_advance_of_about habout, (w.batch?_advance_of_about habout).1⟩
      begun := fun before id batch behind htold => h.begun htold
      held := fun id rest hbatch => h.held hfirst hbatch
      back := fun id rest hbatch => ⟨h.back hfirst hbatch, pending_advance_of_draining hbatch⟩ }

end Conserved

/-- Whatever is done and in whatever order, and however deliveries end, there is a ledger, and by it sends
and deliveries are conserved. -/
theorem conserves_of_evolves
    {reporter : Reporter}
    {hasRuntime : Bool}
    {stamps : Nat → Int}
    {source : InterruptSource}
    {plans : List DeliveryPlan}
    {w : World}
    (h : Evolves (World.start reporter hasRuntime stamps source plans) w) :
    (∃ told, Chronicle ledgerOf (World.start reporter hasRuntime stamps source plans) w told) ∧
      ∀ told, Chronicle ledgerOf (World.start reporter hasRuntime stamps source plans) w told →
        Conserves (World.start reporter hasRuntime stamps source plans) told w := by
  have hstart : Untouched (World.start reporter hasRuntime stamps source plans) := by
    refine ⟨rfl, rfl, rfl, fun id => ?_⟩
    cases id with
    | zero =>
        rfl
    | succ n =>
        rfl
  exact ⟨h.chronicle ledgerOf, fun told htold => htold.conserves hstart⟩

/-- For instance, when one strand drains two events while another one sends a third, and the deliveries
fail, panic and hang. -/
theorem conserves_plainRun :
    let plans : List DeliveryPlan := [⟨none, .fail⟩, ⟨none, .panic⟩, ⟨none, .hang⟩]
    let script : Script :=
      [.act (.send "a" []), .act (.send "b" []),
        .parallel none [[.drain true], [.act (.send "c" [])]] false]
    let ms : List Move := [.advance 0, .advance 0, .advance 0, .advance 1, .advance 2, .deliver 2,
      .deliver 0, .advance 1, .deliver 1, .advance 1]
    let first := World.start plainReporter true plainStamps .channel plans
    let told := toldOf ledgerOf (first.beginScript script) ms
    let w := plainRun plans script ms
    acceptedIn told = [0, 1, 2] ∧ batchesIn told = [(1, [0, 1])] ∧ w.isBack 1 = true ∧
      w.pending = [2] ∧ w.handed.map (·.2.event) = ["a", "b", "c"] ∧ Conserves first told w := by
  intro plans script ms first told w
  have htold : Chronicle ledgerOf first w told := (Chronicle.refl.script script rfl).moves ms
  exact ⟨by decide +kernel, by decide +kernel, by decide +kernel, by decide +kernel,
    by decide +kernel, (conserves_of_evolves (evolves_plainRun plans script ms)).2 told htold⟩

end World
end LifecycleTelemetry
