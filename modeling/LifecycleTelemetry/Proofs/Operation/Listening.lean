import LifecycleTelemetry.Proofs.Operation.CallStep
import LifecycleTelemetry.Proofs.Operation.Stride

/-!
# Listeners last as long as races

On a channel, the listeners are those of the calls whose race has not been decided, one for each: none
is left behind by a call that is over, in whatever way it came to its end. The number of listeners that
a channel counts is therefore the number of undecided calls, in every world that a program may come to
and in the middle of the turns that make and end calls.

The invariant `Attuned` compares the channel with what the calls know of their listeners. A call that
is made brings one listener, and a call that is over has taken its own away; everything else leaves
both sides alone.
-/

namespace LifecycleTelemetry

/-- The place of a listener on a channel, if it has one. -/
def Listener.receiver? : Listener → Option Nat
  | .receiver id => some id
  | _ => none

theorem Listener.receiver?_eq_some
    {l : Listener}
    {id : Nat} :
    l.receiver? = some id ↔ l = .receiver id := by
  cases l <;> simp [Listener.receiver?]

/-- What a call knows of its listener, and how far it is. -/
def Call.ear (c : Call) : Listener × CallPhase :=
  (c.listener, c.phase)

namespace World

/-- The calls of a world, by their listeners and phases. -/
def ears (w : World) : List (Listener × CallPhase) :=
  w.calls.map Call.ear

/-- The number of calls whose race has not been decided. -/
def undecided (w : World) : Nat :=
  w.calls.countP fun c => !c.phase.isOver

/-- The listeners on the channel are those of the calls whose race has not been decided, one for
each call. -/
structure Attuned (w : World) : Prop where
  source : w.source = .channel
  ids : w.channel.ids = w.ears.filterMap fun e : Listener × CallPhase => e.1.receiver?
  distinct : w.channel.ids.Nodup
  fresh : ∀ id ∈ w.channel.ids, id < w.channel.nextId
  listening : ∀ (n : Nat) (e : Listener × CallPhase), w.ears[n]? = some e →
    e.1.receiver?.isSome = !e.2.isOver

section Attuned

variable {w after : World}

theorem undecided_eq
    (w : World) :
    w.undecided = w.ears.countP fun e : Listener × CallPhase => !e.2.isOver := by
  rw [ears, List.countP_map]
  rfl

/-- A channel counts as many listeners as there are undecided calls. -/
theorem Attuned.active
    (hw : Attuned w) :
    w.channel.active = w.undecided := by
  have hcount : w.ears.countP (fun e : Listener × CallPhase => e.1.receiver?.isSome) =
      w.undecided := by
    rw [undecided_eq]
    refine List.countP_congr fun e he => ?_
    obtain ⟨n, hn⟩ := List.getElem?_of_mem he
    rw [hw.listening n e hn]
  have hlength : w.channel.active = w.channel.ids.length := (List.length_map _).symm
  rw [hlength, hw.ids, List.length_filterMap_eq_countP, hcount]

theorem Attuned.congr
    (hw : Attuned w)
    (hsource : after.source = w.source)
    (hears : after.ears = w.ears)
    (hids : after.channel.ids = w.channel.ids)
    (hnextId : after.channel.nextId = w.channel.nextId) :
    Attuned after := by
  refine ⟨hsource.trans hw.source, ?_, ?_, ?_, ?_⟩
  · rw [hids, hears, hw.ids]
  · rw [hids]
    exact hw.distinct
  · rw [hids, hnextId]
    exact hw.fresh
  · rw [hears]
    exact hw.listening

theorem Attuned.apart
    (hw : Attuned w)
    (h : Apart w after) :
    Attuned after :=
  hw.congr h.source (by rw [ears, ears, h.calls]) (by rw [h.channel]) (by rw [h.channel])

theorem Attuned.adds
    (hw : Attuned w)
    {added : List (Nat × Option Nat)}
    (h : Adds w added after) :
    Attuned after :=
  hw.congr h.source (by rw [ears, ears, h.calls]) (by rw [h.channel]) (by rw [h.channel])

theorem ears_withCall
    (w : World)
    {change : Call → Call}
    (changed : Listener × CallPhase → Listener × CallPhase)
    (h : ∀ c, (change c).ear = changed c.ear)
    (n : Nat) :
    (w.withCall n change).ears = w.ears.modify n changed :=
  map_modify Call.ear change changed h w.calls n

/-- Contributions do not show in what a call knows of its listener. -/
theorem Acts.ears
    {scope : Option Nat}
    {given : List Contribution}
    (h : Acts w scope given after) :
    after.ears = w.ears := by
  have hcalls := h.calls
  cases scope with
  | none =>
      rw [World.ears, hcalls]
      rfl
  | some n =>
      simp only at hcalls
      rw [World.ears, hcalls]
      exact (map_modify Call.ear (Call.receive given) (fun e => e) (fun _ => rfl) w.calls n).trans
        (List.modify_id n w.ears)

theorem Attuned.acts
    (hw : Attuned w)
    {scope : Option Nat}
    {given : List Contribution}
    (h : Acts w scope given after) :
    Attuned after :=
  hw.congr h.source h.ears h.ids h.nextId

end Attuned

/-! ## Taking a listener away -/

section Leaving

variable {w : World}

/-- An element whose view is gone takes just that view out of the views of a list. -/
theorem filterMap_modify
    {α : Type}
    (view : α → Option Nat)
    (change : α → α)
    {xs : List α}
    {n : Nat}
    {x : α}
    (hx : xs[n]? = some x)
    (hgone : view (change x) = none)
    (hdistinct : (xs.filterMap view).Nodup) :
    (xs.modify n change).filterMap view =
      match view x with
      | some id => (xs.filterMap view).filter fun other => other != id
      | none => xs.filterMap view := by
  obtain ⟨before, y, behind, hxs, hlength, hmodify⟩ :=
    List.exists_of_modify change (List.getElem?_eq_some_iff.mp hx).1
  have hy : y = x := by
    rw [hxs, ← hlength] at hx
    simpa using hx
  subst hy
  rw [hmodify, hxs]
  rw [hxs] at hdistinct
  simp only [List.filterMap_append, List.filterMap_cons, hgone] at hdistinct ⊢
  cases hview : view y with
  | none =>
      simp
  | some id =>
      simp only [hview, List.nodup_append, List.nodup_cons] at hdistinct ⊢
      obtain ⟨-, ⟨hbehind, -⟩, hbefore⟩ := hdistinct
      have hkept : ∀ ids : List Nat, id ∉ ids → ids.filter (fun other => other != id) = ids := by
        intro ids hid
        refine List.filter_eq_self.mpr fun other hother => ?_
        simpa using fun h : other = id => hid (h ▸ hother)
      rw [List.filter_append, List.filter_cons, if_neg (by simp), hkept _ hbehind, hkept]
      intro hmem
      exact hbefore id hmem id List.mem_cons_self rfl

/-- The elements of a list with a property are as many as their places. -/
theorem countP_eq_places
    {α : Type}
    (p : α → Bool)
    (xs : List α) :
    xs.countP p = ((List.range xs.length).filter fun n => (xs[n]?).any p).length := by
  induction xs with
  | nil =>
      rfl
  | cons x rest ih =>
      have hrest : (List.filter (fun n => ((x :: rest)[n]?).any p)
          ((List.range rest.length).map Nat.succ)).length = rest.countP p := by
        rw [List.filter_map, List.length_map, ih]
        rfl
      rw [List.length_cons, List.range_succ_eq_map, List.filter_cons, List.countP_cons, ← hrest]
      by_cases hx : p x = true
      · simp [hx]
      · simp [hx]

/-- A call whose listener is released and that takes a new phase is left without a listener. -/
theorem ears_leave
    (w : World)
    (n : Nat)
    (phase : CallPhase)
    {change : Call → Call}
    (hchange : ∀ c, (change c).ear = (c.listener, phase)) :
    ((w.release n).withCall n change).ears = w.ears.modify n fun _ => (.unarmed, phase) := by
  have hreleased : (w.release n).ears = w.ears.modify n fun e => (.unarmed, e.2) := by
    rw [ears, calls_release]
    exact map_modify Call.ear _ _ (fun _ => rfl) w.calls n
  rw [ears_withCall _ (fun e => (e.1, phase)) hchange, hreleased, List.modify_modify_eq]
  rfl

theorem channel_release
    (w : World)
    {n : Nat}
    {c : Call}
    (hcall : w.calls[n]? = some c) :
    (w.release n).channel = c.listener.release w.channel := by
  simp [release, hcall]

/-- A listener that is released takes at most its own place on the channel away. -/
theorem ids_release
    (l : Listener)
    (c : Channel) :
    (l.release c).nextId = c.nextId ∧
      (l.release c).ids =
        match l.receiver? with
        | some id => c.ids.filter fun other => other != id
        | none => c.ids := by
  cases l with
  | receiver id =>
      refine ⟨rfl, ?_⟩
      simp only [Listener.receiver?, Listener.release, Channel.ids, Channel.drop, List.filter_map]
      rfl
  | _ =>
      exact ⟨rfl, rfl⟩

/-- A call that is over has its listener taken away, and no other call has. -/
theorem Attuned.leave
    (hw : Attuned w)
    (n : Nat)
    (phase : CallPhase)
    {change : Call → Call}
    (hchange : ∀ c, (change c).ear = (c.listener, phase))
    (hover : phase.isOver = true) :
    Attuned ((w.release n).withCall n change) := by
  have hears := ears_leave w n phase hchange
  cases hcall : w.calls[n]? with
  | none =>
      have hsame : w.release n = w := by
        simp [release, hcall]
      rw [hsame] at hears ⊢
      have hbeyond : w.ears.length ≤ n := by
        rw [World.ears, List.length_map]
        exact List.getElem?_eq_none_iff.mp hcall
      rw [List.modify_eq_self hbeyond] at hears
      exact hw.congr rfl hears rfl rfl
  | some c =>
      have hear : w.ears[n]? = some c.ear := by
        simp [World.ears, hcall]
      obtain ⟨hnextId, hids⟩ := ids_release c.listener w.channel
      rw [← channel_release w hcall] at hids hnextId
      have hleft : (w.release n).channel.ids =
          (w.ears.modify n fun _ => (.unarmed, phase)).filterMap
            fun e : Listener × CallPhase => e.1.receiver? := by
        rw [hids, filterMap_modify _ _ hear rfl (hw.ids ▸ hw.distinct), ← hw.ids]
        rfl
      have hsublist : (w.release n).channel.ids.Sublist w.channel.ids := by
        rw [hids]
        split
        · exact List.filter_sublist
        · exact List.Sublist.refl _
      have hsource : (w.release n).source = w.source := by
        simp [release, hcall, withCall]
      refine ⟨hsource.trans hw.source, hleft.trans (by rw [hears]), hw.distinct.sublist hsublist,
        ?_, ?_⟩
      · intro id hid
        exact hnextId ▸ hw.fresh id (hsublist.subset hid)
      · intro m e he
        rw [hears, List.getElem?_modify] at he
        obtain ⟨old, hold, rfl⟩ := Option.map_eq_some_iff.mp he
        by_cases hm : n = m
        · simp [hm, Listener.receiver?, hover]
        · simpa [hm] using hw.listening m old hold

end Leaving

/-! ## Making a call -/

section Joining

variable {w after : World}

/-- A call that is made listens on the channel, at a place of its own. -/
structure Joins (w : World) (after : World) : Prop where
  source : after.source = w.source
  ears : after.ears = w.ears ++ [(.receiver w.channel.nextId, .building)]
  ids : after.channel.ids = w.channel.ids ++ [w.channel.nextId]
  nextId : after.channel.nextId = w.channel.nextId + 1

theorem joins_openCall
    (hsource : w.source = .channel)
    (id : Nat)
    (subject : Subject)
    (propagate : Bool)
    (abandonAfter : Option Nat) :
    Joins w (w.openCall id subject propagate abandonAfter) := by
  have hreport := apart_report (w.addCall (w.newCall id subject propagate abandonAfter))
    w.calls.length ⟨subject, .started⟩
  simp only [openCall]
  generalize (w.addCall (w.newCall id subject propagate abandonAfter)).report w.calls.length
    ⟨subject, .started⟩ = reported at hreport ⊢
  have hlistened : reported.source = .channel := hreport.source.trans hsource
  have hchannel : reported.channel = w.channel := hreport.channel
  have heq : reported.listenFor w.calls.length =
      World.withCall { reported with channel := w.channel.listen.2 } w.calls.length
        fun c => { c with listener := .receiver w.channel.nextId } := by
    simp [listenFor, listen, hlistened, InterruptSource.listen?, Channel.listen, hchannel]
  rw [heq]
  refine ⟨hreport.source, ?_, by simp [withCall, Channel.ids, Channel.listen], rfl⟩
  rw [ears_withCall _ (fun e => (.receiver w.channel.nextId, e.2)) fun _ => rfl]
  have hears : World.ears { reported with channel := w.channel.listen.2 } =
      w.ears ++ [(.unarmed, .building)] := by
    rw [World.ears, hreport.calls]
    exact List.map_append
  have hlength : w.calls.length = w.ears.length := (List.length_map _).symm
  rw [hears, hlength, modify_length_append]

theorem Joins.acts
    {mid : World}
    (h₁ : Joins w mid)
    {scope : Option Nat}
    {given : List Contribution}
    (h₂ : Acts mid scope given after) :
    Joins w after :=
  ⟨h₂.source.trans h₁.source, h₂.ears.trans h₁.ears, h₂.ids.trans h₁.ids,
    h₂.nextId.trans h₁.nextId⟩

theorem Attuned.joins
    (hw : Attuned w)
    (h : Joins w after) :
    Attuned after := by
  refine ⟨h.source.trans hw.source, ?_, ?_, ?_, ?_⟩
  · rw [h.ids, h.ears, hw.ids, List.filterMap_append]
    rfl
  · rw [h.ids]
    refine List.nodup_append.mpr ⟨hw.distinct, by simp, ?_⟩
    intro id hid other hother heq
    have hfresh := hw.fresh id hid
    rw [heq, List.mem_singleton.mp hother] at hfresh
    exact Nat.lt_irrefl _ hfresh
  · intro id hid
    rw [h.ids, List.mem_append] at hid
    rw [h.nextId]
    rcases hid with hid | hid
    · exact Nat.lt_succ_of_lt (hw.fresh id hid)
    · exact List.mem_singleton.mp hid ▸ Nat.lt_succ_self _
  · intro n e he
    rw [h.ears, List.getElem?_append] at he
    split at he
    · exact hw.listening n e he
    · obtain ⟨-, rfl⟩ := List.getElem?_eq_some_iff.mp he
      simp [Listener.receiver?, CallPhase.isOver]

/-- A call that is not over may take another phase in which it is not over. -/
theorem Attuned.rephase
    (hw : Attuned w)
    {n : Nat}
    (phase : CallPhase)
    (hopen : ∀ e, w.ears[n]? = some e → e.2.isOver = false)
    (hphase : phase.isOver = false) :
    Attuned (w.withCall n fun c => { c with phase }) := by
  have hears := ears_withCall w (fun e => (e.1, phase))
    (fun c => (rfl : ({ c with phase } : Call).ear = _)) n
  refine ⟨hw.source, ?_, hw.distinct, hw.fresh, ?_⟩
  · have hfirst := map_modify Prod.fst (fun e : Listener × CallPhase => (e.1, phase))
      (fun l => l) (fun _ => rfl) w.ears n
    have hviews : ∀ es : List (Listener × CallPhase),
        es.filterMap (fun e => e.1.receiver?) =
          (es.map Prod.fst).filterMap Listener.receiver? := by
      intro es
      rw [List.filterMap_map]
      rfl
    have hsame := List.modify_id n (w.ears.map Prod.fst)
    rw [hears, hviews, hfirst]
    exact hw.ids.trans ((hviews _).trans (congrArg _ hsame.symm))
  · intro m e he
    rw [hears, List.getElem?_modify] at he
    obtain ⟨old, hold, rfl⟩ := Option.map_eq_some_iff.mp he
    by_cases hm : n = m
    · subst hm
      simpa [hphase, hopen old hold] using hw.listening n old hold
    · simpa [hm] using hw.listening m old hold

end Joining

/-! ## Every change -/

section Changes

variable {w after : World}

theorem Attuned.collapse
    (hw : Attuned w)
    (id : Nat)
    (list : String)
    (call : Nat)
    (p : PanicPayload)
    (propagate : Bool) :
    Attuned (w.collapse id list call p propagate) := by
  have hleft : Attuned ((w.release call).withCall call fun c => { c with phase := .collapsed p }) :=
    hw.leave call (.collapsed p) (fun _ => rfl) rfl
  exact hleft.apart (w.apart_collapse id list call p propagate)

theorem Attuned.startRace
    (hw : Attuned w)
    (id : Nat)
    (inner : String)
    {call : Nat}
    (body : Script)
    (hopen : ∀ e, w.ears[call]? = some e → e.2.isOver = false) :
    Attuned (w.startRace id inner call body) := by
  have hspawned := hw.adds (adds_spawnTask w inner body (some call))
  have hracing := hspawned.rephase (.racing (w.spawnTask inner body (some call)).1) hopen rfl
  exact hracing.apart (apart_withStatus _ id _)

theorem Joins.building
    (h : Joins w after) :
    after.ears[w.calls.length]? = some (.receiver w.channel.nextId, .building) := by
  have hlength : w.calls.length = w.ears.length := (List.length_map _).symm
  rw [h.ears, hlength]
  exact List.getElem?_concat_length

theorem joins_build
    (hsource : w.source = .channel)
    (id : Nat)
    (inner : String)
    (subject : Subject)
    (steps : List BuildStep)
    (propagate : Bool)
    (abandonAfter : Option Nat) :
    Joins w
      ((w.openCall id subject propagate abandonAfter).build inner w.calls.length steps).2 :=
  (joins_openCall hsource id subject propagate abandonAfter).acts (acts_build _ inner _ steps)

theorem Attuned.instrument
    (hw : Attuned w)
    (id : Nat)
    (list inner : String)
    (subject : Subject)
    (steps : List BuildStep)
    (body : Script)
    (propagate : Bool)
    (abandonAfter : Option Nat) :
    Attuned (w.instrument id list inner subject steps body propagate abandonAfter) := by
  have hjoins := joins_build hw.source id inner subject (w.readied steps) propagate abandonAfter
  rw [instrument_eq]
  cases hbuilt : (w.openCall id subject propagate abandonAfter).build inner w.calls.length
    (w.readied steps) with
  | mk panic built =>
      rw [hbuilt] at hjoins
      cases panic with
      | some p =>
          exact (hw.joins hjoins).collapse id list _ p propagate
      | none =>
          refine (hw.joins hjoins).startRace id inner body fun e he => ?_
          have hbuilding := hjoins.building.symm.trans he
          cases hbuilding
          rfl

theorem Attuned.beforeEnding
    (hw : Attuned w)
    (number : Nat)
    (call : Call)
    (s : Settlement) :
    Attuned (((w.announce s).release number).settle number call s) :=
  (hw.apart (w.apart_announce s)).leave number (.settled s) (fun _ => rfl) rfl

theorem Attuned.dropCall
    (hw : Attuned w)
    (number : Nat) :
    Attuned (w.dropCall number) :=
  hw.leave number .abandoned (fun _ => rfl) rfl

theorem Attuned.advance
    (hw : Attuned w)
    (id : Nat) :
    Attuned (w.advance id) := by
  have hstride := w.stride_advance id
  generalize w.advance id = after at hstride
  cases hstride with
  | apart _ h =>
      exact hw.apart h
  | acts _ _ _ =>
      exact (hw.apart (w.apart_pass id _)).acts (acts_act _ _ _ _)
  | adds _ _ h _ =>
      exact hw.adds h
  | opens _ _ _ =>
      exact (hw.apart (w.apart_pass id _)).instrument id _ _ _ _ _ _ _
  | @concludes strand number call s _ _ _ _ =>
      exact (hw.beforeEnding number call s).apart (w.apart_conclude id strand.list number call s)
  | @abandons strand number _ _ =>
      exact (hw.dropCall number).apart (w.apart_abandon id strand.list number)

theorem Attuned.foldl_dropCall
    (hw : Attuned w)
    (calls : List Nat) :
    Attuned (calls.foldl World.dropCall w) := by
  induction calls generalizing w with
  | nil =>
      exact hw
  | cons call rest ih =>
      exact ih (hw.dropCall call)

theorem Attuned.move
    (hw : Attuned w)
    (m : Move) :
    Attuned (w.move m) := by
  cases m with
  | advance id =>
      exact hw.advance id
  | deliver id =>
      exact hw.apart (w.apart_deliver id)
  | pass time =>
      exact hw.apart ⟨rfl, rfl, rfl, rfl⟩
  | signal s =>
      obtain ⟨hids, hnextId⟩ := ids_trigger w.channel s
      exact hw.congr rfl rfl hids hnextId
  | abort task =>
      exact (hw.foldl_dropCall (w.racesOf task)).congr rfl rfl rfl rfl

/-- Nobody listens in a world in which nothing has happened. -/
theorem attuned_start
    (reporter : Reporter)
    (hasRuntime : Bool)
    (stamps : Nat → Int)
    (plans : List DeliveryPlan) :
    Attuned (World.start reporter hasRuntime stamps .channel plans) :=
  ⟨rfl, rfl, List.nodup_nil, nofun, nofun⟩

theorem Attuned.evolves
    (hw : Attuned w)
    (h : Evolves w after) :
    Attuned after := by
  induction h with
  | refl =>
      exact hw
  | move m _ ih =>
      exact ih.move m
  | script s _ _ ih =>
      exact ih.apart (apart_withStrand _ 0 _ fun _ => rfl)
  | rouse woken _ ih =>
      exact ih.apart ⟨rfl, rfl, rfl, rfl⟩
  | mark pending listeners _ ih =>
      exact ih.apart (apart_note _ _)

end Changes

/-! ## The scope of a listener -/

/-- The listeners on the channel are those of the calls whose race has not been decided. -/
structure Listens (w : World) : Prop where
  /-- There are as many listeners as calls that are not over, -/
  active : w.channel.active = w.calls.countP fun c : Call => !c.phase.isOver
  /-- each of these calls has one of its own, -/
  installed : ∀ (n : Nat) (c : Call), w.calls[n]? = some c → c.phase.isOver = false →
    ∃ id ∈ w.channel.ids, c.listener = .receiver id
  distinct : ∀ (n m : Nat) (c d : Call) (id : Nat), w.calls[n]? = some c → w.calls[m]? = some d →
    c.listener = .receiver id → d.listener = .receiver id → n = m
  /-- and a call that is over has none. -/
  released : ∀ (n : Nat) (c : Call), w.calls[n]? = some c → c.phase.isOver = true →
    ∀ id, c.listener ≠ .receiver id

/-- Listeners last as long as the races of their calls. -/
structure ListenersScoped (w : World) : Prop extends Listens w where
  /-- When a call is made it listens before any of the code that builds its operation runs, and all
  the time while it runs. -/
  opening : ∀ (id : Nat) (strand : Strand) (name : Option String) (subject : Subject)
      (before after : List BuildStep) (body rest : Script) (propagate : Bool)
      (abandonAfter : Option Nat),
    w.strands[id]? = some strand → strand.status = .ready →
    strand.rest = .instrument name subject (before ++ after) body propagate abandonAfter :: rest →
    let inner := innerName strand.list strand.index name
    let during := ((w.pass id rest).openCall id subject propagate abandonAfter).build inner
      w.calls.length before
    during.1 = none →
    Listens during.2 ∧
      (∃ c, during.2.calls[w.calls.length]? = some c ∧ c.phase = .building) ∧
      w.advance id = afterBuild id strand.list inner w.calls.length body propagate
        (during.2.build inner w.calls.length (w.readied after))
  /-- When a race is decided the listener has been released before the ending is handed over. -/
  closing : ∀ (id : Nat) (strand : Strand) (number : Nat) (call : Call) (s : Settlement),
    w.strands[id]? = some strand → strand.status = .racing number →
    w.calls[number]? = some call → w.settlement? call = some s →
    let before := ((w.announce s).release number).settle number call s
    Listens before ∧
      (∃ c, before.calls[number]? = some c ∧ c.phase = .settled s) ∧
      before.reports number = w.reports number ∧
      w.advance id = ((before.report number (endingOf call s before.clock)).record strand.list
        .instrument (.outcome s.outcome)).hand id s.outcome call.propagate

section Scoped

variable {w : World}

theorem getElem?_ears
    {n : Nat}
    {c : Call}
    (hcall : w.calls[n]? = some c) :
    w.ears[n]? = some c.ear := by
  simp [ears, hcall]

theorem call_of_ears
    {n : Nat}
    {e : Listener × CallPhase}
    (he : w.ears[n]? = some e) :
    ∃ c, w.calls[n]? = some c ∧ c.ear = e := by
  rw [ears, List.getElem?_map] at he
  exact Option.map_eq_some_iff.mp he

/-- Views that are all different belong to different elements. -/
theorem index_unique
    {α : Type}
    (view : α → Option Nat)
    {xs : List α}
    (hdistinct : (xs.filterMap view).Nodup)
    {n m : Nat}
    {x y : α}
    {id : Nat}
    (hx : xs[n]? = some x)
    (hy : xs[m]? = some y)
    (hvx : view x = some id)
    (hvy : view y = some id) :
    n = m := by
  induction xs generalizing n m with
  | nil =>
      cases hx
  | cons z rest ih =>
      have hmem : ∀ {k : Nat} {u : α}, rest[k]? = some u → view u = some id →
          id ∈ rest.filterMap view :=
        fun hu hvu => List.mem_filterMap.mpr ⟨_, List.mem_of_getElem? hu, hvu⟩
      rw [List.filterMap_cons] at hdistinct
      cases n with
      | zero =>
          cases m with
          | zero =>
              rfl
          | succ m =>
              simp only [List.getElem?_cons_zero, Option.some.injEq] at hx
              simp only [hx, hvx, List.nodup_cons] at hdistinct
              exact (hdistinct.1 (hmem hy hvy)).elim
      | succ n =>
          cases m with
          | zero =>
              simp only [List.getElem?_cons_zero, Option.some.injEq] at hy
              simp only [hy, hvy, List.nodup_cons] at hdistinct
              exact (hdistinct.1 (hmem hx hvx)).elim
          | succ m =>
              have hrest : (rest.filterMap view).Nodup := by
                cases hz : view z with
                | none =>
                    simpa only [hz] using hdistinct
                | some other =>
                    simp only [hz, List.nodup_cons] at hdistinct
                    exact hdistinct.2
              rw [ih hrest hx hy]

theorem Attuned.listens
    (hw : Attuned w) :
    Listens w where
  active := hw.active
  installed := by
    intro n c hcall hopen
    have hear := getElem?_ears hcall
    have hlistening := hw.listening n c.ear hear
    simp only [Call.ear, hopen, Bool.not_false] at hlistening
    obtain ⟨id, hid⟩ := Option.isSome_iff_exists.mp hlistening
    refine ⟨id, ?_, Listener.receiver?_eq_some.mp hid⟩
    rw [hw.ids]
    exact List.mem_filterMap.mpr ⟨c.ear, List.mem_of_getElem? hear, hid⟩
  distinct := by
    intro n m c d id hc hd hlistener hother
    have hdistinct := hw.ids ▸ hw.distinct
    have hear : c.ear.1.receiver? = some id := Listener.receiver?_eq_some.mpr hlistener
    have hear' : d.ear.1.receiver? = some id := Listener.receiver?_eq_some.mpr hother
    exact index_unique _ hdistinct (getElem?_ears hc) (getElem?_ears hd) hear hear'
  released := by
    intro n c hcall hover id hlistener
    have hlistening := hw.listening n c.ear (getElem?_ears hcall)
    simp [Call.ear, hlistener, Listener.receiver?, hover] at hlistening

theorem Attuned.listenersScoped
    (hw : Attuned w) :
    ListenersScoped w where
  toListens := hw.listens
  opening := by
    intro id strand name subject before after body rest propagate abandonAfter hstrand hready hrest
      inner during hgoes
    have hpass := hw.apart (w.apart_pass id rest)
    have hjoins := joins_build hpass.source id inner subject before propagate abandonAfter
    refine ⟨(hpass.joins hjoins).listens, ?_, ?_⟩
    · obtain ⟨c, hcall, hear⟩ := call_of_ears hjoins.building
      exact ⟨c, hcall, congrArg Prod.snd hear⟩
    · rw [w.advance_of_opening id hstrand hready hrest, instrument_eq]
      rw [readied_append]
      exact congrArg _ (build_append _ _ _ before (w.readied after) hgoes)
  closing := by
    intro id strand number call s hstrand hracing hcall hsettled before
    refine ⟨(hw.beforeEnding number call s).listens, ?_, ?_, ?_⟩
    · have hears : before.ears = (w.announce s).ears.modify number fun _ => (.unarmed, .settled s) :=
        ears_leave (w.announce s) number (.settled s) fun _ => rfl
      have hsame : (w.announce s).ears = w.ears := by
        rw [ears, (w.apart_announce s).calls, ears]
      have hear : before.ears[number]? = some (.unarmed, .settled s) := by
        rw [hears, hsame]
        simp [getElem?_ears hcall]
      obtain ⟨c, hcall, hear⟩ := call_of_ears hear
      exact ⟨c, hcall, congrArg Prod.snd hear⟩
    · exact (quiet_before_settle 0 w number s).reports number
    · rw [w.advance_of_decided id hstrand hracing hcall hsettled]
      rfl

end Scoped

end World
end LifecycleTelemetry
