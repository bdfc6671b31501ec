import LifecycleTelemetry.Interrupt.Listener

/-!
# Audiences

A channel in the hands of a program. The program has handles on the channel, through which it raises
signals, installs listeners and makes further handles, and it has the listeners that it has installed.
When the last handle is gone the channel is closed.

To get the signal of a listener, a program begins to receive. It may be told any number of times that
there is nothing yet, give up, and begin again. Everything that is done to a channel is written into a
record, together with what it came to.
-/

namespace LifecycleTelemetry

/-- How far a program is with receiving the signal of a listener: it has not begun, it waits for the
listener to fire, or it has found out that this cannot happen any more. -/
inductive Reception where
  | idle
  | waiting
  | hopeless
deriving DecidableEq

/-- A listener in the hands of a program. -/
structure Seat where
  listener : Listener
  reception : Reception
deriving DecidableEq

/-- Asks for the signal of a listener, and begins to receive it if that has not been done. Listeners on
a channel know no time. -/
def Seat.poll (seat : Seat) (sourceClosed : Bool) (c : Channel) : Option Signal × Seat × Channel :=
  match seat.reception with
  | .hopeless => (none, seat, c)
  | _ =>
      match seat.listener.poll 0 sourceClosed c with
      | (some s, l, c) => (some s, ⟨l, .idle⟩, c)
      | (none, l, c) => (none, ⟨l, if l.isArmed then .waiting else .hopeless⟩, c)

/-- Something that a program does with a channel: it makes or drops a handle, installs a listener,
raises a signal, asks for the signal of a listener, gives up receiving it, or drops a listener.
Listeners are numbered in the order of their installation. -/
inductive ChannelUse where
  | share
  | discard
  | listen
  | trigger (s : Signal)
  | poll (seat : Nat)
  | giveUp (seat : Nat)
  | leave (seat : Nat)
deriving DecidableEq

/-- What it comes to. -/
inductive ChannelAnswer where
  | done
  | seated (seat : Nat)
  | reached (listeners : Nat)
  | pending
  | fired (s : Signal)
deriving DecidableEq

/-- What it comes to when a listener is asked for its signal. -/
def ChannelAnswer.ofSignal? : Option Signal → ChannelAnswer
  | some s => .fired s
  | none => .pending

/-- A channel with the number of handles on it, the listeners that have been installed, as far as they
have not been dropped, and the record, the first entry first. -/
structure Audience where
  handles : Nat
  channel : Channel
  seats : List (Option Seat)
  record : List (ChannelUse × ChannelAnswer)
deriving DecidableEq

namespace Audience

/-- A new channel, with one handle on it. -/
def new : Audience :=
  ⟨1, .new, [], []⟩

/-- A listener that has not been dropped. -/
def seat? (a : Audience) (i : Nat) : Option Seat :=
  (a.seats[i]?).join

/-- Whether a program can do something: it needs a handle, or the listener. -/
def allows (a : Audience) : ChannelUse → Bool
  | .share | .discard | .listen | .trigger _ => a.handles != 0
  | .poll i | .giveUp i | .leave i => (a.seat? i).isSome

/-- The audience with what is held of a listener changed. -/
def withSeat (a : Audience) (i : Nat) (seat : Option Seat) : Audience :=
  { a with seats := a.seats.modify i fun _ => seat }

/-- Asks for the signal of a listener. -/
def ask (a : Audience) (i : Nat) (seat : Seat) : ChannelAnswer × Audience :=
  let (fired, seat, channel) := seat.poll (a.handles == 0) a.channel
  (.ofSignal? fired, { a with channel }.withSeat i (some seat))

/-- What comes of a use. -/
def perform (a : Audience) : ChannelUse → ChannelAnswer × Audience
  | .share => (.done, { a with handles := a.handles + 1 })
  | .discard => (.done, { a with handles := a.handles - 1 })
  | .listen =>
      let (id, channel) := a.channel.listen
      (.seated a.seats.length,
        { a with channel, seats := a.seats ++ [some ⟨.receiver id, .idle⟩] })
  | .trigger s => (.reached a.channel.active, { a with channel := a.channel.trigger s })
  | .poll i =>
      match a.seat? i with
      | some seat => a.ask i seat
      | none => (.done, a)
  | .giveUp i =>
      match a.seat? i with
      | some seat => (.done, a.withSeat i (some { seat with reception := .idle }))
      | none => (.done, a)
  | .leave i =>
      match a.seat? i with
      | some seat =>
          (.done, { a with channel := seat.listener.release a.channel }.withSeat i none)
      | none => (.done, a)

/-- What a use comes to. -/
def answer (a : Audience) (u : ChannelUse) : ChannelAnswer :=
  (a.perform u).1

/-- The audience after a use, if the program can do such a thing. -/
def use (a : Audience) (u : ChannelUse) : Audience :=
  if a.allows u then { (a.perform u).2 with record := a.record ++ [(u, a.answer u)] } else a

/-- The audience after uses, the first of the list first. -/
def after (a : Audience) (us : List ChannelUse) : Audience :=
  us.foldl use a

/-- What is done to a channel can be done in two parts. -/
theorem after_append
    (a : Audience)
    (us vs : List ChannelUse) :
    a.after (us ++ vs) = (a.after us).after vs := by
  simp [after]

end Audience
end LifecycleTelemetry
