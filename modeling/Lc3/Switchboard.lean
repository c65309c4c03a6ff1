import Lc3.Event

/-!
# Switchboards

An observer as it is built on the channels of a library: a list of senders, each with a channel to
its subscriber. An event is sent along the list, and a sender that finds the receiver of its channel
dropped is crossed off.
-/

namespace Lc3

/-- Channels for events, and what can be done with one. -/
structure Medium where
  /-- A channel, with all that it holds. -/
  Channel : Type
  /-- A new channel. -/
  fresh : Channel
  /-- Sends an event, if that does not fail. -/
  send : Event → Channel → Option Channel
  /-- Receives one event, if there is one. -/
  receive : Channel → Option (Event × Channel)
  /-- Receives all events that there are. -/
  drain : Channel → List Event × Channel
  /-- Drops the receiver. -/
  drop : Channel → Channel

/-- What channels are relied on for. Here `waiting?` tells which events wait in a channel, the
oldest first, unless its receiver was dropped. -/
structure Medium.Laws (M : Medium) (waiting? : M.Channel → Option (List Event)) : Prop where
  fresh : waiting? M.fresh = some []
  /-- A channel is unbounded: while there is a receiver an event can be sent, and waits behind the
  others. -/
  sent : ∀ {c ws} e, waiting? c = some ws →
    ∃ c', M.send e c = some c' ∧ waiting? c' = some (ws ++ [e])
  /-- Sending fails when the receiver was dropped. -/
  failed : ∀ {c} e, waiting? c = none → M.send e c = none
  /-- What came in first goes out first. -/
  received : ∀ {c e ws}, waiting? c = some (e :: ws) →
    ∃ c', M.receive c = some (e, c') ∧ waiting? c' = some ws
  /-- Nothing comes out of a channel in which nothing waits, or which has no receiver. -/
  nothing : ∀ {c}, (waiting? c).getD [] = [] → M.receive c = none
  drained : ∀ {c ws}, waiting? c = some ws → ∃ c', M.drain c = (ws, c') ∧ waiting? c' = some []
  dry : ∀ {c}, waiting? c = none → ∃ c', M.drain c = ([], c') ∧ waiting? c' = none
  dropped : ∀ c, waiting? (M.drop c) = none

/-- What an observer and its subscribers can do. -/
inductive Turn where
  | subscribe
  | emit (e : Event)
  /-- A subscriber drops its receiver. -/
  | drop (sub : Nat)
  /-- A subscriber takes out the oldest event, if there is one. -/
  | receive (sub : Nat)
  /-- A subscriber takes out everything. -/
  | drain (sub : Nat)
  deriving DecidableEq, Repr

/-- The senders of an observer, by the numbers of their subscribers, and the channel of each
subscriber. -/
structure Switchboard (M : Medium) where
  senders : List Nat
  channels : List M.Channel

namespace Switchboard

variable {M : Medium}

/-- Nobody subscribed yet. -/
def empty : Switchboard M := ⟨[], []⟩

/-- The number of senders. -/
def count (b : Switchboard M) : Nat := b.senders.length

/-- The switchboard without the sender to a subscriber. -/
def without (b : Switchboard M) (sub : Nat) : Switchboard M :=
  { b with senders := b.senders.filter fun k => k ≠ sub }

/-- Adds a sender, and the channel to a new subscriber. -/
def subscribe (b : Switchboard M) : Switchboard M :=
  ⟨b.senders ++ [b.channels.length], b.channels ++ [M.fresh]⟩

/-- Sends an event into one of the channels, which may fail. -/
def send (e : Event) (sub : Nat) (channels : List M.Channel) : Option (List M.Channel) :=
  channels[sub]?.bind fun c => (M.send e c).map (channels.set sub)

/-- Sends an event along a list of senders, of which those that fail do not stay. -/
def retain (e : Event) : List Nat → List M.Channel → List Nat × List M.Channel
  | [], channels => ([], channels)
  | sub :: subs, channels =>
    match send e sub channels with
    | some channels =>
      let rest := retain e subs channels
      (sub :: rest.1, rest.2)
    | none => retain e subs channels

/-- Sends an event to every subscriber, and crosses off those that dropped their receiver. -/
def emit (b : Switchboard M) (e : Event) : Switchboard M :=
  let kept := retain e b.senders b.channels
  ⟨kept.1, kept.2⟩

/-- A change of the channel of a subscriber. -/
def onChannel (b : Switchboard M) (sub : Nat) (f : M.Channel → M.Channel) : Switchboard M :=
  { b with channels := b.channels.modify sub f }

/-- The switchboard after a turn. -/
def turn (b : Switchboard M) : Turn → Switchboard M
  | .subscribe => b.subscribe
  | .emit e => b.emit e
  | .drop sub => b.onChannel sub M.drop
  | .receive sub => b.onChannel sub fun c => ((M.receive c).map Prod.snd).getD c
  | .drain sub => b.onChannel sub fun c => (M.drain c).2

/-- The switchboard after some turns. -/
def turns (b : Switchboard M) (ts : List Turn) : Switchboard M := ts.foldl turn b

/-- What a subscriber gets by a turn. -/
def taken (sub : Nat) (b : Switchboard M) : Turn → List Event
  | .receive k => if k = sub then ((b.channels[k]?.bind M.receive).map Prod.fst).toList else []
  | .drain k => if k = sub then (b.channels[k]?.map fun c => (M.drain c).1).getD [] else []
  | _ => []

/-- What a subscriber gets, turn after turn. -/
def received (sub : Nat) (b : Switchboard M) : List Turn → List Event
  | [] => []
  | t :: ts => b.taken sub t ++ received sub (b.turn t) ts

end Switchboard

end Lc3
