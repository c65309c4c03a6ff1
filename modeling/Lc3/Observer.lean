import Lc3.Event

/-!
# Observers

Subscribers are numbered in the order in which they came, and each has a mailbox. An event goes into
every mailbox whose owner still holds it. A subscriber that let go of its mailbox is only noticed,
and crossed off, when the next event is sent.
-/

namespace Lc3

/-- The mailbox of a subscriber. -/
inductive Mailbox where
  /-- The owner holds it; it keeps the events that wait, the oldest first. -/
  | held (waiting : Array Event)
  /-- The owner let go of it, which is not noticed yet. -/
  | abandoned
  /-- It is crossed off. -/
  | closed

namespace Mailbox

/-- The mailbox after an event is sent to it. -/
def deliver (e : Event) : Mailbox → Mailbox
  | .held waiting => .held (waiting.push e)
  | .abandoned => .closed
  | .closed => .closed

/-- The mailbox after its owner lets go of it. -/
def release : Mailbox → Mailbox
  | .held _ => .abandoned
  | box => box

/-- The mailbox after its owner took everything out. -/
def emptied : Mailbox → Mailbox
  | .held _ => .held #[]
  | box => box

/-- The events that wait, if somebody holds the mailbox. -/
def waiting? : Mailbox → Option (List Event)
  | .held waiting => some waiting.toList
  | _ => none

/-- Whether the mailbox is not crossed off. -/
def isListed : Mailbox → Bool
  | .closed => false
  | _ => true

end Mailbox

/-- The mailboxes of all subscribers, in the order of their numbers. -/
structure Observer where
  boxes : List Mailbox

namespace Observer

/-- Nobody subscribed yet. -/
def empty : Observer := ⟨[]⟩

/-- The number of the next subscriber. -/
def next (o : Observer) : Nat := o.boxes.length

/-- Adds a subscriber, whose number is `next`. -/
def subscribe (o : Observer) : Observer := ⟨o.boxes ++ [.held #[]]⟩

/-- Sends an event to every subscriber. -/
def emit (o : Observer) (e : Event) : Observer := ⟨o.boxes.map (Mailbox.deliver e)⟩

/-- A subscriber lets go of its mailbox. -/
def drop (o : Observer) (sub : Nat) : Observer := ⟨o.boxes.modify sub Mailbox.release⟩

/-- A subscriber takes everything out of its mailbox. -/
def drain (o : Observer) (sub : Nat) : Observer := ⟨o.boxes.modify sub Mailbox.emptied⟩

/-- The events that wait for a subscriber, unless it let go of its mailbox. -/
def waiting? (o : Observer) (sub : Nat) : Option (List Event) :=
  o.boxes[sub]?.bind Mailbox.waiting?

/-- The number of subscribers, as it was known when the last event was sent. -/
def count (o : Observer) : Nat := o.boxes.countP Mailbox.isListed

end Observer

end Lc3
