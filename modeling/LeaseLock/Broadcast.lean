/-!
# Broadcast channels

A channel keeps the last messages sent to it, up to its capacity. A subscription starts behind the
last message and reads forward. A subscriber that falls behind loses the oldest messages: its next
read tells how many it missed and moves it to the oldest one that is kept.
-/

namespace LeaseLock

/-- A channel that keeps the last `capacity` messages. -/
structure Channel (α : Type) where
  /-- How many messages are kept. -/
  capacity : Nat
  /-- How many messages have been sent. -/
  sent : Nat := 0
  /-- The messages that are kept, oldest first. -/
  kept : List α := []

/-- A place in a channel: the number of messages before the next one to read. -/
structure Subscription where
  /-- How many messages have been read or missed, or were sent before the subscription began. -/
  next : Nat
deriving DecidableEq, Repr

/-- What a read from a channel yields. -/
inductive Received (α : Type) where
  /-- A message. -/
  | message (a : α)
  /-- Nothing has been sent since the last read. -/
  | empty
  /-- This many messages are no longer kept. -/
  | lagged (missed : Nat)
deriving DecidableEq, Repr

namespace Channel

/-- Send a message. -/
def send (ch : Channel α) (a : α) : Channel α :=
  let kept := ch.kept ++ [a]
  { ch with sent := ch.sent + 1, kept := kept.drop (kept.length - ch.capacity) }

/-- A subscription that starts behind the last message. -/
def subscribe (ch : Channel α) : Subscription := ⟨ch.sent⟩

/-- Read the next message; with what was read comes the subscription behind it. -/
def receive (ch : Channel α) (s : Subscription) : Received α × Subscription :=
  let oldest := ch.sent - ch.kept.length
  if s.next < oldest then (.lagged (oldest - s.next), ⟨oldest⟩)
  else
    match ch.kept[s.next - oldest]? with
    | some a => (.message a, ⟨s.next + 1⟩)
    | none => (.empty, s)

end Channel

end LeaseLock
