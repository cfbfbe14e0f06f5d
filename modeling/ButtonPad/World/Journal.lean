import ButtonPad.World.Basic

/-! Views of the journal. -/
namespace ButtonPad

namespace Item

/-- The report sent or the pause begun. -/
def event? : Item → Option Event
  | .sent r _ => some (.report r)
  | .paused ms => some (.pause ms)
  | _ => none

/-- The report sent, and whether the transport took it. -/
def delivery? : Item → Option (Report × Bool)
  | .sent r accepted => some (r, accepted)
  | _ => none

def call? : Item → Option Invocation
  | .note (.invoked call) => some call
  | _ => none

end Item

namespace World
variable {σ : Type}

def entriesFrom (w : World σ) (n : Nat) : List Entry := w.journal.toList.drop n

/-- What the pad did after the first `n` entries, each thing with its time. -/
def timedEventsFrom (w : World σ) (n : Nat) : List (Nat × Event) :=
  (w.entriesFrom n).filterMap fun e => e.item.event?.map (e.time, ·)

def eventsFrom (w : World σ) (n : Nat) : List Event :=
  (w.entriesFrom n).filterMap (·.item.event?)

/-- The reports after the first `n` entries with their times, and which of them were taken. -/
def deliveriesFrom (w : World σ) (n : Nat) : List (Nat × Report × Bool) :=
  (w.entriesFrom n).filterMap fun e => e.item.delivery?.map (e.time, ·)

def callsFrom (w : World σ) (n : Nat) : List Invocation :=
  (w.entriesFrom n).filterMap (·.item.call?)

def paused (w : World σ) : Nat := Event.total (w.eventsFrom 0)

end World

end ButtonPad
