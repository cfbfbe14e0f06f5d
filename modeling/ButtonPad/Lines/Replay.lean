import ButtonPad.Lines.Snapshot

/-! Replayed lines: snapshots queued for future reads. -/
namespace ButtonPad

/-- A queue of snapshots, the one last read and the number of reads. -/
structure Replay where
  queued : List Snapshot := []
  current : Snapshot := .empty
  reads : Nat := 0
  deriving DecidableEq, Repr

namespace Replay

def push (r : Replay) (s : Snapshot) : Replay := { r with queued := r.queued ++ [s] }

/-- Queues that many reads without a press, then one with the line pressed. -/
def queuePress (r : Replay) (polls line : Nat) : Replay :=
  { r with queued := r.queued ++ List.replicate polls .empty ++ [Snapshot.empty.set line true] }

/-- The next queued snapshot; once the queue is empty, the last one again. -/
def read (r : Replay) : Snapshot × Replay :=
  match r.queued with
  | [] => (r.current, { r with reads := r.reads + 1 })
  | s :: rest => (s, { queued := rest, current := s, reads := r.reads + 1 })

end Replay

end ButtonPad
