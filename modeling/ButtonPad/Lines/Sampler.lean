import ButtonPad.Lines.ButtonMap

/-! The sampler: it holds the first press that it finds until the press is taken. -/
namespace ButtonPad

structure Sampler where
  held : Option Press := none
  deriving DecidableEq, Repr

namespace Sampler

/-- Looks for a press and says whether one is held. The lines are read, once, only while none is
held. -/
def sample {ι : Type} (s : Sampler) (map : ButtonMap) (read : ι → Snapshot × ι) (lines : ι) :
    Bool × Sampler × ι :=
  if s.held.isSome then (true, s, lines)
  else
    let (snapshot, lines) := read lines
    let held := map.firstPress snapshot
    (held.isSome, ⟨held⟩, lines)

def take (s : Sampler) : Option Press × Sampler := (s.held, {})

/-- Looks for a press and takes it at once if there is one. -/
def poll {ι : Type} (s : Sampler) (map : ButtonMap) (read : ι → Snapshot × ι) (lines : ι) :
    Option Press × Sampler × ι :=
  match s.sample map read lines with
  | (true, s, lines) => (s.take.1, s.take.2, lines)
  | (false, s, lines) => (none, s, lines)

/-- A sampler that holds nothing finds the first press there is, and holds nothing over. -/
@[simp] theorem poll_empty {ι : Type} (map : ButtonMap) (read : ι → Snapshot × ι) (lines : ι) :
    poll {} map read lines = (map.firstPress (read lines).1, {}, (read lines).2) := by
  cases hpress : map.firstPress (read lines).1 <;> simp [poll, sample, take, hpress]

end Sampler

end ButtonPad
