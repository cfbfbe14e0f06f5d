import ButtonPad.Player.Run

/-! # No press is held over

A pad has one sampler for all its polls. Here it is handed on from poll to poll and from cycle to
cycle: it reads the lines unless it holds a press (`Player.Sampled.run_sample`), and what it then
holds is taken. A pad that begins with an empty sampler comes to every poll with an empty one
(`Rig.boot_sampled`). -/
namespace ButtonPad
namespace Player
open ButtonPad.Flow

namespace Sampled
variable {A : Type}

/-- Looks for a press with the sampler at hand. -/
def sample (map : ButtonMap) : StateT Sampler Flow Bool := do
  let sampler ← get
  if sampler.held.isSome then
    return true
  else
    let snapshot ← readLines
    let (found, sampler, _) := sampler.sample map (fun _ => (snapshot, ())) ()
    set sampler
    return found

def take : StateT Sampler Flow (Option Press) := modifyGet Sampler.take

/-- Looks for a press, and takes it if there is one. -/
def find (map : ButtonMap) : StateT Sampler Flow (Option Press) := do
  if ← sample map then take else return none

def poll (s : Setup A) : StateT Sampler Flow (Option (AppId × UInt8)) := do
  pause s.timing.pollEvery
  let app ← readSelected
  match s.mapFor? app with
  | none => return none
  | some map =>
    let press ← find map
    return press.map fun press => (app, press.command)

def awaitPress (s : Setup A) : Nat → StateT Sampler Flow (AppId × UInt8)
  | 0 => StateT.lift .stall
  | n + 1 => do
    match ← poll s with
    | some found => return found
    | none => awaitPress s n

variable [Behaviour A]

def cycle (s : Setup A) (polls : Nat) : StateT Sampler Flow (Except Refusal Summary) := do
  enter .polling
  let (app, cmd) ← awaitPress s polls
  command s app cmd

def cycles (s : Setup A) (polls : Nat) : Nat → StateT Sampler Flow Unit
  | 0 => StateT.lift .stall
  | n + 1 => do
    let _ ← cycle s polls
    cycles s polls n

def boot (s : Setup A) (polls : Nat) : StateT Sampler Flow Unit := do
  pause s.timing.startup
  cycles s polls polls

/-- Whatever the sampler holds, it looks at the lines of the world and reads them only if it holds
nothing. -/
theorem run_sample {σ : Type} (rig : Rig σ) (map : ButtonMap) (sampler : Sampler) (w : World σ) :
    ((sample map).run sampler).run rig w =
      let (found, sampler', around) := sampler.sample map (·.read rig.source) w.surroundings
      (some (found, sampler'),
        if sampler.held.isSome then w
        else { w with surroundings := around }.write (.read (w.surroundings.read rig.source).1)) := by
  obtain ⟨_ | press⟩ := sampler <;> rfl

end Sampled

/-! ## From an empty sampler -/

/-- From an empty sampler the first does what the second does, and leaves an empty one. -/
def Clears {α : Type} (x : StateT Sampler Flow α) (p : Flow α) : Prop :=
  x.run {} = (·, {}) <$> p

namespace Clears
variable {α β : Type}

theorem bind {x : StateT Sampler Flow α} {p : Flow α} {f : α → StateT Sampler Flow β}
    {g : α → Flow β} (hx : Clears x p) (hf : ∀ a, Clears (f a) (g a)) :
    Clears (x >>= f) (p >>= g) := by
  rw [Clears, StateT.run_bind, hx, bind_map_left, map_bind]
  exact bind_congr hf

theorem pure (a : α) : Clears (Pure.pure a) (Pure.pure a) := rfl

theorem lift (p : Flow α) : Clears (StateT.lift p) p := rfl

theorem run {σ : Type} {x : StateT Sampler Flow α} {p : Flow α} (h : Clears x p) (rig : Rig σ)
    (w : World σ) : (x.run {}).run rig w = (p.run rig w).map (Option.map (·, {})) id := by
  rw [h]
  refine (run_bind rig p _ w).trans ?_
  rcases p.run rig w with ⟨_ | a, w'⟩ <;> rfl

end Clears

namespace Sampled
variable {A : Type} (s : Setup A)

theorem run_sample_empty (map : ButtonMap) : (sample map).run {} = do
    let snapshot ← readLines
    return ((map.firstPress snapshot).isSome, ⟨map.firstPress snapshot⟩) := rfl

/-- Sampling and taking at once leaves nothing behind. -/
theorem find_clears (map : ButtonMap) : Clears (find map) (do
    let snapshot ← readLines
    return map.firstPress snapshot) := by
  rw [Clears, find, StateT.run_bind, run_sample_empty, LawfulMonad.bind_assoc, map_bind]
  refine bind_congr fun snapshot => ?_
  rw [pure_bind]
  dsimp only
  -- a press that is found is handed over at once
  cases map.firstPress snapshot <;> rfl

theorem poll_clears : Clears (poll s) (Player.poll s) := by
  rw [poll_eq]
  refine (Clears.lift _).bind fun _ => (Clears.lift _).bind fun app => ?_
  cases s.mapFor? app with
  | none => exact .pure none
  | some map => exact (find_clears map).bind fun press => .pure _

theorem awaitPress_clears (n : Nat) : Clears (awaitPress s n) (Player.awaitPress s n) := by
  induction n with
  | zero => exact .lift .stall
  | succ n ih =>
    refine (poll_clears s).bind fun found => ?_
    cases found with
    | none => exact ih
    | some press => exact .pure press

variable [Behaviour A]

theorem cycle_clears (polls : Nat) : Clears (cycle s polls) (Player.cycle s polls) :=
  (Clears.lift _).bind fun _ => (awaitPress_clears s polls).bind fun (_, _) => .lift _

theorem cycles_clears (polls n : Nat) : Clears (cycles s polls n) (Player.cycles s polls n) := by
  induction n with
  | zero => exact .lift .stall
  | succ n ih => exact (cycle_clears s polls).bind fun _ => ih

theorem boot_clears (polls : Nat) : Clears (boot s polls) (Player.boot s polls) :=
  (Clears.lift _).bind fun _ => cycles_clears s polls polls

end Sampled
end Player

/-- **No press is held over.** A pad that is started up with an empty sampler, and hands it on from
poll to poll, does in any world what a pad does whose polls come with a new one each. -/
theorem Rig.boot_sampled {σ A : Type} [Behaviour A] (rig : Rig σ) (s : Setup A) (limit : Nat)
    (w : World σ) :
    let begun := w.startRun rig.clock limit
    rig.boot s limit w =
      (((Player.Sampled.boot s (begun.bound.polls begun.now)).run {}).run rig begun).2 := by
  intro begun
  rw [(Player.Sampled.boot_clears s _).run rig begun]
  rfl

end ButtonPad
