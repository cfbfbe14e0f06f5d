import ButtonPad.World.Basic

/-! # What is to come around a world

As long as reading the lines changes nothing, the surroundings are a function of time: those of the
moment with the changes that are due by then. Moving the clock does not change that function, so a
run that reads its surroundings reads them off the outlook that it began with. The session alone is
such a function wherever the lines are read from. -/
namespace ButtonPad

def Change.session? : Change → Option Handle
  | .connect handle => some handle
  | _ => none

namespace World
variable {σ β : Type} {view : Surroundings → β} {ahead : Nat → β}

/-- The surroundings at a time to come. -/
def outlook (w : World σ) (time : Nat) : Surroundings :=
  w.surroundings.changes ((w.upcoming.takeWhile (·.1 ≤ time)).map (·.2))

/-- What the view shows of the surroundings, from now on, is this function of time. -/
structure Faces (view : Surroundings → β) (ahead : Nat → β) (w : World σ) : Prop where
  now : view w.surroundings = ahead w.now
  later : ∀ time, w.now ≤ time → view (w.outlook time) = ahead time

theorem takeWhile_due (changes : List (Nat × Change)) {time later : Nat} (h : time ≤ later) :
    changes.takeWhile (·.1 ≤ time) ++ (changes.dropWhile (·.1 ≤ time)).takeWhile (·.1 ≤ later) =
      changes.takeWhile (·.1 ≤ later) := by
  induction changes with
  | nil => rfl
  | cons c rest ih =>
    by_cases hc : c.1 ≤ time
    · simp [hc, Nat.le_trans hc h, ih]
    · simp [hc]

/-- Moving the clock leaves what is to come behind the new time as it was. -/
theorem outlook_reach (w : World σ) {time later : Nat} (h : time ≤ later) :
    (w.reach time).outlook later = w.outlook later := by
  simp only [outlook, reach, Surroundings.changes]
  rw [← List.foldl_append, ← List.map_append, takeWhile_due w.upcoming h]

theorem outlook_faces (w : World σ) (time : Nat) : (w.reach time).Faces id w.outlook where
  now := rfl
  later _ h := outlook_reach w h

theorem Faces.reach {w : World σ} (h : w.Faces view ahead) {time : Nat} (htime : w.now ≤ time) :
    (w.reach time).Faces view ahead where
  now := h.later time htime
  later later hl := by
    rw [outlook_reach w (show time ≤ later from hl)]
    exact h.later later (Nat.le_trans htime hl)

/-- Who faces all of the surroundings faces each part of them. -/
theorem Faces.part {w : World σ} {outlook : Nat → Surroundings} (h : w.Faces id outlook)
    (view : Surroundings → β) : w.Faces view fun time => view (outlook time) where
  now := congrArg view h.now
  later time ht := congrArg view (h.later time ht)

/-! ## Sessions -/

/-- The session that was begun last by a time to come, or the present one if none begins until
then. -/
def sessionAt (w : World σ) (time : Nat) : Handle :=
  ((w.upcoming.takeWhile (·.1 ≤ time)).filterMap (·.2.session?)).getLast?.getD
    w.surroundings.link.handle

theorem handle_changes (s : Surroundings) (cs : List Change) :
    (s.changes cs).link.handle = (cs.filterMap Change.session?).getLast?.getD s.link.handle := by
  induction cs generalizing s with
  | nil => rfl
  | cons c rest ih =>
    have hrest : (s.changes (c :: rest)).link.handle = _ := ih (s.change c)
    rw [hrest]
    cases c with
    | connect handle =>
      simp [Change.session?, List.getLast?_cons, Surroundings.change, Link.connect]
    | _ => rfl

theorem handle_outlook (w : World σ) (time : Nat) :
    (w.outlook time).link.handle = w.sessionAt time := by
  rw [outlook, handle_changes, List.filterMap_map]
  rfl

theorem sessionAt_faces (w : World σ) (time : Nat) :
    (w.reach time).Faces (·.link.handle) w.sessionAt := by
  have h := (outlook_faces w time).part (·.link.handle)
  simp only [handle_outlook] at h
  exact h

theorem handle_read (s : Surroundings) (source : Source) :
    (s.read source).2.link.handle = s.link.handle := by
  cases source <;> rfl

theorem Faces.read {w : World σ} {session : Nat → Handle} (h : w.Faces (·.link.handle) session)
    (source : Source) :
    World.Faces (·.link.handle) session { w with surroundings := (w.surroundings.read source).2 }
    where
  now := (handle_read ..).trans h.now
  later time ht := by
    rw [← h.later time ht, handle_outlook, handle_outlook, sessionAt, handle_read]
    rfl

end World

end ButtonPad
