import ButtonPad.Proofs.Tandem
import ButtonPad.World.Journal

/-! # What a refused report changes

Nothing but the count of refused reports and its own entry in the journal. Two pads whose transports
take and refuse what they like go side by side, in worlds that look the same to one who is blind to
what became of the reports (`World.tandem_alike`), through any turns (`Rig.takeAll_alike`). -/
namespace ButtonPad

/-- The item as one sees it who is blind to what became of a report. -/
def Item.blind : Item → Item
  | .sent r _ => .sent r true
  | item => item

def Entry.blind (e : Entry) : Entry := { e with item := e.item.blind }

@[simp] theorem Entry.time_blind (e : Entry) : e.blind.time = e.time := rfl

@[simp] theorem Entry.event?_blind (e : Entry) : e.blind.item.event? = e.item.event? := by
  obtain ⟨time, item⟩ := e
  cases item <;> rfl

namespace World
variable {σ σ' : Type}

/-- The worlds differ at most in what their transports remember, in which reports were refused, and
in how many these were. -/
structure Alike (w : World σ) (w' : World σ') : Prop where
  now : w.now = w'.now
  surroundings : w.surroundings = w'.surroundings
  upcoming : w.upcoming = w'.upcoming
  sends : w.sends = w'.sends
  calls : w.calls = w'.calls
  phase : w.phase = w'.phase
  bound : w.bound = w'.bound
  journal : w.journal.map Entry.blind = w'.journal.map Entry.blind

namespace Alike
variable {w : World σ} {w' : World σ'}

theorem write (h : w.Alike w') (item : Item) : (w.write item).Alike (w'.write item) :=
  { h with journal := by simp only [World.write, Array.map_push, h.now, h.journal] }

/-- Whether the transports take the report or not, it is sent. -/
theorem send (h : w.Alike w') (t : Transport σ) (t' : Transport σ') (r : Report) :
    (w.send t r).Alike (w'.send t' r) :=
  { h with
    sends := congrArg (· + 1) h.sends
    journal := by
      simp only [World.send, transmit, World.write, Array.map_push, Entry.blind, Item.blind, h.now,
        h.journal] }

theorem reach (h : w.Alike w') (time : Nat) : (w.reach time).Alike (w'.reach time) := by
  constructor <;> simp only [World.reach, h.surroundings, h.upcoming, h.sends, h.calls, h.phase,
    h.bound, h.journal]

/-- In worlds that are alike the pad did the same at the same times. -/
theorem timedEventsFrom (h : w.Alike w') (n : Nat) : w.timedEventsFrom n = w'.timedEventsFrom n := by
  have hblind {τ : Type} (u : World τ) : u.timedEventsFrom n =
      ((u.journal.map Entry.blind).toList.drop n).filterMap fun e =>
        e.item.event?.map (e.time, ·) := by
    simp [World.timedEventsFrom, entriesFrom, ← List.map_drop, List.filterMap_map,
      Function.comp_def]
  rw [hblind w, hblind w', h.journal]

end Alike

theorem tandem_alike (clock : Clock) (source : Source) (t : Transport σ) (t' : Transport σ') :
    Tandem ⟨clock, t, source⟩ ⟨clock, t', source⟩ Alike where
  clock := rfl
  source := rfl
  now := Alike.now
  surroundings := Alike.surroundings
  bound := Alike.bound
  write h := h.write
  enter h _ := { h with phase := rfl }
  send h := h.send t t'
  reach h := h.reach
  limit h _ := { h with bound := rfl }
  surround h _ := { h with surroundings := rfl }
  call h := { h with calls := congrArg (· + 1) h.calls }

end World

theorem Rig.takeAll_alike {σ σ' A : Type} [Behaviour A] (s : Setup A) (clock : Clock)
    (source : Source) (t : Transport σ) (t' : Transport σ') {w : World σ} {w' : World σ'}
    (h : w.Alike w') (turns : List Turn) :
    (takeAll ⟨clock, t, source⟩ s turns w).1 = (takeAll ⟨clock, t', source⟩ s turns w').1 ∧
      (takeAll ⟨clock, t, source⟩ s turns w).2.Alike (takeAll ⟨clock, t', source⟩ s turns w').2 :=
  have htandem := World.tandem_alike clock source t t'
  takeAll_tandem htandem
    (fun _ _ => Flow.parallel_of_counts htandem (fun _ _ => World.Alike.sends)
      (fun _ _ => World.Alike.calls) _) h turns

end ButtonPad
