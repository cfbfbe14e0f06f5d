import ButtonPad.Act.Action
import ButtonPad.Proofs.Tandem
import ButtonPad.World.Journal

/-! # Runs that differ in what calls are handed

A call hands its action the whole row. Two pads whose rows differ write journals that differ there
and nowhere else, if their actions make nothing of it: such pads go side by side, in worlds that are
the same but for the rows in their journals (`World.tandem_akin`). -/
namespace ButtonPad

/-- The entry without the row that a call is handed. -/
def Entry.rowless (e : Entry) : Entry :=
  match e.item with
  | .note (.invoked call) => { e with item := .note (.invoked { call with row := [] }) }
  | _ => e

namespace Entry

@[simp] theorem time_rowless (e : Entry) : e.rowless.time = e.time := by
  unfold rowless
  split <;> rfl

@[simp] theorem event?_rowless (e : Entry) : e.rowless.item.event? = e.item.event? := by
  obtain ⟨time, item⟩ := e
  cases item with
  | note n => cases n <;> rfl
  | _ => rfl

@[simp] theorem delivery?_rowless (e : Entry) : e.rowless.item.delivery? = e.item.delivery? := by
  obtain ⟨time, item⟩ := e
  cases item with
  | note n => cases n <;> rfl
  | _ => rfl

end Entry

namespace World
variable {σ : Type}

/-- The worlds are the same, but for the rows that calls were handed. -/
structure Akin (w v : World σ) : Prop where
  now : w.now = v.now
  surroundings : w.surroundings = v.surroundings
  upcoming : w.upcoming = v.upcoming
  transport : w.transport = v.transport
  sends : w.sends = v.sends
  failed : w.failed = v.failed
  calls : w.calls = v.calls
  bound : w.bound = v.bound
  journal : w.journal.map Entry.rowless = v.journal.map Entry.rowless

namespace Akin
variable {w v : World σ}

theorem refl (w : World σ) : w.Akin w := ⟨rfl, rfl, rfl, rfl, rfl, rfl, rfl, rfl, rfl⟩

theorem write (h : w.Akin v) (item : Item) : (w.write item).Akin (v.write item) :=
  { h with journal := by simp only [World.write, Array.map_push, h.now, h.journal] }

/-- The same call is told of, with whatever row. -/
theorem invoked (h : w.Akin v) (call : Invocation) (a b : Row) :
    (w.tell (.invoked { call with row := a })).Akin (v.tell (.invoked { call with row := b })) :=
  { h with
    journal := by
      simp only [World.tell, World.write, Array.map_push, Entry.rowless, h.now, h.journal] }

theorem send (h : w.Akin v) (t : Transport σ) (r : Report) : (w.send t r).Akin (v.send t r) := by
  have hdelivered : t.deliver w.surroundings r w.transport =
      t.deliver v.surroundings r v.transport := by rw [h.surroundings, h.transport]
  exact { h with
    transport := congrArg (·.2) hdelivered
    sends := congrArg (· + 1) h.sends
    failed := by
      cases htaken : (t.deliver v.surroundings r v.transport).1.isOk <;>
        simp [World.send, transmit, World.write, h.failed, hdelivered, htaken]
    journal := by
      simp only [World.send, transmit, World.write, Array.map_push, hdelivered, h.now, h.journal] }

theorem reach (h : w.Akin v) (time : Nat) : (w.reach time).Akin (v.reach time) := by
  constructor <;> simp only [World.reach, h.surroundings, h.upcoming, h.transport, h.sends, h.failed,
    h.calls, h.bound, h.journal]

theorem entriesFrom (h : w.Akin v) (n : Nat) :
    (w.entriesFrom n).map Entry.rowless = (v.entriesFrom n).map Entry.rowless := by
  have hentries := congrArg (fun journal => journal.toList.drop n) h.journal
  simpa only [World.entriesFrom, Array.toList_map, ← List.map_drop] using hentries

/-- What does not see the rows sees no difference. -/
theorem view {β : Type} {view : Entry → Option β} (hview : ∀ e, view e.rowless = view e)
    (h : w.Akin v) (n : Nat) :
    (w.entriesFrom n).filterMap view = (v.entriesFrom n).filterMap view := by
  have hrowless : view = view ∘ Entry.rowless := funext fun e => (hview e).symm
  rw [hrowless, ← List.filterMap_map, ← List.filterMap_map, h.entriesFrom n]

theorem timedEventsFrom (h : w.Akin v) (n : Nat) : w.timedEventsFrom n = v.timedEventsFrom n :=
  h.view (fun e => by simp) n

theorem deliveriesFrom (h : w.Akin v) (n : Nat) : w.deliveriesFrom n = v.deliveriesFrom n :=
  h.view (fun e => by simp) n

end Akin

theorem tandem_akin (rig : Rig σ) : Tandem rig rig Akin where
  clock := rfl
  source := rfl
  now := Akin.now
  surroundings := Akin.surroundings
  bound := Akin.bound
  write h := h.write
  enter h _ := { h with }
  send h := h.send rig.transport
  reach h := h.reach
  limit h _ := { h with bound := rfl }
  surround h _ := { h with surroundings := rfl }
  call h := { h with calls := congrArg (· + 1) h.calls }

end World

/-- An action of the pad makes nothing of the row that it is handed. -/
theorem Action.act_row (action : Action) (call : Invocation) (a b : Row) (t : Timing) :
    Behaviour.act action { call with row := a } t = Behaviour.act action { call with row := b } t := by
  cases action <;> rfl

/-- Rows that decode to the same steps are played side by side. -/
theorem Player.playRow_akin {σ : Type} (rig : Rig σ) (s : Setup Action) (d : Catalog) (app : AppId)
    (cmd : UInt8) {a b : Row} (h : a.items = b.items) :
    (playRow s app cmd a).Parallel rig rig World.Akin
      (playRow { s with catalog := d } app cmd b) := by
  have htandem := World.tandem_akin rig
  have hsends : ∀ ⦃w v : World σ⦄, w.Akin v → w.sends = 0 + v.sends := fun w v hwv => by
    rw [hwv.sends, Nat.zero_add]
  refine playRow_parallel htandem hsends (fun call slot _ => ?_) h cmd
  refine callSpecial_parallel htandem d rfl (fun w v hwv => ⟨rfl, hwv.invoked call a b⟩) ?_
  intro w v hwv
  rw [slot.action.act_row call a b, hwv.calls]

end ButtonPad
