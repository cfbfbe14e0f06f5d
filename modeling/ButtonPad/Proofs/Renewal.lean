import ButtonPad.Proofs.Assurance
import ButtonPad.Proofs.Setup
import ButtonPad.Proofs.Tandem

/-! # Every command begins anew

A pad carries totals, a journal and a phase from one command to the next, and nothing that it does
depends on them. So a pad with a past and a new pad in the same surroundings go side by side: the
one's world follows the other's with the past before it (`World.tandem_follows`). What an action does
may not depend on the calls made before (`Behaviour.Forgetful`), or that alone would tell the two
pads apart. -/
namespace ButtonPad

/-! ## Worlds side by side -/

namespace World
variable {σ : Type}

/-- The world of a new pad at the same time, in the same surroundings. -/
def renewed (w : World σ) : World σ :=
  { w with sends := 0, failed := 0, calls := 0, phase := .polling, journal := #[] }

/-- The first world is the second one with a past before it. -/
structure Follows (past w v : World σ) : Prop where
  now : w.now = v.now
  surroundings : w.surroundings = v.surroundings
  upcoming : w.upcoming = v.upcoming
  transport : w.transport = v.transport
  bound : w.bound = v.bound
  sends : w.sends = past.sends + v.sends
  failed : w.failed = past.failed + v.failed
  journal : w.journal = past.journal ++ v.journal

namespace Follows
variable {past w v : World σ}

theorem write (h : past.Follows w v) (item : Item) : past.Follows (w.write item) (v.write item) :=
  { h with journal := by simp [World.write, h.now, h.journal] }

theorem send (h : past.Follows w v) (t : Transport σ) (r : Report) :
    past.Follows (w.send t r) (v.send t r) := by
  have hdelivered : t.deliver w.surroundings r w.transport =
      t.deliver v.surroundings r v.transport := by rw [h.surroundings, h.transport]
  constructor
  · exact h.now
  · exact h.surroundings
  · exact h.upcoming
  · exact congrArg (·.2) hdelivered
  · exact h.bound
  · simp [World.send, transmit, World.write, h.sends, Nat.add_assoc]
  · cases htaken : (t.deliver v.surroundings r v.transport).1.isOk <;>
      simp [World.send, transmit, World.write, h.failed, hdelivered, htaken, Nat.add_assoc]
  · simp [World.send, transmit, World.write, h.journal, h.now, hdelivered]

theorem reach (h : past.Follows w v) (time : Nat) : past.Follows (w.reach time) (v.reach time) := by
  constructor <;> simp only [World.reach, h.surroundings, h.upcoming, h.transport, h.bound, h.sends,
    h.failed, h.journal]

theorem entriesFrom (h : past.Follows w v) :
    w.entriesFrom past.journal.size = v.entriesFrom 0 := by
  simp [World.entriesFrom, h.journal]

end Follows

theorem follows_renewed (w : World σ) : w.Follows w w.renewed :=
  ⟨rfl, rfl, rfl, rfl, rfl, rfl, rfl, by simp [renewed]⟩

theorem tandem_follows (rig : Rig σ) (past : World σ) : Tandem rig rig past.Follows where
  clock := rfl
  source := rfl
  now := Follows.now
  surroundings := Follows.surroundings
  bound := Follows.bound
  write h := h.write
  enter h _ := { h with }
  send h := h.send rig.transport
  reach h := h.reach
  limit h _ := { h with bound := rfl }
  surround h _ := { h with surroundings := rfl }
  call h := { h with }

end World

/-! ## The player -/

/-- The action acts alike whenever it is called. -/
def Behaviour.Forgetful {A : Type} [Behaviour A] (action : A) : Prop :=
  ∀ call t m n, act action call t m = act action call t n

theorem Action.forgetful (action : Action) : Behaviour.Forgetful action := by
  intro call t m n
  cases action <;> rfl

/-- All actions that the setup's scripts can call are forgetful. -/
def Setup.Forgetful {A : Type} [Behaviour A] (s : Setup A) : Prop :=
  ∀ app index slot, s.repertoire.slot? app index = some slot → Behaviour.Forgetful slot.action

theorem Setup.forgetful (s : Setup Action) : s.Forgetful := fun _ _ slot _ => slot.action.forgetful

/-- A command makes nothing of the past. -/
theorem Player.command_renews {σ A : Type} [Behaviour A] {s : Setup A} (hs : s.Forgetful)
    (rig : Rig σ) (past : World σ) (app : AppId) (cmd : UInt8) :
    (command s app cmd).Parallel rig rig past.Follows (command s app cmd) := by
  have h := World.tandem_follows rig past
  refine command_parallel (d := s.catalog) h ?_
  cases hlook : lookup s app cmd with
  | error refusal => exact .inl ⟨refusal, rfl, rfl⟩
  | ok row =>
    refine .inr ⟨row, row, rfl, rfl, playRow_parallel h (fun _ _ => World.Follows.sends) ?_ rfl cmd⟩
    intro call slot hslot
    exact callSpecial_parallel h s.catalog rfl (Flow.parallel_tell h _) fun w v _ =>
      hs app call.index slot hslot { call with row } s.timing w.calls v.calls

/-- **A pad goes on as a new one would.** Whatever it has been through, all its later turns come to
what they come to on a new pad in the same surroundings. -/
theorem Rig.takeAll_follows {σ A : Type} [Behaviour A] {s : Setup A} (hs : s.Forgetful)
    (rig : Rig σ) {past w v : World σ} (h : past.Follows w v) (turns : List Turn) :
    World.Matched past.Follows (rig.takeAll s turns w) (rig.takeAll s turns v) :=
  takeAll_tandem (World.tandem_follows rig past) (Player.command_renews hs rig past) h turns

/-! ## Commands that are refused -/

namespace Player
variable {σ A : Type} {s : Setup A} {app : AppId} {cmd : UInt8} {refusal : Refusal}

/-- A command is refused if its application is not there, or else has no such script. -/
theorem lookup_eq_error_iff : lookup s app cmd = .error refusal ↔
    (s.appFor? app = none ∧ refusal = .unregistered app) ∨
      ∃ a, s.appFor? app = some a ∧ a.scripts.length ≤ cmd.toNat ∧
        refusal = .missingCommand app cmd := by
  unfold lookup
  cases happ : s.appFor? app with
  | none => simp [eq_comm]
  | some a =>
    cases hrow : a.script? cmd with
    | none =>
      have hlen : a.scripts.length ≤ cmd.toNat := List.getElem?_eq_none_iff.mp hrow
      simp [hrow, hlen, eq_comm]
    | some row =>
      have hlen : cmd.toNat < a.scripts.length := (List.getElem?_eq_some_iff.mp hrow).1
      simp [hrow, Nat.not_le.mpr hlen]

variable [Behaviour A]

theorem command_not_refused {rig : Rig σ} {row : Row} (hlook : lookup s app cmd = .ok row)
    (w : World σ) : ((command s app cmd).run rig w).1 ≠ some (.error refusal) := by
  intro h
  simp only [command, hlook] at h
  rcases hrow : (playRow s app cmd row).run rig w with ⟨_ | summary, w₁⟩
  · rw [Flow.run_bind_none _ (by rw [hrow])] at h
    cases h
  · rw [Flow.run_bind_some hrow] at h
    simp only [Flow.enter, Flow.tell, Flow.pause, Bind.bind, Flow.bind, Flow.run] at h
    rcases hpause : (w₁.tell (.entered .settling)).pause rig.clock s.timing.settle with ⟨_ | _, w₂⟩
    all_goals
      rw [hpause] at h
      cases h

end Player

theorem Rig.command_refused {σ A : Type} [Behaviour A] (rig : Rig σ) {s : Setup A} {app : AppId}
    {cmd : UInt8} {refusal : Refusal} (hlook : Player.lookup s app cmd = .error refusal)
    (limit : Nat) (w : World σ) : rig.command s app cmd limit w =
      (some (.error refusal), (w.startRun rig.clock limit).write (.note (.refused refusal))) := by
  simp only [command, Player.command, hlook]
  rfl

theorem Rig.command_eq_refusal_iff {σ A : Type} [Behaviour A] (rig : Rig σ) {s : Setup A}
    {app : AppId} {cmd : UInt8} {refusal : Refusal} {limit : Nat} {w : World σ} :
    (rig.command s app cmd limit w).1 = some (.error refusal) ↔
      Player.lookup s app cmd = .error refusal := by
  constructor
  · intro h
    cases hlook : Player.lookup s app cmd with
    | ok row => exact absurd h (Player.command_not_refused hlook _)
    | error other =>
      rw [rig.command_refused hlook] at h
      cases h
      rfl
  · intro hlook
    rw [rig.command_refused hlook]

/-- **Every command begins anew.** Whatever a pad with forgetful actions has been through, wherever
it was cut off, a command then comes to what it comes to on a new pad in the same surroundings, and
writes the same into the journal.

A command is refused exactly if its application is not registered, or else has no such script. Then
nothing is sent, no pause begins, and the pad and its counts are as they were. -/
theorem commands_begin_anew {σ A : Type} [Behaviour A] (rig : Rig σ) {s : Setup A}
    (hs : s.Forgetful) (turns : List Turn) (start : World σ) (app : AppId) (cmd : UInt8)
    (limit : Nat) :
    let w := (rig.takeAll s turns start).2
    let used := rig.command s app cmd limit w
    let fresh := rig.command s app cmd limit w.renewed
    (used.1 = fresh.1 ∧ used.2.entriesFrom w.journal.size = fresh.2.entriesFrom 0 ∧
      w.Follows used.2 fresh.2) ∧
    (used.1 = some (.error (.unregistered app)) ↔ s.appFor? app = none) ∧
    (used.1 = some (.error (.missingCommand app cmd)) ↔
      ∃ a, s.appFor? app = some a ∧ a.scripts.length ≤ cmd.toNat) ∧
    ∀ refusal, used.1 = some (.error refusal) →
      (refusal = .unregistered app ∨ refusal = .missingCommand app cmd) ∧
      used.2.eventsFrom w.journal.size = [] ∧ used.2.now = w.now ∧ used.2.phase = w.phase ∧
      used.2.calls = w.calls ∧ used.2.sends = w.sends ∧ used.2.failed = w.failed ∧
      used.2.transport = w.transport := by
  intro w used fresh
  obtain ⟨hresult, hfollows⟩ : World.Matched w.Follows used fresh :=
    Player.command_renews hs rig w app cmd
      ((World.tandem_follows rig w).startRun w.follows_renewed limit)
  refine ⟨⟨hresult, hfollows.entriesFrom, hfollows⟩, ?_, ?_, ?_⟩
  · rw [rig.command_eq_refusal_iff, Player.lookup_eq_error_iff]
    simp
  · rw [rig.command_eq_refusal_iff, Player.lookup_eq_error_iff]
    simp
  · intro refusal hrefused
    have hlook := rig.command_eq_refusal_iff.mp hrefused
    have hused : used = _ := rig.command_refused hlook limit w
    have hevents : used.2.eventsFrom w.journal.size = [] := by
      have hstarted : (w.startRun rig.clock limit).history = w.history := rfl
      rw [hused, ← World.events_drop_history, World.history_write, hstarted, ← w.length_history,
        List.drop_left]
      rfl
    refine ⟨?_, hevents, ?_⟩
    · rcases Player.lookup_eq_error_iff.mp hlook with ⟨-, h⟩ | ⟨-, -, -, h⟩
      · exact .inl h
      · exact .inr h
    · rw [hused]
      exact ⟨rfl, rfl, rfl, rfl, rfl, rfl⟩

namespace Specimen

/-- A cycle that is cut off while the shortcut holds its keys, a refused command, and a command that
comes to its end. -/
def past : List Turn :=
  [{ task := .cycle, limit := 650 }, { task := .command 9 0, limit := 0 },
    { changes := [.connect 3], task := .command 0 0, limit := 5000 }]

end Specimen

/-- Behind a past of many reports the summary still tells of the command's own ones alone. -/
theorem commands_begin_anew_specimen :
    let w := (Specimen.rig.takeAll Specimen.setup Specimen.past Specimen.world).2
    let used := Specimen.rig.command Specimen.setup 0 0 5000 w
    let fresh := Specimen.rig.command Specimen.setup 0 0 5000 w.renewed
    Specimen.setup.Forgetful ∧ used.1 = fresh.1 ∧ w.Follows used.2 fresh.2 ∧ w.sends = 7 ∧
      used.2.sends = 12 ∧ fresh.2.sends = 5 ∧
      used.1.bind Except.toOption = some ⟨0, 0, 2, 1, 5, 5, .actionFailed⟩ := by
  intro w used fresh
  have hs := Setup.forgetful Specimen.setup
  obtain ⟨⟨hresult, -, hfollows⟩, -⟩ :=
    commands_begin_anew Specimen.rig hs Specimen.past Specimen.world 0 0 5000
  exact ⟨hs, hresult, hfollows, by decide +kernel⟩

end ButtonPad
