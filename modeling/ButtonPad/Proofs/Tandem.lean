import ButtonPad.Player.Turn

/-! # What each move of two runs keeps, all their runs keep

Two runs go side by side when both make the same moves. A relation between two worlds that each move
keeps (`World.Tandem`) is kept by flows that go side by side (`Flow.Parallel`), up to whole turns of
the pad (`Rig.takeAll_tandem`). The worlds may differ in what no move depends on. -/
namespace ButtonPad
variable {σ σ' α β : Type}

namespace World

/-- A relation between the worlds of two rigs that is kept when both make the same move. -/
structure Tandem (rig : Rig σ) (rig' : Rig σ') (R : World σ → World σ' → Prop) : Prop where
  clock : rig.clock = rig'.clock
  source : rig.source = rig'.source
  now {w v} (h : R w v) : w.now = v.now
  surroundings {w v} (h : R w v) : w.surroundings = v.surroundings
  bound {w v} (h : R w v) : w.bound = v.bound
  write {w v} (h : R w v) (item : Item) : R (w.write item) (v.write item)
  enter {w v} (h : R w v) (phase : Phase) : R { w with phase } { v with phase }
  send {w v} (h : R w v) (r : Report) : R (w.send rig.transport r) (v.send rig'.transport r)
  reach {w v} (h : R w v) (time : Nat) : R (w.reach time) (v.reach time)
  limit {w v} (h : R w v) (bound : Bound) : R { w with bound } { v with bound }
  surround {w v} (h : R w v) (surroundings : Surroundings) :
    R { w with surroundings } { v with surroundings }
  call {w v} (h : R w v) : R { w with calls := w.calls + 1 } { v with calls := v.calls + 1 }

/-- The two come to the same, in worlds that are related. -/
def Matched (R : World σ → World σ' → Prop) (x : α × World σ) (y : α × World σ') : Prop :=
  x.1 = y.1 ∧ R x.2 y.2

theorem Matched.pair {R : World σ → World σ' → Prop} {x : α × World σ} {y : α × World σ'}
    (h : Matched R x y) : ∃ a w v, x = (a, w) ∧ y = (a, v) ∧ R w v :=
  ⟨x.1, x.2, y.2, rfl, Prod.ext h.1.symm rfl, h.2⟩

namespace Tandem
variable {rig : Rig σ} {rig' : Rig σ'} {R : World σ → World σ' → Prop} {w : World σ} {v : World σ'}

theorem tell (h : Tandem rig rig' R) (hR : R w v) (n : Note) : R (w.tell n) (v.tell n) := by
  cases n with
  | entered phase => exact h.write (h.enter hR phase) _
  | _ => exact h.write hR _

theorem change (h : Tandem rig rig' R) (hR : R w v) (c : Change) : R (w.change c) (v.change c) := by
  rw [World.change, World.change, h.surroundings hR]
  exact h.surround hR _

theorem waitUntil (h : Tandem rig rig' R) (hR : R w v) (time : Nat) :
    Matched R (w.waitUntil time) (v.waitUntil time) := by
  unfold World.waitUntil
  rw [h.bound hR]
  split
  · split
    · exact ⟨rfl, h.reach hR _⟩
    · exact ⟨rfl, h.reach hR _⟩
  · exact ⟨rfl, h.reach hR _⟩

theorem waitForever (h : Tandem rig rig' R) (hR : R w v) : R w.waitForever v.waitForever := by
  unfold World.waitForever
  rw [h.bound hR]
  split
  · exact h.reach hR _
  · exact hR

theorem beginPause (h : Tandem rig rig' R) (hR : R w v) (ms : UInt32) :
    Matched R (w.beginPause ms) (v.beginPause ms) := by
  unfold World.beginPause
  rw [h.bound hR]
  split
  · exact ⟨rfl, hR⟩
  · exact ⟨rfl, h.write (h.limit hR _) _⟩
  · exact ⟨rfl, h.write hR _⟩

theorem pause (h : Tandem rig rig' R) (hR : R w v) (ms : UInt32) :
    Matched R (w.pause rig.clock ms) (v.pause rig'.clock ms) := by
  obtain ⟨begun, w₁, v₁, hw, hv, h₁⟩ := (h.beginPause hR ms).pair
  rw [World.pause, World.pause, hw, hv, h.clock]
  cases begun with
  | false => exact ⟨rfl, h₁⟩
  | true =>
    dsimp only
    split
    · exact ⟨rfl, h₁⟩
    · rw [h.now h₁]
      exact h.waitUntil h₁ _

/-! ## Acts against the clock -/

theorem startTimer (h : Tandem rig rig' R) (hR : R w v) (limit : UInt32) (deadline : Option Nat) :
    Matched R (w.startTimer rig.clock limit deadline) (v.startTimer rig'.clock limit deadline) := by
  cases deadline with
  | some time => exact ⟨rfl, hR⟩
  | none =>
    obtain ⟨begun, w₁, v₁, hw, hv, h₁⟩ := (h.beginPause hR limit).pair
    simp only [World.startTimer, hw, hv, h.clock]
    cases begun with
    | false => exact ⟨rfl, h₁⟩
    | true => exact ⟨congrArg (fun now => some (now + rig'.clock.ticks limit)) (h.now h₁), h₁⟩

theorem timeOut (h : Tandem rig rig' R) (hR : R w v) (deadline : Nat) :
    Matched R (w.timeOut deadline) (v.timeOut deadline) := by
  obtain ⟨reached, w₁, v₁, hw, hv, h₁⟩ := (h.waitUntil hR deadline).pair
  rw [World.timeOut, World.timeOut, hw, hv]
  cases reached <;> exact ⟨rfl, h₁⟩

theorem race (h : Tandem rig rig' R) (hR : R w v) (limit : UInt32) (ending : Option Outcome)
    (events : List Event) (deadline : Option Nat) :
    Matched R (race rig limit ending events deadline w)
      (race rig' limit ending events deadline v) := by
  -- the deadline goes along, for the timer starts only when the act first waits
  induction events generalizing deadline w v with
  | nil =>
    cases ending with
    | some outcome => exact ⟨rfl, hR⟩
    | none =>
      obtain ⟨timer, w₁, v₁, hw, hv, h₁⟩ := (h.startTimer hR limit deadline).pair
      simp only [World.race, hw, hv]
      cases timer with
      | none => exact ⟨rfl, h₁⟩
      | some time => exact h.timeOut h₁ time
  | cons e rest ih =>
    cases e with
    | report r => exact ih (h.send hR r) deadline
    | pause ms =>
      obtain ⟨begun, w₁, v₁, hw, hv, h₁⟩ := (h.beginPause hR ms).pair
      simp only [World.race, hw, hv]
      cases begun with
      | false => exact ⟨rfl, h₁⟩
      | true =>
        obtain ⟨timer, w₂, v₂, hw, hv, h₂⟩ := (h.startTimer h₁ limit deadline).pair
        dsimp only
        rw [h.clock] at hw ⊢
        split
        · exact ih h₁ deadline
        rw [hw, hv]
        cases timer with
        | none => exact ⟨rfl, h₂⟩
        | some time =>
          dsimp only
          rw [h.now h₂]
          split
          · exact h.timeOut h₂ time
          obtain ⟨reached, w₃, v₃, hw, hv, h₃⟩ :=
            (h.waitUntil h₂ (v₂.now + rig'.clock.ticks ms)).pair
          rw [hw, hv]
          cases reached with
          | false => exact ⟨rfl, h₃⟩
          | true => exact ih h₃ (some time)

theorem startRun (h : Tandem rig rig' R) (hR : R w v) (limit : Nat) :
    R (w.startRun rig.clock limit) (v.startRun rig'.clock limit) := by
  rw [World.startRun, World.startRun, h.clock, h.now hR]
  exact h.reach (h.limit hR _) _

end Tandem
end World

/-! ## Flows -/

/-- From worlds that are related, both flows come to the same, in worlds that are related. -/
def Flow.Parallel (rig : Rig σ) (rig' : Rig σ') (R : World σ → World σ' → Prop) (p q : Flow α) :
    Prop :=
  ∀ ⦃w v⦄, R w v → World.Matched R (p.run rig w) (q.run rig' v)

namespace Flow
open World (Tandem Matched)
variable {rig : Rig σ} {rig' : Rig σ'} {R : World σ → World σ' → Prop}

theorem Parallel.bind {p q : Flow α} {f g : α → Flow β} (hp : p.Parallel rig rig' R q)
    (hf : ∀ a, (f a).Parallel rig rig' R (g a)) : (p >>= f).Parallel rig rig' R (q >>= g) := by
  intro w v hR
  obtain ⟨result, w₁, v₁, hw, hv, h₁⟩ := (hp hR).pair
  cases result with
  | none =>
    rw [run_bind_none f (by rw [hw]), run_bind_none g (by rw [hv]), hw, hv]
    exact ⟨rfl, h₁⟩
  | some a =>
    rw [run_bind_some hw, run_bind_some hv]
    exact hf a h₁

theorem parallel_pure (a : α) : (pure a : Flow α).Parallel rig rig' R (pure a) :=
  fun _ _ hR => ⟨rfl, hR⟩

theorem parallel_tell (h : Tandem rig rig' R) (n : Note) :
    (tell n).Parallel rig rig' R (tell n) :=
  fun _ _ hR => ⟨rfl, h.tell hR n⟩

theorem parallel_send (h : Tandem rig rig' R) (r : Report) :
    (emit (.report r) (pure ())).Parallel rig rig' R (emit (.report r) (pure ())) :=
  fun _ _ hR => ⟨rfl, h.send hR r⟩

theorem parallel_pause (h : Tandem rig rig' R) (ms : UInt32) :
    (pause ms).Parallel rig rig' R (pause ms) := by
  intro w v hR
  obtain ⟨goesOn, w₁, v₁, hw, hv, h₁⟩ := (h.pause hR ms).pair
  simp only [pause, run, hw, hv]
  cases goesOn <;> exact ⟨rfl, h₁⟩

theorem parallel_perform (h : Tandem rig rig' R) (events : List Event) :
    (perform events).Parallel rig rig' R (perform events) := by
  induction events with
  | nil => exact parallel_pure ()
  | cons e rest ih =>
    cases e with
    | report r => exact (parallel_send h r).bind fun _ => ih
    | pause ms => exact (parallel_pause h ms).bind fun _ => ih

theorem parallel_readHandle (h : Tandem rig rig' R) : readHandle.Parallel rig rig' R readHandle := by
  intro w v hR
  simp only [readHandle, run, h.surroundings hR]
  exact ⟨rfl, h.write hR _⟩

theorem parallel_readSelected (h : Tandem rig rig' R) :
    readSelected.Parallel rig rig' R readSelected := by
  intro w v hR
  simp only [readSelected, run, h.surroundings hR]
  exact ⟨rfl, h.write hR _⟩

theorem parallel_readLines (h : Tandem rig rig' R) : readLines.Parallel rig rig' R readLines := by
  intro w v hR
  simp only [readLines, run, h.surroundings hR, h.source]
  exact ⟨rfl, h.write (h.surround hR _) _⟩

/-- One of the worlds may have a lead over the other in the count of reports. -/
theorem parallel_readSent {lead : Nat} (hsends : ∀ ⦃w v⦄, R w v → w.sends = lead + v.sends)
    {f g : Nat → Flow α} (hf : ∀ n, (f (lead + n)).Parallel rig rig' R (g n)) :
    (readSent >>= f).Parallel rig rig' R (readSent >>= g) := by
  intro w v hR
  show World.Matched R ((f w.sends).run rig w) ((g v.sends).run rig' v)
  rw [hsends hR]
  exact hf v.sends hR

/-- An act that is the same in worlds that are related. -/
theorem parallel_raceAct (h : Tandem rig rig' R) (limit : UInt32) {act act' : Nat → Act}
    (hact : ∀ ⦃w v⦄, R w v → act w.calls = act' v.calls) :
    (raceAct limit act).Parallel rig rig' R (raceAct limit act') := by
  intro w v hR
  obtain ⟨result, w₁, v₁, hw, hv, h₁⟩ :=
    (h.race (h.call hR) limit (act' v.calls).ending (act' v.calls).events none).pair
  simp only [raceAct, run, hact hR, hw, hv]
  cases result <;> exact ⟨rfl, h₁⟩

theorem parallel_stall (h : Tandem rig rig' R) : (stall : Flow α).Parallel rig rig' R stall :=
  fun _ _ hR => ⟨rfl, h.waitForever hR⟩

/-- Every flow goes side by side with itself if the worlds agree on the counts that a flow can ask
for. -/
theorem parallel_of_counts (h : Tandem rig rig' R) (hsends : ∀ ⦃w v⦄, R w v → w.sends = v.sends)
    (hcalls : ∀ ⦃w v⦄, R w v → w.calls = v.calls) (p : Flow α) : p.Parallel rig rig' R p := by
  induction p with
  | done a => exact parallel_pure a
  | note n next ih => exact (parallel_tell h n).bind fun _ => ih
  | emit e next ih =>
    cases e with
    | report r => exact (parallel_send h r).bind fun _ => ih
    | pause ms => exact (parallel_pause h ms).bind fun _ => ih
  | handle next ih => exact (parallel_readHandle h).bind ih
  | selected next ih => exact (parallel_readSelected h).bind ih
  | lines next ih => exact (parallel_readLines h).bind ih
  | sent next ih =>
    intro w v hR
    rw [run, run, hsends hR]
    exact ih _ hR
  | race limit act next ih =>
    exact (parallel_raceAct h limit fun w v hR => congrArg act (hcalls hR)).bind ih
  | stall => exact parallel_stall h

end Flow

/-! ## The player -/

namespace Player
open World (Tandem)
open ButtonPad.Flow
variable {rig : Rig σ} {rig' : Rig σ'} {R : World σ → World σ' → Prop} {A : Type}

theorem poll_parallel (h : Tandem rig rig' R) (s : Setup A) :
    (poll s).Parallel rig rig' R (poll s) := by
  refine (parallel_pause h _).bind fun _ => (parallel_readSelected h).bind fun app => ?_
  cases s.mapFor? app with
  | none => exact parallel_pure none
  | some map => exact (parallel_readLines h).bind fun snapshot => parallel_pure _

theorem awaitPress_parallel (h : Tandem rig rig' R) (s : Setup A) (n : Nat) :
    (awaitPress s n).Parallel rig rig' R (awaitPress s n) := by
  induction n with
  | zero => exact parallel_stall h
  | succ n ih =>
    refine (poll_parallel h s).bind fun found => ?_
    cases found with
    | none => exact ih
    | some press => exact parallel_pure press

variable [Behaviour A]

/-! ### Scripts

The one run may play another row than the other, of another catalog, if both rows are decoded to the
same steps. -/

theorem callSpecial_parallel (h : Tandem rig rig' R) {s : Setup A} (d : Catalog)
    {call call' : Invocation} {slot : Slot A} (hhandle : call.handle = call'.handle)
    (htold : (tell (.invoked call)).Parallel rig rig' R (tell (.invoked call')))
    (hact : ∀ ⦃w v⦄, R w v → Behaviour.act slot.action call s.timing w.calls =
      Behaviour.act slot.action call' s.timing v.calls) :
    (callSpecial s call slot).Parallel rig rig' R
      (callSpecial { s with catalog := d } call' slot) := by
  refine htold.bind fun _ => (parallel_raceAct h _ hact).bind fun o => ?_
  cases o with
  | some outcome => exact parallel_pure outcome
  | none =>
    dsimp only
    rw [hhandle]
    exact (parallel_perform h _).bind fun _ => parallel_pure _

/-- Special actions are called side by side, whichever of the two rows they are handed. -/
def CallAlike (rig : Rig σ) (rig' : Rig σ') (R : World σ → World σ' → Prop) (s : Setup A)
    (d : Catalog) (app : AppId) (a b : Row) : Prop :=
  ∀ (call : Invocation) (slot : Slot A), s.repertoire.slot? app call.index = some slot →
    (callSpecial s { call with row := a } slot).Parallel rig rig' R
      (callSpecial { s with catalog := d } { call with row := b } slot)

theorem playStep_parallel (h : Tandem rig rig' R) {s : Setup A} {d : Catalog} {app : AppId}
    {a b : Row} (hcall : CallAlike rig rig' R s d app a b) (cursor : Nat) (handle : Handle)
    (step : Step) :
    (playStep s app a cursor handle step).Parallel rig rig' R
      (playStep { s with catalog := d } app b cursor handle step) := by
  cases step with
  | finish => exact parallel_pure _
  | key usage | combo keys | click button =>
    exact (parallel_tell h _).bind fun _ => (parallel_perform h _).bind fun _ => parallel_pure _
  | special index =>
    refine (parallel_tell h _).bind fun _ => ?_
    cases hslot : s.repertoire.slot? app index with
    | none => exact (parallel_tell h _).bind fun _ => parallel_pure _
    | some slot =>
      let call : Invocation :=
        { app, index, row := a, cursor, handle, arg1 := slot.arg1, arg2 := slot.arg2 }
      exact (hcall call slot hslot).bind fun _ => parallel_pure _

theorem playItems_parallel (h : Tandem rig rig' R) {s : Setup A} {d : Catalog} {app : AppId}
    {a b : Row} (hcall : CallAlike rig rig' R s d app a b) (items : List Decoder.Item) (skip : Bool)
    (p : Progress) :
    (playItems s app a items skip p).Parallel rig rig' R
      (playItems { s with catalog := d } app b items skip p) := by
  induction items generalizing skip p with
  | nil => exact parallel_pure _
  | cons item rest ih =>
    cases item with
    | error fault => exact parallel_pure _
    | ok entry =>
      obtain ⟨slot, step⟩ := entry
      simp only [playItems]
      split
      · exact parallel_pure _
      split
      · exact ih false _
      refine (parallel_readHandle h).bind fun handle =>
        (playStep_parallel h hcall slot handle step).bind fun verdict => ?_
      refine (parallel_tell h _).bind fun _ => (parallel_pause h _).bind fun _ => ?_
      cases verdict with
      | goOn => exact ih false _
      | skipNext => exact ih true _
      | stop ending => exact parallel_pure _

/-- A lead in the count of reports is in both counts that a summary is the difference of. -/
theorem playRow_parallel (h : Tandem rig rig' R) {lead : Nat}
    (hsends : ∀ ⦃w v⦄, R w v → w.sends = lead + v.sends) {s : Setup A} {d : Catalog} {app : AppId}
    {a b : Row} (hcall : CallAlike rig rig' R s d app a b) (hitems : a.items = b.items)
    (cmd : UInt8) :
    (playRow s app cmd a).Parallel rig rig' R (playRow { s with catalog := d } app cmd b) := by
  unfold playRow
  rw [hitems]
  refine parallel_readSent hsends fun before => (parallel_tell h _).bind fun _ =>
    (playItems_parallel h hcall b.items false {}).bind fun (p, ending) =>
      parallel_readSent hsends fun after => ?_
  rw [Nat.add_sub_add_left]
  exact parallel_pure _

/-- A command goes side by side if both pads refuse it for the same reason, or play rows for it that
go side by side. -/
theorem command_parallel (h : Tandem rig rig' R) {s : Setup A} {d : Catalog} {app : AppId}
    {cmd : UInt8}
    (hlook : (∃ refusal, lookup s app cmd = .error refusal ∧
        lookup { s with catalog := d } app cmd = .error refusal) ∨
      ∃ a b, lookup s app cmd = .ok a ∧ lookup { s with catalog := d } app cmd = .ok b ∧
        (playRow s app cmd a).Parallel rig rig' R (playRow { s with catalog := d } app cmd b)) :
    (command s app cmd).Parallel rig rig' R (command { s with catalog := d } app cmd) := by
  unfold command
  rcases hlook with ⟨refusal, ha, hb⟩ | ⟨a, b, ha, hb, hrow⟩
  · rw [ha, hb]
    exact (parallel_tell h _).bind fun _ => parallel_pure _
  · rw [ha, hb]
    exact hrow.bind fun summary => (parallel_tell h _).bind fun _ =>
      (parallel_pause h _).bind fun _ => (parallel_tell h _).bind fun _ =>
        (parallel_tell h _).bind fun _ => parallel_pure _

/-! ### Cycles -/

section
variable {s : Setup A} (h : Tandem rig rig' R)
  (hcommand : ∀ app cmd, (command s app cmd).Parallel rig rig' R (command s app cmd))
include h hcommand

theorem cycle_parallel (polls : Nat) : (cycle s polls).Parallel rig rig' R (cycle s polls) :=
  (parallel_tell h _).bind fun _ => (awaitPress_parallel h s polls).bind fun (app, cmd) =>
    hcommand app cmd

theorem cycles_parallel (polls n : Nat) :
    (cycles s polls n).Parallel rig rig' R (cycles s polls n) := by
  induction n with
  | zero => exact parallel_stall h
  | succ n ih => exact (cycle_parallel h hcommand polls).bind fun _ => ih

theorem boot_parallel (polls : Nat) : (boot s polls).Parallel rig rig' R (boot s polls) :=
  (parallel_pause h _).bind fun _ => cycles_parallel h hcommand polls polls

end

end Player

/-! ## Turns -/

namespace Rig
open World (Tandem Matched)
variable {rig : Rig σ} {rig' : Rig σ'} {R : World σ → World σ' → Prop} {w : World σ} {v : World σ'}
  {A : Type} [Behaviour A] {s : Setup A}

theorem take_tandem (h : Tandem rig rig' R)
    (hcommand : ∀ app cmd,
      (Player.command s app cmd).Parallel rig rig' R (Player.command s app cmd))
    (hR : R w v) (turn : Turn) : Matched R (rig.take s turn w) (rig'.take s turn v) := by
  obtain ⟨changes, task, limit⟩ := turn
  have hchanged : R (changes.foldl World.change w) (changes.foldl World.change v) := by
    induction changes generalizing w v with
    | nil => exact hR
    | cons c rest ih => exact ih (h.change hR c)
  have hbegun := h.startRun hchanged limit
  cases task with
  | command app cmd => exact hcommand app cmd hbegun
  | cycle =>
    simp only [take, cycle, h.now hbegun, h.bound hbegun]
    exact Player.cycle_parallel h hcommand _ hbegun
  | forever =>
    simp only [take, forever, h.now hbegun, h.bound hbegun]
    exact ⟨rfl, (Player.cycles_parallel h hcommand _ _ hbegun).2⟩
  | boot =>
    simp only [take, boot, h.now hbegun, h.bound hbegun]
    exact ⟨rfl, (Player.boot_parallel h hcommand _ hbegun).2⟩

/-- **Pads whose commands go side by side do all else side by side.** Whatever turns both take, each
turn comes to the same on both. -/
theorem takeAll_tandem (h : Tandem rig rig' R)
    (hcommand : ∀ app cmd,
      (Player.command s app cmd).Parallel rig rig' R (Player.command s app cmd))
    (hR : R w v) (turns : List Turn) :
    Matched R (rig.takeAll s turns w) (rig'.takeAll s turns v) := by
  induction turns generalizing w v with
  | nil => exact ⟨rfl, hR⟩
  | cons turn rest ih =>
    obtain ⟨result, w₁, v₁, hw, hv, h₁⟩ := (take_tandem h hcommand hR turn).pair
    obtain ⟨results, w₂, v₂, hw₂, hv₂, h₂⟩ := (ih h₁).pair
    simp only [takeAll, hw, hv, hw₂, hv₂]
    exact ⟨rfl, h₂⟩

end Rig

end ButtonPad
