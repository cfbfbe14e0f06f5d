import ButtonPad.Proofs.Cycles
import ButtonPad.Proofs.Refusals
import ButtonPad.Proofs.Tally
import ButtonPad.Proofs.TimedRun

/-! # What the summaries add up to

A command's summary tells of as many reports as the command sent. Between commands nothing is sent,
so whenever a command is over the reports sent so far are those that all summaries so far tell of
(`History.Settled`). What became of the reports has no part in it, nor in anything else that a pad
does (`refusals_are_only_counted`). -/
namespace ButtonPad

def Item.summary? : Item → Option Summary
  | .note (.finished m) => some m
  | _ => none

def Summary.total (ms : List Summary) : Nat := ms.foldr (fun m n => m.sends + n) 0

theorem Summary.total_append (ms ms' : List Summary) :
    total (ms ++ ms') = total ms + total ms' := by
  induction ms with
  | nil => exact (Nat.zero_add _).symm
  | cons m rest ih => exact (congrArg (m.sends + ·) ih).trans (Nat.add_assoc ..).symm

namespace History

def summaries (h : History) : List Summary := h.filterMap Item.summary?

theorem summaries_append (g h : History) : summaries (g ++ h) = summaries g ++ summaries h :=
  List.filterMap_append

/-- As many reports were sent as the summaries tell of. -/
def Square (h : History) : Prop := h.deliveries.length = Summary.total h.summaries

/-- If a command is just over, the summaries tell of all reports. -/
def AtRest (h : History) : Prop := ∀ m, h.getLast? = some (.note (.finished m)) → h.Square

/-- Whenever a command is over, the summaries so far tell of all reports so far. -/
def Settled (h : History) : Prop := Kept AtRest h

/-- No command has come to its end. -/
def Unfinished (h : History) : Prop := h.summaries = []

/-- Nothing was sent, and no command has come to its end. -/
def Calm (h : History) : Prop := h.deliveries = [] ∧ h.Unfinished

theorem deliveries_concat {item : Item} (hi : item.delivery? = none) (h : History) :
    deliveries (h ++ [item]) = deliveries h := by
  simp [deliveries, hi]

theorem Unfinished.nil : Unfinished [] := rfl

theorem Unfinished.append {g h : History} (hg : g.Unfinished) (hh : h.Unfinished) :
    (g ++ h).Unfinished := by
  rw [Unfinished, summaries_append, hg, hh]
  rfl

theorem Unfinished.concat {h : History} {item : Item} (hh : h.Unfinished)
    (hi : item.summary? = none) : (h ++ [item]).Unfinished :=
  hh.append (by simp [Unfinished, summaries, hi])

theorem Unfinished.atRest {h : History} (hh : h.Unfinished) : h.AtRest := by
  intro m hm
  have hmem : m ∈ h.summaries := List.mem_filterMap.2 ⟨_, List.mem_of_getLast? hm, rfl⟩
  rw [hh] at hmem
  cases hmem

theorem Unfinished.settled {h : History} (hh : h.Unfinished) : h.Settled := by
  intro g hg
  obtain ⟨rest, rfl⟩ := hg
  rw [Unfinished, summaries_append, List.append_eq_nil_iff] at hh
  exact Unfinished.atRest hh.1

theorem Square.append {g h : History} (hg : g.Square) (hh : h.Square) : (g ++ h).Square := by
  rw [Square] at hg hh ⊢
  rw [deliveries_append, summaries_append, List.length_append, Summary.total_append, hg, hh]

/-- Behind a squared history the sums begin anew. -/
theorem Settled.append {g h : History} (hg : g.Settled) (hs : g.Square) (hh : h.Settled) :
    (g ++ h).Settled := by
  refine Kept.append hg fun front hfront m hm => ?_
  cases front with
  | nil =>
    rw [List.append_nil]
    exact hs
  | cons x front =>
    rw [List.getLast?_append, List.getLast?_cons, Option.some_or, ← List.getLast?_cons] at hm
    exact hs.append (hh _ hfront m hm)

theorem Calm.nil : Calm [] := ⟨rfl, rfl⟩

theorem Calm.square {h : History} (hh : h.Calm) : h.Square := by
  rw [Square, hh.1, hh.2]
  rfl

theorem calm_steady : Steady Calm Calm where
  safe hp := hp
  quiet := by
    intro past item hp hq
    have hitem : item.delivery? = none ∧ item.summary? = none := by
      cases item with
      | note n => cases n <;> first | exact ⟨rfl, rfl⟩ | exact absurd hq id
      | sent => exact absurd hq id
      | _ => exact ⟨rfl, rfl⟩
    exact ⟨(deliveries_concat hitem.1 past).trans hp.1, hp.2.concat hitem.2⟩

end History

namespace History

theorem Outward.unfinished {items : History} (h : items.Outward) : items.Unfinished := by
  refine List.filterMap_eq_nil_iff.2 fun item hi => ?_
  have hevent := h item hi
  cases item with
  | note n => cases hevent
  | _ => rfl

theorem unfinished_robust : Robust Unfinished where
  quiet := by
    intro past item hp hq
    refine hp.concat ?_
    cases item with
    | note n => cases n <;> first | rfl | exact absurd hq id
    | _ => rfl
  outward hp ho := hp.append ho.unfinished

end History

/-! ## Scripts -/

namespace Player
variable {A : Type} [Behaviour A] {s : Setup A}
open ButtonPad.Flow History

theorem playRow_unfinished (s : Setup A) (app : AppId) (cmd : UInt8) (row : Row) {past : History}
    (hp : past.Unfinished) :
    (playRow s app cmd row).Assures Unfinished past fun _ => Unfinished := by
  have hentered : Unfinished (past ++ [.note (.entered .reading)]) := hp.concat rfl
  simp only [playRow, assures_bind, assures_readSent, assures_enter]
  refine fun before => ⟨hentered, (playItems_steady unfinished_robust.steady _
    (playStep_robust unfinished_robust ?_) row.items false {} hentered).mono fun _ _ h after => h⟩
  exact fun index _ _ _ hp => hp.concat rfl

/-- A script's summary tells what the count has grown by. -/
theorem sends_playRow {σ : Type} {rig : Rig σ} {app : AppId} {cmd : UInt8} {row : Row}
    {w w' : World σ} {m : Summary} (h : (playRow s app cmd row).run rig w = (some m, w')) :
    m.sends = w'.sends - w.sends := by
  have hflow : (playRow s app cmd row).run rig w =
      ((playItems s app row row.items false {}).bind fun played =>
        .sent fun after => .done
          { app, command := cmd, steps := played.1.steps, skipped := played.1.skipped,
            sends := after - w.sends, lastSlot := played.1.lastSlot, ending := played.2 }).run rig
          (w.tell (.entered .reading)) := rfl
  rw [hflow, run_bind] at h
  generalize (playItems s app row row.items false {}).run rig (w.tell (.entered .reading)) =
    played at h
  obtain ⟨_ | ⟨p, ending⟩, w₁⟩ := played
  · cases h
  · cases h
    rfl

end Player

/-! ## Flows -/

/-- The flow's runs are settled, and when they come to an end their summaries tell of all reports.
What is known of the result and the summaries is `post`. -/
def Flow.Reckons {σ α : Type} (rig : Rig σ) (p : Flow α) (post : α → List Summary → Prop) : Prop :=
  ∀ w, ∃ now, (p.run rig w).2.history = w.history ++ now ∧ now.Settled ∧
    ∀ a, (p.run rig w).1 = some a → now.Square ∧ post a now.summaries

namespace Flow.Reckons
variable {σ α β : Type} {rig : Rig σ}

theorem bind {p : Flow α} {f : α → Flow β} {told : α → List Summary → Prop}
    {post : β → List Summary → Prop} (hp : p.Reckons rig told)
    (hf : ∀ a ms, told a ms → (f a).Reckons rig fun b more => post b (ms ++ more)) :
    (p >>= f).Reckons rig post := by
  intro w
  obtain ⟨now, hist, hsettled, hend⟩ := hp w
  cases hrun : (p.run rig w).1 with
  | none =>
    rw [run_bind_none f hrun]
    exact ⟨now, hist, hsettled, fun b hb => by cases hb⟩
  | some a =>
    obtain ⟨hsquare, htold⟩ := hend a hrun
    obtain ⟨more, hist', hsettled', hend'⟩ := hf a _ htold (p.run rig w).2
    have hboth : (p >>= f).run rig w = (f a).run rig (p.run rig w).2 :=
      run_bind_some (Prod.ext hrun rfl)
    rw [hboth]
    refine ⟨now ++ more, ?_, hsettled.append hsquare hsettled', fun b hb => ?_⟩
    · rw [hist', hist, List.append_assoc]
    · obtain ⟨hsquare', hpost⟩ := hend' b hb
      rw [History.summaries_append]
      exact ⟨hsquare.append hsquare', hpost⟩

/-- A flow that sends nothing and tells of no command has nothing to reckon. -/
theorem of_calm {p : Flow α} (h : p.Assures History.Calm [] fun _ => History.Calm) :
    p.Reckons rig fun _ ms => ms = [] := by
  intro w
  obtain ⟨now, hist, hkept, hpost⟩ := run_assures rig w h ⟨rfl, rfl⟩
  have hcalm : now.Calm := hkept now (List.prefix_refl now)
  exact ⟨now, hist, History.Unfinished.settled hcalm.2, fun a ha => ⟨hcalm.square, hcalm.2⟩⟩

end Flow.Reckons

namespace Player
variable {σ A : Type} {rig : Rig σ} {s : Setup A}
open ButtonPad.Flow History

theorem settle_assures {m : Summary} {past : History} (hp : past.Unfinished)
    (hm : past.deliveries.length = m.sends) :
    Flow.Assures AtRest (do
      Flow.enter .settling
      Flow.pause s.timing.settle
      Flow.enter .polling
      Flow.tell (.finished m)
      return (.ok m : Except Refusal Summary)) past fun result past =>
        past.Square ∧ past.summaries = result.toOption.toList := by
  have hsettling : Unfinished (past ++ [.note (.entered .settling)]) := hp.concat rfl
  have hsettled : Unfinished (past ++ [.note (.entered .settling)] ++ [.paused s.timing.settle]) :=
    hsettling.concat rfl
  have hpolling : Unfinished (past ++ [.note (.entered .settling)] ++ [.paused s.timing.settle] ++
      [.note (.entered .polling)]) := hsettled.concat rfl
  have hsummaries : summaries (past ++ [.note (.entered .settling)] ++ [.paused s.timing.settle] ++
      [.note (.entered .polling)] ++ [.note (.finished m)]) = [m] := by
    rw [summaries_append, hpolling]
    rfl
  have hsquare : Square (past ++ [.note (.entered .settling)] ++ [.paused s.timing.settle] ++
      [.note (.entered .polling)] ++ [.note (.finished m)]) := by
    rw [Square, hsummaries, deliveries_concat rfl, deliveries_concat rfl, deliveries_concat rfl,
      deliveries_concat rfl]
    exact hm
  simp only [assures_bind, assures_enter, assures_pause, assures_tell, assures_pure]
  exact ⟨hsettling.atRest, hsettled.atRest, hpolling.atRest, fun _ _ => hsquare, hsquare,
    hsummaries⟩

theorem awaitPress_reckons (polls : Nat) :
    (awaitPress s polls).Reckons rig fun _ ms => ms = [] :=
  .of_calm ((awaitPress_steady calm_steady polls .nil).mono fun _ _ h => h.1)

variable [Behaviour A]

theorem command_reckons (app : AppId) (cmd : UInt8) :
    (command s app cmd).Reckons rig fun result ms => ms = result.toOption.toList := by
  intro w
  unfold command
  cases hlook : lookup s app cmd with
  | error refusal =>
    refine ⟨[.note (.refused refusal)], World.history_tell w _, Unfinished.settled rfl, ?_⟩
    intro result hr
    cases hr
    exact ⟨rfl, rfl⟩
  | ok row =>
    obtain ⟨now, hist, hkept, -⟩ :=
      run_assures rig w (playRow_unfinished s app cmd row .nil) .nil
    have hplayed : now.Unfinished := hkept now (List.prefix_refl now)
    cases hrun : (playRow s app cmd row).run rig w with
    | mk result w₁ =>
      have htallies := run_tallies rig (playRow s app cmd row) w
      rw [hrun] at hist htallies
      cases result with
      | none =>
        rw [run_bind_none _ (by rw [hrun])]
        rw [hrun]
        exact ⟨now, hist, hplayed.settled, fun result hr => by cases hr⟩
      | some m =>
        have hsends : now.deliveries.length = m.sends := by
          rw [sends_playRow hrun, (htallies.counts hist).1, Nat.add_sub_cancel_left]
        rw [run_bind_some hrun]
        exact run_assures_behind rig hist (settle_assures hplayed hsends)
          fun g hg => (hkept g hg).atRest

theorem cycle_reckons (polls : Nat) :
    (cycle s polls).Reckons rig fun result ms => ms = result.toOption.toList := by
  have henter : (enter .polling).Reckons rig fun _ ms => ms = [] :=
    .of_calm ((assures_enter ..).2 ⟨⟨rfl, rfl⟩, rfl, rfl⟩)
  refine henter.bind fun _ ms hms => ?_
  subst hms
  refine (awaitPress_reckons polls).bind fun press ms hms => ?_
  subst hms
  exact command_reckons press.1 press.2

theorem cycles_reckons (rig : Rig σ) (s : Setup A) (polls n : Nat) :
    (cycles s polls n).Reckons rig fun _ _ => True := by
  induction n with
  | zero =>
    intro w
    exact ⟨[], (World.history_waitForever w).trans (List.append_nil _).symm,
      Unfinished.nil.settled, fun _ h => by cases h⟩
  | succ n ih => exact (cycle_reckons polls).bind fun _ _ _ => ih

theorem boot_reckons (rig : Rig σ) (s : Setup A) (polls : Nat) :
    (boot s polls).Reckons rig fun _ _ => True := by
  have hpause : (pause s.timing.startup).Reckons rig fun _ ms => ms = [] :=
    .of_calm ((assures_pause ..).2 ⟨⟨rfl, rfl⟩, rfl, rfl⟩)
  exact hpause.bind fun _ _ _ => cycles_reckons rig s polls polls

end Player

/-! ## Turns -/

def reported (results : List (Option (Except Refusal Summary))) : Nat :=
  Summary.total (results.filterMap (·.bind Except.toOption))

theorem reported_cons (result : Except Refusal Summary)
    (results : List (Option (Except Refusal Summary))) :
    reported (some result :: results) =
      Summary.total result.toOption.toList + reported results := by
  cases result with
  | error refusal => exact (Nat.zero_add _).symm
  | ok m => rfl

namespace Rig
variable {σ A : Type} [Behaviour A]

theorem start_same (turn : Turn) (c : Clock) (w : World σ) :
    let begun := (turn.changes.foldl World.change w).startRun c turn.limit
    begun.history = w.history ∧ begun.sends = w.sends ∧ begun.failed = w.failed := by
  obtain ⟨changes, task, limit⟩ := turn
  induction changes generalizing w with
  | nil => exact ⟨rfl, rfl, rfl⟩
  | cons change rest ih => exact ih (w.change change)

theorem tallies_take (rig : Rig σ) (s : Setup A) (turn : Turn) (w : World σ) :
    w.Tallies (rig.take s turn w).2 := by
  obtain ⟨hist, sends, failed⟩ := start_same turn rig.clock w
  unfold take
  cases turn.task with
  | command | cycle | forever | boot =>
    exact .trans (.of_same hist sends failed) (Flow.run_tallies rig _ _)

theorem tallies_takeAll (rig : Rig σ) (s : Setup A) (turns : List Turn) (w : World σ) :
    w.Tallies (rig.takeAll s turns w).2 := by
  induction turns generalizing w with
  | nil => exact .refl w
  | cons turn turns ih => exact (tallies_take rig s turn w).trans (ih _)

theorem take_reckons (rig : Rig σ) (s : Setup A) (turn : Turn) (w : World σ) :
    ∃ now, (rig.take s turn w).2.history = w.history ++ now ∧ now.Settled ∧
      ∀ result, (rig.take s turn w).1 = some result →
        now.Square ∧ now.summaries = result.toOption.toList := by
  obtain ⟨hist, -, -⟩ := start_same turn rig.clock w
  unfold take
  rw [← hist]
  cases turn.task with
  | command app cmd => exact Player.command_reckons app cmd _
  | cycle => exact Player.cycle_reckons _ _
  | forever =>
    obtain ⟨now, hnow, hsettled, -⟩ := Player.cycles_reckons rig s _ _ _
    exact ⟨now, hnow, hsettled, fun _ h => by cases h⟩
  | boot =>
    obtain ⟨now, hnow, hsettled, -⟩ := Player.boot_reckons rig s _ _
    exact ⟨now, hnow, hsettled, fun _ h => by cases h⟩

/-- Turns that were not cut off tell of all that they sent. -/
theorem sends_takeAll (rig : Rig σ) (s : Setup A) (turns : List Turn) (w : World σ)
    (h : none ∉ (rig.takeAll s turns w).1) :
    (rig.takeAll s turns w).2.sends = w.sends + reported (rig.takeAll s turns w).1 := by
  induction turns generalizing w with
  | nil => rfl
  | cons turn turns ih =>
    obtain ⟨now, hist, -, hend⟩ := take_reckons rig s turn w
    obtain ⟨hfirst, hrest⟩ := not_or.1 (mt List.mem_cons.2 h)
    have hsends := ((tallies_take rig s turn w).counts hist).1
    have hresults : (rig.takeAll s (turn :: turns) w).1 =
        (rig.take s turn w).1 :: (rig.takeAll s turns (rig.take s turn w).2).1 := rfl
    cases hresult : (rig.take s turn w).1 with
    | none => exact absurd hresult.symm hfirst
    | some result =>
      obtain ⟨hsquare, hsummaries⟩ := hend result hresult
      rw [History.Square, hsummaries] at hsquare
      rw [hresults, hresult, reported_cons, ← hsquare, ← Nat.add_assoc, ← hsends]
      exact ih (rig.take s turn w).2 hrest

end Rig

/-- **Refused reports are only counted.** On any two transports the pad goes through the same turns
in the same way: the results are the same, and so are the worlds behind them but for what became of
the reports. The counts keep up with the journal through every turn, cut off anywhere. Whenever a
command is over, the summaries since the turn began tell of all reports since then, and the results
of turns that were not cut off tell of all that the count has grown by. -/
theorem refusals_are_only_counted {σ σ' A : Type} [Behaviour A] (s : Setup A) (clock : Clock)
    (source : Source) (t : Transport σ) (t' : Transport σ') {w : World σ} {w' : World σ'}
    (h : w.Alike w') (turns : List Turn) :
    let run := Rig.takeAll ⟨clock, t, source⟩ s turns w
    let run' := Rig.takeAll ⟨clock, t', source⟩ s turns w'
    (run.1 = run'.1 ∧ run.2.Alike run'.2 ∧
      ∀ n, run.2.timedEventsFrom n = run'.2.timedEventsFrom n) ∧
    (w.Tallies run.2 ∧
      ∀ (β : Type) (p : Flow β), run.2.Tallies (p.run ⟨clock, t, source⟩ run.2).2) ∧
    (∀ turn, ∃ now, (Rig.take ⟨clock, t, source⟩ s turn run.2).2.history =
      run.2.history ++ now ∧ now.Settled) ∧
    (none ∉ run.1 → run.2.sends = w.sends + reported run.1) := by
  obtain ⟨hresults, halike⟩ := Rig.takeAll_alike s clock source t t' h turns
  refine ⟨⟨hresults, halike, halike.timedEventsFrom⟩, ⟨Rig.tallies_takeAll _ s turns w,
    fun β p => Flow.run_tallies _ p _⟩, fun turn => ?_, Rig.sends_takeAll _ s turns w⟩
  obtain ⟨now, hist, hsettled, -⟩ := Rig.take_reckons ⟨clock, t, source⟩ s turn
    (Rig.takeAll ⟨clock, t, source⟩ s turns w).2
  exact ⟨now, hist, hsettled⟩

namespace Specimen

/-- Refuses every third report. -/
def fickle : Transport Nat where
  deliver _ _ n := (if n % 3 = 2 then .error .notConnected else .ok (), n + 1)

def turns : List Turn :=
  [{ task := .command 0 0, limit := 5000 }, { task := .cycle, limit := 5000 }]

end Specimen

/-- A transport that takes all reports and one that refuses some of them see the same. -/
theorem refusals_are_only_counted_specimen :
    let run := Rig.takeAll ⟨.milliseconds, .recording, .bank⟩ Specimen.setup Specimen.turns
      Specimen.world
    let run' := Rig.takeAll ⟨.milliseconds, Specimen.fickle, .bank⟩ Specimen.setup
      Specimen.turns { Specimen.world with transport := 0 }
    Specimen.world.Alike { Specimen.world with transport := 0 } ∧
      run.1 = run'.1 ∧ run.2.Alike run'.2 ∧ run.2.sends = 10 ∧ reported run.1 = 10 ∧
      run.2.failed = 0 ∧ run'.2.failed = 3 := by
  have h : Specimen.world.Alike { Specimen.world with transport := 0 } :=
    ⟨rfl, rfl, rfl, rfl, rfl, rfl, rfl, rfl⟩
  obtain ⟨⟨hresults, halike, -⟩, -, -, -⟩ := refusals_are_only_counted Specimen.setup
    .milliseconds .bank .recording Specimen.fickle h Specimen.turns
  refine ⟨h, hresults, halike, ?_, ?_, ?_, ?_⟩
  all_goals decide +kernel

end ButtonPad
