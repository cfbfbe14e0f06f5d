import ButtonPad.Player.Run
import ButtonPad.Proofs.Cycles
import ButtonPad.Proofs.Setup

/-! # Accepted setups run without faults

What a setup was checked for never comes up while it runs: no press is refused, no script turns out
malformed, no special action is missing, and no script is read past its budget. That is assured
flow by flow, for whatever a flow finds around it, and so holds of every run
(`session_faultless`). -/
namespace ButtonPad
variable {A : Type}

/-- The script did not stop at a fault, and was not read past the budget of its application. -/
def Summary.Sound (s : Setup A) (m : Summary) : Prop :=
  (∀ f, m.ending ≠ .malformed f) ∧ ∃ a, s.appFor? m.app = some a ∧ m.lastSlot ≤ a.budget

/-- The item tells of no refusal and of no missing action, and of sound summaries alone. -/
def Item.Sound (s : Setup A) : Item → Prop
  | .note (.refused _) | .note (.absent ..) => False
  | .note (.finished m) => m.Sound s
  | _ => True

theorem Item.sound_of_event (s : Setup A) {item : Item} (h : item.event?.isSome) :
    item.Sound s := by
  cases item with
  | note n => cases h
  | _ => trivial

def History.Faultless (s : Setup A) (h : History) : Prop := ∀ item ∈ h, item.Sound s

theorem History.Faultless.nil (s : Setup A) : Faultless s [] := by
  simp [Faultless]

theorem History.Faultless.append {s : Setup A} {g h : History} (hg : Faultless s g)
    (hh : Faultless s h) : Faultless s (g ++ h) :=
  List.forall_mem_append.mpr ⟨hg, hh⟩

theorem History.Faultless.concat {s : Setup A} {h : History} {item : Item} (hh : Faultless s h)
    (hi : item.Sound s) : Faultless s (h ++ [item]) :=
  hh.append (List.forall_mem_singleton.mpr hi)

theorem History.faultless_robust (s : Setup A) : Robust (Faultless s) where
  outward hp ho := hp.append fun item hi => Item.sound_of_event s (ho item hi)
  quiet := by
    intro past item hp hq
    refine hp.concat ?_
    cases item with
    | note n => cases n <;> trivial
    | _ => trivial

namespace Player
variable {s : Setup A}
open ButtonPad.Flow History

/-! ## Scripts -/

variable [Behaviour A]

theorem playItems_faultless {app : AppId} {row : Row} {budget : Nat} {items : List Decoder.Item}
    (hlen : row.length = budget + 1)
    (hplay : ∀ item ∈ items, ∃ slot step, item = .ok (slot, step) ∧
      slot + step.width ≤ row.length ∧
      ∀ index, step = .special index → s.repertoire.slot? app index ≠ none)
    {skip : Bool} {p : Progress} (hlast : p.lastSlot ≤ budget) {past : History}
    (hp : Faultless s past) :
    (playItems s app row items skip p).Assures (Faultless s) past fun result past =>
      Faultless s past ∧ result.1.lastSlot ≤ budget ∧ ∀ f, result.2 ≠ .malformed f := by
  induction items generalizing skip p past with
  | nil => exact ⟨hp, hlast, by simp⟩
  | cons item rest ih =>
    obtain ⟨slot, step, rfl, hwidth, hslot⟩ := hplay item (by simp)
    have hrest := fun item hi => hplay item (List.mem_cons_of_mem _ hi)
    have hnow : slot + step.width - 1 ≤ budget := by omega
    by_cases hfinish : step = .finish
    · subst hfinish
      exact ⟨hp, hnow, by simp⟩
    cases skip with
    | true =>
      simp only [playItems, hfinish, if_false, if_true]
      exact ih hrest hnow hp
    | false =>
      have hstep : ∀ {handle past}, Faultless s past →
          (playStep s app row slot handle step).Assures (Faultless s) past fun v past =>
            Faultless s past ∧ ∀ f, v ≠ .stop (.malformed f) :=
        fun hp => playStep_robust (faultless_robust s)
          (fun index he hmissing => absurd hmissing (hslot index he)) hp
      rw [playItems_execute hfinish, assures_bind]
      refine (execute_steady (faultless_robust s).steady hstep hp).mono ?_
      intro verdict past hplayed
      obtain ⟨hp, hstop⟩ := hplayed
      cases verdict with
      | goOn => exact ih hrest hnow hp
      | skipNext => exact ih hrest hnow hp
      | stop ending => exact ⟨hp, hnow, fun f hf => hstop f (congrArg _ hf)⟩

theorem command_faultless {app : AppId} {cmd : UInt8} {a : Application} {row : Row}
    (hfind : s.appFor? app = some a) (hrow : a.script? cmd = some row)
    (hplay : row.Playable s.repertoire app) (hlen : row.length = a.budget + 1) {past : History}
    (hp : Faultless s past) :
    (command s app cmd).Assures (Faultless s) past fun result past =>
      Faultless s past ∧ ∃ m, result = .ok m ∧ m.Sound s := by
  have hlook : lookup s app cmd = .ok row := by simp [lookup, hfind, hrow]
  refine command_steady (faultless_robust s).steady hlook (·.Sound s) ?_
    (fun hp hm => hp.concat hm) hp
  intro past hp
  refine (playItems_faultless hlen hplay (Nat.zero_le _) hp).mono ?_
  intro (p, ending) past ⟨hp, hlast, hend⟩
  exact ⟨hp, fun sends => ⟨hend, a, hfind, hlast⟩⟩

/-! ## Cycles -/

theorem cycle_faultless (h : s.Accepted) {capacity : Nat} {qs : List Catalog.Registration}
    (hc : s.catalog = .after capacity qs) (polls : Nat) {past : History} (hp : Faultless s past) :
    (cycle s polls).Assures (Faultless s) past fun result past =>
      Faultless s past ∧ ∃ m, result = .ok m ∧ m.Sound s := by
  refine cycle_steady (faultless_robust s).steady ?_ polls hp
  intro app cmd past ⟨map, snapshot, press, hmap, hpress, hcmd⟩ hp
  subst hcmd
  obtain ⟨a, row, hfind, hrow⟩ := h.script_of_press hmap hpress
  obtain ⟨hplay, hlen⟩ := h.playable hc hfind (List.mem_of_getElem? hrow)
  exact command_faultless hfind hrow hplay hlen hp

theorem boot_faultless (h : s.Accepted) {capacity : Nat} {qs : List Catalog.Registration}
    (hc : s.catalog = .after capacity qs) (polls : Nat) {past : History} (hp : Faultless s past) :
    (boot s polls).Assures (Faultless s) past fun _ => Faultless s := by
  refine boot_steady (faultless_robust s).steady ?_ hp
  intro past hp
  exact (cycle_faultless h hc polls hp).mono fun _ _ h => h.1

end Player

/-! ## Runs -/

theorem World.history_changes {σ : Type} (cs : List Change) (w : World σ) :
    (cs.foldl World.change w).history = w.history := by
  induction cs generalizing w with
  | nil => rfl
  | cons c cs ih => exact ih (w.change c)

namespace Rig
variable {σ : Type} [Behaviour A] {s : Setup A} {capacity : Nat} {qs : List Catalog.Registration}

/-- Cycles one after the other, each behind changes of the surroundings and up to a limit. -/
def session (rig : Rig σ) (s : Setup A) :
    List (List Change × Nat) → World σ → List (Option (Except Refusal Summary)) × World σ
  | [], w => ([], w)
  | (changes, limit) :: turns, w =>
    let (result, w) := rig.cycle s limit (changes.foldl World.change w)
    let (results, w) := rig.session s turns w
    (result :: results, w)

theorem cycle_faultless (h : s.Accepted) (hc : s.catalog = .after capacity qs) (rig : Rig σ)
    (limit : Nat) (w : World σ) :
    (∀ result, (rig.cycle s limit w).1 = some result → ∃ m, result = .ok m ∧ m.Sound s) ∧
      ∃ now, (rig.cycle s limit w).2.history = w.history ++ now ∧ now.Faultless s := by
  obtain ⟨now, hist, hkept, hpost⟩ := Flow.run_assures rig (w.startRun rig.clock limit)
    (Player.cycle_faultless h hc _ (.nil s)) (.nil s)
  exact ⟨fun result hr => (hpost result hr).2, now, hist, hkept now (List.prefix_refl now)⟩

theorem session_faultless (h : s.Accepted) (hc : s.catalog = .after capacity qs) (rig : Rig σ)
    (turns : List (List Change × Nat)) (w : World σ) :
    (∀ result, some result ∈ (rig.session s turns w).1 → ∃ m, result = .ok m ∧ m.Sound s) ∧
      ∃ now, (rig.session s turns w).2.history = w.history ++ now ∧ now.Faultless s := by
  induction turns generalizing w with
  | nil => exact ⟨by simp [session], [], by simp [session], .nil s⟩
  | cons turn turns ih =>
    obtain ⟨changes, limit⟩ := turn
    obtain ⟨hresult, first, hfirst, hfl⟩ := cycle_faultless h hc rig limit
      (changes.foldl World.change w)
    obtain ⟨hresults, rest, hrest, hrl⟩ := ih (rig.cycle s limit (changes.foldl World.change w)).2
    refine ⟨fun result hr => ?_, first ++ rest, ?_, hfl.append hrl⟩
    · rcases List.mem_cons.mp hr with he | hr
      · exact hresult result he.symm
      · exact hresults result hr
    · have hcons : (rig.session s ((changes, limit) :: turns) w).2 =
          (rig.session s turns (rig.cycle s limit (changes.foldl World.change w)).2).2 := rfl
      rw [hcons, hrest, hfirst, World.history_changes, List.append_assoc]

end Rig

/-- **An accepted setup runs without faults.** Whatever its surroundings, its lines, its actions
and its clock do, a pad that was put together of a catalog built by registrations never refuses a
press, never meets a malformed script or a missing special action, and reads no script past the
budget of its application: not in any number of cycles, and not from power-up on. -/
theorem accepted_runs_faultless {σ : Type} [Behaviour A] {capacity : Nat}
    {qs : List Catalog.Registration} {r : Repertoire A} {buttons : List (AppId × ButtonMap)}
    {t : Timing} {s : Setup A}
    (h : Setup.assemble (.after capacity qs) r buttons t = .ok s) (rig : Rig σ) (w : World σ) :
    (∀ turns,
      (∀ result, some result ∈ (rig.session s turns w).1 → ∃ m, result = .ok m ∧ m.Sound s) ∧
        ∃ now, (rig.session s turns w).2.history = w.history ++ now ∧ now.Faultless s) ∧
      ∀ limit, ∃ now, (rig.boot s limit w).history = w.history ++ now ∧ now.Faultless s := by
  obtain ⟨rfl, hacc⟩ := Setup.assemble_eq_ok_iff.mp h
  refine ⟨fun turns => Rig.session_faultless hacc rfl rig turns w, fun limit => ?_⟩
  obtain ⟨now, hist, hkept, -⟩ := Flow.run_assures rig (w.startRun rig.clock limit)
    (Player.boot_faultless hacc rfl _ (.nil _)) (.nil _)
  exact ⟨now, hist, hkept now (List.prefix_refl now)⟩

/-- Without the application that the first cycle selects nothing happens; the second cycle comes to
an end, with its shortcut cut off. -/
theorem accepted_runs_faultless_specimen :
    (Specimen.rig.session Specimen.setup [([.select 7], 40), ([.select 0], 5000)]
        Specimen.world).1.map (·.bind Except.toOption) =
          [none, some ⟨0, 0, 2, 1, 5, 5, .actionFailed⟩] ∧
      (∀ result, some result ∈ (Specimen.rig.session Specimen.setup
          [([.select 7], 40), ([.select 0], 5000)] Specimen.world).1 →
        ∃ m, result = .ok m ∧ m.Sound Specimen.setup) ∧
      ∃ now, (Specimen.rig.boot Specimen.setup 5000 Specimen.world).history =
        Specimen.world.history ++ now ∧ now.Faultless Specimen.setup := by
  have h := accepted_runs_faultless Specimen.assemble_setup Specimen.rig Specimen.world
  exact ⟨by decide +kernel, (h.1 _).1, h.2 5000⟩

end ButtonPad
