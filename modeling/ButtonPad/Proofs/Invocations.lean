import ButtonPad.Proofs.Acceptance
import ButtonPad.Proofs.Addresses
import ButtonPad.Proofs.Itinerary
import Mathlib.Data.List.Basic

/-! # What a special action is told

A call tells its action of the marker that caused it: the row it stands in, its slot, the index
behind it, what is registered for that index, and the session of the step (`Setup.Describes`). The
calls of a command are those of the special steps that it visits, each one once and in the order of
the row (`Setup.Tours.calls_eq`, `Setup.Tours.pairwise_calls`). -/
namespace ButtonPad

namespace World
variable {σ : Type}

def marksFrom (w : World σ) (n : Nat) : List (Nat × Mark) :=
  (w.entriesFrom n).filterMap fun e => e.item.mark?.map (e.time, ·)

theorem map_marksFrom (w : World σ) (n : Nat) :
    (w.marksFrom n).map (·.2) = History.marks (w.history.drop n) := by
  rw [history, ← List.map_drop, History.marks, List.filterMap_map, marksFrom, entriesFrom,
    List.map_filterMap]
  refine congrArg (List.filterMap · _) (funext fun e => ?_)
  rw [Option.map_map]
  exact Option.map_id' ..

theorem Candid.eq_session {session : Nat → Handle} {n : Nat} {w : World σ}
    (h : w.Candid session n) {time : Nat} {handle : Handle}
    (hm : (time, .addressed handle) ∈ w.marksFrom n) : handle = session time := by
  obtain ⟨⟨at_, item⟩, he, hmark⟩ := List.mem_filterMap.mp hm
  obtain ⟨mark, hitem, hpair⟩ := Option.map_eq_some_iff.mp hmark
  obtain ⟨rfl, rfl⟩ := Prod.mk.inj hpair
  refine h.noted _ he handle ?_
  cases item with
  | addressed found =>
    obtain rfl := Mark.addressed.inj (Option.some.inj hitem)
    rfl
  | note n => cases n <;> cases hitem
  | _ => cases hitem

end World

/-! ## Calls -/

namespace Setup
variable {A : Type} {s : Setup A} {app : AppId} {cmd : UInt8} {row : Row}

/-- The call describes a marker of the command's row: the row is the command's, the marker stands in
the slot that is told with its index behind it, and the arguments are those that are registered
for the application and the index. -/
structure Describes (s : Setup A) (app : AppId) (cmd : UInt8) (call : Invocation) : Prop where
  owner : call.app = app
  row : Player.lookup s app cmd = .ok call.row
  marker : call.row[call.cursor]? = some .special
  index : call.row[call.cursor + 1]? = some (.ofByte call.index)
  args : ∃ slot, s.repertoire.slot? app call.index = some slot ∧ call.arg1 = slot.arg1 ∧
    call.arg2 = slot.arg2

theorem call?_eq_some_iff {v : Visit} {call : Invocation} :
    s.call? app row v = some call ↔ ∃ index slot, v.step = .special index ∧
      s.repertoire.slot? app index = some slot ∧
      call = ⟨app, index, row, v.slot, v.handle, slot.arg1, slot.arg2⟩ := by
  obtain ⟨place, step, handle⟩ := v
  cases step with
  | special index =>
    simp only [call?, Step.call?, Option.bind_some, Option.map_eq_some_iff, Step.special.injEq]
    constructor
    · rintro ⟨slot, hslot, rfl⟩
      exact ⟨index, slot, rfl, hslot, rfl⟩
    · rintro ⟨_, slot, rfl, hslot, rfl⟩
      exact ⟨slot, hslot, rfl⟩
  | _ => simp [call?, Step.call?]

/-- Whoever reads off a marker what to call describes it. -/
theorem describes_of_call? (hlook : Player.lookup s app cmd = .ok row) {v : Visit}
    (hm : .ok (v.slot, v.step) ∈ row.items) {call : Invocation}
    (h : s.call? app row v = some call) : s.Describes app cmd call := by
  obtain ⟨index, slot, hstep, hslot, rfl⟩ := call?_eq_some_iff.mp h
  rw [hstep] at hm
  obtain ⟨codes, hspelt, hrow⟩ := row.decodes_items.spelt hm nofun
  cases hspelt
  have hcodes : ∀ i, row[v.slot + i]? =
      (Code.special :: .ofByte index :: row.drop (v.slot + (Step.special index).width))[i]? := by
    intro i
    rw [← List.getElem?_drop, hrow]
    rfl
  exact ⟨rfl, hlook, hcodes 0, hcodes 1, slot, hslot, rfl, rfl⟩

/-- In a playable row a visit calls what its step calls, from the step's slot. -/
theorem map_call? (hplay : row.Playable s.repertoire app) {v : Visit}
    (hm : .ok (v.slot, v.step) ∈ row.items) :
    (s.call? app row v).map (fun call => (call.cursor, call.index)) = v.special? := by
  obtain ⟨place, step, hitem, -, hslot⟩ := hplay _ hm
  obtain ⟨-, rfl⟩ := Prod.mk.inj (Except.ok.inj hitem)
  obtain ⟨place, step, handle⟩ := v
  cases step with
  | special index =>
    obtain ⟨slot, hslot⟩ := Option.ne_none_iff_exists'.mp (hslot index rfl)
    simp only [call?, Visit.special?, Step.call?, Option.bind_some, hslot, Option.map_some]
  | _ => rfl

variable [Behaviour A]

namespace Tours
variable {skip : Bool} {items : List Decoder.Item} {visits : List Visit} {ending : Option Ending}

theorem sublist (h : s.Tours app row skip items visits ending) :
    (visits.map fun v => (.ok (v.slot, v.step) : Decoder.Item)).Sublist items := by
  induction h with
  | soFar | ranOut | malformed | finish => exact List.nil_sublist _
  | leftOut _ _ ih => exact ih.cons _
  | within => exact (List.nil_sublist _).cons_cons _
  | goOn _ _ ih | skipNext _ _ ih => exact ih.cons_cons _
  | stop => exact (List.nil_sublist _).cons_cons _

variable (h : s.Tours app row skip row.items visits ending)
include h

theorem mem_items {v : Visit} (hv : v ∈ visits) : .ok (v.slot, v.step) ∈ row.items :=
  h.sublist.subset (List.mem_map_of_mem hv)

theorem specials_sublist : (visits.filterMap Visit.special?).Sublist row.specials := by
  have hsub : (List.filterMap _ (visits.map _)).Sublist row.specials := h.sublist.filterMap _
  rw [List.filterMap_map] at hsub
  refine Eq.subst (motive := (List.Sublist · row.specials)) ?_ hsub
  refine congrArg (List.filterMap · visits) (funext fun v => ?_)
  obtain ⟨slot, step, handle⟩ := v
  cases step <;> rfl

/-- What is called are the special steps that are visited, each one from its slot. -/
theorem calls_eq (hplay : row.Playable s.repertoire app) :
    (visits.filterMap (s.call? app row)).map (fun call => (call.cursor, call.index)) =
      visits.filterMap Visit.special? := by
  rw [List.map_filterMap]
  exact List.filterMap_congr fun v hv => map_call? hplay (h.mem_items hv)

theorem pairwise_calls (hplay : row.Playable s.repertoire app) :
    (visits.filterMap (s.call? app row)).Pairwise (·.cursor < ·.cursor) := by
  have hordered := row.pairwise_specials.sublist h.specials_sublist
  rw [← h.calls_eq hplay, List.pairwise_map] at hordered
  exact hordered

theorem describes (hlook : Player.lookup s app cmd = .ok row) :
    ∀ call ∈ visits.filterMap (s.call? app row), s.Describes app cmd call := by
  intro call hcall
  obtain ⟨v, hv, hcall⟩ := List.mem_filterMap.mp hcall
  exact describes_of_call? hlook (h.mem_items hv) hcall

end Tours

/-! ## Marks -/

/-- Every call describes a marker of a command's row. Right before it, its step has addressed the
session that it tells of and has entered its phase. -/
def Founded (s : Setup A) (marks : List Mark) : Prop :=
  ∀ before call after, marks = before ++ .invoked call :: after →
    (∃ app cmd, s.Describes app cmd call) ∧
      ∃ front, before = front ++ [.addressed call.handle, .entered .special]

namespace Founded
variable {xs ys marks : List Mark}

omit [Behaviour A]

theorem of_silent (h : ∀ mark ∈ marks, mark.call? = none) : s.Founded marks := by
  rintro before call after rfl
  cases h (.invoked call) (by simp)

theorem append (hx : s.Founded xs) (hy : s.Founded ys) : s.Founded (xs ++ ys) := by
  intro before call after he
  rcases List.append_eq_append_iff.mp he with ⟨more, rfl, hys⟩ | ⟨more, hxs, hafter⟩
  · obtain ⟨hdescribes, front, rfl⟩ := hy more call after hys
    exact ⟨hdescribes, xs ++ front, (List.append_assoc ..).symm⟩
  · cases more with
    | nil =>
      obtain ⟨-, front, hnil⟩ := hy [] call after hafter.symm
      simp at hnil
    | cons mark rest =>
      obtain ⟨rfl, -⟩ := List.cons.inj hafter
      exact hx before call rest hxs

theorem mono (h : s.Founded ys) (hp : xs <+: ys) : s.Founded xs := by
  obtain ⟨rest, rfl⟩ := hp
  rintro before call after rfl
  exact h before call (after ++ rest) (List.append_assoc ..)

theorem flatMap {α : Type} {f : α → List Mark} {items : List α}
    (h : ∀ x ∈ items, s.Founded (f x)) : s.Founded (items.flatMap f) := by
  induction items with
  | nil => exact of_silent nofun
  | cons x rest ih =>
    obtain ⟨hx, hrest⟩ := List.forall_mem_cons.mp h
    exact hx.append (ih hrest)

theorem visit (hlook : Player.lookup s app cmd = .ok row) {v : Visit}
    (hm : .ok (v.slot, v.step) ∈ row.items) : s.Founded (s.marks app row v) := by
  cases hcall : s.call? app row v with
  | none =>
    refine of_silent ?_
    simp [marks, hcall, Mark.call?]
  | some call =>
    obtain ⟨index, slot, hstep, -, hargs⟩ := call?_eq_some_iff.mp hcall
    have hmarks : s.marks app row v =
        [.addressed call.handle, .entered .special] ++ [.invoked call, .entered .reading] := by
      rw [marks, hcall, hstep, hargs]
      rfl
    -- the only call of a visit is its third mark
    intro before call' after he
    rw [hmarks] at he
    match before, he with
    | [_, _], he =>
      obtain ⟨rfl, rfl, hcalled, -⟩ : _ ∧ _ ∧ Mark.invoked call = .invoked call' ∧ _ := by
        simpa using he
      obtain rfl := Mark.invoked.inj hcalled
      exact ⟨⟨app, cmd, describes_of_call? hlook hm hcall⟩, [], rfl⟩
    | [], he | [_], he | [_, _, _], he | _ :: _ :: _ :: _ :: _, he => simp at he

end Founded

theorem Leaves.founded {marks : List Mark} {result : Option (Except Refusal Summary)}
    (h : s.Leaves app cmd marks result) : s.Founded marks := by
  have hitinerary : ∀ {row visits ending}, Player.lookup s app cmd = .ok row →
      s.Tours app row false row.items visits ending →
      s.Founded (s.itinerary app row visits ending) := by
    intro row visits ending hlook htours
    have hvisits : s.Founded (visits.flatMap (s.marks app row)) :=
      .flatMap fun v hv => .visit hlook (htours.mem_items hv)
    have hbegun : s.Founded [.entered .reading] := .of_silent (by simp [Mark.call?])
    refine (hbegun.append hvisits).append (.of_silent ?_)
    cases ending <;> simp [Mark.call?]
  cases h with
  | refused => exact .of_silent nofun
  | cutOff look tours part => exact (hitinerary look tours).mono part
  | played look tours => exact hitinerary look tours

theorem Rounds.founded {marks : List Mark} {result : Option (Except Refusal Summary)}
    (h : s.Rounds marks result) : s.Founded marks := by
  have hpolling : s.Founded [.entered .polling] := .of_silent (by simp [Mark.call?])
  cases h with
  | nothing => exact .of_silent nofun
  | polling => exact hpolling
  | command _ leaves => exact hpolling.append leaves.founded

theorem Chronicle.founded {marks : List Mark} (h : s.Chronicle marks) : s.Founded marks := by
  induction h with
  | nothing => exact .of_silent nofun
  | cycle _ round ih => exact ih.append round.founded

theorem founded_of_records {task : Task} {marks : List Mark}
    {result : Option (Except Refusal Summary)} (h : s.Records task marks result) :
    s.Founded marks := by
  cases task with
  | command app cmd => exact Leaves.founded h
  | cycle => exact Rounds.founded h
  | forever | boot =>
    obtain ⟨past, last, rfl, hpast, hlast⟩ := h
    exact hpast.founded.append hlast.founded

end Setup

/-! ## Runs -/

theorem Rig.take_candid {σ A : Type} [Behaviour A] (rig : Rig σ) (hclock : rig.clock.Forward)
    (s : Setup A) (task : Task) (limit : Nat) (w : World σ) :
    (rig.take s ⟨[], task, limit⟩ w).2.Candid w.sessionAt w.journal.size := by
  have hbegun := w.candid_startRun hclock limit
  cases task with
  | command app cmd => exact Flow.run_candid rig (Player.command s app cmd) hbegun
  | cycle => exact Flow.run_candid rig (Player.cycle s _) hbegun
  | forever => exact Flow.run_candid rig (Player.cycles s _ _) hbegun
  | boot => exact Flow.run_candid rig (Player.boot s _) hbegun

/-- **Calls describe their markers.** What a run of an accepted setup marks in the journal are the
itineraries of its commands. Every call among the marks describes a marker in the row of a command,
tells of the session that was begun last when its step started, and comes right behind the step's
beginning. The calls of a tour are those of the special steps that are visited, in the order of the
row, each slot at most once. -/
theorem calls_describe_their_markers {σ A : Type} [Behaviour A] {capacity : Nat}
    {qs : List Catalog.Registration} {r : Repertoire A} {buttons : List (AppId × ButtonMap)}
    {t : Timing} {s : Setup A} (h : Setup.assemble (.after capacity qs) r buttons t = .ok s)
    (rig : Rig σ) (hclock : rig.clock.Forward) (task : Task) (limit : Nat) (w : World σ) :
    let ran := rig.take s ⟨[], task, limit⟩ w
    let marks := ran.2.marksFrom w.journal.size
    s.Records task (marks.map (·.2)) ran.1 ∧
      (∀ before time call after, marks = before ++ (time, .invoked call) :: after →
        (∃ app cmd, s.Describes app cmd call) ∧
          ∃ front start entered,
            before = front ++ [(start, .addressed call.handle), (entered, .entered .special)] ∧
            call.handle = w.sessionAt start) ∧
      ∀ app cmd row visits ending, Player.lookup s app cmd = .ok row →
        s.Tours app row false row.items visits ending →
        let calls := visits.filterMap (s.call? app row)
        calls.map (fun call => (call.cursor, call.index)) = visits.filterMap Visit.special? ∧
          calls.Pairwise (·.cursor < ·.cursor) ∧ ∀ call ∈ calls, s.Describes app cmd call := by
  intro ran marks
  have hplay := Setup.playable_of_assemble h
  obtain ⟨now, hist, hrecords⟩ := rig.take_records s task limit w
  have hmarks : marks.map (·.2) = now.marks := by
    rw [World.map_marksFrom, hist, ← World.length_history, List.drop_left]
  refine ⟨hmarks ▸ hrecords, fun before time call after he => ?_,
    fun app cmd row visits ending hlook htours => ?_⟩
  · have hsplit : now.marks = before.map (·.2) ++ .invoked call :: after.map (·.2) := by
      rw [← hmarks, he, List.map_append]
      rfl
    obtain ⟨hdescribes, front, hbefore⟩ :=
      Setup.founded_of_records hrecords _ _ _ hsplit
    obtain ⟨untimed, step, rfl, rfl, hstep⟩ := List.map_eq_append_iff.mp hbefore
    obtain ⟨⟨start, _⟩, _, rfl, rfl, hrest⟩ := List.map_eq_cons_iff.mp hstep
    obtain ⟨⟨entered, _⟩, _, rfl, rfl, hnil⟩ := List.map_eq_cons_iff.mp hrest
    obtain rfl := List.map_eq_nil_iff.mp hnil
    refine ⟨hdescribes, untimed, start, entered, rfl, ?_⟩
    have hmem : (start, Mark.addressed call.handle) ∈ marks := by
      rw [he]
      simp
    exact (rig.take_candid hclock s task limit w).eq_session hmem
  · have hrow := hplay.rows hlook
    exact ⟨htours.calls_eq hrow, htours.pairwise_calls hrow, htours.describes hlook⟩

namespace Specimen

/-- The visits of the row towards one session. The first action has the key left out, the second one
is given up. -/
def visits (handle : Handle) : List Visit := [⟨1, .special 0, handle⟩, ⟨4, .special 1, handle⟩]

theorem tours_visits (handle : Handle) :
    setup.Tours 0 row false row.items (visits handle) (some .actionFailed) := by
  have hskips : (setup.stage 0 row handle).Does 1 (.special 0) [] .skipNext :=
    @Stage.Does.special _ 1 0 0 [] .skipNext (.of_idle _ (List.forall_mem_nil _)) rfl rfl
  have hfails : (setup.stage 0 row handle).Does 4 (.special 1) (Gesture.letGo handle)
      (.stop .actionFailed) :=
    @Stage.Does.givenUp _ 4 1 0 [] (.of_idle _ (List.forall_mem_nil _))
  exact .skipNext hskips (.leftOut nofun (.stop hfails))

end Specimen

/-- Two commands, the second one cut off. Another session begins between them, and the calls of the
second command tell of it. -/
theorem calls_describe_their_markers_specimen :
    let ran := Specimen.rig.take Specimen.setup ⟨[], .forever, 1800⟩ Specimen.world
    let marks := ran.2.marksFrom 0
    let calls := (Specimen.visits 1).filterMap (Specimen.setup.call? 0 Specimen.row)
    Specimen.rig.clock.Forward ∧ Specimen.setup.Records .forever (marks.map (·.2)) ran.1 ∧
      marks.filterMap (fun (time, mark) => mark.call?.map fun call =>
        (time, call.cursor, call.index, call.handle, call.arg2)) =
        [(10, 1, 0, 1, []), (510, 4, 1, 1, [4, 5]), (1720, 1, 0, 2, [])] ∧
      Specimen.world.sessionAt 510 = 1 ∧ Specimen.world.sessionAt 1720 = 2 ∧
      calls.map (fun call => (call.cursor, call.index)) = [(1, 0), (4, 1)] ∧
      ∀ call ∈ calls, Specimen.setup.Describes 0 0 call := by
  intro ran marks calls
  obtain ⟨hrecords, -, htours⟩ := calls_describe_their_markers Specimen.assemble_setup
    Specimen.rig Clock.forward_milliseconds .forever 1800 Specimen.world
  obtain ⟨hcalls, -, hdescribes⟩ :=
    htours 0 0 Specimen.row _ _ rfl (Specimen.tours_visits 1)
  exact ⟨Clock.forward_milliseconds, hrecords, by decide +kernel, rfl, rfl, hcalls, hdescribes⟩

end ButtonPad
