import ButtonPad.Proofs.Mapping
import ButtonPad.Proofs.Objections
import ButtonPad.Proofs.Setup

/-! # What a setup is turned down for

Everything that can be said against the parts of a setup is listed once, each objection with its
place, and a setup is turned down for the objection at the first place. Bounds are compared as
numbers: two key presses are only added up where the sum cannot wrap. -/
namespace ButtonPad

/-! ## Timing -/

namespace Timing

def Breaks (t : Timing) : Fault → Prop
  | .keyHold => t.keyHold.toNat = 0 ∨ 1000 < t.keyHold.toNat
  | .clickHold => t.clickHold.toNat = 0 ∨ 1000 < t.clickHold.toNat
  | .gapOrSettle => 5000 < t.gap.toNat ∨ 5000 < t.settle.toNat
  | .pollEvery => t.pollEvery.toNat = 0 ∨ 1000 < t.pollEvery.toNat
  | .actionLimit => t.actionLimit.toNat < 2 * t.keyHold.toNat

/-- The bounds in the order in which they are looked at. -/
def Fault.rank : Fault → Nat
  | .keyHold => 0
  | .clickHold => 1
  | .gapOrSettle => 2
  | .pollEvery => 3
  | .actionLimit => 4

def Fault.inOrder : List Fault := [.keyHold, .clickHold, .gapOrSettle, .pollEvery, .actionLimit]

theorem Fault.mem_inOrder (fault : Fault) : fault ∈ inOrder := by
  cases fault <;> decide

theorem Fault.pairwise_inOrder : inOrder.Pairwise (rank · < rank ·) := by
  decide

instance (t : Timing) : (fault : Fault) → Decidable (t.Breaks fault)
  | .keyHold | .clickHold | .gapOrSettle | .pollEvery => inferInstanceAs (Decidable (_ ∨ _))
  | .actionLimit => inferInstanceAs (Decidable (_ < _))

/-- A key press within its bounds does not wrap when it is doubled. -/
theorem toNat_double {t : Timing} (h : ¬ t.Breaks .keyHold) :
    (2 * t.keyHold).toNat = 2 * t.keyHold.toNat := by
  have hbound : t.keyHold.toNat ≤ 1000 := by
    simp only [Breaks, not_or] at h
    omega
  rw [UInt32.toNat_mul]
  exact Nat.mod_eq_of_lt (Nat.lt_of_le_of_lt (Nat.mul_le_mul_left 2 hbound) (by decide))

/-- The check finds the first broken bound, on numbers that cannot wrap. -/
theorem check_eq (t : Timing) :
    t.check =
      match Fault.inOrder.find? fun fault => t.Breaks fault with
      | some fault => .error fault
      | none => .ok () := by
  have hhold : ∀ x : UInt32, x = 0 ∨ x > 1000 ↔ x.toNat = 0 ∨ 1000 < x.toNat := by
    intro x
    rw [← UInt32.toNat_inj, gt_iff_lt, UInt32.lt_iff_toNat_lt]
    rfl
  have hrest : ∀ x : UInt32, x > 5000 ↔ 5000 < x.toNat := by
    intro x
    rw [gt_iff_lt, UInt32.lt_iff_toNat_lt]
    rfl
  have hchain : t.check = if t.Breaks .keyHold then .error .keyHold
      else if t.Breaks .clickHold then .error .clickHold
      else if t.Breaks .gapOrSettle then .error .gapOrSettle
      else if t.Breaks .pollEvery then .error .pollEvery
      else if t.Breaks .actionLimit then .error .actionLimit
      else .ok () := by
    simp only [check, hhold, hrest]
    by_cases hkey : t.Breaks .keyHold
    · rw [if_pos hkey]
      exact if_pos hkey
    · simp only [UInt32.lt_iff_toNat_lt, toNat_double hkey]
      rfl
  rw [hchain]
  simp only [Fault.inOrder, List.find?_cons, List.find?_nil]
  by_cases hkey : t.Breaks .keyHold
  · simp [hkey]
  by_cases hclick : t.Breaks .clickHold
  · simp [hkey, hclick]
  by_cases hgap : t.Breaks .gapOrSettle
  · simp [hkey, hclick, hgap]
  by_cases hpoll : t.Breaks .pollEvery
  · simp [hkey, hclick, hgap, hpoll]
  by_cases hlimit : t.Breaks .actionLimit <;> simp [hkey, hclick, hgap, hpoll, hlimit]

theorem check_eq_ok_iff {t : Timing} : t.check = .ok () ↔ t.Sound := by
  constructor
  · exact sound_of_check
  · intro h
    have hfine : ∀ fault, ¬ t.Breaks fault := by
      intro fault
      have := h.keyHold
      have := h.clickHold
      have := h.gap
      have := h.settle
      have := h.pollEvery
      have := h.actionLimit
      cases fault <;> simp only [Breaks] <;> omega
    have hnone : (Fault.inOrder.find? fun fault => t.Breaks fault) = none := by
      simp [hfine]
    rw [check_eq, hnone]

end Timing

/-! ## Special steps and mapped lines -/

namespace Row

def specials (row : Row) : List (Nat × UInt8) :=
  row.items.filterMap fun
    | .ok (slot, .special index) => some (slot, index)
    | _ => none

theorem mem_specials {row : Row} {slot : Nat} {index : UInt8} :
    (slot, index) ∈ row.specials ↔ .ok (slot, .special index) ∈ row.items := by
  simp only [specials, List.mem_filterMap]
  constructor
  · intro h
    obtain ⟨item, hi, hs⟩ := h
    split at hs
    · cases hs
      exact hi
    · cases hs
  · intro hi
    exact ⟨_, hi, rfl⟩

theorem map_specials (row : Row) : row.specials.map (·.2) = row.calls := by
  rw [specials, calls, List.map_filterMap]
  refine congrArg (List.filterMap · row.items) (funext fun item => ?_)
  rcases item with fault | ⟨slot, step⟩
  · rfl
  · cases step <;> rfl

theorem pairwise_specials (row : Row) : row.specials.Pairwise (·.1 < ·.1) := by
  rw [specials, List.pairwise_filterMap]
  generalize hstart : 1 = start
  have h := hstart ▸ row.decodes_items
  generalize row.items = items at h
  clear hstart
  induction h with
  | ranOut | fault | finish => simp
  | @step slot code step rest hcode hstep hfinish hrest ih =>
    refine List.pairwise_cons.mpr ⟨fun item hi first hfirst later hlater => ?_, ih⟩
    have hpos := step.width_pos
    split at hfirst
    case h_2 => cases hfirst
    case h_1 _ slot index heq =>
      cases heq
      cases hfirst
      split at hlater
      case h_2 => cases hlater
      case h_1 slot' index' =>
        cases hlater
        have hbound := (hrest.bounds hi).1
        show slot < slot'
        omega

end Row

/-! ## The parts -/

namespace Setup
variable {A : Type}

/-- What can be said against the parts of a setup: against the timing, bound by bound; against the
owners of special actions; against the special steps of the scripts, by application, script and
slot; against the button maps, entry by entry and line by line. -/
inductive Objection (c : Catalog) (r : Repertoire A) (buttons : List (AppId × ButtonMap))
    (t : Timing) : List Nat → Rejection → Prop
  | timing {fault : Timing.Fault} (h : t.Breaks fault) :
    Objection c r buttons t [0, fault.rank] (.timing fault.message)
  | stranger {i : Nat} {app : AppId} (howner : r.owners[i]? = some app) (h : app ∉ c.ids) :
    Objection c r buttons t [1, i] (.unregistered app)
  | missingAction {i script slot : Nat} {a : Application} {row : Row} {index : UInt8}
    (ha : c.applications[i]? = some a) (hrow : a.scripts[script]? = some row)
    (hstep : .ok (slot, .special index) ∈ row.items)
    (h : (r.slotsOf a.id).length ≤ index.toNat) :
    Objection c r buttons t [2, i, script, slot] (.missingAction a.id script index)
  | strangeMap {i : Nat} {app : AppId} {map : ButtonMap} (hentry : buttons[i]? = some (app, map))
    (h : app ∉ c.ids) : Objection c r buttons t [3, i] (.unregistered app)
  | missingCommand {i line : Nat} {app : AppId} {map : ButtonMap} {a : Application}
    {command : UInt8} (hentry : buttons[i]? = some (app, map)) (ha : c.find? app = some a)
    (hline : map.command line = some command) (h : a.scripts.length ≤ command.toNat) :
    Objection c r buttons t [3, i, line] (.missingCommand app line command)

theorem timingRejection?_finds (t : Timing) :
    FindsFirst (fun place e => ∃ fault, t.Breaks fault ∧ place = [fault.rank] ∧
      e = .timing fault.message) (timingRejection? t) := by
  have hfind : timingRejection? t = (Timing.Fault.inOrder.find? fun fault => t.Breaks fault).map
      fun fault => .timing fault.message := by
    rw [timingRejection?, Timing.check_eq]
    cases Timing.Fault.inOrder.find? fun fault => t.Breaks fault <;> rfl
  rw [hfind]
  refine (FindsFirst.find? Timing.Fault.pairwise_inOrder _ _).congr fun place e => ?_
  simp [Timing.Fault.mem_inOrder, and_left_comm]

theorem slot?_eq_none_iff {r : Repertoire A} {app : AppId} {index : UInt8} :
    r.slot? app index = none ↔ (r.slotsOf app).length ≤ index.toNat :=
  List.getElem?_eq_none_iff

theorem strangerRejection?_finds (c : Catalog) (r : Repertoire A) :
    FindsFirst (fun place e => ∃ app i, r.owners[i]? = some app ∧ place = [i] ∧ app ∉ c.ids ∧
      e = .unregistered app) (strangerRejection? c r) := by
  refine (FindsFirst.find?_position r.owners _ _).congr fun place e => ?_
  simp [Catalog.find?_eq_none_iff]

theorem scriptRejection?_finds (r : Repertoire A) (app : AppId) (script : Nat) (row : Row) :
    FindsFirst (fun place e => ∃ slot index, .ok (slot, .special index) ∈ row.items ∧
      place = [slot] ∧ (r.slotsOf app).length ≤ index.toNat ∧
      e = .missingAction app script index) (scriptRejection? r app script row) := by
  have hspecials : scriptRejection? r app script row =
      (row.specials.find? fun x => (r.slot? app x.2).isNone).map
        fun x => .missingAction app script x.2 := by
    rw [scriptRejection?, ← row.map_specials, List.find?_map, Option.map_map]
    rfl
  rw [hspecials]
  refine (FindsFirst.find? row.pairwise_specials _ _).congr fun place e => ?_
  simp [Row.mem_specials, slot?_eq_none_iff]

theorem actionRejection?_finds (c : Catalog) (r : Repertoire A) :
    FindsFirst (fun place e => ∃ i script slot a row index, c.applications[i]? = some a ∧
      a.scripts[script]? = some row ∧ .ok (slot, .special index) ∈ row.items ∧
      place = [i, script, slot] ∧ (r.slotsOf a.id).length ≤ index.toNat ∧
      e = .missingAction a.id script index) (actionRejection? c r) := by
  have hall := FindsFirst.findSome?_position c.applications fun a _ =>
    FindsFirst.findSome?_zipIdx a.scripts fun x _ => scriptRejection?_finds r a.id x.2 x.1
  refine hall.congr fun place e => ?_
  constructor
  · intro h
    obtain ⟨i, script, slot, a, row, index, ha, hrow, hstep, rfl, h, rfl⟩ := h
    exact ⟨a, i, _, ha, rfl, row, script, _, hrow, rfl, slot, index, hstep, rfl, h, rfl⟩
  · intro h
    obtain ⟨a, i, _, ha, rfl, row, script, _, hrow, rfl, slot, index, hstep, rfl, h, rfl⟩ := h
    exact ⟨i, script, slot, a, row, index, ha, hrow, hstep, rfl, h, rfl⟩

def entryRejection? (c : Catalog) : AppId × ButtonMap → Option Rejection
  | (id, map) =>
    match c.find? id with
    | none => some (.unregistered id)
    | some app =>
      (map.toList.find? fun (_, command) => app.scripts.length ≤ command.toNat).map
        fun (line, command) => .missingCommand id line command

theorem entryRejection?_finds (c : Catalog) (id : AppId) (map : ButtonMap) :
    FindsFirst (fun place e => place = [] ∧ id ∉ c.ids ∧ e = .unregistered id ∨
      ∃ a line command, c.find? id = some a ∧ map.command line = some command ∧ place = [line] ∧
        a.scripts.length ≤ command.toNat ∧ e = .missingCommand id line command)
      (entryRejection? c (id, map)) := by
  cases ha : c.find? id with
  | none =>
    have hnew := Catalog.find?_eq_none_iff.mp ha
    simp only [entryRejection?, ha]
    exact (FindsFirst.single _).congr fun place e => by simp [hnew, eq_comm]
  | some a =>
    have hknown : id ∈ c.ids := by
      rw [← Classical.not_not (a := id ∈ c.ids), ← Catalog.find?_eq_none_iff, ha]
      simp
    simp only [entryRejection?, ha]
    refine (FindsFirst.find? map.pairwise_toList _ _).congr fun place e => ?_
    simp [hknown, ButtonMap.mem_toList]

theorem rejection?_finds (c : Catalog) (r : Repertoire A) (buttons : List (AppId × ButtonMap))
    (t : Timing) :
    FindsFirst (Objection c r buttons t) (rejection? c r buttons t) := by
  have hbuttons := FindsFirst.findSome?_position buttons fun entry _ =>
    entryRejection?_finds c entry.1 entry.2
  have hall := (timingRejection?_finds t).andThen 0 <| (strangerRejection?_finds c r).andThen 1 <|
    (actionRejection?_finds c r).andThen 2 <| hbuttons.last 3
  refine hall.toFindsFirst.congr fun place e => ?_
  constructor
  · intro h
    cases h with
    | timing h => exact .inl ⟨_, rfl, _, h, rfl, rfl⟩
    | stranger howner h => exact .inr (.inl ⟨_, rfl, _, _, howner, rfl, h, rfl⟩)
    | missingAction ha hrow hstep h =>
      exact .inr (.inr (.inl ⟨_, rfl, _, _, _, _, _, _, ha, hrow, hstep, rfl, h, rfl⟩))
    | strangeMap hentry h =>
      exact .inr (.inr (.inr ⟨_, rfl, _, _, _, hentry, rfl, .inl ⟨rfl, h, rfl⟩⟩))
    | missingCommand hentry ha hline h =>
      exact .inr (.inr (.inr ⟨_, rfl, _, _, _, hentry, rfl,
        .inr ⟨_, _, _, ha, hline, rfl, h, rfl⟩⟩))
  · intro h
    rcases h with ⟨_, rfl, _, h, rfl, rfl⟩ | ⟨_, rfl, _, _, howner, rfl, h, rfl⟩ |
      ⟨_, rfl, _, _, _, _, _, _, ha, hrow, hstep, rfl, h, rfl⟩ |
      ⟨_, rfl, _, _, _, hentry, rfl, ⟨rfl, h, rfl⟩ | ⟨_, _, _, ha, hline, rfl, h, rfl⟩⟩
    · exact .timing h
    · exact .stranger howner h
    · exact .missingAction ha hrow hstep h
    · exact .strangeMap hentry h
    · exact .missingCommand hentry ha hline h

/-- The parts of a setup agree, said of each part on its own. -/
structure Agree (c : Catalog) (r : Repertoire A) (buttons : List (AppId × ButtonMap)) (t : Timing) :
    Prop where
  timing : t.Sound
  owners : ∀ app ∈ r.owners, app ∈ c.ids
  calls : ∀ a ∈ c.applications, ∀ row ∈ a.scripts, ∀ slot index,
    .ok (slot, .special index) ∈ row.items → index.toNat < (r.slotsOf a.id).length
  commands : ∀ entry ∈ buttons, ∃ a, c.find? entry.1 = some a ∧
    ∀ line command, entry.2.command line = some command → command.toNat < a.scripts.length

theorem accepted_iff_agree {c : Catalog} {r : Repertoire A} {buttons : List (AppId × ButtonMap)}
    {t : Timing} : (⟨c, r, buttons, t⟩ : Setup A).Accepted ↔ Agree c r buttons t := by
  have hknown : ∀ {app}, c.find? app ≠ none ↔ app ∈ c.ids := by
    intro app
    rw [ne_eq, Catalog.find?_eq_none_iff, Classical.not_not]
  have hslot : ∀ {app index}, r.slot? app index ≠ none ↔ index.toNat < (r.slotsOf app).length := by
    intro app index
    rw [ne_eq, slot?_eq_none_iff, Nat.not_le]
  constructor
  · intro h
    refine ⟨Timing.check_eq_ok_iff.mp h.timing, fun app ho => hknown.mp (h.owners app ho), ?_, ?_⟩
    · intro a ha row hrow slot index hstep
      exact hslot.mp (h.calls a ha row hrow index (Row.mem_calls.mpr ⟨slot, hstep⟩))
    · intro entry hentry
      obtain ⟨a, ha, hlt⟩ := h.commands entry hentry
      exact ⟨a, ha, fun line command hc => hlt (line, command) (ButtonMap.mem_toList.mpr hc)⟩
  · intro h
    refine ⟨Timing.check_eq_ok_iff.mpr h.timing, fun app ho => hknown.mpr (h.owners app ho), ?_, ?_⟩
    · intro a ha row hrow index hcall
      obtain ⟨slot, hstep⟩ := Row.mem_calls.mp hcall
      exact hslot.mpr (h.calls a ha row hrow slot index hstep)
    · intro entry hentry
      obtain ⟨a, ha, hlt⟩ := h.commands entry hentry
      exact ⟨a, ha, fun press hp => hlt press.1 press.2 (ButtonMap.mem_toList.mp hp)⟩

/-- The parts agree if and only if nothing can be said against them. -/
theorem agree_iff_unobjected {c : Catalog} {r : Repertoire A} {buttons : List (AppId × ButtonMap)}
    {t : Timing} :
    Agree c r buttons t ↔ ∀ place e, ¬ Objection c r buttons t place e := by
  rw [← (rejection?_finds c r buttons t).eq_none_iff, ← accepted_iff_agree]
  have hok : assemble c r buttons t = .ok ⟨c, r, buttons, t⟩ ↔ _ := assemble_eq_ok_iff
  rw [assemble] at hok
  cases hfound : rejection? c r buttons t with
  | none =>
    rw [hfound] at hok
    exact ⟨fun _ => rfl, fun _ => (hok.mp rfl).2⟩
  | some e =>
    rw [hfound] at hok
    constructor
    · intro h
      cases hok.mpr ⟨rfl, h⟩
    · intro hnone
      cases hnone

theorem assemble_eq_error_iff {c : Catalog} {r : Repertoire A} {buttons : List (AppId × ButtonMap)}
    {t : Timing} {e : Rejection} :
    assemble c r buttons t = .error e ↔ First (Objection c r buttons t) e := by
  rw [← (rejection?_finds c r buttons t).eq_some_iff, assemble]
  cases rejection? c r buttons t <;> simp

end Setup

/-- **A setup is judged by its first fault.** The parts are put together, each as it was given, if
and only if they agree: the timing keeps its bounds, every owner of special actions is registered,
every special step of every script names one of its application's slots, and every entry of the
button table, also one that is never used, names a registered application and maps to scripts that
it has. If not, the answer is what can be said against them at the first place. -/
theorem setup_is_judged {A : Type} (c : Catalog) (r : Repertoire A)
    (buttons : List (AppId × ButtonMap)) (t : Timing) :
    (∀ s, Setup.assemble c r buttons t = .ok s ↔
      s = ⟨c, r, buttons, t⟩ ∧ Setup.Agree c r buttons t) ∧
    (∀ e, Setup.assemble c r buttons t = .error e ↔ First (Setup.Objection c r buttons t) e) ∧
    (¬ t.Breaks .keyHold → (2 * t.keyHold).toNat = 2 * t.keyHold.toNat) := by
  refine ⟨fun s => ?_, fun e => Setup.assemble_eq_error_iff, Timing.toNat_double⟩
  rw [Setup.assemble_eq_ok_iff]
  constructor
  · intro h
    obtain ⟨rfl, hs⟩ := h
    exact ⟨rfl, Setup.accepted_iff_agree.mp hs⟩
  · intro h
    obtain ⟨rfl, hs⟩ := h
    exact ⟨rfl, Setup.accepted_iff_agree.mpr hs⟩

/-- A map behind another one of its application is never used, but it is checked. -/
example : Setup.assemble (.after 1 [Specimen.registration]) Specimen.repertoire
    [(0, .firstLines 1), (0, .firstLines 2)] Specimen.timing =
      .error (.missingCommand 0 1 1) := rfl

end ButtonPad
