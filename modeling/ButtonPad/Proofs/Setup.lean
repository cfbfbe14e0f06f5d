import ButtonPad.Act.Action
import ButtonPad.Player.Run
import ButtonPad.Proofs.Catalog
import ButtonPad.Proofs.Decoding

/-! # What an accepted setup promises

The parts of a setup are put together if and only if they agree (`assemble_eq_ok_iff`). For a
catalog built by registrations this makes every row that a button can start playable: all of it
decodes to steps within the row, and every special action it calls is there
(`Accepted.playable`). -/
namespace ButtonPad

/-- All of the row decodes to steps within it, and all its special actions exist. -/
def Row.Playable {A : Type} (r : Repertoire A) (app : AppId) (row : Row) : Prop :=
  ∀ item ∈ row.items, ∃ slot step, item = .ok (slot, step) ∧ slot + step.width ≤ row.length ∧
    ∀ index, step = .special index → r.slot? app index ≠ none

theorem Row.mem_calls {row : Row} {index : UInt8} :
    index ∈ row.calls ↔ ∃ slot, .ok (slot, .special index) ∈ row.items := by
  simp only [calls, List.mem_filterMap]
  constructor
  · rintro ⟨item, hi, hs⟩
    split at hs
    · cases hs
      exact ⟨_, hi⟩
    · cases hs
  · rintro ⟨slot, hi⟩
    exact ⟨_, hi, rfl⟩

/-- The timing keeps its bounds, in milliseconds. -/
structure Timing.Sound (t : Timing) : Prop where
  keyHold : 1 ≤ t.keyHold.toNat ∧ t.keyHold.toNat ≤ 1000
  clickHold : 1 ≤ t.clickHold.toNat ∧ t.clickHold.toNat ≤ 1000
  gap : t.gap.toNat ≤ 5000
  settle : t.settle.toNat ≤ 5000
  pollEvery : 1 ≤ t.pollEvery.toNat ∧ t.pollEvery.toNat ≤ 1000
  actionLimit : 2 * t.keyHold.toNat ≤ t.actionLimit.toNat

theorem Timing.sound_of_check {t : Timing} (h : t.check = .ok ()) : t.Sound := by
  have hpos : ∀ x : UInt32, ¬x = 0 → 1 ≤ x.toNat := by
    intro x hx
    have hne : x.toNat ≠ 0 := fun hzero => hx (UInt32.toNat_inj.mp hzero)
    omega
  unfold check at h
  split at h
  · cases h
  rename_i hkey
  split at h
  · cases h
  rename_i hclick
  split at h
  · cases h
  rename_i hrest
  split at h
  · cases h
  rename_i hpoll
  split at h
  · cases h
  rename_i hlimit
  simp only [not_or, GT.gt, UInt32.not_lt, UInt32.le_iff_toNat_le]
    at hkey hclick hrest hpoll hlimit
  have hbound : t.keyHold.toNat ≤ 1000 := hkey.2
  -- a key press of at most 1000 ms does not wrap when it is doubled
  have hdouble : (2 * t.keyHold).toNat = 2 * t.keyHold.toNat := by
    rw [UInt32.toNat_mul]
    exact Nat.mod_eq_of_lt (Nat.lt_of_le_of_lt (Nat.mul_le_mul_left 2 hbound) (by decide))
  rw [hdouble] at hlimit
  exact ⟨⟨hpos _ hkey.1, hkey.2⟩, ⟨hpos _ hclick.1, hclick.2⟩, hrest.1, hrest.2,
    ⟨hpos _ hpoll.1, hpoll.2⟩, hlimit⟩

namespace Setup
variable {A : Type}

/-- The parts of the setup agree. -/
structure Accepted (s : Setup A) : Prop where
  timing : s.timing.check = .ok ()
  owners : ∀ app ∈ s.repertoire.owners, s.catalog.find? app ≠ none
  calls : ∀ a ∈ s.catalog.applications, ∀ row ∈ a.scripts, ∀ index ∈ row.calls,
    s.repertoire.slot? a.id index ≠ none
  commands : ∀ entry ∈ s.buttons, ∃ a, s.catalog.find? entry.1 = some a ∧
    ∀ press ∈ entry.2.toList, press.2.toNat < a.scripts.length

theorem timingRejection?_eq_none_iff {t : Timing} :
    timingRejection? t = none ↔ t.check = .ok () := by
  unfold timingRejection?
  cases t.check <;> simp

theorem strangerRejection?_eq_none_iff {c : Catalog} {r : Repertoire A} :
    strangerRejection? c r = none ↔ ∀ app ∈ r.owners, c.find? app ≠ none := by
  simp [strangerRejection?]

theorem actionRejection?_eq_none_iff {c : Catalog} {r : Repertoire A} :
    actionRejection? c r = none ↔ ∀ a ∈ c.applications, ∀ row ∈ a.scripts, ∀ index ∈ row.calls,
      r.slot? a.id index ≠ none := by
  simp only [actionRejection?, scriptRejection?, List.findSome?_eq_none_iff, Option.map_eq_none_iff,
    List.find?_eq_none, Option.isNone_iff_eq_none]
  constructor
  · intro h a ha row hrow
    obtain ⟨script, hscript⟩ := List.mem_iff_getElem?.mp hrow
    exact h a ha (row, script) (List.mk_mem_zipIdx_iff_getElem?.mpr hscript)
  · intro h a ha ⟨row, script⟩ hrow
    exact h a ha row (List.mem_of_getElem? (List.mk_mem_zipIdx_iff_getElem?.mp hrow))

theorem buttonRejection?_eq_none_iff {c : Catalog} {buttons : List (AppId × ButtonMap)} :
    buttonRejection? c buttons = none ↔ ∀ entry ∈ buttons, ∃ a, c.find? entry.1 = some a ∧
      ∀ press ∈ entry.2.toList, press.2.toNat < a.scripts.length := by
  unfold buttonRejection?
  rw [List.findSome?_eq_none_iff]
  refine forall₂_congr fun entry _ => ?_
  cases hf : c.find? entry.1 with
  | none => simp [hf]
  | some a => simp [hf]

theorem assemble_eq_ok_iff {c : Catalog} {r : Repertoire A} {buttons : List (AppId × ButtonMap)}
    {t : Timing} {s : Setup A} :
    assemble c r buttons t = .ok s ↔ s = ⟨c, r, buttons, t⟩ ∧ s.Accepted := by
  have hnone : rejection? c r buttons t = none ↔ (⟨c, r, buttons, t⟩ : Setup A).Accepted := by
    simp only [rejection?, Option.or_eq_none_iff, timingRejection?_eq_none_iff,
      strangerRejection?_eq_none_iff, actionRejection?_eq_none_iff, buttonRejection?_eq_none_iff]
    exact ⟨fun ⟨ht, ho, hc, hb⟩ => ⟨ht, ho, hc, hb⟩, fun ⟨ht, ho, hc, hb⟩ => ⟨ht, ho, hc, hb⟩⟩
  unfold assemble
  cases hr : rejection? c r buttons t with
  | some rejection =>
    rw [hr] at hnone
    simp only [reduceCtorEq, false_iff, not_and] at hnone ⊢
    rintro rfl
    exact hnone
  | none =>
    have hacc := hnone.mp hr
    constructor
    · rintro ⟨⟩
      exact ⟨rfl, hacc⟩
    · rintro ⟨rfl, -⟩
      rfl

theorem Accepted.script_of_press {s : Setup A} (h : s.Accepted) {app : AppId} {map : ButtonMap}
    {snapshot : Snapshot} {press : Press} (hmap : s.mapFor? app = some map)
    (hpress : map.firstPress snapshot = some press) :
    ∃ a row, s.appFor? app = some a ∧ a.script? press.command = some row := by
  obtain ⟨entry, hentry, rfl⟩ := Option.map_eq_some_iff.mp hmap
  have hid : entry.1 = app := by simpa using List.find?_some hentry
  obtain ⟨a, hfind, hlt⟩ := h.commands entry (List.mem_of_find?_eq_some hentry)
  obtain ⟨line, hline, hcmd⟩ := List.exists_of_findSome?_eq_some hpress
  obtain ⟨command, hcommand, rfl⟩ := Option.map_eq_some_iff.mp hcmd
  have hlisted : (line, command) ∈ entry.2.toList :=
    List.mem_filterMap.mpr ⟨line, (List.mem_filter.mp hline).1, by simp [hcommand]⟩
  exact ⟨a, _, hid ▸ hfind, List.getElem?_eq_getElem (hlt _ hlisted)⟩

/-- The rows of an accepted setup are playable if its catalog was built by registrations. -/
theorem Accepted.playable {s : Setup A} (h : s.Accepted) {capacity : Nat}
    {qs : List Catalog.Registration} (hc : s.catalog = .after capacity qs) {app : AppId}
    {a : Application} (hfind : s.appFor? app = some a) {row : Row} (hrow : row ∈ a.scripts) :
    row.Playable s.repertoire app ∧ row.length = a.budget + 1 := by
  have hmem : a ∈ s.catalog.applications := List.mem_of_find?_eq_some hfind
  have hid : a.id = app := by simpa using List.find?_some hfind
  have hsound := Catalog.after_sound capacity qs a (hc ▸ hmem)
  refine ⟨fun item hi => ?_, hsound.length_row row hrow⟩
  have hok := Row.isOk_of_check (hsound.check_row row hrow) item hi
  match item, hok with
  | .ok (slot, step), _ =>
    refine ⟨slot, step, rfl, ((Row.decodes_items row).bounds hi).2, ?_⟩
    rintro index rfl
    exact hid ▸ h.calls a hmem row hrow index (Row.mem_calls.mpr ⟨slot, hi⟩)

/-- The setup is accepted, and every row that a command stands for is playable. -/
structure Playable (s : Setup A) : Prop where
  accepted : s.Accepted
  rows : ∀ {app cmd row}, Player.lookup s app cmd = .ok row → row.Playable s.repertoire app

theorem playable_of_assemble {capacity : Nat} {qs : List Catalog.Registration} {r : Repertoire A}
    {buttons : List (AppId × ButtonMap)} {t : Timing} {s : Setup A}
    (h : assemble (.after capacity qs) r buttons t = .ok s) : s.Playable := by
  obtain ⟨hparts, hacc⟩ := assemble_eq_ok_iff.mp h
  refine ⟨hacc, fun {app cmd row} hlook => ?_⟩
  unfold Player.lookup at hlook
  cases ha : s.appFor? app with
  | none => simp [ha] at hlook
  | some a =>
    rw [ha] at hlook
    cases hrow : a.script? cmd with
    | none => simp [hrow] at hlook
    | some found =>
      simp only [hrow, Except.ok.injEq] at hlook
      subst hlook
      exact (hacc.playable (by rw [hparts]) ha (List.mem_of_getElem? hrow)).1

end Setup

/-! ## A setup to look at

Its only row is full. The first special action has the key behind it left out; the second one is a
shortcut that takes longer than the timing allows; a combo and a click fill the rest. -/
namespace Specimen

def row : Row := [0, 232, 0, 4, 232, 1, 242, 224, 6, 253]

def registration : Catalog.Registration where
  id := 0
  name := "specimen"
  width := 10
  rows := [row]
  length_row := by decide

def repertoire : Repertoire Action :=
  ⟨[(0, [⟨.returns .skipNext, [], []⟩, ⟨.builtin .shortcut, [], [4, 5]⟩])]⟩

def buttons : List (AppId × ButtonMap) := [(0, .firstLines 1)]

def timing : Timing := { actionLimit := 200 }

def setup : Setup Action := ⟨.after 1 [registration], repertoire, buttons, timing⟩

theorem assemble_setup :
    Setup.assemble (.after 1 [registration]) repertoire buttons timing = .ok setup := rfl

/-- A pad on which every millisecond counts. -/
def rig : Rig Unit := { clock := .milliseconds, transport := .recording }

/-- The first line is down. The session is lost and another one begins while the shortcut holds its
keys. -/
def world : World Unit :=
  { surroundings := { link := Link.connect {} 1, bank := Snapshot.empty.set 0 true }
    upcoming := [(600, .disconnect), (700, .connect 2)]
    transport := () }

end Specimen

end ButtonPad
