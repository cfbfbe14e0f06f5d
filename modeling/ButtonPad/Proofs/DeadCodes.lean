import ButtonPad.Proofs.Likeness
import ButtonPad.Proofs.Setup
import ButtonPad.Proofs.Tiling
import Mathlib.Data.List.Forall2

/-! # Codes that nothing reads

A decoder stops at the end of a script, so what stands behind the end is free, as the script's id
is. Rows that agree in between are decoded alike (`Row.AgreeToEnd.decodeAlike`). Registrations and
setups see nothing of a row but its length and what is decoded of it, so they judge catalogs alike
that differ in such rows only (`Catalog.Like`). -/
namespace ButtonPad
open Script (Fault)

namespace Row
open Decoder (stepAt)

/-! ## Rows -/

variable {a b : Row}

/-- Agreeing slots up to the end spell the same steps. -/
theorem Decodes.transfer {slot : Nat} {items : List Decoder.Item} (h : Decodes a slot items)
    {last : Nat} (hlast : .ok (last, .finish) ∈ items)
    (hagree : ∀ i, slot ≤ i → i ≤ last → a[i]? = b[i]?) : Decodes b slot items := by
  induction h with
  | ranOut => cases hlast
  | fault => simp at hlast
  | @finish slot code hc hs =>
    obtain rfl : last = slot := by simpa using hlast
    obtain rfl := eq_finish_of_stepAt hs
    exact .finish (hagree last (Nat.le_refl _) (Nat.le_refl _) ▸ hc) rfl
  | @step slot code step rest hc hs hne hrest ih =>
    have hin : .ok (last, .finish) ∈ rest := by
      rcases List.mem_cons.mp hlast with he | hm
      · cases he
        exact absurd rfl hne
      · exact hm
    have hbehind := (hrest.bounds hin).1
    obtain ⟨codes, hspelt, hrow⟩ := spelt_of_stepAt hc hs hne
    have hwidth := hspelt.length_eq
    have hrow' : b.drop slot = codes ++ b.drop (slot + step.width) := by
      refine List.ext_getElem? fun i => ?_
      by_cases hi : i < step.width
      · have hcode := congrArg (·[i]?) hrow
        rw [List.getElem?_append_left (by omega)] at hcode ⊢
        rw [← hcode, List.getElem?_drop, List.getElem?_drop]
        exact (hagree _ (by omega) (by omega)).symm
      · rw [List.getElem?_append_right (by omega), List.getElem?_drop, List.getElem?_drop]
        congr 1
        omega
    obtain ⟨code', hc', hs'⟩ := hspelt.stepAt_eq hrow'
    exact .step hc' hs' hne (ih hin fun i hlow hhigh => hagree i (by omega) hhigh)

/-- The rows are as long as each other and decode to the same. -/
structure DecodeAlike (a b : Row) : Prop where
  length : a.length = b.length
  items : a.items = b.items

theorem DecodeAlike.check (h : a.DecodeAlike b) : a.check = b.check := by
  have hdecoded := decodes_items b
  rw [← h.items] at hdecoded
  by_cases hlen : 2 ≤ a.length
  · rw [check_eq_checkFrom hlen, check_eq_checkFrom (h.length ▸ hlen)]
    cases hb : checkFrom 1 0 (b.drop 1) with
    | ok => exact (decodes_items a).checkFrom_ok_iff.mpr (hdecoded.checkFrom_ok_iff.mp hb)
    | error f =>
      exact (decodes_items a).checkFrom_error_iff.mpr (hdecoded.checkFrom_error_iff.mp hb)
  · rw [Row.check, Row.check, if_pos (by omega), if_pos (by have := h.length; omega)]

theorem DecodeAlike.calls (h : a.DecodeAlike b) : a.calls = b.calls := by
  rw [Row.calls, Row.calls, h.items]

theorem DecodeAlike.asked (h : a.DecodeAlike b) (n : Nat) :
    (a.decoder.asked n).next.1 = (b.decoder.asked n).next.1 := by
  rw [next_asked, next_asked, h.items]

/-- The rows are as long as each other, and an end is decoded of one of them, up to which both have
the same codes from slot 1 on. -/
structure AgreeToEnd (a b : Row) (last : Nat) : Prop where
  length : a.length = b.length
  reached : .ok (last, .finish) ∈ a.items ∨ .ok (last, .finish) ∈ b.items
  agree : ∀ slot, 1 ≤ slot → slot ≤ last → a[slot]? = b[slot]?

theorem AgreeToEnd.decodeAlike {last : Nat} (h : a.AgreeToEnd b last) : a.DecodeAlike b := by
  have hitems : ∀ {a b : Row}, .ok (last, .finish) ∈ a.items →
      (∀ slot, 1 ≤ slot → slot ≤ last → a[slot]? = b[slot]?) → a.items = b.items :=
    fun {a b} hend hagree =>
      ((decodes_items a).transfer hend hagree).eq_take b.length (by omega)
  refine ⟨h.length, ?_⟩
  rcases h.reached with hend | hend
  · exact hitems hend h.agree
  · exact (hitems hend fun slot hlow hhigh => (h.agree slot hlow hhigh).symm).symm

end Row

/-! ## Catalogs -/

section
variable {α β γ : Type} {R : α → β → Prop} {xs : List α} {ys : List β}

theorem findSome?_congr {f : α → Option γ} {g : β → Option γ} (h : List.Forall₂ R xs ys)
    (hfg : ∀ x y, R x y → f x = g y) : xs.findSome? f = ys.findSome? g := by
  induction h with
  | nil => rfl
  | cons hxy _ ih => rw [List.findSome?_cons, List.findSome?_cons, hfg _ _ hxy, ih]

theorem forall₂_zipIdx (h : List.Forall₂ R xs ys) (n : Nat) :
    List.Forall₂ (fun x y => R x.1 y.1 ∧ x.2 = y.2) (xs.zipIdx n) (ys.zipIdx n) := by
  induction h generalizing n with
  | nil => exact .nil
  | cons hxy _ ih => exact .cons ⟨hxy, rfl⟩ (ih (n + 1))

theorem forall₂_find? {p : α → Bool} {q : β → Bool} (h : List.Forall₂ R xs ys)
    (hpq : ∀ x y, R x y → p x = q y) : Option.Rel R (xs.find? p) (ys.find? q) := by
  induction h with
  | nil => exact .none
  | @cons x y xs ys hxy _ ih =>
    rw [List.find?_cons, List.find?_cons, ← hpq x y hxy]
    cases p x with
    | true => exact .some hxy
    | false => exact ih

theorem forall₂_getElem? (h : List.Forall₂ R xs ys) (n : Nat) : Option.Rel R xs[n]? ys[n]? := by
  induction h generalizing n with
  | nil => exact .none
  | cons hxy _ ih =>
    cases n with
    | zero => exact .some hxy
    | succ n => exact ih n

end

/-- The applications are the same but for rows that are related. -/
structure Application.Like (R : Row → Row → Prop) (x y : Application) : Prop where
  id : x.id = y.id
  name : x.name = y.name
  budget : x.budget = y.budget
  scripts : List.Forall₂ R x.scripts y.scripts

structure Catalog.Like (R : Row → Row → Prop) (c d : Catalog) : Prop where
  capacity : c.capacity = d.capacity
  applications : List.Forall₂ (Application.Like R) c.applications d.applications

/-- Both are refused for the same reason, or both are accepted, with related results. -/
inductive JudgedAlike {α β : Type} (R : α → β → Prop) :
    Except Rejection α → Except Rejection β → Prop where
  | refused (e : Rejection) : JudgedAlike R (.error e) (.error e)
  | accepted {x : α} {y : β} (like : R x y) : JudgedAlike R (.ok x) (.ok y)

namespace Catalog
variable {R : Row → Row → Prop} {c d : Catalog}

theorem Like.find? (h : c.Like R d) (id : AppId) :
    Option.Rel (Application.Like R) (c.find? id) (d.find? id) :=
  forall₂_find? h.applications fun x y hxy => by rw [hxy.id]

theorem Like.isSome_find? (h : c.Like R d) (id : AppId) :
    (c.find? id).isSome = (d.find? id).isSome := by
  have hfound := h.find? id
  generalize c.find? id = x, d.find? id = y at hfound
  cases hfound <;> rfl

theorem firstFault_congr (hR : ∀ a b, R a b → a.DecodeAlike b) {rows rows' : List Row}
    (h : List.Forall₂ R rows rows') (n : Nat) : firstFault n rows = firstFault n rows' := by
  induction h generalizing n with
  | nil => rfl
  | cons hab _ ih => rw [firstFault, firstFault, (hR _ _ hab).check, ih]

theorem Like.rejection? (hR : ∀ a b, R a b → a.DecodeAlike b) (h : c.Like R d) (id : AppId)
    (width : Nat) {rows rows' : List Row} (hrows : List.Forall₂ R rows rows') :
    c.rejection? id width rows = d.rejection? id width rows' := by
  rw [Catalog.rejection?, Catalog.rejection?, h.capacity, h.applications.length_eq,
    h.isSome_find? id, hrows.length_eq, firstFault_congr hR hrows]

theorem Like.add (hR : ∀ a b, R a b → a.DecodeAlike b) (h : c.Like R d) (id : AppId)
    (name : String) (width : Nat) {rows rows' : List Row} (hrows : List.Forall₂ R rows rows') :
    JudgedAlike (fun x y => x.1 = y.1 ∧ x.2.Like R y.2) (c.add id name width rows)
      (d.add id name width rows') := by
  rw [Catalog.add, Catalog.add, h.rejection? hR id width hrows]
  cases d.rejection? id width rows' with
  | some e => exact .refused e
  | none =>
    refine .accepted ⟨congrArg Ticket.mk h.applications.length_eq, h.capacity, ?_⟩
    exact List.rel_append h.applications (.cons ⟨rfl, rfl, rfl, hrows⟩ .nil)

end Catalog

/-! ## Setups -/

structure Setup.Like {A : Type} (R : Row → Row → Prop) (s s' : Setup A) : Prop where
  catalog : s.catalog.Like R s'.catalog
  repertoire : s.repertoire = s'.repertoire
  buttons : s.buttons = s'.buttons
  timing : s.timing = s'.timing

namespace Setup
variable {A : Type} {R : Row → Row → Prop}

theorem assemble_like (hR : ∀ a b, R a b → a.DecodeAlike b) {c d : Catalog} (h : c.Like R d)
    (r : Repertoire A) (buttons : List (AppId × ButtonMap)) (t : Timing) :
    JudgedAlike (Like R) (assemble c r buttons t) (assemble d r buttons t) := by
  have hstranger : strangerRejection? c r = strangerRejection? d r := by
    simp only [strangerRejection?, ← Option.not_isSome, h.isSome_find?]
  have haction : actionRejection? c r = actionRejection? d r := by
    refine findSome?_congr h.applications fun x y hxy => ?_
    refine findSome?_congr (forall₂_zipIdx hxy.scripts 0) fun p q hpq => ?_
    obtain ⟨hrow, hplace⟩ := hpq
    simp only [scriptRejection?, hxy.id, (hR _ _ hrow).calls, hplace]
  have hbutton : buttonRejection? c buttons = buttonRejection? d buttons := by
    unfold buttonRejection?
    congr 1
    funext entry
    obtain ⟨id, map⟩ := entry
    dsimp only
    have hfound := h.find? id
    generalize c.find? id = x, d.find? id = y at hfound
    cases hfound with
    | none => rfl
    | some hxy => simp only [hxy.scripts.length_eq]
  have hrejection : rejection? c r buttons t = rejection? d r buttons t := by
    rw [rejection?, rejection?, hstranger, haction, hbutton]
  rw [assemble, assemble, hrejection]
  cases rejection? d r buttons t with
  | some e => exact .refused e
  | none => exact .accepted ⟨h, rfl, rfl, rfl⟩

end Setup

/-! ## Commands -/

namespace Setup
variable {R : Row → Row → Prop} {s s' : Setup Action}

/-- A command stands for related rows in both setups, or is refused by both for the same reason. -/
theorem Like.lookup {A : Type} {s s' : Setup A} (h : s.Like R s') (app : AppId) (cmd : UInt8) :
    (∃ refusal, Player.lookup s app cmd = .error refusal ∧
        Player.lookup s' app cmd = .error refusal) ∨
      ∃ a b, Player.lookup s app cmd = .ok a ∧ Player.lookup s' app cmd = .ok b ∧ R a b := by
  have happ : Option.Rel (Application.Like R) (s.appFor? app) (s'.appFor? app) :=
    h.catalog.find? app
  unfold Player.lookup
  generalize s.appFor? app = x, s'.appFor? app = y at happ
  cases happ with
  | none => exact .inl ⟨_, rfl, rfl⟩
  | @some x y hxy =>
    have hrow : Option.Rel R (x.script? cmd) (y.script? cmd) := forall₂_getElem? hxy.scripts _
    dsimp only
    generalize x.script? cmd = a, y.script? cmd = b at hrow
    cases hrow with
    | none => exact .inl ⟨_, rfl, rfl⟩
    | some hab => exact .inr ⟨_, _, rfl, rfl, hab⟩

theorem Like.command_akin {σ : Type} (hR : ∀ a b, R a b → a.DecodeAlike b) (h : s.Like R s')
    (rig : Rig σ) (app : AppId) (cmd : UInt8) :
    (Player.command s app cmd).Parallel rig rig World.Akin (Player.command s' app cmd) := by
  have hs : s' = { s with catalog := s'.catalog } := by
    obtain ⟨d, r, buttons, t⟩ := s'
    obtain ⟨-, rfl, rfl, rfl⟩ := h
    rfl
  have hlookup := h.lookup app cmd
  rw [hs] at hlookup ⊢
  refine Player.command_parallel (World.tandem_akin rig) (hlookup.imp_right ?_)
  rintro ⟨a, b, ha, hb, hab⟩
  exact ⟨a, b, ha, hb, Player.playRow_akin rig s s'.catalog app cmd (hR a b hab).items⟩

end Setup

/-- The second row may stand where the first one does. -/
def Row.Exchange (a b x y : Row) : Prop := x = y ∨ x = a ∧ y = b

theorem Row.AgreeToEnd.exchange {a b : Row} {last : Nat} (h : a.AgreeToEnd b last) (x y : Row)
    (hxy : Exchange a b x y) : x.DecodeAlike y := by
  rcases hxy with rfl | ⟨rfl, rfl⟩
  · exact ⟨rfl, rfl⟩
  · exact h.decodeAlike

/-- **What stands behind the end is dead.** Two rows that are as long as each other and have the
same codes from slot 1 up to an end come to the same in the check, in decoding and in the special
actions that they call. Where one is put in the place of the other, a registration and a setup are
judged alike, and a command comes to the same result and writes the same journal, but for the rows
that its calls are handed. -/
theorem codes_behind_end_are_dead {a b : Row} {last : Nat} (h : a.AgreeToEnd b last) :
    (a.check = b.check ∧ a.items = b.items ∧ a.calls = b.calls ∧
      ∀ n, (a.decoder.asked n).next.1 = (b.decoder.asked n).next.1) ∧
    (∀ c d : Catalog, c.Like (Row.Exchange a b) d →
      (∀ id name width rows rows', List.Forall₂ (Row.Exchange a b) rows rows' →
        JudgedAlike (fun x y => x.1 = y.1 ∧ x.2.Like (Row.Exchange a b) y.2)
          (c.add id name width rows) (d.add id name width rows')) ∧
      ∀ (r : Repertoire Action) buttons t,
        JudgedAlike (Setup.Like (Row.Exchange a b)) (Setup.assemble c r buttons t)
          (Setup.assemble d r buttons t)) ∧
    ∀ s s' : Setup Action, s.Like (Row.Exchange a b) s' →
      ∀ {σ : Type} (rig : Rig σ) (app : AppId) (cmd : UInt8) (limit : Nat) (w : World σ),
        let one := rig.command s app cmd limit w
        let other := rig.command s' app cmd limit w
        one.1 = other.1 ∧
          ∀ n, (one.2.entriesFrom n).map Entry.rowless = (other.2.entriesFrom n).map Entry.rowless ∧
            one.2.timedEventsFrom n = other.2.timedEventsFrom n ∧
            one.2.deliveriesFrom n = other.2.deliveriesFrom n := by
  have hrows := h.decodeAlike
  refine ⟨⟨hrows.check, hrows.items, hrows.calls, hrows.asked⟩, fun c d hcd => ⟨?_, ?_⟩, ?_⟩
  · intro id name width rows rows' hrows
    exact hcd.add h.exchange id name width hrows
  · exact Setup.assemble_like h.exchange hcd
  · intro s s' hs σ rig app cmd limit w one other
    obtain ⟨hresult, hakin⟩ : World.Matched World.Akin one other :=
      hs.command_akin h.exchange rig app cmd (.refl _)
    exact ⟨hresult, fun n => ⟨hakin.entriesFrom n, hakin.timedEventsFrom n, hakin.deliveriesFrom n⟩⟩

namespace Specimen

/-- A script that ends in slot 7. The zero in slot 2 is a special action's index. -/
def ended (id : Code) (dead : List Code) : Row := id :: [232, 0, 4, 242, 4, 5, 0] ++ dead

def endedCatalog (row : Row) : Catalog := { capacity := 1, applications := [⟨0, "", 9, [row]⟩] }

end Specimen

/-- Behind the end of the one row an action is called that there is none of, and behind the end of
the other stand codes that mean nothing. -/
theorem codes_behind_end_are_dead_specimen :
    let a := Specimen.ended 7 [232, 9]
    let b := Specimen.ended 99 [240, -3]
    let s : Setup Action :=
      ⟨Specimen.endedCatalog a, Specimen.repertoire, Specimen.buttons, Specimen.timing⟩
    let s' : Setup Action := { s with catalog := Specimen.endedCatalog b }
    a.AgreeToEnd b 7 ∧ a.check = b.check ∧
      Setup.assemble s.catalog s.repertoire s.buttons s.timing = .ok s ∧
      Setup.assemble s'.catalog s.repertoire s.buttons s.timing = .ok s' ∧
      (Specimen.rig.command s 0 0 5000 Specimen.world).1.bind Except.toOption =
        some ⟨0, 0, 2, 1, 4, 7, .finished⟩ ∧
      (Specimen.rig.command s' 0 0 5000 Specimen.world).1.bind Except.toOption =
        some ⟨0, 0, 2, 1, 4, 7, .finished⟩ := by
  intro a b s s'
  have hagree : a.AgreeToEnd b 7 := by
    have hall : ∀ slot ≤ 7, 1 ≤ slot → a[slot]? = b[slot]? := by decide
    exact ⟨rfl, .inl (by decide), fun slot hlow hhigh => hall slot hhigh hlow⟩
  obtain ⟨⟨hcheck, -⟩, hjudged, hcommand⟩ := codes_behind_end_are_dead hagree
  have hcatalog : s.catalog.Like (Row.Exchange a b) s'.catalog :=
    ⟨rfl, .cons ⟨rfl, rfl, rfl, .cons (.inr ⟨rfl, rfl⟩) .nil⟩ .nil⟩
  have hone : Setup.assemble s.catalog s.repertoire s.buttons s.timing = .ok s := rfl
  have hother : Setup.assemble s'.catalog s.repertoire s.buttons s.timing = .ok s' := by
    have halike := (hjudged _ _ hcatalog).2 s.repertoire s.buttons s.timing
    rw [hone] at halike
    generalize hjudgment : Setup.assemble s'.catalog s.repertoire s.buttons s.timing = judgment at *
    cases halike with
    | accepted _ => rw [(Setup.assemble_eq_ok_iff.mp hjudgment).1]
  obtain ⟨hresult, -⟩ :=
    hcommand s s' ⟨hcatalog, rfl, rfl, rfl⟩ Specimen.rig 0 0 5000 Specimen.world
  have hsummary : (Specimen.rig.command s 0 0 5000 Specimen.world).1.bind Except.toOption =
      some ⟨0, 0, 2, 1, 4, 7, .finished⟩ := by decide +kernel
  exact ⟨hagree, hcheck, hone, hother, hsummary, hresult ▸ hsummary⟩

end ButtonPad
