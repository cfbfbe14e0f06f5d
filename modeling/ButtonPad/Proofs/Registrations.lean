import ButtonPad.Proofs.Catalog
import ButtonPad.Proofs.Lists
import ButtonPad.Proofs.Objections

/-! # Any sequence of registrations

A registration is turned down for the first objection to it, and only if there is one. Whatever
sequence of registrations a catalog is built by, what it has stored stays: a ticket finds the
application it was issued for, and so does the application's id. -/
namespace ButtonPad.Catalog

/-! ## One registration -/

/-- What can be said against a registration: the catalog, the id, the width, the number of the rows,
and each of the rows, in this order. -/
inductive Objection (c : Catalog) (q : Registration) : List Nat → Rejection → Prop
  | full (h : c.capacity ≤ c.applications.length) : Objection c q [0] .full
  | duplicate (h : q.id ∈ c.ids) : Objection c q [1] (.duplicate q.id)
  | noStepSlots (h : q.width < 2) : Objection c q [2] (.noStepSlots q.id)
  | tooManyScripts (h : Application.scriptLimit < q.rows.length) :
    Objection c q [3] (.tooManyScripts q.id q.rows.length)
  | malformed {script : Nat} {row : Row} {cause : Script.Fault} (hrow : q.rows[script]? = some row)
    (h : row.check = .error cause) : Objection c q [4, script] (.malformed q.id script cause)

structure Admits (c : Catalog) (q : Registration) : Prop where
  room : c.applications.length < c.capacity
  new : q.id ∉ c.ids
  wide : 2 ≤ q.width
  few : q.rows.length ≤ Application.scriptLimit
  valid : Row.allPass q.rows = true

/-- What the check says against a row with its position in the table. -/
def rowRejection? (id : AppId) : Row × Nat → Option Rejection
  | (row, script) =>
    match row.check with
    | .ok () => none
    | .error cause => some (.malformed id script cause)

theorem map_firstFault (id : AppId) (n : Nat) (rows : List Row) :
    (firstFault n rows).map (fun (script, cause) => Rejection.malformed id script cause) =
      (rows.zipIdx n).findSome? (rowRejection? id) := by
  induction rows generalizing n with
  | nil => rfl
  | cons row rest ih =>
    rw [firstFault, List.zipIdx_cons, List.findSome?_cons, rowRejection?, ← ih]
    cases row.check <;> rfl

theorem rowRejection?_eq_some_iff {id : AppId} {row : Row} {script : Nat} {e : Rejection} :
    rowRejection? id (row, script) = some e ↔
      ∃ cause, row.check = .error cause ∧ e = .malformed id script cause := by
  rw [rowRejection?]
  cases row.check with
  | ok => simp
  | error cause =>
    simp only [Option.some.injEq, Except.error.injEq]
    constructor
    · rintro rfl
      exact ⟨cause, rfl, rfl⟩
    · intro h
      obtain ⟨_, rfl, rfl⟩ := h
      rfl

theorem rejection?_finds (c : Catalog) (q : Registration) :
    FindsFirst (Objection c q) (c.rejection? q.id q.width q.rows) := by
  have hchain : c.rejection? q.id q.width q.rows =
      (if c.capacity ≤ c.applications.length then some .full else none).or
        ((if (c.find? q.id).isSome then some (.duplicate q.id) else none).or
          ((if q.width < 2 then some (.noStepSlots q.id) else none).or
            ((if Application.scriptLimit < q.rows.length then
                some (.tooManyScripts q.id q.rows.length) else none).or
              (q.rows.zipIdx.findSome? (rowRejection? q.id))))) := by
    rw [← map_firstFault]
    unfold rejection?
    split
    · rfl
    · split
      · rfl
      · split
        · rfl
        · split <;> rfl
  rw [hchain]
  have hrows := FindsFirst.findSome?_zipIdx q.rows fun a _ => .single (rowRejection? q.id a)
  refine ((FindsFirst.guard _ _).andThen 0 <| (FindsFirst.guard _ _).andThen 1 <|
    (FindsFirst.guard _ _).andThen 2 <| (FindsFirst.guard _ _).andThen 3 <|
    hrows.last 4).toFindsFirst.congr fun place e => ?_
  rw [← Option.ne_none_iff_isSome, ne_eq, find?_eq_none_iff, Classical.not_not]
  constructor
  · intro h
    cases h with
    | full h => exact .inl ⟨[], rfl, rfl, h, rfl⟩
    | duplicate h => exact .inr (.inl ⟨[], rfl, rfl, h, rfl⟩)
    | noStepSlots h => exact .inr (.inr (.inl ⟨[], rfl, rfl, h, rfl⟩))
    | tooManyScripts h => exact .inr (.inr (.inr (.inl ⟨[], rfl, rfl, h, rfl⟩)))
    | malformed hrow h =>
      exact .inr (.inr (.inr (.inr ⟨_, rfl, _, _, [], hrow, rfl, rfl,
        rowRejection?_eq_some_iff.mpr ⟨_, h, rfl⟩⟩)))
  · intro h
    rcases h with ⟨_, rfl, rfl, h, rfl⟩ | ⟨_, rfl, rfl, h, rfl⟩ | ⟨_, rfl, rfl, h, rfl⟩ |
      ⟨_, rfl, rfl, h, rfl⟩ | ⟨_, rfl, row, script, _, hrow, rfl, rfl, h⟩
    · exact .full h
    · exact .duplicate h
    · exact .noStepSlots h
    · exact .tooManyScripts h
    · obtain ⟨cause, hcheck, rfl⟩ := rowRejection?_eq_some_iff.mp h
      exact .malformed hrow hcheck

theorem admits_iff {c : Catalog} {q : Registration} :
    c.Admits q ↔ c.rejection? q.id q.width q.rows = none := by
  rw [rejection?_eq_none_iff, find?_eq_none_iff]
  have hall : Row.allPass q.rows = true ↔ ∀ row ∈ q.rows, row.check = .ok () := by
    rw [Row.allPass, List.all_eq_true]
    refine forall₂_congr fun row _ => ?_
    cases row.check <;> simp [Except.isOk, Except.toBool]
  rw [← hall]
  exact ⟨fun ⟨hr, hn, hw, hf, hv⟩ => ⟨hr, hn, hw, hf, hv⟩,
    fun ⟨hr, hn, hw, hf, hv⟩ => ⟨hr, hn, hw, hf, hv⟩⟩

theorem add_eq_ok_iff {c c' : Catalog} {q : Registration} {ticket : Ticket} :
    c.add q.id q.name q.width q.rows = .ok (ticket, c') ↔
      c.Admits q ∧ ticket = ⟨c.applications.length⟩ ∧
        c' = { c with applications := c.applications ++ [q.application] } := by
  rw [admits_iff, add]
  cases c.rejection? q.id q.width q.rows with
  | some r => simp
  | none =>
    simp only [Except.ok.injEq, Prod.mk.injEq, true_and]
    constructor
    · intro h
      obtain ⟨rfl, rfl⟩ := h
      exact ⟨rfl, rfl⟩
    · intro h
      obtain ⟨rfl, rfl⟩ := h
      exact ⟨rfl, rfl⟩

theorem add_eq_error_iff {c : Catalog} {q : Registration} {e : Rejection} :
    c.add q.id q.name q.width q.rows = .error e ↔ First (Objection c q) e := by
  rw [← (rejection?_finds c q).eq_some_iff, add]
  cases c.rejection? q.id q.width q.rows <;> simp

theorem register_of_ok {c c' : Catalog} {q : Registration} {ticket : Ticket}
    (h : c.add q.id q.name q.width q.rows = .ok (ticket, c')) : c.register q = c' := by
  rw [register, h]

theorem register_of_error {c : Catalog} {q : Registration} {e : Rejection}
    (h : c.add q.id q.name q.width q.rows = .error e) : c.register q = c := by
  rw [register, h]

/-! ## Sequences of registrations -/

/-- In this sequence of registrations the ticket was issued for this one of them. -/
def Issues (capacity : Nat) (qs : List Registration) (q : Registration) (ticket : Ticket) : Prop :=
  ∃ front back c, qs = front ++ q :: back ∧
    (after capacity front).add q.id q.name q.width q.rows = .ok (ticket, c)

theorem after_concat (capacity : Nat) (qs : List Registration) (q : Registration) :
    after capacity (qs ++ [q]) = (after capacity qs).register q := by
  simp [after]

theorem issues_nil {capacity : Nat} {q : Registration} {ticket : Ticket} :
    ¬ Issues capacity [] q ticket := by
  simp [Issues]

theorem issues_concat_iff {capacity : Nat} {qs : List Registration} {q q' : Registration}
    {ticket : Ticket} :
    Issues capacity (qs ++ [q]) q' ticket ↔ Issues capacity qs q' ticket ∨
      q' = q ∧ ∃ c, (after capacity qs).add q.id q.name q.width q.rows = .ok (ticket, c) := by
  constructor
  · intro h
    obtain ⟨front, back, c, heq, hadd⟩ := h
    rcases concat_eq_split_iff.mp heq with ⟨rfl, rfl, rfl⟩ | ⟨more, rfl, rfl⟩
    · exact .inr ⟨rfl, c, hadd⟩
    · exact .inl ⟨front, more, c, rfl, hadd⟩
  · intro h
    rcases h with ⟨front, back, c, rfl, hadd⟩ | ⟨rfl, c, hadd⟩
    · exact ⟨front, back ++ [q], c, by simp, hadd⟩
    · exact ⟨qs, [], c, rfl, hadd⟩

/-- What a catalog keeps behind a sequence of registrations. -/
structure Keeps (capacity : Nat) (qs : List Registration) (c : Catalog) : Prop where
  fixed : c.capacity = capacity
  room : c.applications.length ≤ capacity
  distinct : c.ids.Nodup
  /-- A ticket finds the application that it was issued for. -/
  issued : ∀ {q ticket}, Issues capacity qs q ticket → c.get? ticket = some q.application
  /-- Nothing is stored without a ticket for it. -/
  stored : ∀ a ∈ c.applications, ∃ q ticket, Issues capacity qs q ticket ∧ a = q.application

theorem Keeps.nil (capacity : Nat) : Keeps capacity [] (after capacity []) where
  fixed := rfl
  room := Nat.zero_le _
  distinct := List.nodup_nil
  issued h := absurd h issues_nil
  stored := nofun

theorem Keeps.register {capacity : Nat} {qs : List Registration}
    (h : Keeps capacity qs (after capacity qs)) (q : Registration) :
    Keeps capacity (qs ++ [q]) (after capacity (qs ++ [q])) := by
  rw [after_concat]
  cases hadd : (after capacity qs).add q.id q.name q.width q.rows with
  | error e =>
    have hissues : ∀ {q' ticket}, Issues capacity (qs ++ [q]) q' ticket ↔
        Issues capacity qs q' ticket := by
      intro q' ticket
      rw [issues_concat_iff, hadd]
      simp
    rw [register_of_error hadd]
    exact ⟨h.fixed, h.room, h.distinct, fun hi => h.issued (hissues.mp hi), fun a ha => by
      obtain ⟨q', ticket, hi, ha⟩ := h.stored a ha
      exact ⟨q', ticket, hissues.mpr hi, ha⟩⟩
  | ok result =>
    obtain ⟨ticket, c⟩ := result
    rw [register_of_ok hadd]
    obtain ⟨hadmits, rfl, rfl⟩ := add_eq_ok_iff.mp hadd
    refine ⟨h.fixed, ?_, ?_, ?_, ?_⟩
    · have hroom := hadmits.room
      rw [h.fixed] at hroom
      rw [List.length_append]
      exact hroom
    · show ((after capacity qs).applications ++ [q.application]).map (·.id) |>.Nodup
      rw [List.map_append, List.nodup_append]
      refine ⟨h.distinct, by simp, ?_⟩
      rintro id hid _ hq rfl
      rw [List.map_singleton, List.mem_singleton] at hq
      subst hq
      exact hadmits.new hid
    -- what is stored goes behind the others, so every ticket keeps its place
    · intro q' ticket hi
      rcases issues_concat_iff.mp hi with hi | ⟨rfl, c', hadd'⟩
      · have hfound := h.issued hi
        have hlt : ticket.position < (after capacity qs).applications.length :=
          (List.getElem?_eq_some_iff.mp hfound).1
        exact (List.getElem?_append_left hlt).trans hfound
      · rw [hadd] at hadd'
        cases hadd'
        exact List.getElem?_concat_length
    · intro a ha
      rcases List.mem_append.mp ha with ha | ha
      · obtain ⟨q', ticket, hi, ha⟩ := h.stored a ha
        exact ⟨q', ticket, issues_concat_iff.mpr (.inl hi), ha⟩
      · exact ⟨q, _, issues_concat_iff.mpr (.inr ⟨rfl, _, hadd⟩), List.mem_singleton.mp ha⟩

theorem after_keeps (capacity : Nat) (qs : List Registration) :
    Keeps capacity qs (after capacity qs) := by
  suffices hrest : ∀ front, Keeps capacity front (after capacity front) →
      Keeps capacity (front ++ qs) (after capacity (front ++ qs)) from hrest [] (.nil capacity)
  induction qs with
  | nil => simp
  | cons q qs ih =>
    intro front h
    have hall := ih (front ++ [q]) (h.register q)
    rwa [List.append_assoc, List.singleton_append] at hall

theorem Keeps.find?_eq_some_iff {capacity : Nat} {qs : List Registration} {c : Catalog}
    (h : Keeps capacity qs c) {id : AppId} {a : Application} :
    c.find? id = some a ↔ a ∈ c.applications ∧ a.id = id := by
  constructor
  · intro hfind
    exact ⟨List.mem_of_find?_eq_some hfind, by simpa using List.find?_some hfind⟩
  · rintro ⟨ha, rfl⟩
    exact find?_eq_some_of_nodup h.distinct ha

/-- **A catalog keeps what it has registered.** Behind any sequence of registrations a further one
is accepted if and only if nothing can be said against it; else its answer is the first objection,
and nothing is changed. The ids stay distinct, there is never more than there is room for, every
stored row has passed the check, an id finds the application that was registered under it, and a
ticket the one that it was issued for. -/
theorem registrations_are_kept (capacity : Nat) (qs : List Registration) :
    let c := after capacity qs
    (∀ q : Registration,
      ((∃ ticket c', c.add q.id q.name q.width q.rows = .ok (ticket, c')) ↔ c.Admits q) ∧
      (∀ ticket c', c.add q.id q.name q.width q.rows = .ok (ticket, c') → c.register q = c' ∧
        c' = { c with applications := c.applications ++ [q.application] }) ∧
      (∀ e, c.add q.id q.name q.width q.rows = .error e ↔ First (Objection c q) e) ∧
      ∀ e, c.add q.id q.name q.width q.rows = .error e → c.register q = c) ∧
    c.ids.Nodup ∧ c.applications.length ≤ capacity ∧
    (∀ a ∈ c.applications, ∀ row ∈ a.scripts, row.check = .ok () ∧ row.budget = a.budget) ∧
    (∀ id a, c.find? id = some a ↔
      ∃ q ticket, Issues capacity qs q ticket ∧ q.id = id ∧ q.application = a) ∧
    ∀ q ticket, Issues capacity qs q ticket → c.get? ticket = some q.application := by
  intro c
  have h : Keeps capacity qs c := after_keeps capacity qs
  refine ⟨fun q => ⟨?_, ?_, fun e => add_eq_error_iff, fun e => register_of_error⟩, h.distinct,
    h.room, ?_, ?_, fun q ticket => h.issued⟩
  · constructor
    · intro h
      obtain ⟨ticket, c', hadd⟩ := h
      exact (add_eq_ok_iff.mp hadd).1
    · intro hadmits
      exact ⟨_, _, add_eq_ok_iff.mpr ⟨hadmits, rfl, rfl⟩⟩
  · intro ticket c' hadd
    exact ⟨register_of_ok hadd, (add_eq_ok_iff.mp hadd).2.2⟩
  · intro a ha row hrow
    have hsound := after_sound capacity qs a ha
    refine ⟨hsound.check_row row hrow, ?_⟩
    rw [Row.budget, hsound.length_row row hrow, Nat.add_sub_cancel]
  · intro id a
    rw [h.find?_eq_some_iff]
    constructor
    · intro h
      obtain ⟨ha, hid⟩ := h
      obtain ⟨q, ticket, hi, rfl⟩ := h.stored a ha
      exact ⟨q, ticket, hi, hid, rfl⟩
    · intro h
      obtain ⟨q, ticket, hi, hid, rfl⟩ := h
      exact ⟨List.mem_of_getElem? (h.issued hi), hid⟩

end ButtonPad.Catalog
