import ButtonPad.Board.Interrupts
import Mathlib.Combinatorics.Enumerative.DyckWord

/-! # Sections within sections

Entering a section hands out a token, and leaving is given the token of the same section (`Nested`).
Sections may follow and enclose one another in the shape of any Dyck word. Whatever is inside of one
starts with the interrupts masked and leaves them so (`Nested.after_eq`); hence only the token of an
outermost section can tell that they were enabled. -/
namespace ButtonPad.Interrupts

/-- A call that enters a section, with the token that it hands out, or one that leaves a section,
with the token that it is given. -/
inductive Call where
  | enter (token : Bool)
  | leave (token : Bool)
  deriving DecidableEq, Repr

/-- Calls enclose calls as brackets do. -/
def Call.bracket : Call → DyckStep
  | .enter _ => .U
  | .leave _ => .D

/-- One section after the other, and what is called inside of each is such sections again. A section
is left with the token that was handed out when it was entered. -/
inductive Nested : List Call → Prop
  | nil : Nested []
  | enclose {inner rest : List Call} (token : Bool) (inside : Nested inner) (behind : Nested rest) :
    Nested (.enter token :: (inner ++ .leave token :: rest))

def call (i : Interrupts) : Call → Interrupts
  | .enter _ => i.mask.2
  | .leave token => i.restore token

def after (i : Interrupts) (calls : List Call) : Interrupts := calls.foldl call i

/-- The tokens of the sections that are entered are the ones that are handed out then. -/
def Issues (i : Interrupts) : List Call → Prop
  | [] => True
  | .enter token :: rest => token = i.mask.1 ∧ (i.call (.enter token)).Issues rest
  | .leave token :: rest => (i.call (.leave token)).Issues rest

variable {i : Interrupts} {calls inner rest front : List Call} {token : Bool}

/-! ## Depth -/

/-- How many more sections are entered by these calls than are left. -/
def depth (calls : List Call) : Int :=
  (calls.map fun
    | .enter _ => 1
    | .leave _ => -1).sum

@[simp] theorem depth_enter (token : Bool) (rest : List Call) :
    depth (.enter token :: rest) = 1 + depth rest := List.sum_cons

@[simp] theorem depth_leave (token : Bool) (rest : List Call) :
    depth (.leave token :: rest) = -1 + depth rest := List.sum_cons

@[simp] theorem depth_append (calls more : List Call) :
    depth (calls ++ more) = depth calls + depth more := by
  rw [depth, List.map_append, List.sum_append]
  rfl

theorem Nested.depth_eq (h : Nested calls) : depth calls = 0 := by
  induction h with
  | nil => rfl
  | enclose token _ _ ihInner ihRest => simp [ihInner, ihRest]

/-! ## One section -/

theorem after_append (i : Interrupts) (calls more : List Call) :
    i.after (calls ++ more) = (i.after calls).after more := List.foldl_append

theorem issues_append : i.Issues (calls ++ rest) ↔ i.Issues calls ∧ (i.after calls).Issues rest := by
  induction calls generalizing i with
  | nil => exact (and_iff_right trivial).symm
  | cons c calls ih =>
    cases c with
    | enter token =>
      rw [List.cons_append, Issues, Issues, ih, and_assoc]
      rfl
    | leave token =>
      rw [List.cons_append, Issues, Issues, ih]
      rfl

/-- A section whose inside leaves the interrupts masked leaves them as it found them. -/
theorem after_section (hinner : i.mask.2.after inner = i.mask.2) :
    i.after (.enter i.mask.1 :: (inner ++ .leave i.mask.1 :: rest)) = i.after rest := by
  calc i.after (.enter i.mask.1 :: (inner ++ .leave i.mask.1 :: rest))
      = ((i.mask.2.after inner).restore i.mask.1).after rest := after_append i.mask.2 inner _
    _ = i.after rest := by rw [hinner, restore_mask]

theorem issues_section_iff (hinner : i.mask.2.Issues inner → i.mask.2.after inner = i.mask.2) :
    i.Issues (.enter token :: (inner ++ .leave token :: rest)) ↔
      token = i.mask.1 ∧ i.mask.2.Issues inner ∧ i.Issues rest := by
  rw [Issues, issues_append]
  refine and_congr_right fun htoken => and_congr_right fun hissued => ?_
  have hafter : (i.mask.2.after inner).restore token = i := by
    rw [hinner hissued, htoken, restore_mask]
  exact iff_of_eq (congrArg (Issues · rest) hafter)

/-- A section has not begun, or its inside is under way, or it was left. -/
theorem prefix_section_cases (h : front <+: .enter token :: (inner ++ .leave token :: rest)) :
    front = [] ∨ (∃ more, more <+: inner ∧ front = .enter token :: more) ∨
      ∃ more, more <+: rest ∧ front = .enter token :: (inner ++ .leave token :: more) := by
  rcases List.prefix_cons_iff.mp h with rfl | ⟨begun, rfl, back, hback⟩
  · exact .inl rfl
  · refine .inr ?_
    rcases List.append_eq_append_iff.mp hback with ⟨left, rfl, -⟩ | ⟨behind, rfl, hrest⟩
    · exact .inl ⟨begun, List.prefix_append _ _, rfl⟩
    · cases behind with
      | nil => exact .inl ⟨inner, List.prefix_rfl, by rw [List.append_nil]⟩
      | cons c more =>
        cases hrest
        exact .inr ⟨more, List.prefix_append _ _, rfl⟩

/-! ## Nested sections -/

/-- Nested sections leave the interrupts as they found them. -/
theorem Nested.after_eq (h : Nested calls) (hissued : i.Issues calls) : i.after calls = i := by
  induction h generalizing i with
  | nil => rfl
  | enclose token _ _ ihInner ihRest =>
    obtain ⟨rfl, hinner, hrest⟩ := (issues_section_iff ihInner).mp hissued
    rw [after_section (ihInner hinner), ihRest hrest]

/-- Between two calls no section is open and the interrupts are as they were, or one is open and
they are masked. -/
theorem Nested.between (h : Nested calls) (hissued : i.Issues calls) (hfront : front <+: calls) :
    depth front = 0 ∧ i.after front = i ∨ 0 < depth front ∧ (i.after front).enabled = false := by
  induction h generalizing i front with
  | nil =>
    rw [List.prefix_nil.mp hfront]
    exact .inl ⟨rfl, rfl⟩
  | enclose token inside _ ihInner ihRest =>
    obtain ⟨rfl, hinner, hrest⟩ := (issues_section_iff inside.after_eq).mp hissued
    rcases prefix_section_cases hfront with rfl | ⟨more, hmore, rfl⟩ | ⟨more, hmore, rfl⟩
    · exact .inl ⟨rfl, rfl⟩
    · -- inside: what is found there is masked already
      rw [depth_enter]
      refine .inr ?_
      rcases ihInner hinner hmore with ⟨hdepth, hafter⟩ | ⟨hdepth, hoff⟩
      · exact ⟨by omega, congrArg enabled hafter⟩
      · exact ⟨by omega, hoff⟩
    · rw [after_section (inside.after_eq hinner), depth_enter, depth_append, depth_leave,
        inside.depth_eq]
      simpa using ihRest hrest hmore

open DyckWord in
/-- Sections can be nested in any shape, whatever the interrupts are at first. -/
theorem exists_nested (i : Interrupts) (w : DyckWord) :
    ∃ calls, calls.map Call.bracket = w.toList ∧ Nested calls ∧ i.Issues calls := by
  by_cases hw : w = 0
  · exact ⟨[], by rw [hw]; rfl, .nil, trivial⟩
  · obtain ⟨inner, hinner, inside, hissued⟩ := exists_nested i.mask.2 w.insidePart
    obtain ⟨rest, hrest, behind, hissued'⟩ := exists_nested i w.outsidePart
    refine ⟨.enter i.mask.1 :: (inner ++ .leave i.mask.1 :: rest), ?_, .enclose _ inside behind,
      (issues_section_iff inside.after_eq).mpr ⟨rfl, hissued, hissued'⟩⟩
    have hshape : (w.insidePart.nest + w.outsidePart).toList =
        [.U] ++ w.insidePart.toList ++ [.D] ++ w.outsidePart.toList := rfl
    rw [← nest_insidePart_add_outsidePart hw, hshape, ← hinner, ← hrest]
    simp [Call.bracket]
termination_by w.semilength
decreasing_by
  · exact semilength_insidePart_lt hw
  · exact semilength_outsidePart_lt hw

/-- **Sections leave the interrupts as they found them.** Where each section is left with the token
that it was entered with, the interrupts are masked between any two calls between which a section is
open, thus also behind the end of a section inside of another one; and where none is open they are
as they were before the first section. -/
theorem sections_leave_as_found (i : Interrupts) :
    (∀ w : DyckWord, ∃ calls, calls.map Call.bracket = w.toList ∧ Nested calls ∧ i.Issues calls) ∧
    ∀ calls, Nested calls → i.Issues calls → i.after calls = i ∧
      ∀ front, front <+: calls → 0 ≤ depth front ∧
        (depth front = 0 → i.after front = i) ∧
        (0 < depth front → (i.after front).enabled = false) := by
  refine ⟨i.exists_nested, fun calls hnested hissued => ⟨hnested.after_eq hissued, ?_⟩⟩
  intro front hfront
  rcases hnested.between hissued hfront with ⟨hdepth, hafter⟩ | ⟨hdepth, hoff⟩
  · exact ⟨hdepth.ge, fun _ => hafter, fun h => absurd hdepth h.ne'⟩
  · exact ⟨hdepth.le, fun h => absurd h hdepth.ne', fun _ => hoff⟩

/-- Two sections inside of one, and one more behind it. -/
theorem sections_leave_as_found_specimen :
    let i : Interrupts := { enabled := true }
    let calls : List Call := [.enter true, .enter false, .leave false, .enter false, .leave false,
      .leave true, .enter true, .leave true]
    Nested calls ∧ i.Issues calls ∧ i.after calls = i ∧
      (i.after (calls.take 3)).enabled = false ∧ i.after (calls.take 6) = i := by
  intro i calls
  have hnested : Nested calls :=
    .enclose true (.enclose false .nil (.enclose false .nil .nil)) (.enclose true .nil .nil)
  have hissued : i.Issues calls := ⟨rfl, rfl, rfl, rfl, trivial⟩
  obtain ⟨-, hsections⟩ := sections_leave_as_found i
  obtain ⟨hall, hbetween⟩ := hsections calls hnested hissued
  exact ⟨hnested, hissued, hall, (hbetween _ (List.take_prefix 3 calls)).2.2 (by decide),
    (hbetween _ (List.take_prefix 6 calls)).2.1 (by decide)⟩

end ButtonPad.Interrupts
