/-! # The first of several objections

What is checked against several conditions can meet more than one objection. Each objection stands
at a place, a list of numbers: which condition, which entry of a table, which slot. Places are
compared as words are, by the first number in which they differ. A check that stops at the first
objection of all is put together of such checks along `Option.or` and `findSome?`. -/
namespace ButtonPad
variable {ρ : Type}

/-- Of all objections this one stands at the first place. -/
def First (objects : List Nat → ρ → Prop) (e : ρ) : Prop :=
  ∃ place, objects place e ∧ ∀ place' e', objects place' e' → place' = place ∨ place.lt place'

/-- The result tells of the first objection, and of none only if there is none. -/
structure FindsFirst (objects : List Nat → ρ → Prop) (found : Option ρ) : Prop where
  unique : ∀ {place e e'}, objects place e → objects place e' → e = e'
  none : found = none → ∀ place e, ¬ objects place e
  some : ∀ {e}, found = some e → First objects e

namespace FindsFirst
variable {objects objects' : List Nat → ρ → Prop} {found found' : Option ρ}

theorem eq_none_iff (h : FindsFirst objects found) :
    found = .none ↔ ∀ place e, ¬ objects place e := by
  refine ⟨h.none, fun hnone => ?_⟩
  cases hf : found with
  | none => rfl
  | some e =>
    obtain ⟨place, he, -⟩ := h.some hf
    exact absurd he (hnone place e)

theorem eq_some_iff (h : FindsFirst objects found) {e : ρ} :
    found = .some e ↔ First objects e := by
  refine ⟨h.some, fun ⟨place, he, hfirst⟩ => ?_⟩
  cases hf : found with
  | none => exact absurd he (h.none hf place e)
  | some other =>
    obtain ⟨place', hother, hfirst'⟩ := h.some hf
    have hplace : place' = place := by
      rcases hfirst place' other hother with heq | hlt
      · exact heq
      · rcases hfirst' place e he with heq | hlt'
        · exact heq.symm
        · exact absurd hlt' (List.lt_asymm hlt)
    subst hplace
    rw [h.unique hother he]

theorem congr (h : FindsFirst objects found)
    (hiff : ∀ place e, objects' place e ↔ objects place e) : FindsFirst objects' found := by
  have heq : objects' = objects := funext fun place => funext fun e => propext (hiff place e)
  rwa [heq]

theorem nothing : FindsFirst (fun _ (_ : ρ) => False) .none where
  unique h := h.elim
  none _ _ _ := id
  some := nofun

theorem single (found : Option ρ) :
    FindsFirst (fun place e => place = [] ∧ found = .some e) found where
  unique h h' := Option.some.inj (h.2.symm.trans h'.2)
  none hnone := by
    rintro place e ⟨-, he⟩
    rw [hnone] at he
    cases he
  some he := ⟨[], ⟨rfl, he⟩, fun _ _ h => .inl h.1⟩

theorem guard (p : Prop) [Decidable p] (e : ρ) :
    FindsFirst (fun place e' => place = [] ∧ p ∧ e' = e) (if p then .some e else .none) := by
  refine (single _).congr fun place e' => ?_
  by_cases hp : p <;> simp [hp, eq_comm]

theorem under (k : Nat) (h : FindsFirst objects found) :
    FindsFirst (fun place e => ∃ rest, place = k :: rest ∧ objects rest e) found where
  unique := by
    rintro place e e' ⟨rest, rfl, he⟩ ⟨rest', heq, he'⟩
    cases heq
    exact h.unique he he'
  none hnone := by
    rintro place e ⟨rest, -, he⟩
    exact h.none hnone rest e he
  some := by
    intro e he
    obtain ⟨rest, hp, hfirst⟩ := h.some he
    refine ⟨k :: rest, ⟨rest, rfl, hp⟩, ?_⟩
    rintro place' e' ⟨rest', rfl, he'⟩
    rcases hfirst rest' e' he' with rfl | hlt
    · exact .inl rfl
    · exact .inr (List.cons_lt_cons_iff.mpr (.inr ⟨rfl, hlt⟩))

/-- One check after another one, all of whose objections stand at earlier places. -/
theorem or (h : FindsFirst objects found) (h' : FindsFirst objects' found')
    (hlt : ∀ {place e place' e'}, objects place e → objects' place' e' → place.lt place') :
    FindsFirst (fun place e => objects place e ∨ objects' place e) (found.or found') where
  unique := by
    rintro place e e' (he | he) (he' | he')
    · exact h.unique he he'
    · exact absurd (hlt he he') (List.lt_irrefl place)
    · exact absurd (hlt he' he) (List.lt_irrefl place)
    · exact h'.unique he he'
  none hnone := by
    rw [Option.or_eq_none_iff] at hnone
    exact fun place e he => he.elim (h.none hnone.1 place e) (h'.none hnone.2 place e)
  some := by
    intro e he
    rcases Option.or_eq_some_iff.mp he with hf | ⟨hnone, hf⟩
    · obtain ⟨place, hp, hfirst⟩ := h.some hf
      exact ⟨place, .inl hp, fun place' e' he' => he'.elim (hfirst place' e') fun he' =>
        .inr (hlt hp he')⟩
    · obtain ⟨place, hp, hfirst⟩ := h'.some hf
      exact ⟨place, .inr hp, fun place' e' he' =>
        he'.elim (fun he' => absurd he' (h.none hnone place' e')) (hfirst place' e')⟩

end FindsFirst

/-- The same for the rest of a chain of checks: all places begin with the number `k` or a later
one. -/
structure FindsFrom (k : Nat) (objects : List Nat → ρ → Prop) (found : Option ρ) : Prop
    extends FindsFirst objects found where
  begins : ∀ {place e}, objects place e → ∃ n rest, place = n :: rest ∧ k ≤ n

namespace FindsFirst
variable {objects objects' : List Nat → ρ → Prop} {found found' : Option ρ}

/-- The last check of a chain. -/
theorem last (k : Nat) (h : FindsFirst objects found) :
    FindsFrom k (fun place e => ∃ rest, place = k :: rest ∧ objects rest e) found where
  toFindsFirst := h.under k
  begins := fun ⟨rest, hp, _⟩ => ⟨k, rest, hp, Nat.le_refl k⟩

/-- A check in front of a chain. -/
theorem andThen (k : Nat) (h : FindsFirst objects found) (h' : FindsFrom (k + 1) objects' found') :
    FindsFrom k (fun place e => (∃ rest, place = k :: rest ∧ objects rest e) ∨ objects' place e)
      (found.or found') where
  toFindsFirst := (h.under k).or h'.toFindsFirst (by
    rintro place e place' e' ⟨rest, rfl, -⟩ he'
    obtain ⟨n, rest', rfl, hn⟩ := h'.begins he'
    exact List.cons_lt_cons_iff.mpr (.inl hn))
  begins := by
    rintro place e (⟨rest, rfl, -⟩ | he)
    · exact ⟨k, rest, rfl, Nat.le_refl k⟩
    · obtain ⟨n, rest, rfl, hn⟩ := h'.begins he
      exact ⟨n, rest, rfl, Nat.le_of_succ_le hn⟩

/-- A check of each entry of a list, in the order of numbers that ascend along it. -/
theorem findSome? {α : Type} {entries : List α} {number : α → Nat} {check : α → Option ρ}
    {objects : α → List Nat → ρ → Prop} (hsorted : entries.Pairwise (number · < number ·))
    (hcheck : ∀ a ∈ entries, FindsFirst (objects a) (check a)) :
    FindsFirst (fun place e => ∃ a ∈ entries, ∃ rest, place = number a :: rest ∧ objects a rest e)
      (entries.findSome? check) := by
  induction entries with
  | nil => exact nothing.congr (by simp)
  | cons a rest ih =>
    obtain ⟨hlt, hrest⟩ := List.pairwise_cons.mp hsorted
    have hfirst := (hcheck a List.mem_cons_self).under (number a)
    have hothers := ih hrest fun b hb => hcheck b (List.mem_cons_of_mem _ hb)
    have hboth := hfirst.or hothers (by
      rintro place e place' e' ⟨_, rfl, -⟩ ⟨b, hb, _, rfl, -⟩
      exact List.cons_lt_cons_iff.mpr (.inl (hlt b hb)))
    have hor : (check a).or (rest.findSome? check) = (a :: rest).findSome? check := by
      rw [List.findSome?_cons]
      cases check a <;> rfl
    rw [← hor]
    exact hboth.congr (by simp)

/-- The same for the first of the entries that meet a condition. -/
theorem find? {α : Type} {entries : List α} {number : α → Nat}
    (hsorted : entries.Pairwise (number · < number ·)) (p : α → Bool) (answer : α → ρ) :
    FindsFirst (fun place e => ∃ a ∈ entries, place = [number a] ∧ p a = true ∧ e = answer a)
      ((entries.find? p).map answer) := by
  have hfind : (entries.find? p).map answer =
      entries.findSome? fun a => if p a = true then .some (answer a) else .none := by
    clear hsorted
    induction entries with
    | nil => rfl
    | cons a rest ih =>
      rw [List.findSome?_cons, List.find?_cons, ← ih]
      cases p a <;> rfl
  rw [hfind]
  refine (findSome? hsorted fun a _ => .guard (p a = true) (answer a)).congr fun place e => ?_
  constructor
  · intro h
    obtain ⟨a, ha, rfl, hp, he⟩ := h
    exact ⟨a, ha, [], rfl, rfl, hp, he⟩
  · intro h
    obtain ⟨a, ha, rest, rfl, rfl, hp, he⟩ := h
    exact ⟨a, ha, rfl, hp, he⟩

/-! ## Positions for numbers -/

theorem pairwise_zipIdx {α : Type} (entries : List α) : entries.zipIdx.Pairwise (·.2 < ·.2) := by
  rw [← List.pairwise_map (f := Prod.snd), List.zipIdx_map_snd]
  exact List.pairwise_lt_range'

theorem findSome?_zipIdx {α : Type} (entries : List α) {check : α × Nat → Option ρ}
    {objects : α × Nat → List Nat → ρ → Prop}
    (hcheck : ∀ a ∈ entries.zipIdx, FindsFirst (objects a) (check a)) :
    FindsFirst
      (fun place e => ∃ a i rest, entries[i]? = .some a ∧ place = i :: rest ∧ objects (a, i) rest e)
      (entries.zipIdx.findSome? check) := by
  refine (findSome? (pairwise_zipIdx entries) hcheck).congr fun place e => ?_
  constructor
  · intro h
    obtain ⟨a, i, rest, ha, hp, he⟩ := h
    exact ⟨(a, i), List.mk_mem_zipIdx_iff_getElem?.mpr ha, rest, hp, he⟩
  · intro h
    obtain ⟨⟨a, i⟩, ha, rest, hp, he⟩ := h
    exact ⟨a, i, rest, List.mk_mem_zipIdx_iff_getElem?.mp ha, hp, he⟩

theorem findSome?_position {α : Type} (entries : List α) {check : α → Option ρ}
    {objects : α → List Nat → ρ → Prop}
    (hcheck : ∀ a ∈ entries, FindsFirst (objects a) (check a)) :
    FindsFirst
      (fun place e => ∃ a i rest, entries[i]? = .some a ∧ place = i :: rest ∧ objects a rest e)
      (entries.findSome? check) := by
  have hpositions : entries.findSome? check = entries.zipIdx.findSome? (check ∘ Prod.fst) := by
    rw [← List.findSome?_map, List.zipIdx_map_fst]
  rw [hpositions]
  exact findSome?_zipIdx entries fun a ha => hcheck a.1 (List.fst_mem_of_mem_zipIdx ha)

theorem find?_position {α : Type} (entries : List α) (p : α → Bool) (answer : α → ρ) :
    FindsFirst
      (fun place e => ∃ a i, entries[i]? = .some a ∧ place = [i] ∧ p a = true ∧ e = answer a)
      ((entries.find? p).map answer) := by
  have hpositions : (entries.find? p).map answer =
      (entries.zipIdx.find? (p ∘ Prod.fst)).map (answer ∘ Prod.fst) := by
    rw [← Option.map_map, ← List.find?_map, List.zipIdx_map_fst]
  rw [hpositions]
  refine (find? (pairwise_zipIdx entries) _ _).congr fun place e => ?_
  constructor
  · intro h
    obtain ⟨a, i, ha, hp, he⟩ := h
    exact ⟨(a, i), List.mk_mem_zipIdx_iff_getElem?.mpr ha, hp, he⟩
  · intro h
    obtain ⟨⟨a, i⟩, ha, hp, he⟩ := h
    exact ⟨a, i, List.mk_mem_zipIdx_iff_getElem?.mp ha, hp, he⟩

end FindsFirst

end ButtonPad
