import ButtonPad.Lines.Replay
import ButtonPad.Lines.Sampler
import ButtonPad.Proofs.Lists

/-! # A sampler over time

A sampler is used in any order, at lines that may change under it. What it holds is what was found
since something was last taken (`Occurrence.heldAfter`), and it reads only while it holds nothing
(`Occurrence.Lawful`). A replay it reads from is at the snapshot that the number of reads so far
leads to (`Replay.At`). -/
namespace ButtonPad

/-- Lines that can be read, and what can befall them between two reads. -/
structure Inputs (ι ε : Type) where
  read : ι → Snapshot × ι
  befall : ε → ι → ι

/-- The lines together with a list of what was read of them. -/
def Inputs.readLogged {ι ε : Type} (i : Inputs ι ε) :
    ι × List Snapshot → Snapshot × ι × List Snapshot
  | (lines, seen) =>
    let (s, lines) := i.read lines
    (s, lines, seen ++ [s])

namespace Sampler
variable {ι ε : Type}

theorem sample_held {s : Sampler} {p : Press} (h : s.held = some p) (map : ButtonMap)
    (read : ι → Snapshot × ι) (lines : ι) : s.sample map read lines = (true, s, lines) := by
  rw [sample, h]
  rfl

theorem sample_free {s : Sampler} (h : s.held = none) (map : ButtonMap)
    (read : ι → Snapshot × ι) (lines : ι) :
    s.sample map read lines = ((map.firstPress (read lines).1).isSome,
      ⟨map.firstPress (read lines).1⟩, (read lines).2) := by
  rw [sample, h]
  rfl

/-- One use of a sampler, or something that befalls its lines. -/
inductive Use (ε : Type) where
  | meanwhile (e : ε)
  | sample (map : ButtonMap)
  | pending
  | take

/-- What a use does to the lines where nothing is read. -/
def Use.befall (i : Inputs ι ε) (lines : ι) : Use ε → ι
  | .meanwhile e => i.befall e lines
  | _ => lines

/-- What came of it. A sample comes with the snapshots that it read. -/
inductive Occurrence (ε : Type) where
  | befell (e : ε)
  | sampled (map : ButtonMap) (seen : List Snapshot) (found : Bool)
  | shown (press : Option Press)
  | taken (press : Option Press)

/-! ## Histories -/

namespace Occurrence

def use : Occurrence ε → Use ε
  | .befell e => .meanwhile e
  | .sampled map _ _ => .sample map
  | .shown _ => .pending
  | .taken _ => .take

def isTake : Occurrence ε → Bool
  | .taken _ => true
  | _ => false

def seen : Occurrence ε → List Snapshot
  | .sampled _ seen _ => seen
  | _ => []

def found? : Occurrence ε → Option Press
  | .sampled map [s] _ => map.firstPress s
  | _ => none

def handed? : Occurrence ε → Option Press
  | .taken press => press
  | _ => none

/-- The press found since something was last taken. -/
def heldAfter (past : List (Occurrence ε)) : Option Press :=
  (past.reverse.takeWhile fun x => !x.isTake).findSome? found?

theorem heldAfter_concat (past : List (Occurrence ε)) (x : Occurrence ε) :
    heldAfter (past ++ [x]) = if x.isTake then none else x.found?.or (heldAfter past) := by
  rw [heldAfter, List.reverse_concat, List.takeWhile_cons]
  cases x.isTake with
  | true => rfl
  | false => cases h : x.found? <;> simp [heldAfter, h]

/-- Where it leaves the lines: each snapshot that was seen was read. -/
def pass (i : Inputs ι ε) (lines : ι) : Occurrence ε → ι
  | .befell e => i.befall e lines
  | .sampled _ seen _ => seen.foldl (fun lines _ => (i.read lines).2) lines
  | .shown _ => lines
  | .taken _ => lines

def linesAfter (i : Inputs ι ε) (start : ι) (past : List (Occurrence ε)) : ι :=
  past.foldl (pass i) start

theorem linesAfter_concat (i : Inputs ι ε) (start : ι) (past : List (Occurrence ε))
    (x : Occurrence ε) : linesAfter i start (past ++ [x]) = x.pass i (linesAfter i start past) := by
  simp [linesAfter]

/-- What may happen next: a sample finds what is held and reads nothing, or reads one snapshot and
finds what its map says of it; and what is held is what is shown and handed over. -/
def Lawful (i : Inputs ι ε) (start : ι) (past : List (Occurrence ε)) : Occurrence ε → Prop
  | .befell _ => True
  | .sampled map seen found =>
    if (heldAfter past).isSome then seen = [] ∧ found = true
    else
      let s := (i.read (linesAfter i start past)).1
      seen = [s] ∧ found = (map.firstPress s).isSome
  | .shown press => press = heldAfter past
  | .taken press => press = heldAfter past

end Occurrence

/-! ## Runs -/

/-- A sampler at its lines, with all that came of its uses, oldest first. -/
structure Desk (ι ε : Type) where
  sampler : Sampler := {}
  lines : ι
  past : List (Occurrence ε) := []

namespace Desk
open Occurrence

def use (i : Inputs ι ε) (d : Desk ι ε) : Use ε → Desk ι ε
  | .meanwhile e => { d with lines := i.befall e d.lines, past := d.past ++ [.befell e] }
  | .sample map =>
    let (found, sampler, lines, seen) := d.sampler.sample map i.readLogged (d.lines, [])
    { sampler, lines, past := d.past ++ [.sampled map seen found] }
  | .pending => { d with past := d.past ++ [.shown d.sampler.held] }
  | .take =>
    let (press, sampler) := d.sampler.take
    { d with sampler, past := d.past ++ [.taken press] }

/-- A new sampler at these lines behind a sequence of uses. -/
def after (i : Inputs ι ε) (start : ι) (uses : List (Use ε)) : Desk ι ε :=
  uses.foldl (use i) { lines := start }

/-- The past kept to the law and led to this sampler and these lines, and what was found was handed
over, one after the other, as far as it is not still held. -/
structure Keeps (i : Inputs ι ε) (start : ι) (d : Desk ι ε) : Prop where
  lawful : ∀ front x back, d.past = front ++ x :: back → x.Lawful i start front
  held : d.sampler.held = heldAfter d.past
  lines : d.lines = linesAfter i start d.past
  balance : d.past.filterMap found? = d.past.filterMap handed? ++ d.sampler.held.toList

variable {i : Inputs ι ε} {start : ι} {d : Desk ι ε}

theorem Keeps.fresh (i : Inputs ι ε) (start : ι) : Keeps i start { lines := start } where
  lawful front x back h := by simp at h
  held := rfl
  lines := rfl
  balance := rfl

theorem Keeps.concat (h : d.Keeps i start) {x : Occurrence ε} {sampler : Sampler} {lines : ι}
    (hlawful : x.Lawful i start d.past) (hheld : sampler.held = heldAfter (d.past ++ [x]))
    (hlines : lines = x.pass i d.lines)
    (hbalance : d.sampler.held.toList ++ x.found?.toList =
      x.handed?.toList ++ sampler.held.toList) :
    Keeps i start { sampler, lines, past := d.past ++ [x] } where
  lawful front y back heq := by
    rcases concat_eq_split_iff.mp heq with ⟨rfl, rfl, -⟩ | ⟨more, -, heq⟩
    · exact hlawful
    · exact h.lawful front y more heq
  held := hheld
  lines := by rw [hlines, h.lines, linesAfter_concat]
  balance := by
    have hfound : [x].filterMap found? = x.found?.toList := by
      cases h : x.found? <;> simp [h]
    have hhanded : [x].filterMap handed? = x.handed?.toList := by
      cases h : x.handed? <;> simp [h]
    show (d.past ++ [x]).filterMap found? = (d.past ++ [x]).filterMap handed? ++ sampler.held.toList
    rw [List.filterMap_append, List.filterMap_append, h.balance, hfound, hhanded, List.append_assoc,
      List.append_assoc, hbalance]

theorem Keeps.use (h : d.Keeps i start) (u : Use ε) : (d.use i u).Keeps i start := by
  cases u with
  | meanwhile e =>
    refine h.concat trivial ?_ rfl (List.append_nil _)
    rw [heldAfter_concat, h.held]
    rfl
  | pending =>
    refine h.concat h.held ?_ rfl (List.append_nil _)
    rw [heldAfter_concat, h.held]
    rfl
  | take =>
    refine h.concat h.held ?_ rfl ?_
    · rw [heldAfter_concat]
      rfl
    · rfl
  | sample map =>
    cases hheld : d.sampler.held with
    | some p =>
      have huse : d.use i (.sample map) =
          { d with past := d.past ++ [.sampled map [] true] } := by
        simp only [Desk.use, sample_held hheld]
      have hpast : heldAfter d.past = some p := h.held.symm.trans hheld
      rw [huse]
      refine h.concat ?_ ?_ rfl (List.append_nil _)
      · simp [Lawful, hpast]
      · rw [heldAfter_concat, h.held]
        rfl
    -- the law looks at what the past has found, the sampler at what it holds: they are the same
    | none =>
      have huse : d.use i (.sample map) =
          { sampler := ⟨map.firstPress (i.read d.lines).1⟩
            lines := (i.read d.lines).2
            past := d.past ++ [.sampled map [(i.read d.lines).1]
              (map.firstPress (i.read d.lines).1).isSome] } := by
        simp only [Desk.use, sample_free hheld]
        rfl
      have hpast : heldAfter d.past = none := h.held.symm.trans hheld
      rw [huse]
      refine h.concat ?_ ?_ rfl ?_
      · simp [Lawful, hpast, h.lines]
      · rw [heldAfter_concat, hpast, Option.or_none]
        rfl
      · rw [hheld]
        rfl

theorem after_keeps (i : Inputs ι ε) (start : ι) (uses : List (Use ε)) :
    (after i start uses).Keeps i start := by
  induction uses using List.reverseRecOn with
  | nil => exact .fresh i start
  | append_singleton uses u ih =>
    rw [after, List.foldl_append]
    exact ih.use u

theorem past_after (i : Inputs ι ε) (start : ι) (uses : List (Use ε)) :
    (after i start uses).past.map Occurrence.use = uses := by
  induction uses using List.reverseRecOn with
  | nil => rfl
  | append_singleton uses u ih =>
    rw [after, List.foldl_append]
    cases u <;> exact (List.map_append).trans (congrArg (· ++ _) ih)

/-- What is held stays, and the lines are not read, as long as nothing is taken. -/
theorem held_foldl {p : Press} (hheld : d.sampler.held = some p) {more : List (Use ε)}
    (hmore : .take ∉ more) :
    (more.foldl (use i) d).sampler.held = some p ∧
      (more.foldl (use i) d).lines = more.foldl (Use.befall i) d.lines := by
  induction more generalizing d with
  | nil => exact ⟨hheld, rfl⟩
  | cons u more ih =>
    obtain ⟨hu, hrest⟩ := not_or.mp (mt List.mem_cons.mpr hmore)
    rw [List.foldl_cons, List.foldl_cons]
    have hnext : (d.use i u).sampler.held = some p ∧
        (d.use i u).lines = Use.befall i d.lines u := by
      cases u with
      | meanwhile e => exact ⟨hheld, rfl⟩
      | sample map =>
        simp only [use, sample_held hheld]
        exact ⟨hheld, rfl⟩
      | pending => exact ⟨hheld, rfl⟩
      | take => exact absurd rfl hu
    rw [← hnext.2]
    exact ih hnext.1 hrest

end Desk

end Sampler

/-! ## Replays -/

namespace Replay
open Sampler (Occurrence Use Desk)

/-- A replay to read from, with more snapshots pushed meanwhile. -/
def inputs : Inputs Replay Snapshot where
  read := Replay.read
  befall s r := r.push s

/-- The snapshots of so many reads, one after the other. -/
def readTimes : Nat → Replay → List Snapshot
  | 0, _ => []
  | n + 1, r => r.read.1 :: readTimes n r.read.2

/-- The pushed snapshot at this position; behind the last one it is the last one again. -/
def pushedAt (pushed : List Snapshot) (n : Nat) : Snapshot :=
  pushed[n]?.getD (pushed.getLastD .empty)

theorem pushedAt_of_le {pushed : List Snapshot} {n : Nat} (h : pushed.length ≤ n) :
    pushedAt pushed n = pushed.getLastD .empty := by
  rw [pushedAt, List.getElem?_eq_none h]
  rfl

/-- Of these pushed snapshots the replay has been through the first `n`. -/
structure At (pushed : List Snapshot) (n : Nat) (r : Replay) : Prop where
  le : n ≤ pushed.length
  queued : r.queued = pushed.drop n
  current : r.current = (pushed.take n).getLastD .empty

variable {pushed : List Snapshot} {n : Nat} {r : Replay}

theorem At.push (h : At pushed n r) (s : Snapshot) : At (pushed ++ [s]) n (r.push s) where
  le := by
    rw [List.length_append]
    exact Nat.le_add_right_of_le h.le
  queued := by
    rw [List.drop_append_of_le_length h.le, ← h.queued]
    rfl
  current := by
    rw [List.take_append_of_le_length h.le, ← h.current]
    rfl

theorem At.read (h : At pushed n r) :
    r.read.1 = pushedAt pushed n ∧ At pushed (min (n + 1) pushed.length) r.read.2 := by
  rcases Nat.lt_or_eq_of_le h.le with hlt | rfl
  · have hqueued : r.queued = pushed[n] :: pushed.drop (n + 1) :=
      h.queued.trans (List.drop_eq_getElem_cons hlt)
    have hread : r.read = (pushed[n], ⟨pushed.drop (n + 1), pushed[n], r.reads + 1⟩) := by
      rw [Replay.read, hqueued]
    rw [hread, Nat.min_eq_left hlt]
    refine ⟨?_, hlt, rfl, ?_⟩
    · rw [pushedAt, List.getElem?_eq_getElem hlt]
      rfl
    · rw [List.take_succ_eq_append_getElem hlt, List.getLastD_concat]
  · have hqueued : r.queued = [] := h.queued.trans List.drop_length
    have hcurrent : r.current = pushed.getLastD .empty := by
      rw [h.current, List.take_length]
    have hread : r.read = (r.current, { r with reads := r.reads + 1 }) := by
      rw [Replay.read, hqueued]
    rw [hread, Nat.min_eq_right (Nat.le_succ _)]
    exact ⟨hcurrent.trans (pushedAt_of_le (Nat.le_refl _)).symm, h.le, h.queued, h.current⟩

theorem At.readTimes (h : At pushed n r) (k : Nat) :
    r.readTimes k = (List.range k).map fun j => pushedAt pushed (n + j) := by
  induction k generalizing n r with
  | zero => rfl
  | succ k ih =>
    obtain ⟨hfirst, hrest⟩ := h.read
    have hsame : ∀ j, pushedAt pushed (min (n + 1) pushed.length + j) =
        pushedAt pushed (n + (j + 1)) := by
      intro j
      rcases Nat.le_total (n + 1) pushed.length with hle | hge
      · rw [Nat.min_eq_left hle, Nat.add_assoc, Nat.add_comm 1]
      · rw [pushedAt_of_le (by omega), pushedAt_of_le (by omega)]
    rw [Replay.readTimes, hfirst, ih hrest, List.range_succ_eq_map, List.map_cons, List.map_map]
    exact congrArg (_ :: ·) (List.map_congr_left fun j _ => hsame j)

/-! ## Replays at a sampler -/

theorem At.foldl_read {β : Type} (h : At pushed n r) (l : List β) :
    At pushed (min (n + l.length) pushed.length) (l.foldl (fun r _ => r.read.2) r) := by
  induction l generalizing n r with
  | nil => simpa [Nat.min_eq_left h.le] using h
  | cons a l ih =>
    have hcount : min (min (n + 1) pushed.length + l.length) pushed.length =
        min (n + (a :: l).length) pushed.length := by
      rw [List.length_cons]
      omega
    rw [← hcount]
    exact ih h.read.2

def pushed? : Occurrence Snapshot → Option Snapshot
  | .befell s => some s
  | _ => none

def pushes (past : List (Occurrence Snapshot)) : List Snapshot := past.filterMap pushed?

/-- Counts the pushes, and the reads as long as there is something pushed that was not read. -/
def tally (count : Nat × Nat) : Occurrence Snapshot → Nat × Nat
  | .befell _ => (count.1 + 1, count.2)
  | .sampled _ seen _ => (count.1, min (count.2 + seen.length) count.1)
  | _ => count

/-- How many of the pushed snapshots were read in the past. -/
def served (past : List (Occurrence Snapshot)) : Nat := (past.foldl tally (0, 0)).2

theorem pushes_concat (past : List (Occurrence Snapshot)) (x : Occurrence Snapshot) :
    pushes (past ++ [x]) = pushes past ++ (pushed? x).toList := by
  rw [pushes, List.filterMap_append, ← pushes]
  cases h : pushed? x <;> simp [h]

theorem foldl_tally (past : List (Occurrence Snapshot)) :
    past.foldl tally (0, 0) = ((pushes past).length, served past) := by
  refine Prod.ext ?_ rfl
  induction past using List.reverseRecOn with
  | nil => rfl
  | append_singleton past x ih =>
    have hcount : (past.foldl tally (0, 0)).1 = (pushes past).length := ih
    show ((past ++ [x]).foldl tally (0, 0)).1 = (pushes (past ++ [x])).length
    rw [List.foldl_append, pushes_concat, List.length_append, ← hcount]
    cases x <;> rfl

theorem served_concat (past : List (Occurrence Snapshot)) (x : Occurrence Snapshot) :
    served (past ++ [x]) = (tally ((pushes past).length, served past) x).2 := by
  rw [served, List.foldl_append, foldl_tally]
  rfl

/-- The past has led the replay through as many snapshots as were read. -/
theorem at_linesAfter (past : List (Occurrence Snapshot)) :
    At (pushes past) (served past) (Occurrence.linesAfter inputs {} past) := by
  induction past using List.reverseRecOn with
  | nil => exact ⟨Nat.le_refl _, rfl, rfl⟩
  | append_singleton past x ih =>
    rw [Occurrence.linesAfter_concat, pushes_concat, served_concat]
    cases x with
    | befell s => exact ih.push s
    | sampled map seen found =>
      show At (pushes past ++ []) _ _
      rw [List.append_nil]
      exact ih.foldl_read seen
    | shown press => exact (List.append_nil (pushes past)).symm ▸ ih
    | taken press => exact (List.append_nil (pushes past)).symm ▸ ih

theorem reads_foldl_read {β : Type} (r : Replay) (l : List β) :
    (l.foldl (fun r _ => r.read.2) r).reads = r.reads + l.length := by
  induction l generalizing r with
  | nil => rfl
  | cons a l ih =>
    have hread : r.read.2.reads = r.reads + 1 := by
      rw [read]
      split <;> rfl
    rw [List.foldl_cons, ih, hread, List.length_cons, Nat.add_right_comm, Nat.add_assoc]

theorem reads_linesAfter (past : List (Occurrence Snapshot)) :
    (Occurrence.linesAfter inputs {} past).reads = (past.flatMap Occurrence.seen).length := by
  induction past using List.reverseRecOn with
  | nil => rfl
  | append_singleton past x ih =>
    rw [Occurrence.linesAfter_concat, List.flatMap_append, List.length_append, ← ih]
    cases x with
    | befell s => rfl
    | sampled map seen found =>
      rw [List.flatMap_singleton]
      exact reads_foldl_read _ seen
    | shown press => rfl
    | taken press => rfl

end Replay

/-! ## Both together -/

namespace Sampler
open Occurrence Replay

/-- **What a sampler finds it holds until it is taken.** Whatever is done with a sampler, and
whatever befalls its lines meanwhile: a sample of a sampler that holds a press reads nothing, any
other one reads one snapshot and finds the first press of it by the map that it was given. The
presses found are those handed over, in this order, and the one still held. Snapshots that are
pushed to a replay are seen in the order in which they are pushed, and what was not seen is still
queued. -/
theorem finds_are_held_until_taken :
    (∀ {ι ε : Type} (i : Inputs ι ε) (start : ι) (uses : List (Use ε)),
      let d := Desk.after i start uses
      d.past.map Occurrence.use = uses ∧ d.lines = linesAfter i start d.past ∧
      d.sampler.held = heldAfter d.past ∧
      (∀ front (x : Occurrence ε) back, d.past = front ++ x :: back → x.Lawful i start front) ∧
      d.past.filterMap found? = d.past.filterMap handed? ++ d.sampler.held.toList ∧
      ∀ p more, d.sampler.held = some p → .take ∉ more →
        (Desk.after i start (uses ++ more)).sampler.held = some p ∧
          (Desk.after i start (uses ++ more)).lines = more.foldl (Use.befall i) d.lines) ∧
    ∀ uses : List (Use Snapshot),
      let d := Desk.after Replay.inputs {} uses
      (∀ front map s found back, d.past = front ++ .sampled map [s] found :: back →
        s = pushedAt (pushes front) (served front)) ∧
      d.lines.queued = (pushes d.past).drop (served d.past) ∧
      d.lines.reads = (d.past.flatMap seen).length ∧
      ∀ k, d.lines.readTimes k =
        (List.range k).map fun j => pushedAt (pushes d.past) (served d.past + j) := by
  refine ⟨fun i start uses => ?_, fun uses => ?_⟩
  · have hkeeps := Desk.after_keeps i start uses
    refine ⟨Desk.past_after i start uses, hkeeps.lines, hkeeps.held, hkeeps.lawful,
      hkeeps.balance, ?_⟩
    intro p more hheld hmore
    rw [Desk.after, List.foldl_append]
    exact Desk.held_foldl hheld hmore
  · have hkeeps := Desk.after_keeps Replay.inputs {} uses
    have hat := at_linesAfter (Desk.after Replay.inputs {} uses).past
    have hreads := reads_linesAfter (Desk.after Replay.inputs {} uses).past
    rw [← hkeeps.lines] at hat hreads
    refine ⟨fun front map s found back hpast => ?_, hat.queued, hreads, hat.readTimes⟩
    have hlawful := hkeeps.lawful _ _ _ hpast
    simp only [Lawful] at hlawful
    split at hlawful
    · cases hlawful.1
    · have hs := List.singleton_inj.mp hlawful.1
      exact hs.trans (at_linesAfter front).read.1

/-- A press stays held through a sample by another map. Nothing of what is queued meanwhile is
lost by it. -/
theorem finds_are_held_until_taken_specimen :
    let first := Snapshot.empty.set 2 true
    let second := Snapshot.empty.set 5 true
    let uses : List (Use Snapshot) :=
      [.meanwhile first, .meanwhile second, .sample (ButtonMap.firstLines 4)]
    let more : List (Use Snapshot) :=
      [.sample (ButtonMap.firstLines 1), .meanwhile .empty, .pending]
    let d := Desk.after Replay.inputs {} (uses ++ more)
    (Desk.after Replay.inputs {} uses).sampler.held = some ⟨2, 2⟩ ∧ .take ∉ more ∧
      d.sampler.held = some ⟨2, 2⟩ ∧ d.lines.reads = 1 ∧ d.lines.queued = [second, .empty] ∧
      d.lines.readTimes 3 = [second, .empty, .empty] := by
  intro first second uses more d
  have hheld : (Desk.after Replay.inputs {} uses).sampler.held = some ⟨2, 2⟩ := by decide
  have hmore : .take ∉ more := by simp [more]
  obtain ⟨-, -, -, -, -, hstays⟩ := finds_are_held_until_taken.1 Replay.inputs {} uses
  obtain ⟨-, hqueued, hreads, hnext⟩ := finds_are_held_until_taken.2 (uses ++ more)
  exact ⟨hheld, hmore, (hstays _ more hheld hmore).1, hreads.trans (by decide),
    hqueued.trans (by decide), (hnext 3).trans (by decide)⟩

end Sampler

end ButtonPad
