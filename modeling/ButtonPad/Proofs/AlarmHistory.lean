import ButtonPad.Board.Alarm

/-! # What an alarm does over its whole history

Everything that happens to the alarm is written into one history, oldest first. What happens next is
said of the past alone (`Happening.Lawful`): of the ticks so far, of the callback attached last, and
of the last attempt to set the alarm. The state of the alarm tracks these three (`Tracks`). -/
namespace ButtonPad.Alarm
variable {κ : Type}

inductive Request (κ : Type) where
  | now
  | acquire
  | attach (callback : κ)
  | arm (due : UInt64)
  deriving DecidableEq, Repr

/-- One operation of the board. A tick comes with what each callback asks if it is called then. -/
inductive Operation (κ : Type) where
  | request (r : Request κ)
  | tick (asks : κ → List (Request κ))

def Operation.isTick : Operation κ → Bool
  | .request _ => false
  | .tick _ => true

inductive Happening (κ : Type) where
  | told (now : UInt64)
  | handedOut (granted : Bool)
  | attached (callback : κ)
  | armed (due : UInt64) (accepted : Bool)
  /-- A tick, with the callback that was called in it. -/
  | ticked (called : Option κ)
  deriving DecidableEq, Repr

def serve (a : Alarm κ) : Request κ → Happening κ × Alarm κ
  | .now => (.told a.ticks, a)
  | .acquire =>
    let (granted, a) := a.acquire
    (.handedOut granted, a)
  | .attach callback => (.attached callback, a.attach callback)
  | .arm due =>
    let (accepted, a) := a.arm due
    (.armed due accepted, a)

def serveAll (a : Alarm κ) : List (Request κ) → List (Happening κ) × Alarm κ
  | [] => ([], a)
  | r :: rest =>
    let (x, a) := a.serve r
    let (xs, a) := a.serveAll rest
    (x :: xs, a)

def operate (a : Alarm κ) : Operation κ → List (Happening κ) × Alarm κ
  | .request r =>
    let (x, a) := a.serve r
    ([x], a)
  | .tick asks =>
    match a.tick with
    | (none, a) => ([.ticked none], a)
    | (some callback, a) =>
      let (xs, a) := a.serveAll (asks callback)
      (.ticked (some callback) :: xs, a)

/-- The history of a sequence of operations, and the alarm behind it. -/
def operateAll (a : Alarm κ) : List (Operation κ) → List (Happening κ) × Alarm κ
  | [] => ([], a)
  | op :: rest =>
    let (xs, a) := a.operate op
    let (ys, a) := a.operateAll rest
    (xs ++ ys, a)

/-! ## Histories -/

namespace Happening

def isTick : Happening κ → Bool
  | .ticked _ => true
  | _ => false

def isHandOut : Happening κ → Bool
  | .handedOut _ => true
  | _ => false

def attach? : Happening κ → Option κ
  | .attached callback => some callback
  | _ => none

def arm? : Happening κ → Option (UInt64 × Bool)
  | .armed due accepted => some (due, accepted)
  | _ => none

def tickCount (past : List (Happening κ)) : Nat := past.countP isTick

/-- Whether somebody asked for the alarm already. -/
def asked (past : List (Happening κ)) : Bool := past.any isHandOut

def callback? (past : List (Happening κ)) : Option κ := past.reverse.findSome? attach?

/-- The last attempt to set the alarm, and whether it was accepted. -/
def lastArm? (past : List (Happening κ)) : Option (UInt64 × Bool) := past.reverse.findSome? arm?

theorem tickCount_cons (x : Happening κ) (rest : List (Happening κ)) :
    tickCount (x :: rest) = x.isTick.toNat + tickCount rest := by
  cases h : x.isTick <;> simp [tickCount, h, Nat.add_comm]

theorem tickCount_append (past more : List (Happening κ)) :
    tickCount (past ++ more) = tickCount past + tickCount more := List.countP_append

@[simp] theorem tickCount_concat (past : List (Happening κ)) (x : Happening κ) :
    tickCount (past ++ [x]) = tickCount past + x.isTick.toNat := by
  rw [tickCount_append, tickCount_cons]
  rfl

@[simp] theorem asked_concat (past : List (Happening κ)) (x : Happening κ) :
    asked (past ++ [x]) = (asked past || x.isHandOut) := by
  simp [asked]

@[simp] theorem callback?_concat (past : List (Happening κ)) (x : Happening κ) :
    callback? (past ++ [x]) = x.attach?.or (callback? past) := by
  cases h : x.attach? <;> simp [callback?, h]

@[simp] theorem lastArm?_concat (past : List (Happening κ)) (x : Happening κ) :
    lastArm? (past ++ [x]) = x.arm?.or (lastArm? past) := by
  cases h : x.arm? <;> simp [lastArm?, h]

/-- What may happen next: the time told is the number of ticks so far; the alarm is handed out to
the first who asks; it is set if and only if the time is still to come; and a tick calls the
callback if and only if the last attempt to set the alarm was accepted and meant just this tick. -/
def Lawful (past : List (Happening κ)) : Happening κ → Prop
  | .told now => now.toNat = tickCount past
  | .handedOut granted => granted = !asked past
  | .attached _ => True
  | .armed due accepted => accepted = true ↔ tickCount past < due.toNat
  | .ticked called => ∀ callback, called = some callback ↔ callback? past = some callback ∧
      ∃ due, lastArm? past = some (due, true) ∧ due.toNat = tickCount past + 1

def AllLawful : List (Happening κ) → List (Happening κ) → Prop
  | _, [] => True
  | past, x :: rest => x.Lawful past ∧ AllLawful (past ++ [x]) rest

theorem allLawful_append (past xs ys : List (Happening κ)) :
    AllLawful past (xs ++ ys) ↔ AllLawful past xs ∧ AllLawful (past ++ xs) ys := by
  induction xs generalizing past with
  | nil => simp [AllLawful]
  | cons x rest ih =>
    simp only [List.cons_append, AllLawful, ih, List.append_assoc, List.nil_append, and_assoc]

end Happening

/-! ## The state tracks the history -/

/-- The time that the history leaves the alarm set for. -/
def dueAfter (past : List (Happening κ)) : UInt64 :=
  match Happening.lastArm? past with
  | some (due, true) => if Happening.tickCount past < due.toNat then due else never
  | _ => never

section Due
open Happening (isTick arm? tickCount lastArm? tickCount_concat lastArm?_concat)
variable (past : List (Happening κ))

/-- Only a tick or an attempt to set the alarm bears on when it goes off. -/
theorem dueAfter_concat {x : Happening κ} (htick : x.isTick = false) (harm : x.arm? = none) :
    dueAfter (past ++ [x]) = dueAfter past := by
  simp [dueAfter, htick, harm]

theorem dueAfter_armed (due : UInt64) (accepted : Bool) :
    dueAfter (past ++ [.armed due accepted]) =
      if accepted = true ∧ tickCount past < due.toNat then due else never := by
  cases accepted <;> simp [dueAfter, isTick, arm?]

theorem dueAfter_ticked (called : Option κ) :
    dueAfter (past ++ [.ticked called]) =
      if tickCount past + 1 < (dueAfter past).toNat then dueAfter past else never := by
  rcases hlast : lastArm? past with _ | ⟨due, _ | _⟩
  · simp [dueAfter, arm?, hlast]
  · simp [dueAfter, arm?, hlast]
  · simp only [dueAfter, lastArm?_concat, tickCount_concat, isTick, arm?, hlast, Option.none_or,
      Bool.toNat_true]
    by_cases hset : tickCount past < due.toNat
    · simp only [hset, if_true]
    · have hpast : ¬ tickCount past + 1 < due.toNat := mt Nat.lt_of_succ_lt hset
      simp only [hset, hpast, if_false, ite_self]

/-- The alarm goes off at a tick if and only if it was set for just this one. -/
theorem dueAfter_le_iff (hlt : tickCount past + 1 < UInt64.size - 1) :
    (dueAfter past).toNat ≤ tickCount past + 1 ↔
      ∃ due, lastArm? past = some (due, true) ∧ due.toNat = tickCount past + 1 := by
  have hnever : never.toNat = UInt64.size - 1 := rfl
  constructor
  · intro hle
    unfold dueAfter at hle
    split at hle
    case h_1 due hlast =>
      split at hle
      · exact ⟨due, hlast, by omega⟩
      · omega
    case h_2 => omega
  · intro ⟨due, hlast, hdue⟩
    simp [dueAfter, hlast, hdue]

end Due

/-- The alarm is in the state that the history leads to. -/
structure Tracks (past : List (Happening κ)) (a : Alarm κ) : Prop where
  ticks : a.ticks.toNat = Happening.tickCount past
  taken : a.taken = Happening.asked past
  callback : a.callback = Happening.callback? past
  due : a.due = dueAfter past

theorem Tracks.start : Tracks [] ({} : Alarm κ) :=
  ⟨rfl, rfl, rfl, rfl⟩

theorem Tracks.serve {past : List (Happening κ)} {a : Alarm κ} (h : Tracks past a)
    (r : Request κ) :
    (a.serve r).1.Lawful past ∧ Tracks (past ++ [(a.serve r).1]) (a.serve r).2 := by
  obtain ⟨hticks, htaken, hcallback, hdue⟩ := h
  cases r with
  | now =>
    refine ⟨hticks, ?_, ?_, ?_, ?_⟩
    · simpa [Alarm.serve, Happening.isTick] using hticks
    · simpa [Alarm.serve, Happening.isHandOut] using htaken
    · simpa [Alarm.serve, Happening.attach?] using hcallback
    · exact hdue.trans (dueAfter_concat past rfl rfl).symm
  | acquire =>
    refine ⟨congrArg not htaken, ?_, ?_, ?_, ?_⟩
    · simpa [Alarm.serve, acquire, Happening.isTick] using hticks
    · simp [Alarm.serve, acquire, Happening.isHandOut]
    · simpa [Alarm.serve, acquire, Happening.attach?] using hcallback
    · exact hdue.trans (dueAfter_concat past rfl rfl).symm
  | attach callback =>
    refine ⟨trivial, ?_, ?_, ?_, ?_⟩
    · simpa [Alarm.serve, attach, Happening.isTick] using hticks
    · simpa [Alarm.serve, attach, Happening.isHandOut] using htaken
    · simp [Alarm.serve, attach, Happening.attach?]
    · exact hdue.trans (dueAfter_concat past rfl rfl).symm
  | arm due =>
    have hle : due ≤ a.ticks ↔ ¬ Happening.tickCount past < due.toNat := by
      rw [UInt64.le_iff_toNat_le, hticks, Nat.not_lt]
    have hserve : a.serve (.arm due) = (.armed due !(decide (due ≤ a.ticks)),
        { a with due := if due ≤ a.ticks then never else due }) := by
      by_cases h : due ≤ a.ticks <;> simp [Alarm.serve, arm, h]
    rw [hserve]
    refine ⟨?_, ?_, ?_, ?_, ?_⟩
    · simp [Happening.Lawful, hle]
    · simpa [Happening.isTick] using hticks
    · simpa [Happening.isHandOut] using htaken
    · simpa [Happening.attach?] using hcallback
    · simp only [dueAfter_armed, hle, decide_not, Bool.not_not, decide_eq_true_eq, and_self,
        ite_not]

theorem Tracks.serveAll {past : List (Happening κ)} {a : Alarm κ} (h : Tracks past a)
    (rs : List (Request κ)) :
    Happening.AllLawful past (a.serveAll rs).1 ∧
      Tracks (past ++ (a.serveAll rs).1) (a.serveAll rs).2 := by
  induction rs generalizing past a with
  | nil => exact ⟨trivial, by simpa [Alarm.serveAll] using h⟩
  | cons r rest ih =>
    obtain ⟨hlawful, htracks⟩ := h.serve r
    obtain ⟨hrest, hend⟩ := ih htracks
    rw [List.append_assoc, List.singleton_append] at hend
    exact ⟨⟨hlawful, hrest⟩, hend⟩

/-- A tick calls the callback when the alarm goes off, which leaves it unset. -/
theorem Tracks.tick {past : List (Happening κ)} {a : Alarm κ} (h : Tracks past a)
    (hlt : Happening.tickCount past + 1 < UInt64.size - 1) :
    (Happening.ticked a.tick.1).Lawful past ∧ Tracks (past ++ [.ticked a.tick.1]) a.tick.2 := by
  obtain ⟨hticks, htaken, hcallback, hdue⟩ := h
  have hnow : (a.ticks + 1).toNat = Happening.tickCount past + 1 := by
    rw [UInt64.toNat_add, hticks]
    exact Nat.mod_eq_of_lt (Nat.lt_of_lt_of_le hlt (Nat.sub_le ..))
  have hcount : (a.ticks + 1).toNat =
      Happening.tickCount (past ++ [Happening.ticked a.tick.1]) := by
    rw [hnow]
    simp [Happening.isTick]
  have hbefore : a.ticks + 1 < a.due ↔
      Happening.tickCount past + 1 < (dueAfter past).toNat := by
    rw [UInt64.lt_iff_toNat_lt, hnow, hdue]
  have hreached := dueAfter_le_iff past hlt
  by_cases hset : Happening.tickCount past + 1 < (dueAfter past).toNat
  · have htick : a.tick = (none, { a with ticks := a.ticks + 1 }) := by
      simp [Alarm.tick, hbefore.2 hset]
    rw [htick] at hcount ⊢
    refine ⟨?_, hcount, ?_, ?_, ?_⟩
    · intro callback
      simp [← hreached, hset]
    · simpa [Happening.isHandOut] using htaken
    · simpa [Happening.attach?] using hcallback
    · simpa [dueAfter_ticked, hset] using hdue
  · have htick : a.tick = (a.callback, { a with ticks := a.ticks + 1, due := never }) := by
      simp [Alarm.tick, mt hbefore.1 hset]
    rw [htick] at hcount ⊢
    refine ⟨?_, hcount, ?_, ?_, ?_⟩
    · intro callback
      simp [← hreached, Nat.le_of_not_lt hset, hcallback]
    · simpa [Happening.isHandOut] using htaken
    · simpa [Happening.attach?] using hcallback
    · simp [dueAfter_ticked, hset]

theorem Tracks.operate {past : List (Happening κ)} {a : Alarm κ} (h : Tracks past a)
    (op : Operation κ) (hlt : op.isTick = true → Happening.tickCount past + 1 < UInt64.size - 1) :
    Happening.AllLawful past (a.operate op).1 ∧
      Tracks (past ++ (a.operate op).1) (a.operate op).2 := by
  cases op with
  | request r =>
    obtain ⟨hlawful, htracks⟩ := h.serve r
    exact ⟨⟨hlawful, trivial⟩, htracks⟩
  | tick asks =>
    obtain ⟨hlawful, htracks⟩ := h.tick (hlt rfl)
    unfold Alarm.operate
    rcases htick : a.tick with ⟨_ | callback, a'⟩
    · rw [htick] at hlawful htracks
      exact ⟨⟨hlawful, trivial⟩, htracks⟩
    · rw [htick] at hlawful htracks
      obtain ⟨hasked, hend⟩ := htracks.serveAll (asks callback)
      rw [List.append_assoc, List.singleton_append] at hend
      exact ⟨⟨hlawful, hasked⟩, hend⟩

section TickCount
open Happening (tickCount tickCount_cons tickCount_append)

/-- A request is no tick, so it does not call the callback either. -/
theorem tickCount_serveAll (a : Alarm κ) (rs : List (Request κ)) :
    tickCount (a.serveAll rs).1 = 0 := by
  induction rs generalizing a with
  | nil => rfl
  | cons r rest ih =>
    have hr : (a.serve r).1.isTick = false := by cases r <;> rfl
    calc tickCount (a.serveAll (r :: rest)).1
        = (a.serve r).1.isTick.toNat + tickCount ((a.serve r).2.serveAll rest).1 :=
          tickCount_cons ..
      _ = 0 := by rw [hr, ih]; rfl

theorem tickCount_operate (a : Alarm κ) (op : Operation κ) :
    tickCount (a.operate op).1 = op.isTick.toNat := by
  cases op with
  | request r => cases r <;> rfl
  | tick asks =>
    unfold Alarm.operate
    rcases a.tick with ⟨_ | callback, a'⟩
    · rfl
    · exact (tickCount_cons ..).trans (congrArg (1 + ·) (tickCount_serveAll a' (asks callback)))

theorem countP_isTick_cons (op : Operation κ) (rest : List (Operation κ)) :
    (op :: rest).countP Operation.isTick =
      op.isTick.toNat + rest.countP Operation.isTick := by
  cases h : op.isTick <;> simp [h, Nat.add_comm]

theorem tickCount_operateAll (a : Alarm κ) (ops : List (Operation κ)) :
    tickCount (a.operateAll ops).1 = ops.countP Operation.isTick := by
  induction ops generalizing a with
  | nil => rfl
  | cons op rest ih =>
    calc tickCount (a.operateAll (op :: rest)).1
        = tickCount (a.operate op).1 + tickCount ((a.operate op).2.operateAll rest).1 :=
          tickCount_append ..
      _ = (op :: rest).countP Operation.isTick := by
          rw [tickCount_operate, ih, countP_isTick_cons]

end TickCount

theorem Tracks.operateAll {past : List (Happening κ)} {a : Alarm κ} (h : Tracks past a)
    (ops : List (Operation κ))
    (hlt : Happening.tickCount past + ops.countP Operation.isTick < UInt64.size - 1) :
    Happening.AllLawful past (a.operateAll ops).1 ∧
      Tracks (past ++ (a.operateAll ops).1) (a.operateAll ops).2 := by
  induction ops generalizing past a with
  | nil => exact ⟨trivial, by simpa [Alarm.operateAll] using h⟩
  | cons op rest ih =>
    rw [countP_isTick_cons] at hlt
    have hcount : Happening.tickCount (past ++ (a.operate op).1) =
        Happening.tickCount past + op.isTick.toNat := by
      rw [Happening.tickCount_append, tickCount_operate]
    obtain ⟨hop, htracks⟩ := h.operate op fun htick => by
      rw [htick, Bool.toNat_true] at hlt
      omega
    obtain ⟨hrest, hend⟩ := ih htracks (by omega)
    rw [List.append_assoc] at hend
    exact ⟨(Happening.allLawful_append ..).2 ⟨hop, hrest⟩, hend⟩

/-! ## One call for each alarm -/

namespace Happening

/-- The ticks at which the callback is called, in a history that goes on after `now` ticks. -/
def callTimes (now : Nat) : List (Happening κ) → List Nat
  | [] => []
  | .ticked none :: rest => callTimes (now + 1) rest
  | .ticked (some _) :: rest => (now + 1) :: callTimes (now + 1) rest
  | _ :: rest => callTimes now rest

/-- Nothing is set that is still to come. -/
def Spent (past : List (Happening κ)) : Prop :=
  ∀ due, lastArm? past = some (due, true) → due.toNat ≤ tickCount past

/-- The alarm is set for a time to come, and there is a callback to call then. -/
structure Pending (past : List (Happening κ)) (due : UInt64) : Prop where
  last : lastArm? past = some (due, true)
  early : tickCount past < due.toNat
  attached : (callback? past).isSome

section Pending
variable {past : List (Happening κ)} {x : Happening κ} {due : UInt64}

theorem Spent.concat (h : Spent past) (hx : x.arm? = none) : Spent (past ++ [x]) := by
  intro due hlast
  rw [lastArm?_concat, hx, Option.none_or] at hlast
  rw [tickCount_concat]
  exact Nat.le_add_right_of_le (h due hlast)

theorem Pending.concat (h : Pending past due) (hx : x.arm? = none)
    (hearly : tickCount (past ++ [x]) < due.toNat) : Pending (past ++ [x]) due where
  last := by rw [lastArm?_concat, hx, Option.none_or, h.last]
  early := hearly
  attached := by rw [callback?_concat, Option.isSome_or, h.attached, Bool.or_true]

theorem Pending.spent (h : Pending past due) (hx : x.arm? = none)
    (hdue : due.toNat ≤ tickCount (past ++ [x])) : Spent (past ++ [x]) := by
  intro due' hlast
  rw [lastArm?_concat, hx, Option.none_or, h.last] at hlast
  cases hlast
  exact hdue

/-- A lawful tick calls if and only if it is the one that the alarm is set for. -/
theorem Pending.called_iff (h : Pending past due) {called : Option κ}
    (hx : Lawful past (.ticked called)) : called.isSome ↔ due.toNat = tickCount past + 1 := by
  constructor
  · intro hcalled
    obtain ⟨callback, hcallback⟩ := Option.isSome_iff_exists.1 hcalled
    obtain ⟨-, due', hlast, hdue⟩ := (hx callback).1 hcallback
    rw [h.last] at hlast
    cases hlast
    exact hdue
  · intro hdue
    obtain ⟨callback, hattached⟩ := Option.isSome_iff_exists.1 h.attached
    rw [(hx callback).2 ⟨hattached, due, h.last, hdue⟩]
    rfl

end Pending

/-- Once an alarm went off or was turned down nothing is called until the next one is set. -/
theorem Spent.callTimes {past more : List (Happening κ)} (h : Spent past)
    (hmore : AllLawful past more) (harms : ∀ x ∈ more, x.arm? = none) :
    callTimes (tickCount past) more = [] := by
  induction more generalizing past with
  | nil => rfl
  | cons x rest ih =>
    have hx : x.arm? = none := harms x List.mem_cons_self
    have hrest := ih (h.concat hx) hmore.2 fun y hy => harms y (List.mem_cons_of_mem x hy)
    rw [tickCount_concat] at hrest
    rcases x with _ | _ | _ | _ | (_ | callback)
    case ticked.some =>
      obtain ⟨-, due, hlast, hdue⟩ := (hmore.1 callback).1 rfl
      have hover := h due hlast
      omega
    all_goals exact hrest

/-- An alarm calls once, at the tick it is set for, unless another one is set before that. -/
theorem Pending.callTimes {past more : List (Happening κ)} {due : UInt64} (h : Pending past due)
    (hmore : AllLawful past more) (harms : ∀ x ∈ more, x.arm? = none) :
    callTimes (tickCount past) more =
      if due.toNat ≤ tickCount (past ++ more) then [due.toNat] else [] := by
  induction more generalizing past with
  | nil =>
    rw [List.append_nil, if_neg (Nat.not_le.2 h.early)]
    rfl
  | cons x rest ih =>
    have hx : x.arm? = none := harms x List.mem_cons_self
    have hrest : ∀ y ∈ rest, y.arm? = none := fun y hy => harms y (List.mem_cons_of_mem x hy)
    have happend : past ++ x :: rest = past ++ [x] ++ rest := by
      rw [List.append_assoc, List.singleton_append]
    have hgoes (hearly : tickCount (past ++ [x]) < due.toNat) :=
      ih (h.concat hx hearly) hmore.2 hrest
    have hover (hdue : due.toNat ≤ tickCount (past ++ [x])) :=
      (h.spent hx hdue).callTimes hmore.2 hrest
    rw [happend]
    rw [tickCount_concat] at hgoes hover
    -- only the tick that the alarm is set for calls; behind all else it is still pending
    rcases x with _ | _ | _ | _ | called
    case ticked =>
      have hcalled := h.called_iff hmore.1
      rcases called with _ | callback
      · have hnot : tickCount past + 1 ≠ due.toNat :=
          fun hdue => Bool.false_ne_true (hcalled.2 hdue.symm)
        exact hgoes (Nat.lt_of_le_of_ne h.early hnot)
      · have hdue : due.toNat = tickCount past + 1 := hcalled.1 rfl
        have hreached : due.toNat ≤ tickCount (past ++ [.ticked (some callback)] ++ rest) := by
          rw [tickCount_append, tickCount_concat, hdue]
          exact Nat.le_add_right _ _
        rw [Happening.callTimes, if_pos hreached, hdue]
        exact congrArg _ (hover (Nat.le_of_eq hdue))
    all_goals exact hgoes h.early

end Happening

open Happening in
/-- **An alarm calls as it was set last.** Whatever the board and the callbacks do, one tick at a
time, each thing that happens is the lawful one. There are as many ticks in the history as the board
made, so no request calls anything. An alarm that is pending calls exactly once, at its tick, unless
it is set anew before; and where none is pending nothing calls until the next one is set. -/
theorem calls_as_set_last (ops : List (Operation κ))
    (hticks : ops.countP Operation.isTick < UInt64.size - 1) :
    let (log, a) := ({} : Alarm κ).operateAll ops
    tickCount log = ops.countP Operation.isTick ∧ a.ticks.toNat = tickCount log ∧
    (∀ past x rest, log = past ++ x :: rest → x.Lawful past) ∧
    ∀ past more rest, log = past ++ more ++ rest → (∀ x ∈ more, x.arm? = none) →
      (∀ due, Pending past due → callTimes (tickCount past) more =
        if due.toNat ≤ tickCount (past ++ more) then [due.toNat] else []) ∧
      (Spent past → callTimes (tickCount past) more = []) := by
  obtain ⟨hlawful, htracks⟩ := (Tracks.start (κ := κ)).operateAll ops (by simpa [tickCount])
  rw [List.nil_append] at htracks
  refine ⟨tickCount_operateAll .., htracks.ticks, ?_, ?_⟩
  · intro past x rest hlog
    rw [hlog, allLawful_append, List.nil_append] at hlawful
    exact hlawful.2.1
  · intro past more rest hlog harms
    rw [hlog, List.append_assoc, allLawful_append, allLawful_append, List.nil_append] at hlawful
    obtain ⟨-, hmore, -⟩ := hlawful
    exact ⟨fun due hpending => hpending.callTimes hmore harms,
      fun hspent => hspent.callTimes hmore harms⟩

/-- The alarm is set for the second tick; the callback sets it again for the fourth, at which it
does nothing but look at the time. A time that is over turns an alarm off. -/
def specimen : List (Operation Nat) :=
  [.request .acquire, .request (.attach 7), .request (.arm 2), .tick fun _ => [],
   .tick fun _ => [.now, .arm 4], .tick fun _ => [], .tick fun _ => [.now], .request .acquire,
   .request (.arm 6), .request (.arm 3), .tick fun _ => [], .tick fun _ => []]

theorem calls_as_set_last_specimen :
    specimen.countP Operation.isTick < UInt64.size - 1 ∧
    (({} : Alarm Nat).operateAll specimen).1 =
      [.handedOut true, .attached 7, .armed 2 true, .ticked none, .ticked (some 7), .told 2,
       .armed 4 true, .ticked none, .ticked (some 7), .told 4, .handedOut false, .armed 6 true,
       .armed 3 false, .ticked none, .ticked none] ∧
    (({} : Alarm Nat).operateAll specimen).2.ticks.toNat = 6 ∧
    Happening.callTimes 0 (({} : Alarm Nat).operateAll specimen).1 = [2, 4] := by
  have hticks : specimen.countP Operation.isTick < UInt64.size - 1 := by decide
  obtain ⟨hcount, hnow, -, -⟩ := calls_as_set_last specimen hticks
  exact ⟨hticks, by decide, hnow.trans (hcount.trans (by decide)), by decide⟩

end ButtonPad.Alarm
