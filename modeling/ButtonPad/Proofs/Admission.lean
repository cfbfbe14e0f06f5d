import ButtonPad.Act.Action
import ButtonPad.Board.Boot
import ButtonPad.Proofs.Cutoff
import ButtonPad.Proofs.Tally

/-! # Which reports the counting transport takes

The link keeps the handle of a session that is over, and the transport reads the handle and the
connection apart. All the same a report is taken exactly if the last word about the link was a
connection with its handle (`Link.Tells`). The counts keep in step through every run
(`Flow.run_tracks`). -/
namespace ButtonPad

/-! ## Happenings -/

/-- What can happen one after the other: the pad does something, or something changes around it. -/
inductive Happening where
  | event (e : Event)
  | change (c : Change)
  deriving DecidableEq

namespace Happening

def event? : Happening → Option Event
  | .event e => some e
  | .change _ => none

def change? : Happening → Option Change
  | .event _ => none
  | .change c => some c

def connection? : Happening → Option Change
  | .change (.connect handle) => some (.connect handle)
  | .change .disconnect => some .disconnect
  | _ => none

def events (hs : List Happening) : List Event := hs.filterMap event?

def changes (hs : List Happening) : List Change := hs.filterMap change?

def lastConnection? (hs : List Happening) : Option Change := (hs.filterMap connection?).getLast?

@[simp] theorem events_append (xs ys : List Happening) :
    events (xs ++ ys) = events xs ++ events ys := List.filterMap_append

@[simp] theorem changes_append (xs ys : List Happening) :
    changes (xs ++ ys) = changes xs ++ changes ys := List.filterMap_append

@[simp] theorem events_behind (e : Event) (cs : List Change) :
    events (.event e :: cs.map .change) = [e] := by
  simp [events, event?, List.filterMap_map, Function.comp_def]

@[simp] theorem changes_behind (e : Event) (cs : List Change) :
    changes (.event e :: cs.map .change) = cs := by
  show (cs.map .change).filterMap change? = cs
  rw [List.filterMap_map]
  exact List.filterMap_some

theorem lastConnection?_cons (x : Happening) (hs : List Happening) :
    lastConnection? (x :: hs) = (lastConnection? hs).or x.connection? := by
  cases hx : x.connection? with
  | none => simp [lastConnection?, hx]
  | some c => simp [lastConnection?, hx, List.getLast?_cons]

end Happening

namespace Rig
variable {σ : Type}

/-- Lives through happenings: the pad does what it does, and its surroundings change. -/
def live (rig : Rig σ) : List Happening → World σ → World σ
  | [], w => w
  | .event e :: rest, w => rig.live rest (rig.perform [e] w)
  | .change c :: rest, w => rig.live rest (w.change c)

theorem live_append (rig : Rig σ) (xs ys : List Happening) (w : World σ) :
    rig.live (xs ++ ys) w = rig.live ys (rig.live xs w) := by
  induction xs generalizing w with
  | nil => rfl
  | cons x rest ih => cases x <;> exact ih _

end Rig

/-! ## Sessions -/

/-- The link is connected with just that handle which the last word about it says. -/
def Link.Tells (l : Link) (last : Option Change) : Prop :=
  ∀ handle, (l.connected = true ∧ l.handle = handle) ↔ last = some (.connect handle)

namespace Link.Tells

theorem powerUp : Link.Tells {} none := by
  intro handle
  simp

/-- A change has the last word if it is about the link; other changes leave the link alone. -/
theorem change {s : Surroundings} {last : Option Change} (h : s.link.Tells last) (c : Change) :
    (s.change c).link.Tells ((Happening.change c).connection?.or last) := by
  cases c with
  | connect handle =>
    intro other
    show true = true ∧ handle = other ↔ some (Change.connect handle) = some (.connect other)
    simp only [Option.some.injEq, Change.connect.injEq, true_and]
  | disconnect =>
    intro other
    show false = true ∧ s.link.handle = other ↔ some Change.disconnect = some (.connect other)
    simp only [Option.some.injEq, reduceCtorEq, Bool.false_eq_true, false_and]
  | _ => exact h

theorem admits {l : Link} {last : Option Change} (h : l.Tells last) (r : Report) :
    l.admits r = decide (last = some (.connect r.handle)) := by
  rw [Bool.eq_iff_iff, decide_eq_true_iff, ← h, Link.admits, Bool.and_eq_true, beq_iff_eq,
    eq_comm (a := r.handle)]

end Link.Tells

namespace World
variable {σ : Type}

/-- Nothing is to come, so only happenings change the surroundings, and a run goes on for ever. -/
structure Bare (w : World σ) : Prop where
  upcoming : w.upcoming = []
  endless : w.bound = .none

/-- The world with these changes to come. -/
def expecting (upcoming : List (Nat × Change)) (w : World σ) : World σ := { w with upcoming }

theorem Bare.expecting {w : World σ} (h : w.Bare) : w.expecting [] = w := by
  rw [← h.upcoming]
  rfl

/-- Where nothing is to come, the clock alone moves. -/
theorem Bare.reach {w : World σ} (h : w.Bare) (time : Nat) :
    w.reach time = { w with now := time } := by
  obtain ⟨now, around, upcoming, transport, sends, failed, calls, phase, bound, journal⟩ := w
  obtain rfl : upcoming = [] := h.upcoming
  rfl

theorem pause_ends {w : World σ} (hb : w.bound = .none) (c : Clock) (ms : UInt32) :
    w.pause c ms = (true, if c.ticks ms = 0 then w.write (.paused ms)
      else (w.write (.paused ms)).reach (w.now + c.ticks ms)) := by
  have hwritten : (w.write (.paused ms)).bound = .none := hb
  rw [pause_endless hb, waitUntil_endless hwritten]
  split <;> rfl

end World

namespace Rig
variable {σ : Type}

theorem perform_pause (rig : Rig σ) (ms : UInt32) (w : World σ) :
    rig.perform [.pause ms] w = (w.pause rig.clock ms).2 := by
  simp only [perform, Flow.perform, Flow.run]
  rcases w.pause rig.clock ms with ⟨_ | _, w'⟩ <;> rfl

theorem perform_bare (rig : Rig σ) (e : Event) {w : World σ} (h : w.Bare) :
    (rig.perform [e] w).Bare ∧ (rig.perform [e] w).surroundings = w.surroundings := by
  cases e with
  | report r => exact ⟨⟨h.upcoming, h.endless⟩, rfl⟩
  | pause ms =>
    have hwritten : (w.write (.paused ms)).Bare := ⟨h.upcoming, h.endless⟩
    rw [perform_pause, World.pause_ends h.endless]
    dsimp only
    split
    · exact ⟨hwritten, rfl⟩
    · rw [hwritten.reach]
      exact ⟨⟨h.upcoming, h.endless⟩, rfl⟩

theorem live_bare (rig : Rig σ) (hs : List Happening) {w : World σ} (h : w.Bare) :
    (rig.live hs w).Bare := by
  induction hs generalizing w with
  | nil => exact h
  | cons x rest ih =>
    cases x with
    | event e => exact ih (rig.perform_bare e h).1
    | change c => exact ih (w := w.change c) ⟨h.upcoming, h.endless⟩

/-- What has happened tells what the link is. -/
theorem live_tells (rig : Rig σ) (hs : List Happening) {w : World σ} (hw : w.Bare)
    {last : Option Change} (hlast : w.surroundings.link.Tells last) :
    (rig.live hs w).surroundings.link.Tells ((Happening.lastConnection? hs).or last) := by
  induction hs generalizing w last with
  | nil => exact hlast
  | cons x rest ih =>
    rw [Happening.lastConnection?_cons, Option.or_assoc]
    cases x with
    | event e =>
      obtain ⟨hbare, hsame⟩ := rig.perform_bare e hw
      exact ih hbare (hsame ▸ hlast)
    | change c => exact ih (w := w.change c) ⟨hw.upcoming, hw.endless⟩ (hlast.change c)

/-! ## Whole operations -/

theorem live_changes (rig : Rig σ) (cs : List Change) (w : World σ) :
    rig.live (cs.map .change) w = { w with surroundings := w.surroundings.changes cs } := by
  induction cs generalizing w with
  | nil => rfl
  | cons c rest ih => exact ih (w.change c)

theorem perform_one (rig : Rig σ) (e : Event) {w : World σ} (h : w.bound = .none) :
    ∃ cs rest, w.upcoming.map (·.2) = cs ++ rest.map (·.2) ∧
      rig.perform [e] w =
        (rig.live (.event e :: cs.map .change) (w.expecting [])).expecting rest := by
  cases e with
  | report r => exact ⟨[], w.upcoming, rfl, rfl⟩
  | pause ms =>
    have hbare : (w.expecting []).Bare := ⟨rfl, h⟩
    simp only [live, live_changes, perform_pause, World.pause_ends h,
      World.pause_ends hbare.endless]
    by_cases hticks : rig.clock.ticks ms = 0
    · simp only [if_pos hticks]
      exact ⟨[], w.upcoming, rfl, rfl⟩
    · simp only [if_neg hticks]
      refine ⟨(w.upcoming.takeWhile (·.1 ≤ w.now + rig.clock.ticks ms)).map (·.2),
        w.upcoming.dropWhile (·.1 ≤ w.now + rig.clock.ticks ms), ?_, rfl⟩
      rw [← List.map_append, List.takeWhile_append_dropWhile]

theorem perform_cons (rig : Rig σ) (e : Event) (rest : List Event) {w : World σ}
    (h : w.bound = .none) : rig.perform (e :: rest) w = rig.perform rest (rig.perform [e] w) := by
  cases e with
  | report r => rfl
  | pause ms =>
    rw [perform_pause]
    simp only [perform, Flow.perform, Flow.run, World.pause_ends h]

/-- To go through events, with changes to come, is to live through these events with the changes
that fall into their pauses. -/
theorem perform_lives (rig : Rig σ) (events : List Event) {w : World σ} (h : w.bound = .none) :
    ∃ hs rest, Happening.events hs = events ∧
      w.upcoming.map (·.2) = Happening.changes hs ++ rest.map (·.2) ∧
      rig.perform events w = (rig.live hs (w.expecting [])).expecting rest := by
  induction events generalizing w with
  | nil => exact ⟨[], w.upcoming, rfl, rfl, rfl⟩
  | cons e events ih =>
    obtain ⟨cs, rest, hcs, hone⟩ := rig.perform_one e h
    have hbare : (rig.live (.event e :: cs.map .change) (w.expecting [])).Bare :=
      rig.live_bare _ ⟨rfl, h⟩
    have hafter : (rig.perform [e] w).bound = .none := by
      rw [hone]
      exact hbare.endless
    obtain ⟨hs, rest', rfl, hchanges, hmore⟩ := ih hafter
    refine ⟨.event e :: cs.map .change ++ hs, rest', ?_, ?_, ?_⟩
    · rw [Happening.events_append, Happening.events_behind, List.singleton_append]
    · rw [hone] at hchanges
      rw [Happening.changes_append, Happening.changes_behind, List.append_assoc, ← hchanges, hcs]
      rfl
    · rw [rig.perform_cons e _ h, hmore, live_append, hone]
      exact congrArg (fun w' => (rig.live hs w').expecting rest') hbare.expecting

end Rig

/-! ## Counts -/

def History.taken (h : History) : Nat := h.deliveries.countP (·.2)

theorem History.taken_append (g h : History) : (g ++ h).taken = g.taken + h.taken := by
  rw [taken, deliveries_append, List.countP_append, taken, taken]

namespace World

/-- From the first world to the second one the transport counted the reports that it took. -/
def Tracks (w w' : World UInt32) : Prop :=
  ∃ more : History, w'.history = w.history ++ more ∧
    w'.transport = w.transport + UInt32.ofNat more.taken

namespace Tracks
variable {w w' w'' : World UInt32}

theorem of_same (hist : w'.history = w.history) (transport : w'.transport = w.transport) :
    w.Tracks w' :=
  ⟨[], by simpa using hist, by simpa [History.taken, History.deliveries] using transport⟩

theorem trans (h : w.Tracks w') (h' : w'.Tracks w'') : w.Tracks w'' := by
  obtain ⟨more, hist, htransport⟩ := h
  obtain ⟨more', hist', htransport'⟩ := h'
  refine ⟨more ++ more', ?_, ?_⟩
  · rw [hist', hist, List.append_assoc]
  · rw [htransport', htransport, History.taken_append, UInt32.ofNat_add, UInt32.add_assoc]

end Tracks

theorem tracks_write (w : World UInt32) {item : Item} (h : item.delivery? = none) :
    w.Tracks (w.write item) :=
  ⟨[item], history_write w item, by simp [History.taken, History.deliveries, h, write]⟩

theorem send_counting (r : Report) (w : World UInt32) :
    (w.send .counting r).history = w.history ++ [.sent r (w.surroundings.link.admits r)] ∧
      (w.send .counting r).transport =
        w.transport + if w.surroundings.link.admits r then 1 else 0 := by
  cases hadmits : w.surroundings.link.admits r <;>
    simp [send, transmit, history, write, Transport.counting, hadmits, Except.isOk, Except.toBool]

theorem tracks_send (r : Report) (w : World UInt32) : w.Tracks (w.send .counting r) := by
  obtain ⟨hist, htransport⟩ := w.send_counting r
  refine ⟨_, hist, ?_⟩
  rw [htransport]
  cases w.surroundings.link.admits r <;> rfl

theorem course_tracks (clock : Clock) (source : Source) :
    Course ⟨clock, .counting, source⟩ Tracks where
  refl _ := .of_same rfl rfl
  trans := .trans
  write w _ h _ := tracks_write w h
  enter w phase := tracks_write { w with phase } rfl
  send w r := tracks_send r w
  reach _ _ := .of_same rfl rfl
  bound _ _ := .of_same rfl rfl
  lines _ := .of_same rfl rfl
  call _ := .of_same rfl rfl

end World

/-- **The transport counts what it takes**, whatever the flow does and wherever it is cut off. -/
theorem Flow.run_tracks {α : Type} (clock : Clock) (source : Source) (p : Flow α)
    (w : World UInt32) : w.Tracks (p.run ⟨clock, .counting, source⟩ w).2 :=
  (World.course_tracks clock source).run p w

namespace World

/-- The transport's count is that of the reports taken so far, as far as its memory goes, and so is
the difference of the pad's two counts. -/
structure InStep (w : World UInt32) : Prop where
  taken : w.transport.toNat = w.history.taken % UInt32.size
  refused : w.failed ≤ w.sends
  counts : w.transport.toNat = (w.sends - w.failed) % UInt32.size

theorem InStep.of_powerUp {w : World UInt32} (htracks : (Board.world []).Tracks w)
    (htallies : (Board.world []).Tallies w) : w.InStep := by
  obtain ⟨more, hist, htransport⟩ := htracks
  obtain ⟨hsends, hfailed⟩ := htallies.counts hist
  have hmore : w.history = more := hist
  have htaken : w.transport.toNat = more.taken % UInt32.size := by
    rw [htransport]
    simp [Board.world]
  have hfailed' : w.failed = more.deliveries.countP fun d => !d.2 := by
    rw [hfailed]
    exact Nat.zero_add _
  have hsends' : w.sends = more.taken + w.failed := by
    rw [hsends, hfailed', History.taken]
    simpa [Board.world] using
      List.length_eq_countP_add_countP (fun d : Report × Bool => d.2) (l := more.deliveries)
  exact ⟨by rw [hmore, htaken], by omega, by rw [htaken, hsends', Nat.add_sub_cancel]⟩

end World

/-- What every run and every change of the surroundings keep, all that happens keeps. -/
theorem World.Course.live {σ : Type} {rig : Rig σ} {R : World σ → World σ → Prop}
    (h : Course rig R) (hchange : ∀ w c, R w (w.change c)) (hs : List Happening) (w : World σ) :
    R w (rig.live hs w) := by
  induction hs generalizing w with
  | nil => exact h.refl w
  | cons x rest ih =>
    cases x with
    | event e => exact h.trans (h.run _ w) (ih _)
    | change c => exact h.trans (hchange w c) (ih _)

/-- Whatever happens from power-up on, the counts keep in step. -/
theorem Rig.live_inStep (clock : Clock) (source : Source) (hs : List Happening) :
    (Rig.live ⟨clock, .counting, source⟩ hs (Board.world [])).InStep :=
  .of_powerUp ((World.course_tracks clock source).live (fun _ _ => .of_same rfl rfl) hs _)
    ((World.course_tallies _).live (fun _ _ => .of_same rfl rfl rfl) hs _)

/-- **The counting transport takes what is sent to the current session.** Whatever happens from
power-up on, a report is taken exactly if the last connection or disconnection before it connects
the host with the report's handle. At every point the transport's count is that of the reports taken
so far, modulo 2 ^ 32, and so is the difference of the pad's counts. Operations of the pad, with
changes to come in their pauses, are made of such happenings. -/
theorem counting_admits_current_session (clock : Clock) (source : Source) (t : Timing) :
    let rig : Rig UInt32 := ⟨clock, .counting, source⟩
    let behind := fun hs => rig.live hs (Board.world [])
    (∀ before r, (behind (before ++ [.event (.report r)])).history = (behind before).history ++
      [.sent r (decide (Happening.lastConnection? before = some (.connect r.handle)))]) ∧
    (∀ before r, (∀ handle, Happening.lastConnection? before = some (.connect handle) →
        r.handle ≠ handle) →
      (behind (before ++ [.event (.report r)])).history =
        (behind before).history ++ [.sent r false]) ∧
    (∀ hs, (behind hs).InStep) ∧
    ∀ before upcoming (moves : List Move),
      let events := moves.flatMap fun m => (m.act t).events
      ∃ hs rest, Happening.events hs = events ∧
        upcoming.map (·.2) = Happening.changes hs ++ rest.map (·.2) ∧
        rig.perform events ((behind before).expecting upcoming) =
          (behind (before ++ hs)).expecting rest := by
  intro rig behind
  have hbare : ∀ hs, (behind hs).Bare := fun hs => rig.live_bare hs ⟨rfl, rfl⟩
  have hreport : ∀ before r, (behind (before ++ [.event (.report r)])).history =
      (behind before).history ++
        [.sent r (decide (Happening.lastConnection? before = some (.connect r.handle)))] := by
    intro before r
    have htells := rig.live_tells before (w := Board.world []) ⟨rfl, rfl⟩ .powerUp
    rw [Option.or_none] at htells
    rw [← htells.admits, ← ((behind before).send_counting r).1]
    exact congrArg World.history (rig.live_append before _ _)
  refine ⟨hreport, fun before r hstale => ?_, Rig.live_inStep clock source, ?_⟩
  · rw [hreport, decide_eq_false fun hlast => hstale _ hlast rfl]
  · intro before upcoming moves events
    obtain ⟨hs, rest, hevents, hchanges, hlives⟩ :=
      rig.perform_lives events (w := (behind before).expecting upcoming) (hbare before).endless
    refine ⟨hs, rest, hevents, hchanges, ?_⟩
    rw [hlives]
    show (rig.live hs ((behind before).expecting [])).expecting rest = _
    rw [(hbare before).expecting, ← rig.live_append]

/-- A new session begins while a chord already holds its keys for the old one: the transport takes
the presses and refuses the releases. What is sent to the old session is refused from then on. -/
theorem counting_admits_current_session_specimen :
    let rig : Rig UInt32 := ⟨.milliseconds, .counting, .bank⟩
    let before := [.change (.connect 1)]
    let chord := ((Move.chord 1 0 [4, 5]).act {}).events
    let start := rig.live before (Board.world [])
    let after := rig.perform chord (start.expecting [(150, .connect 2)])
    (∀ handle, Happening.lastConnection? (before ++ [.change (.connect 2)]) =
        some (.connect handle) → (Report.allKeysUp 1).handle ≠ handle) ∧
      (rig.live (before ++ [.change (.connect 2), .event (.report (.allKeysUp 1))])
        (Board.world [])).history = [.sent (.allKeysUp 1) false] ∧
      (∃ hs rest, Happening.events hs = chord ∧
        [.connect 2] = Happening.changes hs ++ rest.map (·.2) ∧
        after = (rig.live (before ++ hs) (Board.world [])).expecting rest) ∧
      after.history.deliveries.map (·.2) = [true, true, false, false] ∧
      after.transport = 2 ∧ after.sends = 4 ∧ after.failed = 2 := by
  intro rig before chord start after
  obtain ⟨-, hstale, -, hoperations⟩ :=
    counting_admits_current_session .milliseconds .bank {}
  have hother : ∀ handle, Happening.lastConnection? (before ++ [.change (.connect 2)]) =
      some (.connect handle) → (Report.allKeysUp 1).handle ≠ handle := by
    rintro handle hlast rfl
    cases hlast
  exact ⟨hother, hstale _ _ hother, hoperations before [(150, .connect 2)] [.chord 1 0 [4, 5]],
    by decide +kernel⟩

end ButtonPad
