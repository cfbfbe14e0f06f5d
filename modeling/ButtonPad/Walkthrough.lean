import ButtonPad.Act.Builtin
import ButtonPad.Meeting
import ButtonPad.Player.Run
import ButtonPad.Report.Caption
import ButtonPad.World.Journal

/-! The walkthrough: what each command of a setup would do to a host, in words. -/
namespace ButtonPad.Walkthrough

def rig : Rig Unit := { clock := .instant, transport := .recording, source := .replay }

def world : World Unit := { surroundings := { link := Link.connect {} 1 }, transport := () }

def fields (name : String) (values : List (String × Nat)) : String :=
  name ++ " \x7b " ++ ", ".intercalate (values.map fun (field, n) => s!"{field}: {n}") ++ " \x7d"

def timing (t : Timing) : String :=
  fields "TimingConfig"
    [("key_press_ms", t.keyHold.toNat), ("click_press_ms", t.clickHold.toNat),
      ("step_gap_ms", t.gap.toNat), ("settle_ms", t.settle.toNat),
      ("poll_interval_ms", t.pollEvery.toNat), ("action_timeout_ms", t.actionLimit.toNat),
      ("startup_ms", t.startup.toNat)]

def fault : Script.Fault → String
  | .empty => "Empty"
  | .truncated slot => s!"Truncated \x7b slot: {slot} \x7d"
  | .reserved slot code => s!"ReservedCode \x7b slot: {slot}, code: {code.toInt} \x7d"
  | .comboKey slot code => s!"InvalidComboKey \x7b slot: {slot}, code: {code.toInt} \x7d"
  | .actionIndex slot code =>
    s!"InvalidSpecialIndex \x7b slot: {slot}, code: {code.toInt} \x7d"

def ending : Ending → String
  | .finished => "EndMarker"
  | .ranOut => "Exhausted"
  | .actionFailed => "ActionFailed"
  | .actionEnded => "ActionEnded"
  | .malformed cause => s!"Malformed({fault cause})"

def elapsed (events : List Event) : Nat := ((Event.stamp events).getLast?.map (·.1)).getD 0

def played (summary : Summary) (events : List Event) : List String :=
  if summary.steps = 0 then [s!"  ⏸️ command {summary.command.toNat}: empty"]
  else
    (s!"  ▶️ command {summary.command.toNat}: {summary.steps} steps, " ++
      s!"{summary.sends} reports over {elapsed events}ms, {ending summary.ending}") ::
        (Pulse.group events).map fun p => "    " ++ p.caption

/-- Plays a command on a fresh pad and tells what the host saw. -/
def command {A : Type} [Behaviour A] (s : Setup A) (app : AppId) (cmd : UInt8) : List String :=
  match (Player.command s app cmd).run rig world with
  | (none, _) => []
  | (some (.error refusal), _) => [s!"  ⚠️ command {cmd.toNat}: {refusal.message}"]
  | (some (.ok summary), w) => played summary (w.eventsFrom 0)

def application {A : Type} [Behaviour A] (s : Setup A) (app : Application) : List String :=
  ["", s!"📱 {app.name} (app {app.id.toNat})"] ++
    (List.range app.scripts.length).flatMap fun n => command s app.id (UInt8.ofNat n)

def title : String := "🧪 Macro Pad Host Walkthrough"

def lines {A : Type} [Behaviour A] (s : Setup A) : List String :=
  [title,
    s!"⚙️ {s.catalog.applications.length} applications, timing {timing s.timing}"] ++
  s.catalog.applications.flatMap (application s) ++
  ["", "✅ Walkthrough finished", "📝 Run the test suite with: cargo test"]

end ButtonPad.Walkthrough
