import ButtonPad.Walkthrough

/-! The walkthrough of the shipped setup, on the command line. -/

def main : IO UInt32 := do
  match ButtonPad.Meeting.setup {} with
  | .error r =>
    IO.println ButtonPad.Walkthrough.title
    IO.eprintln s!"❌ Built-in profile rejected: {r.message}"
    return 1
  | .ok setup =>
    for line in ButtonPad.Walkthrough.lines setup do
      IO.println line
    return 0
