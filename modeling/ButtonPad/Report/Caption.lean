import ButtonPad.Report.Pulse
import ButtonPad.Report.Hex

/-! Captions: pulses in words. -/
namespace ButtonPad.Pulse

def mouseCaption (handle : Handle) (buttons : UInt8) (dx dy : Int8) : String :=
  "Mouse \x7b conn: ConnectionHandle(" ++ toString handle.toNat ++ "), buttons: "
    ++ toString buttons.toNat ++ ", dx: " ++ toString dx.toInt ++ ", dy: " ++ toString dy.toInt
    ++ " \x7d"

/-- The pulse in one line; usages and masks are hexadecimal. -/
def caption : Pulse → String
  | .tap modifiers usage => s!"tap {Hex.marked usage} mods {Hex.marked modifiers}"
  | .chord modifiers keys =>
    "chord [" ++ ", ".intercalate (keys.map Hex.digits) ++ "] mods " ++ Hex.marked modifiers
  | .click buttons => s!"click {Hex.marked buttons}"
  | .raw (.key _ _ usage true) => s!"key {Hex.marked usage} down"
  | .raw (.key _ _ usage false) => s!"key {Hex.marked usage} up"
  | .raw (.mouse handle buttons dx dy) => mouseCaption handle buttons dx dy

end ButtonPad.Pulse
