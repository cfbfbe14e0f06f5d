/-! What can fail in the devices around the pad. -/
namespace ButtonPad

inductive DeviceFault where
  | notConnected
  | transport
  | input
  /-- There is no such line. -/
  | invalidConfig
  deriving DecidableEq, Repr

def DeviceFault.message : DeviceFault → String
  | .notConnected => "No HID host connected"
  | .transport => "HID report transmission failed"
  | .input => "Input line read failed"
  | .invalidConfig => "Invalid configuration"

end ButtonPad
