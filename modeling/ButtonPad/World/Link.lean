import ButtonPad.Report.Basic

/-! The link to the host. -/
namespace ButtonPad

/-- The session with the host. Its handle outlives a disconnection, so a report can be addressed
to a session that is over. -/
structure Link where
  handle : Handle := 0
  connected : Bool := false
  deriving DecidableEq, Repr

namespace Link

def connect (_ : Link) (handle : Handle) : Link := { handle, connected := true }

def disconnect (l : Link) : Link := { l with connected := false }

/-- Whether the host of this link takes the report: its session must be the current one. -/
def admits (l : Link) (r : Report) : Bool := l.connected && r.handle == l.handle

end Link

end ButtonPad
