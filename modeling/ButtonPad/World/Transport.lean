import ButtonPad.World.Surroundings

/-! Transports: what becomes of a report. -/
namespace ButtonPad

/-- A transport takes each report or says why not, with a memory of its own. -/
structure Transport (σ : Type) where
  deliver : Surroundings → Report → σ → Except DeviceFault Unit × σ

namespace Transport

/-- Takes every report unless the surroundings refuse all. -/
def recording : Transport Unit where
  deliver s _ _ := (if s.refusing then .error .notConnected else .ok (), ())

/-- Takes the reports of the current session and counts them, modulo 2 ^ 32. -/
def counting : Transport UInt32 where
  deliver s r n := if s.link.admits r then (.ok (), n + 1) else (.error .notConnected, n)

end Transport

end ButtonPad
