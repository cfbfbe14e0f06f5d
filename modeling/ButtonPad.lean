import ButtonPad.Board.Boot
import ButtonPad.Main
import ButtonPad.Proofs.Admission
import ButtonPad.Proofs.AlarmHistory
import ButtonPad.Proofs.Clocks
import ButtonPad.Proofs.DeadCodes
import ButtonPad.Proofs.Deadline
import ButtonPad.Proofs.Expansion
import ButtonPad.Proofs.Failing
import ButtonPad.Proofs.Faultless
import ButtonPad.Proofs.Grammar
import ButtonPad.Proofs.Holdover
import ButtonPad.Proofs.Interference
import ButtonPad.Proofs.Invocations
import ButtonPad.Proofs.Reckoning
import ButtonPad.Proofs.Registrations
import ButtonPad.Proofs.Session
import ButtonPad.Proofs.Translation
import ButtonPad.Version
import ButtonPad.Proofs.Attachments
import ButtonPad.Proofs.Writers
import ButtonPad.Proofs.Sampling
import ButtonPad.Proofs.PinReadings
import ButtonPad.Proofs.Sections
import ButtonPad.Proofs.Renewal
