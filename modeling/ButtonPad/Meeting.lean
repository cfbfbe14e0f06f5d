import ButtonPad.Act.Builtin
import ButtonPad.Setup.Basic

/-! The setup that the pad ships with: video meetings on a phone and on a computer. -/
namespace ButtonPad.Meeting

def zoomMobile : AppId := 0
def zoomPC : AppId := 1
def skypeMobile : AppId := 2
def skypePC : AppId := 3

def apps : List AppId := [zoomMobile, zoomPC, skypeMobile, skypePC]

def budget : Nat := 10

def rowWidth : Nat := budget + 1

def scriptsPerApp : Nat := 5

def buttonCount : Nat := 5

/-- The rows of scripts with these steps, numbered from 0 on. -/
def table (scripts : List (List Step)) : List Row :=
  scripts.zipIdx.map fun (steps, id) =>
    Row.padded rowWidth (Int32.ofNat id) (steps.flatMap Step.codes)

/-- Toggle the microphone, toggle the video, join a meeting; two scripts are empty. -/
def zoomMobileScripts : List (List Step) :=
  [ [.click .left, .key .downArrow, .key .spacebar, .key .escape],
    [.click .left, .key .downArrow, .key .rightArrow, .key .spacebar, .key .escape],
    [.special 0],
    [],
    [] ]

/-- Toggle the microphone, toggle the video; three scripts are empty. -/
def zoomPCScripts : List (List Step) :=
  [ [.combo [.leftAlt, .a]],
    [.special 0],
    [],
    [],
    [] ]

/-- No script is recorded yet. -/
def skypeScripts : List (List Step) := List.replicate scriptsPerApp []

def meetingId : List UInt8 := "12345670".toUTF8.toList

def passcode : List UInt8 := "coMeValavita".toUTF8.toList

def add (c : Catalog) (id : AppId) (name : String) (scripts : List (List Step)) :
    Except Rejection Catalog :=
  (·.2) <$> c.add id name rowWidth (table scripts)

def catalog : Except Rejection Catalog := do
  let c ← add { capacity := Catalog.standardCapacity } zoomMobile "Zoom mobile" zoomMobileScripts
  let c ← add c zoomPC "Zoom PC" zoomPCScripts
  let c ← add c skypeMobile "Skype mobile" skypeScripts
  add c skypePC "Skype PC" skypeScripts

def repertoire : Except Rejection (Repertoire Builtin) := do
  let r : Repertoire Builtin := {}
  let r ← r.add zoomMobile [⟨.credentials, meetingId, passcode⟩]
  r.add zoomPC [⟨.shortcut, [Modifiers.leftAlt], [Usage.v]⟩]

/-- Each button runs the script of its own number, in every application. -/
def buttons : List (AppId × ButtonMap) := apps.map (·, ButtonMap.firstLines buttonCount)

def setup (t : Timing) : Except Rejection (Setup Builtin) := do
  Setup.assemble (← catalog) (← repertoire) buttons t

end ButtonPad.Meeting
