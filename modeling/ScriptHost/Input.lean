import ScriptHost.Decimal.Fixed
import ScriptHost.Script.Value

/-!
# Input — what the player does in a frame
-/

namespace ScriptHost

open Script (Value Entries)

/-- Something that happened to a key or to the pointer. -/
inductive InputEvent where
  | keyPressed (key : String)
  | keyReleased (key : String)
  | pointerMoved (x y : Float32)
  | pointerPressed (button : Nat) (x y : Float32)
deriving Inhabited

namespace InputEvent

def kind : InputEvent → String
  | keyPressed _ => "key_pressed"
  | keyReleased _ => "key_released"
  | pointerMoved .. => "pointer_moved"
  | pointerPressed .. => "pointer_pressed"

/-- The event as scripts see it: a map that tells its kind. -/
def toValue (e : InputEvent) : Value :=
  let more := match e with
    | keyPressed key | keyReleased key => [("key", Value.text key)]
    | pointerMoved x y => [("x", .float x.toFloat), ("y", .float y.toFloat)]
    | pointerPressed button x y =>
      [("button", .int button), ("x", .float x.toFloat), ("y", .float y.toFloat)]
  .map (Entries.ofList (("kind", .text e.kind) :: more))

/-- A coordinate with one decimal place. -/
def coordinate (x : Float32) : String := Decimal.fixed 1 (Decimal.ofFloat32 x)

def describe : InputEvent → String
  | keyPressed key => s!"KeyPressed key={key}"
  | keyReleased key => s!"KeyReleased key={key}"
  | pointerMoved x y => s!"PointerMoved x={coordinate x} y={coordinate y}"
  | pointerPressed button x y =>
    s!"PointerPressed button={button} x={coordinate x} y={coordinate y}"

end InputEvent

/-- Puts a name into an ascending list of names, once. -/
def insertName (name : String) : List String → List String
  | [] => [name]
  | n :: ns =>
    if n == name then n :: ns else if name < n then name :: n :: ns else n :: insertName name ns

/-- The input of one frame: the keys held down, in order of their names, and the events in order. -/
structure FrameInput where
  held : List String
  events : List InputEvent
deriving Inhabited

namespace FrameInput

def empty : FrameInput := ⟨[], []⟩

def isDown (i : FrameInput) (key : String) : Bool := i.held.contains key

def hold (i : FrameInput) (key : String) : FrameInput := { i with held := insertName key i.held }

/-- Takes an event in; a key that is pressed is held until it is released. -/
def record (i : FrameInput) (e : InputEvent) : FrameInput :=
  let held := match e with
    | .keyPressed key => insertName key i.held
    | .keyReleased key => i.held.filter (· != key)
    | _ => i.held
  ⟨held, i.events ++ [e]⟩

/-- What the next frame starts with: held keys stay held. -/
def carryOver (i : FrameInput) : FrameInput := ⟨i.held, []⟩

end FrameInput

end ScriptHost
