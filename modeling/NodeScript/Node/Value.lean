import NodeScript.Node.Scalar

/-!
# Values of knobs

A knob holds a scalar, a value for each of several channels, a curve over frames, or a block of
script text kept as it is.
-/

namespace NodeScript

/-- A channel, without a value when fewer values than labels were given. -/
structure Channel where
  name : String
  value : Option Scalar
deriving DecidableEq

/-- A value for each of several channels, such as a colour. -/
structure MultiChannel where
  channels : List Channel
deriving DecidableEq

namespace MultiChannel

/-- The labels of the first four channels. -/
def labels : List String := ["r", "g", "b", "a"]

/-- The label of the channel at a position: the four labels, then the same with `1` behind
them, and so on. -/
def labelAt (index : Nat) : String :=
  let base := labels.getD (index % 4) ""
  if index / 4 = 0 then base else base ++ toString (index / 4)

/-- The least multiple of four that is at least four and at least `count`. -/
def width (count : Nat) : Nat :=
  max ((count + 3) / 4) 1 * 4

/-- The channels of a list of values, filled up with channels without a value. -/
def ofValues (values : List Scalar) : MultiChannel :=
  ⟨(List.range (width values.length)).map fun i => ⟨labelAt i, values[i]?⟩⟩

def names (m : MultiChannel) : List String :=
  m.channels.map Channel.name

/-- The value of the first channel of a label. -/
def channel? (m : MultiChannel) (name : String) : Option Scalar :=
  (m.channels.find? (·.name == name)).bind Channel.value

/-- Whether there is a value under a label. -/
def isPresent (m : MultiChannel) (name : String) : Bool :=
  (m.channel? name).isSome

/-- The values that are there, in order. -/
def values (m : MultiChannel) : List Scalar :=
  m.channels.filterMap Channel.value

end MultiChannel

/-- The value of a curve at a frame. -/
structure Keyframe where
  frame : Int64
  value : Scalar
deriving DecidableEq

/-- A value given at some frames. -/
structure Curve where
  keyframes : List Keyframe
deriving DecidableEq

/-- A curve was asked for a frame that it has no value at. -/
structure KeyframeNotFound where
  frame : Int64
deriving DecidableEq

def KeyframeNotFound.message (e : KeyframeNotFound) : String :=
  "No keyframe at frame " ++ toString e.frame.toInt

namespace Curve

def frames (c : Curve) : List Int64 :=
  c.keyframes.map Keyframe.frame

/-- The value at a frame. There is nothing between the frames. -/
def valueAt (c : Curve) (frame : Int64) : Except KeyframeNotFound Scalar :=
  match c.keyframes.find? (·.frame == frame) with
  | some k => .ok k.value
  | none => .error ⟨frame⟩

end Curve

/-- What a knob holds. -/
inductive Value where
  | scalar (s : Scalar)
  | multi (m : MultiChannel)
  | animated (c : Curve)
  | block (text : String)
deriving DecidableEq

namespace Value

def asScalar? : Value → Option Scalar
  | .scalar s => some s
  | _ => none

def asMulti? : Value → Option MultiChannel
  | .multi m => some m
  | _ => none

def asCurve? : Value → Option Curve
  | .animated c => some c
  | _ => none

def asBlock? : Value → Option String
  | .block text => some text
  | _ => none

/-- Equality of values, where floating-point numbers are compared as numbers. -/
def same : Value → Value → Bool
  | .scalar a, .scalar b => a.same b
  | .multi a, .multi b => sameChannels a.channels b.channels
  | .animated a, .animated b => sameKeyframes a.keyframes b.keyframes
  | .block a, .block b => a == b
  | _, _ => false
where
  sameOptions : Option Scalar → Option Scalar → Bool
    | some a, some b => a.same b
    | none, none => true
    | _, _ => false
  sameChannels : List Channel → List Channel → Bool
    | [], [] => true
    | a :: as, b :: bs => a.name == b.name && sameOptions a.value b.value && sameChannels as bs
    | _, _ => false
  sameKeyframes : List Keyframe → List Keyframe → Bool
    | [], [] => true
    | a :: as, b :: bs => a.frame == b.frame && a.value.same b.value && sameKeyframes as bs
    | _, _ => false

/-- The value as a script writes it. -/
def render : Value → String
  | .scalar s => s.render
  | .multi m => "\x7b" ++ String.intercalate " " (m.values.map Scalar.render) ++ "\x7d"
  | .animated c => "\x7bcurve" ++ String.join (c.keyframes.map renderKeyframe) ++ "\x7d"
  | .block text => text
where
  renderKeyframe (k : Keyframe) : String :=
    " x" ++ toString k.frame.toInt ++ " " ++ k.value.render

end Value

end NodeScript
