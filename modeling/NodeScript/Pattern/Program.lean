import NodeScript.Pattern.Basic

/-!
# Programs of patterns

A pattern as numbered states, each of which reads a character, checks the place, chooses between
two states or accepts. A program is run on all ways at once: the states that are reached at a place
are kept in the order in which they are tried, and each of them counts once, where it is first
reached. So a round of a loop that reads nothing leads nowhere, also when it would have come to a
state by another way.
-/

namespace NodeScript

/-- A state of a program. -/
inductive ProgramState where
  | accept
  | read (set : CharSet) (next : Nat)
  | check (a : Anchor) (next : Nat)
  | choose (first second : Nat)

/-- The numbered states and the one to begin with. -/
structure Program where
  states : Array ProgramState
  start : Nat

namespace Program

/-! ## Making programs -/

/-- A choice between another round and the end of a repetition. -/
def chooseRound (greedy : Bool) (again stop : Nat) : ProgramState :=
  if greedy then .choose again stop else .choose stop again

/-- One more state; the answer has its number. -/
def addState (states : Array ProgramState) (s : ProgramState) : Nat × Array ProgramState :=
  (states.size, states.push s)

/-- States that do something and go on at a given state; the answer has the first of them. -/
abbrev Builder := (next : Nat) → Array ProgramState → Nat × Array ProgramState

def copies (body : Builder) : Nat → Builder
  | 0, next, states => (next, states)
  | count + 1, next, states =>
    let (first, states) := body next states
    copies body count first states

/-- Copies before `inner`, at most `count` of them, each of which can be left out with all that
follow it, to go on at `next`. -/
def optionalCopies (greedy : Bool) (body : Builder) (next : Nat) : Nat → Builder
  | 0, inner, states => (inner, states)
  | count + 1, inner, states =>
    let (first, states) := body inner states
    let (inner, states) := addState states (chooseRound greedy first next)
    optionalCopies greedy body next count inner states

/-- A loop; the answer has the first state of its body and the state after a round, where the
choice is made. -/
def loop (greedy : Bool) (body : Builder) (next : Nat) (states : Array ProgramState) :
    Nat × Nat × Array ProgramState :=
  let (turn, states) := addState states .accept
  let (first, states) := body turn states
  (first, turn, states.setIfInBounds turn (chooseRound greedy first next))

/-- The states of a pattern. A loop of which no round is needed begins with its choice, but where a
round can read nothing, the first choice is another state than the later ones. -/
def build : Pattern → Builder
  | .empty, next, states => (next, states)
  | .one set, next, states => addState states (.read set next)
  | .anchor a, next, states => addState states (.check a next)
  | .seq first second, next, states =>
    let (middle, states) := build second next states
    build first middle states
  | .alt first second, next, states =>
    let (a, states) := build first next states
    let (b, states) := build second next states
    addState states (.choose a b)
  | .rep body least (some extra) greedy, next, states =>
    let (middle, states) := optionalCopies greedy (build body) next extra next states
    copies (build body) least middle states
  | .rep body 0 none greedy, next, states =>
    let (first, turn, states) := loop greedy (build body) next states
    if body.readsSomething then (turn, states)
    else addState states (chooseRound greedy first next)
  | .rep body (least + 1) none greedy, next, states =>
    let (first, _, states) := loop greedy (build body) next states
    copies (build body) least first states
  | .group _ body, next, states => build body next states

def ofPattern (p : Pattern) : Program :=
  let (accept, states) := addState #[] .accept
  let (start, states) := build p accept states
  ⟨states, start⟩

/-! ## Running programs -/

/-- What has been reached at a place. -/
structure Frontier where
  /-- Which states have been reached. -/
  reached : Array Bool
  /-- The reached states that read, latest first, each by its set and the state after it. -/
  reading : List (CharSet × Nat)
  accepted : Bool

/-- Reaches the states `todo` and those that they lead to without reading, in the order in which
they are tried; after an accepting state no other counts. Every state is expanded once, into at
most two, so `limit` is above the count of `todo` and twice that of the states. -/
def follow (states : Array ProgramState) (c : Cursor) :
    (limit : Nat) → (todo : List Nat) → Frontier → Frontier
  | 0, _, f => f
  | _, [], f => f
  | limit + 1, i :: todo, f =>
    if f.reached.getD i true then follow states c limit todo f
    else
      let f := { f with reached := f.reached.setIfInBounds i true }
      match states[i]? with
      | none => f
      | some .accept => { f with accepted := true }
      | some (.read set next) =>
        follow states c limit todo { f with reading := (set, next) :: f.reading }
      | some (.check a next) =>
        follow states c limit (if a.holds c then next :: todo else todo) f
      | some (.choose first second) => follow states c limit (first :: second :: todo) f

/-- What the states `todo` reach at a place. -/
def frontier (states : Array ProgramState) (todo : List Nat) (c : Cursor) : Frontier :=
  follow states c (todo.length + 2 * states.size + 1) todo
    ⟨Array.replicate states.size false, [], false⟩

/-- The states after a character, in the order in which they are tried. -/
def Frontier.after (f : Frontier) (x : Char) : List Nat :=
  f.reading.reverse.filterMap fun (set, next) => if set.accepts x then some next else none

/-- Where the match ends that the states `todo` lead to, `best` being that of states that are tried
later. -/
def runFrom (states : Array ProgramState) (todo : List Nat) (best : Option Nat)
    (before : Option Char) (offset : Nat) : List Char → Option Nat
  | [] =>
    if (frontier states todo ⟨before, [], offset⟩).accepted then some offset else best
  | x :: rest =>
    let f := frontier states todo ⟨before, x :: rest, offset⟩
    let best := if f.accepted then some offset else best
    match f.after x with
    | [] => best
    | todo => runFrom states todo best (some x) (offset + 1) rest

def matchAt? (p : Program) (c : Cursor) : Option Nat :=
  runFrom p.states [p.start] none c.before c.offset c.rest

end Program

end NodeScript
