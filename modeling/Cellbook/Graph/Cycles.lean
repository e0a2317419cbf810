import Cellbook.Graph.Basic

/-!
# The cycles of a graph

Among given vertices, those that depend on each other, directly or through others of them, belong to
one component; the cycles are the components of several vertices, and the vertices that depend on
themselves.

The components are found by one search along the dependencies. Every vertex gets an index when the
search enters it, and stays on a stack until its component is known. The low link of a vertex is the
least index that is known to be reached from it on the stack; if a vertex is left whose low link is
its own index, it and all that is above it on the stack are a component. The vertices that the search
is in are kept in a list of their own, so that a step of the search is a step of a loop, however long
the chains of dependencies are.

**Order.** A component is found after those that it depends on. The members of a cycle have the order
in which they were given.

Vertices are meant by their places in the given list here, since a list may repeat a name.
-/

namespace Cellbook

namespace Graph

/-- The place of the last element that is `id`. -/
def lastPlace? (ids : List Nat) (id : Nat) : Option Nat :=
  (ids.zipIdx.findRev? (·.1 == id)).map (·.2)

/-- The places of the dependencies of the vertex at a place, as far as they are given. -/
def nextPlaces (g : Graph) (ids : List Nat) (place : Nat) : List Nat :=
  match ids[place]? with
  | some id => (g.dependencies id).filterMap (lastPlace? ids)
  | none => []

/-- A place that the search is in, with the next places that it has not looked at. -/
structure Visit where
  place : Nat
  ahead : List Nat

/-- **The search for components.** -/
structure Search where
  /-- Which place was entered as which, counted from zero. -/
  index : Array (Option Nat)
  lowlink : Array Nat
  onStack : Array Bool
  /-- The places whose component is not known, the last one that was entered first. -/
  stack : List Nat
  /-- How many places were entered. -/
  entered : Nat
  /-- The places that the search is in, the innermost first. -/
  work : List Visit
  /-- The components that have a cycle. -/
  found : Array (List Nat)

namespace Search

def start (count : Nat) : Search :=
  ⟨Array.replicate count none, Array.replicate count 0, Array.replicate count false, [], 0, [], #[]⟩

def indexOf (s : Search) (place : Nat) : Option Nat := s.index.getD place none

def lowlinkOf (s : Search) (place : Nat) : Nat := s.lowlink.getD place 0

def isOnStack (s : Search) (place : Nat) : Bool := s.onStack.getD place false

/-- Enters a place, with all that comes next to it to be looked at. -/
def enter (next : Nat → List Nat) (s : Search) (place : Nat) : Search :=
  { s with
    index := s.index.setIfInBounds place (some s.entered)
    lowlink := s.lowlink.setIfInBounds place s.entered
    onStack := s.onStack.setIfInBounds place true
    stack := place :: s.stack
    entered := s.entered + 1
    work := ⟨place, next place⟩ :: s.work }

/-- Lowers the low link of a place. -/
def lower (s : Search) (place n : Nat) : Search :=
  { s with lowlink := s.lowlink.setIfInBounds place (min (s.lowlinkOf place) n) }

/-- Takes what is on a stack down to a place, that place included. -/
def popDownTo (place : Nat) : List Nat → List Nat × List Nat
  | [] => ([], [])
  | top :: stack =>
    if top = place then ([top], stack)
    else
      let popped := popDownTo place stack
      (top :: popped.1, popped.2)

/-- Takes a component from the stack, which ends with the place that was entered first of it. -/
def close (loops : Nat → Bool) (s : Search) (place : Nat) : Search :=
  let popped := popDownTo place s.stack
  { s with
    onStack := popped.1.foldl (·.setIfInBounds · false) s.onStack
    stack := popped.2
    found :=
      if 1 < popped.1.length || loops place then s.found.push (ascending popped.1) else s.found }

/-- Hands the low link of a place that is left to the place that it was entered from. -/
def handUp (s : Search) (place : Nat) : Search :=
  match s.work with
  | parent :: _ => s.lower parent.place (s.lowlinkOf place)
  | [] => s

/-- Leaves a place all of whose next places were looked at. -/
def leave (loops : Nat → Bool) (s : Search) (place : Nat) : Search :=
  let s := s.handUp place
  if s.indexOf place = some (s.lowlinkOf place) then s.close loops place else s

/-- Looks at a place that comes next to one that the search is in. -/
def look (next : Nat → List Nat) (s : Search) (place other : Nat) : Search :=
  match s.indexOf other with
  | none => s.enter next other
  | some i => if s.isOnStack other then s.lower place i else s

/-- One step of the search. -/
def step (next : Nat → List Nat) (loops : Nat → Bool) (s : Search) : Search :=
  match s.work with
  | ⟨place, other :: ahead⟩ :: work => { s with work := ⟨place, ahead⟩ :: work }.look next place other
  | ⟨place, []⟩ :: work => { s with work }.leave loops place
  | [] => s

/-- Goes on until the search is in no place, for no more than the given number of steps. -/
def run (next : Nat → List Nat) (loops : Nat → Bool) : (steps : Nat) → Search → Search
  | 0, s => s
  | steps + 1, s => if s.work.isEmpty then s else run next loops steps (s.step next loops)

/-- Searches from a place, unless it was entered. -/
def explore (next : Nat → List Nat) (loops : Nat → Bool) (steps : Nat) (s : Search) (root : Nat) :
    Search :=
  if (s.indexOf root).isSome then s else run next loops steps (s.enter next root)

end Search

/-- The steps that a search takes for the places below `count`, if it has entered none of them: one for
each place that it leaves, and one for each that it looks at. -/
def searchSteps (next : Nat → List Nat) (count : Nat) : Nat :=
  ((List.range count).flatMap fun place => place :: next place).length

/-- The components of the places below `count` that have a cycle: those of several places, and those of
a place that loops. -/
def cyclicComponents (next : Nat → List Nat) (loops : Nat → Bool) (count : Nat) : List (List Nat) :=
  ((List.range count).foldl (Search.explore next loops (searchSteps next count))
    (Search.start count)).found.toList

/-- The vertex at a place depends on itself. -/
def loopsAt (g : Graph) (ids : List Nat) (place : Nat) : Bool :=
  ids[place]?.any fun id => (g.dependencies id).contains id

/-- **The cycles among given vertices.** -/
def cycles (g : Graph) (ids : List Nat) : List (List Nat) :=
  (cyclicComponents (g.nextPlaces ids) (g.loopsAt ids) ids.length).map fun places =>
    places.filterMap (ids[·]?)

end Graph

end Cellbook
