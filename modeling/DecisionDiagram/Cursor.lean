import DecisionDiagram.Walk.DepthFirst
import DecisionDiagram.Wiring
/-!
Cursors of walks. A cursor stands on a vertex and keeps a trail of what was visited; cursors that
branch off from one another share their trail.
-/
namespace DecisionDiagram

structure Cursor where
  current : Option Ref
  trail : Nat
deriving DecidableEq, Repr

namespace Store

def visited (s : Store) (c : Cursor) : List Ref := (s.trails[c.trail]?).getD []

def setVisited (s : Store) (c : Cursor) (visited : List Ref) : Store :=
  { s with trails := s.trails.setIfInBounds c.trail visited }

end Store

namespace Cursor

def start (current : Option Ref) : Edit Cursor :=
  modifyGet fun s => (⟨current, s.trails.size⟩, { s with trails := s.trails.push [] })

def fork (c : Cursor) (r : Ref) : Cursor := { c with current := some r }

def visit (c : Cursor) (r : Ref) : Edit Bool := do
  let visited := (← get).visited c
  if r ∈ visited then return false
  modify (·.setVisited c (visited ++ [r]))
  return true

/-- Walks depth first below `start`, skipping what is on the trail and adding what is met. -/
def walk (c : Cursor) (budget : Option Nat) (start : Ref) : Edit Pass := modifyGet fun s =>
  let pass := s.depthFirst budget (s.visited c) start
  (pass, s.setVisited c pass.visited)

end Cursor

end DecisionDiagram
