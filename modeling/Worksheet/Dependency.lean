import Worksheet.Formula
import Worksheet.Position

/-! The dependency graph of the formula cells of a sheet. A formula depends on the cells of the grid
that its expression refers to, its precedents, whether or not they are formulas themselves.

In the order of recalculation a formula is ready when no precedent of it is still pending, and the
least ready one comes next. Formulas that never become ready are blocked by a cycle. The search for
a cycle follows precedents depth first, in row-major order. -/
namespace Worksheet

/-- The cells of the grid that an expression refers to, repetitions kept. -/
def Extent.referenced (extent : Extent) (expression : String) : List Position :=
  (Formula.references expression).filterMap extent.cell?

structure Graph where
  precedents : OrderedMap Position (OrderedSet Position)

namespace Graph

def ofFormulas (extent : Extent) (formulas : List (Position × String)) : Graph :=
  ⟨.ofList (formulas.map fun f => (f.1, .ofList (extent.referenced f.2)))⟩

def cells (g : Graph) : List Position := g.precedents.keys

def isFormula (g : Graph) (p : Position) : Bool := g.precedents.contains p

/-- The distinct precedents of a formula in row-major order. -/
def precedentsOf (g : Graph) (p : Position) : List Position :=
  (g.precedents.get? p).elim [] OrderedMap.keys

/-- The formulas that have `p` as a precedent, in row-major order. -/
def dependentsOf (g : Graph) (p : Position) : List Position :=
  (g.precedents.entries.filter fun e => e.2.contains p).map Prod.fst

end Graph

end Worksheet

namespace Worksheet.Graph

/-- Each formula counts its precedents among the formulas that have not come yet. -/
structure Progress where
  pending : OrderedMap Position Nat
  ready : OrderedSet Position
  ordered : List Position

def initial (g : Graph) : Progress :=
  let pending := g.precedents.map fun _ precedents =>
    (precedents.keys.filter fun p => g.isFormula p).length
  ⟨pending, (pending.filter fun _ count => count = 0).map fun _ _ => (), []⟩

/-- One precedent of `p` has come. -/
def release (s : Progress) (p : Position) : Progress :=
  match s.pending.get? p with
  | none => s
  | some count =>
    { s with
      pending := s.pending.insert p (count - 1)
      ready := if count - 1 = 0 then s.ready.add p else s.ready }

/-- Takes the least ready formula. When none is ready, nothing changes. -/
def take (g : Graph) (s : Progress) : Progress :=
  match s.ready.keys with
  | [] => s
  | p :: _ =>
    (g.dependentsOf p).foldl release
      { s with ready := s.ready.filter fun q _ => q ≠ p, ordered := s.ordered ++ [p] }

def takeMany (g : Graph) : Nat → Progress → Progress
  | 0, s => s
  | n + 1, s => takeMany g n (g.take s)

/-- Every formula is taken at most once, so there are no more steps than formulas. -/
def ordered (g : Graph) : List Position := (g.takeMany g.cells.length g.initial).ordered

def blocked (g : Graph) : List Position :=
  let ordered := g.ordered
  g.cells.filter fun p => !ordered.contains p

/-- The formulas in `unvisited` are not on the path so far, all others are. The search ends at the
first formula that is on the path already. -/
def search (g : Graph) (unvisited : List Position) (p : Position) : Option (List Position) :=
  if !g.isFormula p then none
  else if _h : p ∈ unvisited then
    ((g.precedentsOf p).findSome? (search g (unvisited.erase p))).map (p :: ·)
  else some [p]
termination_by unvisited.length
decreasing_by
  have := List.length_pos_of_mem _h
  rw [List.length_erase_of_mem _h]
  omega

/-- A path from `p` to the first cell that repeats on it. -/
def cycleFrom? (g : Graph) (p : Position) : Option (List Position) := g.search g.cells p

end Worksheet.Graph
