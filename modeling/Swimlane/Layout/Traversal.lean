/-
  Swimlane — the order in which nodes are placed.

  `Graph.traversal` goes depth first from the start along the flows, those of a
  node in the order of their identifiers, and then takes the nodes it has not
  reached in the order of theirs.

  The walk keeps the nodes not yet visited and a stack of nodes to go to; each
  step either visits a node or drops the top of the stack.

  * `mem_walk`: the walk visits known nodes only; `walk_nodup`: none of them
    twice.
-/
import Swimlane.Process

namespace Swimlane

/-! ## The walk -/

/-- The list without a node. -/
def without (id : String) (ids : List String) : List String := ids.filter fun other => other ≠ id

theorem mem_without {id other : String} {ids : List String} :
    other ∈ without id ids ↔ other ∈ ids ∧ other ≠ id := by
  simp [without]

theorem without_length_lt {id : String} {ids : List String} (h : id ∈ ids) :
    (without id ids).length < ids.length := by
  rw [without, List.length_filter_lt_length_iff_exists]
  exact ⟨id, h, by simp⟩

/-- Visits the nodes on the stack and what follows from them, top first.
    `next` gives the neighbours of a node in the order in which they are
    visited. -/
def walk (next : String → List String) (unvisited : List String) : List String → List String
  | [] => []
  | id :: stack =>
    if id ∈ unvisited then
      id :: walk next (without id unvisited)
        ((next id).filter (fun other => (without id unvisited).contains other) ++ stack)
    else walk next unvisited stack
termination_by stack => (unvisited.length, stack.length)
decreasing_by
  · rename_i h
    exact Prod.Lex.left _ _ (without_length_lt h)
  · exact Prod.Lex.right _ (Nat.lt_succ_self _)

/-- Whether one text comes before another or is the same. -/
def textLe (a b : String) : Bool := !(b < a : Bool)

/-- The targets of the flows that leave a node, in the order of the flow
    identifiers; flows with the same identifier stay as listed. -/
def Graph.successors (g : Graph) (id : String) : List String :=
  ((g.outgoing id).mergeSort fun a b => textLe a.id b.id).map Flow.target

/-- What the start reaches, in the order of the walk. -/
def Graph.reached (g : Graph) : List String :=
  match g.start? with
  | some start => walk g.successors g.nodeIds [start.id]
  | none => []

/-- What the start does not reach, in order and without repetitions. -/
def Graph.unreached (g : Graph) : List String :=
  let reached := g.reached
  ((g.nodeIds.filter fun id => !reached.contains id).mergeSort textLe).eraseDups

/-- The order in which the nodes are placed. -/
def Graph.traversal (g : Graph) : List String := g.reached ++ g.unreached

/-! ## Small facts -/

/-- The walk visits nodes not yet visited only. -/
theorem mem_walk {next : String → List String} {unvisited stack : List String} {id : String}
    (h : id ∈ walk next unvisited stack) : id ∈ unvisited := by
  fun_induction walk next unvisited stack with
  | case1 => cases h
  | case2 unvisited top stack htop ih =>
    rcases List.mem_cons.1 h with rfl | h
    · exact htop
    · exact (mem_without.1 (ih h)).1
  | case3 unvisited top stack htop ih => exact ih h

/-- The walk visits no node twice. -/
theorem walk_nodup (next : String → List String) (unvisited stack : List String) :
    (walk next unvisited stack).Nodup := by
  fun_induction walk next unvisited stack with
  | case1 => exact List.nodup_nil
  | case2 unvisited top stack htop ih =>
    exact List.nodup_cons.2 ⟨fun h => (mem_without.1 (mem_walk h)).2 rfl, ih⟩
  | case3 unvisited top stack htop ih => exact ih

end Swimlane
