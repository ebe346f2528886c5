import LayerGraph.Graph.Basic
set_option autoImplicit false

/-!
Nodes are visited so that each follows all nodes that it reads. A count of unvisited incoming edges
is kept for each id; an id is ready when its count reaches zero, and ready ids are visited first
come, first served. Ids that never become ready lie on a cycle or behind one. Edges that name an id
without a node do not count.
-/

namespace LayerGraph.Graph

/-- How many incoming edges of each id come from nodes that were not visited. -/
abbrev Pending := String → Int

def Pending.release (pending : Pending) (id : String) : Pending :=
  let left := pending id - 1
  fun other => if other = id then left else pending other

/-- Accounts for one edge into each of the targets in turn, and tells which become ready. -/
def settle : Pending → List String → Pending × List String
  | pending, [] => (pending, [])
  | pending, target :: targets =>
    let next := pending.release target
    let (last, ready) := settle next targets
    (last, if next target = 0 then target :: ready else ready)

/-- Visits the ids of a queue and those that become ready on the way, at most so many. -/
def visit (targets : String → List String) : Nat → Pending → List String → List String
  | 0, _, _ => []
  | _, _, [] => []
  | n + 1, pending, id :: queue =>
    let (next, ready) := settle pending (targets id)
    id :: visit targets n next (queue ++ ready)

def targets (edges : List Edge) (id : String) : List String :=
  (edges.filter (·.source == id)).map (·.target)

def inDegree (edges : List Edge) : Pending := fun id => edges.countP (·.target == id)

def seeds (edges : List Edge) (ids : List String) : List String :=
  ids.filter fun id => inDegree edges id == 0

/-- The ids in the order of evaluation. No id is visited more often than it is declared, so the
number of nodes bounds the visits. -/
def visited (graph : Graph) : List String :=
  let inner := graph.inner
  visit (targets inner) graph.nodes.length (inDegree inner) (seeds inner graph.ids)

def ordered (graph : Graph) : List Node := graph.visited.filterMap graph.node?

def cyclic (graph : Graph) : List String :=
  let visited := graph.visited
  graph.ids.filter fun id => !visited.contains id

end LayerGraph.Graph
