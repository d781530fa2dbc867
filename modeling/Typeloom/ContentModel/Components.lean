import Typeloom.Table

/-!
# Components of a directed graph

Two vertices belong to one component if each can be reached from the other.  The components are
found in one depth-first walk.  It numbers the vertices as it enters them, keeps those whose
component is not complete on a stack, and notes for every vertex the least number of a vertex on
the stack to which it has found a way.  A vertex whose own number is not undercut when it is left
is the first vertex of its component, and the component is what stands on the stack down to it.

The components are listed so that no edge leads back to an earlier one, and the vertices of a
component in the order in which the walk enters them.
-/

namespace Typeloom

namespace Digraph

variable {Vertex : Type} [DecidableEq Vertex]

/-- A depth-first walk. -/
structure Walk (Vertex : Type) where
  index : Table Vertex Nat := []
  /-- For each vertex entered so far, the least number found from it. -/
  low : Table Vertex Nat := []
  /-- The vertices whose components are not complete, the newest first. -/
  stack : List Vertex := []
  components : List (List Vertex) := []
deriving Repr, Inhabited

namespace Walk

def isEntered (walk : Walk Vertex) (vertex : Vertex) : Bool :=
  Table.contains walk.index vertex

def indexOf (walk : Walk Vertex) (vertex : Vertex) : Nat :=
  (Table.get? walk.index vertex).getD 0

def lowOf (walk : Walk Vertex) (vertex : Vertex) : Nat :=
  (Table.get? walk.low vertex).getD 0

/-- Give a vertex the next number and put it on the stack. -/
def enter (walk : Walk Vertex) (vertex : Vertex) : Walk Vertex :=
  let number := walk.index.length
  { walk with
    index := Table.set vertex number walk.index
    low := Table.set vertex number walk.low
    stack := vertex :: walk.stack }

def lower (walk : Walk Vertex) (vertex : Vertex) (number : Nat) : Walk Vertex :=
  { walk with low := Table.set vertex (min (walk.lowOf vertex) number) walk.low }

/-- Make a component of the vertices that stand on the stack down to a given one. -/
def complete (walk : Walk Vertex) (vertex : Vertex) : Walk Vertex :=
  let newer := walk.stack.takeWhile (· ≠ vertex)
  { walk with
    stack := walk.stack.drop (newer.length + 1)
    components := (newer ++ [vertex]).reverse :: walk.components }

variable {walk : Walk Vertex} {vertex other : Vertex}

theorem isEntered_enter :
    (walk.enter vertex).isEntered other = true ↔ other = vertex ∨ walk.isEntered other = true := by
  by_cases same : other = vertex
  · simp [isEntered, enter, Table.contains, same, Table.get?_set_same]
  · simp [isEntered, enter, Table.contains, same, Table.get?_set_other _ _ same]

theorem indexOf_enter_self : (walk.enter vertex).indexOf vertex = walk.index.length := by
  simp [indexOf, enter, Table.get?_set_same]

theorem indexOf_enter_other (differs : other ≠ vertex) :
    (walk.enter vertex).indexOf other = walk.indexOf other := by
  simp [indexOf, enter, Table.get?_set_other _ _ differs]

theorem lowOf_enter_self : (walk.enter vertex).lowOf vertex = walk.index.length := by
  simp [lowOf, enter, Table.get?_set_same]

theorem lowOf_enter_other (differs : other ≠ vertex) :
    (walk.enter vertex).lowOf other = walk.lowOf other := by
  simp [lowOf, enter, Table.get?_set_other _ _ differs]

theorem not_mem_keys_index (new : walk.isEntered vertex = false) :
    vertex ∉ Table.keys walk.index := by
  rw [← Table.contains_iff]
  simpa [isEntered] using new

theorem keys_index_enter (new : walk.isEntered vertex = false) :
    Table.keys (walk.enter vertex).index = Table.keys walk.index ++ [vertex] :=
  Table.keys_set_of_not_contains _ (not_mem_keys_index new)

theorem length_index_enter (new : walk.isEntered vertex = false) :
    (walk.enter vertex).index.length = walk.index.length + 1 := by
  simp [enter, Table.set_of_not_contains _ (not_mem_keys_index new)]

theorem lowOf_lower_self {number : Nat} :
    (walk.lower vertex number).lowOf vertex = min (walk.lowOf vertex) number := by
  simp [lowOf, lower, Table.get?_set_same]

theorem lowOf_lower_other {number : Nat} (differs : other ≠ vertex) :
    (walk.lower vertex number).lowOf other = walk.lowOf other := by
  simp [lowOf, lower, Table.get?_set_other _ _ differs]

theorem complete_eq {newer older : List Vertex} (stack_eq : walk.stack = newer ++ vertex :: older)
    (last : vertex ∉ newer) :
    walk.complete vertex =
      { walk with
        stack := older
        components := (newer ++ [vertex]).reverse :: walk.components } := by
  have taken : walk.stack.takeWhile (· ≠ vertex) = newer := by
    rw [stack_eq, List.takeWhile_append_of_pos]
    · simp
    · intro other occurs
      simpa using fun same : other = vertex => last (same ▸ occurs)
  have dropped : walk.stack.drop (newer.length + 1) = older := by
    simp [stack_eq, List.drop_append]
  rw [complete, taken, dropped]

end Walk

/-- Look along an edge from the vertex that is being visited.  `visit` is called for a vertex that
was not entered before. -/
def follow (visit : Walk Vertex → Vertex → Walk Vertex) (vertex : Vertex) (walk : Walk Vertex)
    (successor : Vertex) : Walk Vertex :=
  if walk.isEntered successor then
    if walk.stack.contains successor then walk.lower vertex (walk.indexOf successor) else walk
  else
    let after := visit walk successor
    after.lower vertex (after.lowOf successor)

/-- Enter a vertex, look along its edges, and complete its component if it is the first vertex of
it.  The first number bounds the length of the path on which vertices are entered. -/
def visit (successors : Vertex → List Vertex) : Nat → Walk Vertex → Vertex → Walk Vertex
  | 0, walk, _ => walk
  | depth + 1, walk, vertex =>
      let inside :=
        (successors vertex).foldl (follow (visit successors depth) vertex) (walk.enter vertex)
      if inside.lowOf vertex = inside.indexOf vertex then inside.complete vertex else inside

def visitNew (successors : Vertex → List Vertex) (depth : Nat) (walk : Walk Vertex)
    (vertex : Vertex) : Walk Vertex :=
  if walk.isEntered vertex then walk else visit successors depth walk vertex

/-- The components of a graph, so that no edge leads to an earlier one. -/
def components (successors : Vertex → List Vertex) (vertices : List Vertex) :
    List (List Vertex) :=
  (vertices.foldl (visitNew successors vertices.length) {}).components

/-- The values of a function for a list of arguments, which are looked up instead of computed. -/
def tabulate {Value : Type} (vertices : List Vertex) (value : Vertex → Value) :
    Table Vertex Value :=
  vertices.map fun vertex => (vertex, value vertex)

theorem get?_tabulate {Value : Type} (value : Vertex → Value) {vertices : List Vertex}
    {vertex : Vertex} (known : vertex ∈ vertices) :
    Table.get? (tabulate vertices value) vertex = some (value vertex) := by
  induction vertices with
  | nil => simp at known
  | cons other rest ih =>
      simp only [Table.get?, tabulate, List.map_cons, List.lookup_cons] at ih ⊢
      by_cases same : vertex = other
      · simp [same]
      · have differs : (vertex == other) = false := by simpa using same
        rw [differs]
        exact ih ((List.mem_cons.mp known).resolve_left same)

end Digraph

end Typeloom
