import Typeloom.Proofs.ContentModel.DepthFirst
import Typeloom.Proofs.ContentModel.Language

/-!
# The components of a graph

A visit looks along all edges of a vertex, and ends with its component complete or with a way down
the stack.  When all vertices have been visited nothing is left on the stack, and the components
are a condensation of the graph.  No visit is cut short: every visit under way has entered a vertex
of its own, so that there are never more of them than vertices.
-/

namespace Typeloom

namespace Digraph

variable {Vertex : Type} [DecidableEq Vertex]
  {successors : Vertex → List Vertex} {vertices : List Vertex}
  {before walk : Walk Vertex} {vertex : Vertex} {newer looked : List Vertex}

/-- What a function does that visits a vertex which was not entered before. -/
def Explores (successors : Vertex → List Vertex) (vertices : List Vertex) (depth : Nat)
    (visit : Walk Vertex → Vertex → Walk Vertex) : Prop :=
  ∀ ⦃walk vertex⦄, Sound successors vertices walk → vertex ∈ vertices →
    walk.isEntered vertex = false → (∀ other ∈ walk.stack, Reaches successors other vertex) →
    vertices.length ≤ depth + walk.index.length →
      ∃ newer, Visited successors vertices walk (visit walk vertex) vertex newer

/-- Looking along edges, one after the other. -/
theorem Visiting.follow_all
    (visiting : Visiting successors vertices before walk vertex newer looked)
    (new : before.isEntered vertex = false)
    (reaches : ∀ other ∈ before.stack, Reaches successors other vertex)
    {depth : Nat} {visit : Walk Vertex → Vertex → Walk Vertex}
    (explores : Explores successors vertices depth visit)
    (deep : vertices.length ≤ depth + (before.index.length + 1)) {ahead : List Vertex}
    (edges : ∀ next ∈ ahead, next ∈ successors vertex ∧ next ∈ vertices) :
    ∃ newer, Visiting successors vertices before (ahead.foldl (follow visit vertex) walk) vertex
      newer (ahead.reverse ++ looked) := by
  induction ahead generalizing walk newer looked with
  | nil => exact ⟨newer, visiting⟩
  | cons successor ahead ih =>
      obtain ⟨edge, known⟩ := edges successor List.mem_cons_self
      have later (next : Vertex) (occurs : next ∈ ahead) :
          next ∈ successors vertex ∧ next ∈ vertices :=
        edges next (List.mem_cons_of_mem successor occurs)
      rw [List.reverse_cons, List.append_assoc, List.singleton_append, List.foldl_cons]
      cases isEntered : walk.isEntered successor with
      | true => exact ih (visiting.follow_entered new edge isEntered visit) later
      | false =>
          have onStack (other : Vertex) (occurs : other ∈ walk.stack) :
              Reaches successors other successor :=
            (visiting.reaches_vertex reaches occurs).tail edge
          have longer : before.index.length < walk.index.length := by
            have isEntered := visiting.sound.of_mem_stack visiting.vertex_mem_stack
            exact visiting.number ▸ visiting.sound.indexOf_lt vertex isEntered
          obtain ⟨newest, visited⟩ :=
            explores visiting.sound known isEntered onStack (by omega)
          exact ih (visiting.follow_new new reaches edge isEntered visited) later

section Closed

variable (closed : ∀ vertex ∈ vertices, ∀ next ∈ successors vertex, next ∈ vertices)

include closed

/-- A visit that may go as deep as there are vertices to be entered is not cut short. -/
theorem explores_visit (depth : Nat) :
    Explores successors vertices depth (visit successors depth) := by
  induction depth with
  | zero =>
      intro walk vertex sound known new _ deep
      have := sound.length_index_lt known new
      omega
  | succ depth ih =>
      intro walk vertex sound known new reaches deep
      have edges (next : Vertex) (occurs : next ∈ successors vertex) :
          next ∈ successors vertex ∧ next ∈ vertices :=
        ⟨occurs, closed vertex known next occurs⟩
      obtain ⟨newer, visiting⟩ :=
        (visiting_enter sound new known).follow_all new reaches ih (by omega) edges
      have visitingAll : Visiting successors vertices walk
          ((successors vertex).foldl (follow (visit successors depth) vertex) (walk.enter vertex))
          vertex newer (successors vertex) :=
        { visiting with seen := fun next occurs => visiting.seen next (by simp [occurs]) }
      by_cases first : ((successors vertex).foldl (follow (visit successors depth) vertex)
          (walk.enter vertex)).lowOf vertex =
        ((successors vertex).foldl (follow (visit successors depth) vertex)
          (walk.enter vertex)).indexOf vertex
      · exact ⟨[], by simpa only [visit, if_pos first] using visitingAll.complete first⟩
      · exact ⟨newer ++ [vertex], by simpa only [visit, if_neg first] using visitingAll.keep first⟩

/-- When nothing is on the stack, a visit leaves nothing on it. -/
theorem sound_visitNew (sound : Sound successors vertices walk) (isEmpty : walk.stack = [])
    (known : vertex ∈ vertices) :
    Sound successors vertices (visitNew successors vertices.length walk vertex) ∧
      (visitNew successors vertices.length walk vertex).stack = [] ∧
      ∀ other, other = vertex ∨ walk.isEntered other = true →
        (visitNew successors vertices.length walk vertex).isEntered other = true := by
  cases isEntered : walk.isEntered vertex with
  | true =>
      rw [visitNew, if_pos isEntered]
      exact ⟨sound, isEmpty, fun other either => either.elim (fun same => same ▸ isEntered) id⟩
  | false =>
      obtain ⟨newer, visited⟩ := explores_visit closed vertices.length sound known isEntered
        (by simp [isEmpty]) (by omega)
      have nothing : newer = [] := by
        rcases visited.low with ⟨nothing, _⟩ | ⟨other, onStack, _⟩
        · exact nothing
        · simp [isEmpty] at onStack
      rw [visitNew, if_neg (by simp [isEntered])]
      refine ⟨visited.sound, by simp [visited.stack_eq, isEmpty, nothing], ?_⟩
      rintro other (rfl | old)
      · exact visited.enters
      · exact visited.entered other old

theorem sound_foldl_visitNew {ahead : List Vertex} (known : ∀ vertex ∈ ahead, vertex ∈ vertices)
    (sound : Sound successors vertices walk) (isEmpty : walk.stack = []) :
    Sound successors vertices (ahead.foldl (visitNew successors vertices.length) walk) ∧
      (ahead.foldl (visitNew successors vertices.length) walk).stack = [] ∧
      ∀ other, other ∈ ahead ∨ walk.isEntered other = true →
        (ahead.foldl (visitNew successors vertices.length) walk).isEntered other = true := by
  induction ahead generalizing walk with
  | nil => exact ⟨sound, isEmpty, by simp⟩
  | cons vertex ahead ih =>
      obtain ⟨soundNext, isEmptyNext, entered⟩ :=
        sound_visitNew closed sound isEmpty (known vertex List.mem_cons_self)
      obtain ⟨soundAll, isEmptyAll, enteredAll⟩ :=
        ih (fun other occurs => known other (List.mem_cons_of_mem vertex occurs)) soundNext
          isEmptyNext
      refine ⟨soundAll, isEmptyAll, fun other either => enteredAll other ?_⟩
      rcases either with occurs | old
      · rcases List.mem_cons.mp occurs with isFirst | later
        · exact Or.inr (entered other (Or.inl isFirst))
        · exact Or.inl later
      · exact Or.inr (entered other (Or.inr old))

/-- The walk puts the components of the graph in front of each other and leaves no vertex out. -/
theorem condensed_components_of_closed :
    Condensed successors (components successors vertices) ∧
      ∀ vertex, vertex ∈ (components successors vertices).flatten ↔ vertex ∈ vertices := by
  have sound : Sound successors vertices ({} : Walk Vertex) :=
    { known := by simp [Walk.isEntered, Table.contains, Table.get?]
      keys_nodup := List.nodup_nil
      entered_iff := by simp [Walk.isEntered, Table.contains, Table.get?]
      apart := List.disjoint_nil_left _
      sorted := .nil
      indexOf_lt := by simp [Walk.isEntered, Table.contains, Table.get?]
      condensed := .nil }
  obtain ⟨soundAll, isEmpty, entered⟩ := sound_foldl_visitNew closed (fun _ => id) sound rfl
  refine ⟨soundAll.condensed, fun vertex => ⟨fun occurs => ?_, fun occurs => ?_⟩⟩
  · exact soundAll.known vertex ((soundAll.entered_iff vertex).mpr (Or.inr occurs))
  · have isEntered := (soundAll.entered_iff vertex).mp (entered vertex (Or.inl occurs))
    rw [isEmpty] at isEntered
    exact isEntered.resolve_left List.not_mem_nil

/-- The components that the walk finds are a condensation of the graph. -/
theorem condensation_components_of_closed :
    Condensation successors vertices (components successors vertices) :=
  (condensed_components_of_closed closed).1.condensation (condensed_components_of_closed closed).2

end Closed

end Digraph

namespace Graph

open Expression

/-- Edges lead from vertices to vertices. -/
theorem mem_verticesOf_of_mem_successors {expression : Expression} {vertex next : Vertex}
    (known : vertex ∈ verticesOf expression)
    (edge : next ∈ (ofExpression expression).successors vertex) :
    next ∈ verticesOf expression := by
  cases next with
  | source =>
      rw [successors_ofExpression known] at edge
      cases vertex <;> simp [targetsOf] at edge
  | sink => simp [verticesOf]
  | element item =>
      apply element_mem_verticesOf
      cases vertex with
      | source => exact mem_elements_of_mem_first (element_mem_successors_source.mp edge)
      | sink => simp [successors_ofExpression known, targetsOf] at edge
      | element other =>
          have occurs : other ∈ expression.elements := by simpa [verticesOf] using known
          exact (mem_elements_of_mem_follow ((element_mem_successors_element occurs).mp edge)).2

/-- The components of the graph of an expression part its source, its elements and its sink: two of
these are in one component if and only if each can be reached from the other, and no edge leads to
an earlier component. -/
theorem condensation_components (expression : Expression) :
    Digraph.Condensation (ofExpression expression).successors (ofExpression expression).vertices
      (ofExpression expression).components :=
  Digraph.condensation_components_of_closed fun _ known _ edge =>
    mem_verticesOf_of_mem_successors known edge

end Graph

end Typeloom
