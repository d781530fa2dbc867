import Mathlib.Data.List.Nodup
import Mathlib.Data.List.Perm.Subperm
import Mathlib.Logic.Relation
import Typeloom.ContentModel.Components

/-!
# The depth-first walk that finds components

While a vertex is visited, all vertices that stand below it on the stack have a way to it, and it
has a way to all that stand above it and back.  The least number found from it bounds the numbers
of all vertices below it to which an edge leads from it or from above it.  If its own number is the
least one, no edge leads down, and what stands above it is its component.  Otherwise it has a way
to a vertex below it, and so has all that stands above it.
-/

namespace Typeloom

/-!
## Condensations of a directed graph

A condensation lists the components of a graph so that no edge leads back to an earlier one.  It is
built from its end: a component may be put in front if all edges from it stay inside or lead to the
components behind it.
-/

namespace Digraph

open Relation

variable {Vertex : Type}

/-- There is a path along edges, which may be empty. -/
def Reaches (successors : Vertex → List Vertex) : Vertex → Vertex → Prop :=
  ReflTransGen fun vertex next => next ∈ successors vertex

/-- The vertices are parted into components: two of them are in the same component if and only if
each can be reached from the other, and no edge leads from a component to an earlier one. -/
structure Condensation (successors : Vertex → List Vertex) (vertices : List Vertex)
    (components : List (List Vertex)) : Prop where
  nonempty : ∀ component ∈ components, component ≠ []
  nodup : components.flatten.Nodup
  mem_iff : ∀ vertex, vertex ∈ components.flatten ↔ vertex ∈ vertices
  together_iff : ∀ vertex ∈ vertices, ∀ other ∈ vertices,
    (∃ component ∈ components, vertex ∈ component ∧ other ∈ component) ↔
      Reaches successors vertex other ∧ Reaches successors other vertex
  topological : ∀ vertex next, next ∈ successors vertex →
    ∀ (place later : Nat) (component behind : List Vertex),
      components[place]? = some component → vertex ∈ component →
      components[later]? = some behind → next ∈ behind → place ≤ later

/-- Components that have been put in front of each other, the last one first. -/
inductive Condensed (successors : Vertex → List Vertex) : List (List Vertex) → Prop where
  | nil : Condensed successors []
  | cons {component : List Vertex} {behind : List (List Vertex)} :
      component ≠ [] → component.Nodup → component.Disjoint behind.flatten →
      (∀ vertex ∈ component, ∀ other ∈ component, Reaches successors vertex other) →
      (∀ vertex ∈ component, ∀ next ∈ successors vertex,
        next ∈ component ∨ next ∈ behind.flatten) →
      Condensed successors behind → Condensed successors (component :: behind)

variable {successors : Vertex → List Vertex} {components : List (List Vertex)}

/-- No path leaves vertices that no edge leaves. -/
theorem mem_of_reaches {within : Vertex → Prop}
    (closed : ∀ vertex, within vertex → ∀ next ∈ successors vertex, within next)
    {vertex other : Vertex} (inside : within vertex)
    (reaches : Reaches successors vertex other) : within other := by
  induction reaches with
  | refl => exact inside
  | tail _ edge ih => exact closed _ ih _ edge

namespace Condensed

theorem nonempty (condensed : Condensed successors components) :
    ∀ component ∈ components, component ≠ [] := by
  induction condensed with
  | nil => simp
  | cons nonempty _ _ _ _ _ ih =>
      intro component occurs
      rcases List.mem_cons.mp occurs with rfl | later
      · exact nonempty
      · exact ih component later

theorem nodup (condensed : Condensed successors components) : components.flatten.Nodup := by
  induction condensed with
  | nil => simp
  | cons _ nodup apart _ _ _ ih =>
      rw [List.flatten_cons]
      exact List.nodup_append'.mpr ⟨nodup, ih, apart⟩

theorem closed (condensed : Condensed successors components) (vertex : Vertex)
    (occurs : vertex ∈ components.flatten) :
    ∀ next ∈ successors vertex, next ∈ components.flatten := by
  induction condensed with
  | nil => simp at occurs
  | cons _ _ _ _ edges _ ih =>
      intro next edge
      rw [List.flatten_cons, List.mem_append] at occurs ⊢
      rcases occurs with here | later
      · exact edges vertex here next edge
      · exact Or.inr (ih later next edge)

theorem mem_of_reaches (condensed : Condensed successors components) {vertex other : Vertex}
    (occurs : vertex ∈ components.flatten) (reaches : Reaches successors vertex other) :
    other ∈ components.flatten :=
  Digraph.mem_of_reaches condensed.closed occurs reaches

theorem together_iff (condensed : Condensed successors components) {vertex other : Vertex}
    (occurs : vertex ∈ components.flatten) :
    (∃ component ∈ components, vertex ∈ component ∧ other ∈ component) ↔
      Reaches successors vertex other ∧ Reaches successors other vertex := by
  induction condensed with
  | nil => simp at occurs
  | @cons component behind nonempty nodup apart mutually edges condensed ih =>
      have all : Condensed successors (component :: behind) :=
        .cons nonempty nodup apart mutually edges condensed
      constructor
      · rintro ⟨some, isComponent, has, hasOther⟩
        rcases List.mem_cons.mp isComponent with rfl | later
        · exact ⟨mutually _ has _ hasOther, mutually _ hasOther _ has⟩
        · exact (ih (List.mem_flatten_of_mem later has)).mp ⟨some, later, has, hasOther⟩
      · rintro ⟨reaches, returns⟩
        rw [List.flatten_cons, List.mem_append] at occurs
        rcases occurs with here | inBehind
        · have known : other ∈ component ∨ other ∈ behind.flatten := by
            simpa using all.mem_of_reaches (by simp [here]) reaches
          rcases known with hereToo | otherBehind
          · exact ⟨component, List.mem_cons_self, here, hereToo⟩
          · exact absurd (condensed.mem_of_reaches otherBehind returns) (apart here)
        · obtain ⟨some, later, has, hasOther⟩ := (ih inBehind).mpr ⟨reaches, returns⟩
          exact ⟨some, List.mem_cons_of_mem component later, has, hasOther⟩

theorem topological (condensed : Condensed successors components) {vertex next : Vertex}
    (edge : next ∈ successors vertex) {place later : Nat} {component behind : List Vertex}
    (atPlace : components[place]? = some component) (has : vertex ∈ component)
    (atLater : components[later]? = some behind) (hasNext : next ∈ behind) : place ≤ later := by
  induction condensed generalizing place later with
  | nil => simp at atPlace
  | @cons first rest _ _ apart _ _ condensed ih =>
      cases place with
      | zero => exact Nat.zero_le later
      | succ place =>
          rw [List.getElem?_cons_succ] at atPlace
          have inRest : vertex ∈ rest.flatten :=
            List.mem_flatten_of_mem (List.mem_of_getElem? atPlace) has
          cases later with
          | zero =>
              obtain rfl : first = behind := by simpa using atLater
              exact absurd (condensed.closed vertex inRest next edge) (apart hasNext)
          | succ later =>
              rw [List.getElem?_cons_succ] at atLater
              exact Nat.succ_le_succ (ih atPlace atLater)

/-- There is no way from a component to an earlier one. -/
theorem pairwise_not_reaches (condensed : Condensed successors components) :
    components.Pairwise fun earlier later =>
      ∀ vertex ∈ earlier, ∀ other ∈ later, ¬Reaches successors other vertex := by
  induction condensed with
  | nil => exact .nil
  | cons _ _ apart _ _ condensed ih =>
      refine .cons (fun later isLater vertex inside other occurs returns => ?_) ih
      exact apart inside
        (condensed.mem_of_reaches (List.mem_flatten_of_mem isLater occurs) returns)

/-- Components put in front of each other are a condensation of their vertices. -/
theorem condensation (condensed : Condensed successors components) {vertices : List Vertex}
    (mem_iff : ∀ vertex, vertex ∈ components.flatten ↔ vertex ∈ vertices) :
    Condensation successors vertices components where
  nonempty := condensed.nonempty
  nodup := condensed.nodup
  mem_iff := mem_iff
  together_iff vertex occurs _ _ := condensed.together_iff ((mem_iff vertex).mpr occurs)
  topological _ _ edge _ _ _ _ atPlace has atLater hasNext :=
    condensed.topological edge atPlace has atLater hasNext

end Condensed

end Digraph

namespace Digraph

open Relation

variable {Vertex : Type} [DecidableEq Vertex]

section Walks

variable (successors : Vertex → List Vertex) (vertices : List Vertex)

/-- What holds of a walk before and after each visit. -/
structure Sound (walk : Walk Vertex) : Prop where
  known : ∀ vertex, walk.isEntered vertex = true → vertex ∈ vertices
  keys_nodup : (Table.keys walk.index).Nodup
  entered_iff : ∀ vertex, walk.isEntered vertex = true ↔
    vertex ∈ walk.stack ∨ vertex ∈ walk.components.flatten
  apart : walk.stack.Disjoint walk.components.flatten
  sorted : walk.stack.Pairwise fun newer older => walk.indexOf older < walk.indexOf newer
  indexOf_lt : ∀ vertex, walk.isEntered vertex = true → walk.indexOf vertex < walk.index.length
  condensed : Condensed successors walk.components

/-- A walk goes on from another one.  What was entered before keeps its numbers and its place on
the stack, and what is on the stack in addition has greater numbers. -/
structure Extends (before after : Walk Vertex) (newer : List Vertex) : Prop where
  sound : Sound successors vertices after
  stack_eq : after.stack = newer ++ before.stack
  entered : ∀ vertex, before.isEntered vertex = true → after.isEntered vertex = true
  indexOf_eq : ∀ vertex, before.isEntered vertex = true →
    after.indexOf vertex = before.indexOf vertex
  lowOf_eq : ∀ vertex, before.isEntered vertex = true → after.lowOf vertex = before.lowOf vertex
  length_le : before.index.length ≤ after.index.length
  newer_le : ∀ vertex ∈ newer, before.index.length ≤ after.indexOf vertex

/-- The end of an edge was entered, and if it was on the stack before a vertex was visited, its
number bounds the least number found from that vertex. -/
def Seen (before walk : Walk Vertex) (vertex next : Vertex) : Prop :=
  walk.isEntered next = true ∧ (next ∈ before.stack → walk.lowOf vertex ≤ walk.indexOf next)

/-- A vertex is being visited.  Above it on the stack are newer vertices, and it has been looked
along some of its edges. -/
structure Visiting (before walk : Walk Vertex) (vertex : Vertex) (newer looked : List Vertex) :
    Prop extends Extends successors vertices before walk (newer ++ [vertex]) where
  number : walk.indexOf vertex = before.index.length
  strongly : ∀ other ∈ newer, Reaches successors vertex other ∧ Reaches successors other vertex
  low_le : walk.lowOf vertex ≤ walk.indexOf vertex
  low_found : ∃ other ∈ walk.stack,
    Reaches successors vertex other ∧ walk.indexOf other = walk.lowOf vertex
  explored : ∀ other ∈ newer, ∀ next ∈ successors other, Seen before walk vertex next
  seen : ∀ next ∈ looked, Seen before walk vertex next

/-- A vertex has been visited.  What it has left on the stack has a way to a vertex that was on the
stack before. -/
structure Visited (before after : Walk Vertex) (vertex : Vertex) (newer : List Vertex) :
    Prop extends Extends successors vertices before after newer where
  enters : after.isEntered vertex = true
  strongly : ∀ other ∈ newer, Reaches successors vertex other ∧ Reaches successors other vertex
  explored : ∀ other ∈ newer, ∀ next ∈ successors other, Seen before after vertex next
  low : newer = [] ∧ before.index.length ≤ after.lowOf vertex ∨
    ∃ other ∈ before.stack,
      Reaches successors vertex other ∧ after.indexOf other = after.lowOf vertex

end Walks

variable {successors : Vertex → List Vertex} {vertices : List Vertex}
  {before walk after : Walk Vertex} {vertex successor : Vertex} {newer looked : List Vertex}

theorem Sound.of_mem_stack (sound : Sound successors vertices walk) (occurs : vertex ∈ walk.stack) :
    walk.isEntered vertex = true :=
  (sound.entered_iff vertex).mpr (Or.inl occurs)

/-- There are fewer numbers than vertices as long as a vertex has none. -/
theorem Sound.length_index_lt (sound : Sound successors vertices walk) (known : vertex ∈ vertices)
    (new : walk.isEntered vertex = false) : walk.index.length < vertices.length := by
  have distinct : (vertex :: Table.keys walk.index).Nodup :=
    List.nodup_cons.mpr ⟨Walk.not_mem_keys_index new, sound.keys_nodup⟩
  have included : vertex :: Table.keys walk.index ⊆ vertices := by
    refine List.cons_subset.mpr ⟨known, fun other occurs => ?_⟩
    exact sound.known other (Table.contains_iff.mpr occurs)
  have bound := (List.subperm_of_subset distinct included).length_le
  simp only [List.length_cons, Table.keys, List.length_map] at bound
  exact bound

theorem Extends.trans {middle : Walk Vertex} {newest : List Vertex}
    (extension : Extends successors vertices before middle newer)
    (further : Extends successors vertices middle after newest) :
    Extends successors vertices before after (newest ++ newer) where
  sound := further.sound
  stack_eq := by rw [further.stack_eq, extension.stack_eq, List.append_assoc]
  entered vertex isEntered := further.entered vertex (extension.entered vertex isEntered)
  indexOf_eq vertex isEntered :=
    (further.indexOf_eq vertex (extension.entered vertex isEntered)).trans
      (extension.indexOf_eq vertex isEntered)
  lowOf_eq vertex isEntered :=
    (further.lowOf_eq vertex (extension.entered vertex isEntered)).trans
      (extension.lowOf_eq vertex isEntered)
  length_le := Nat.le_trans extension.length_le further.length_le
  newer_le vertex occurs := by
    rcases List.mem_append.mp occurs with isNewest | isNewer
    · exact Nat.le_trans extension.length_le (further.newer_le vertex isNewest)
    · have onStack : vertex ∈ middle.stack := by
        rw [extension.stack_eq]
        exact List.mem_append_left _ isNewer
      rw [further.indexOf_eq vertex (extension.sound.of_mem_stack onStack)]
      exact extension.newer_le vertex isNewer

/-- Lowering what was found from a vertex that is entered later changes nothing else. -/
theorem Extends.lower (extension : Extends successors vertices before walk newer)
    (new : before.isEntered vertex = false) (number : Nat) :
    Extends successors vertices before (walk.lower vertex number) newer where
  sound :=
    { known := extension.sound.known
      keys_nodup := extension.sound.keys_nodup
      entered_iff := extension.sound.entered_iff
      apart := extension.sound.apart
      sorted := extension.sound.sorted
      indexOf_lt := extension.sound.indexOf_lt
      condensed := extension.sound.condensed }
  stack_eq := extension.stack_eq
  entered := extension.entered
  indexOf_eq := extension.indexOf_eq
  lowOf_eq other isEntered := by
    have differs : other ≠ vertex := by
      rintro rfl
      simp [new] at isEntered
    rw [Walk.lowOf_lower_other differs]
    exact extension.lowOf_eq other isEntered
  length_le := extension.length_le
  newer_le := extension.newer_le

/-! ## Visiting a vertex -/

theorem Sound.enter (sound : Sound successors vertices before)
    (new : before.isEntered vertex = false) (known : vertex ∈ vertices) :
    Sound successors vertices (before.enter vertex) where
  known other isEntered := by
    rcases Walk.isEntered_enter.mp isEntered with rfl | old
    · exact known
    · exact sound.known other old
  keys_nodup := by
    rw [Walk.keys_index_enter new]
    refine List.nodup_append'.mpr ⟨sound.keys_nodup, List.nodup_singleton vertex, ?_⟩
    exact List.disjoint_singleton.mpr (Walk.not_mem_keys_index new)
  entered_iff other := by
    rw [Walk.isEntered_enter, sound.entered_iff other]
    simp [Walk.enter, or_assoc]
  apart := by
    have notComplete : vertex ∉ before.components.flatten := fun occurs => by
      simp [(sound.entered_iff vertex).mpr (Or.inr occurs)] at new
    exact List.disjoint_cons_left.mpr ⟨notComplete, sound.apart⟩
  sorted := by
    have differs (other : Vertex) (occurs : other ∈ before.stack) : other ≠ vertex := by
      rintro rfl
      simp [sound.of_mem_stack occurs] at new
    refine List.pairwise_cons.mpr ⟨fun other occurs => ?_, ?_⟩
    · rw [Walk.indexOf_enter_self, Walk.indexOf_enter_other (differs other occurs)]
      exact sound.indexOf_lt other (sound.of_mem_stack occurs)
    · refine sound.sorted.imp_of_mem fun {newer older} isNewer isOlder less => ?_
      rwa [Walk.indexOf_enter_other (differs newer isNewer),
        Walk.indexOf_enter_other (differs older isOlder)]
  indexOf_lt other isEntered := by
    rw [Walk.length_index_enter new]
    by_cases same : other = vertex
    · rw [same, Walk.indexOf_enter_self]
      exact Nat.lt_succ_self _
    · rw [Walk.indexOf_enter_other same]
      have old := (Walk.isEntered_enter.mp isEntered).resolve_left same
      exact Nat.lt_succ_of_lt (sound.indexOf_lt other old)
  condensed := sound.condensed

/-- A visit begins by entering the vertex. -/
theorem visiting_enter (sound : Sound successors vertices before)
    (new : before.isEntered vertex = false) (known : vertex ∈ vertices) :
    Visiting successors vertices before (before.enter vertex) vertex [] [] where
  sound := sound.enter new known
  stack_eq := rfl
  entered other isEntered := Walk.isEntered_enter.mpr (Or.inr isEntered)
  indexOf_eq other isEntered := Walk.indexOf_enter_other fun same => by simp [same, new] at isEntered
  lowOf_eq other isEntered := Walk.lowOf_enter_other fun same => by simp [same, new] at isEntered
  length_le := by
    rw [Walk.length_index_enter new]
    exact Nat.le_succ _
  newer_le other occurs := by
    rw [List.mem_singleton.mp occurs]
    exact Nat.le_of_eq Walk.indexOf_enter_self.symm
  number := Walk.indexOf_enter_self
  strongly := by simp
  low_le := Nat.le_of_eq (Walk.lowOf_enter_self.trans Walk.indexOf_enter_self.symm)
  low_found := ⟨vertex, List.mem_cons_self, .refl,
    Walk.indexOf_enter_self.trans Walk.lowOf_enter_self.symm⟩
  explored := by simp
  seen := by simp

theorem Visiting.vertex_mem_stack
    (visiting : Visiting successors vertices before walk vertex newer looked) :
    vertex ∈ walk.stack := by
  simp [visiting.stack_eq]

theorem Visiting.mem_stack_of_before
    (visiting : Visiting successors vertices before walk vertex newer looked) {other : Vertex}
    (occurs : other ∈ before.stack) : other ∈ walk.stack := by
  simp [visiting.stack_eq, occurs]

/-- All that is on the stack has a way to the vertex that is being visited, if that held when it
was entered. -/
theorem Visiting.reaches_vertex
    (visiting : Visiting successors vertices before walk vertex newer looked)
    (reaches : ∀ other ∈ before.stack, Reaches successors other vertex) {other : Vertex}
    (occurs : other ∈ walk.stack) : Reaches successors other vertex := by
  rw [visiting.stack_eq, List.append_assoc, List.mem_append] at occurs
  rcases occurs with isNewer | isVertexOrOld
  · exact (visiting.strongly other isNewer).2
  · rcases List.mem_cons.mp isVertexOrOld with rfl | isOld
    · exact .refl
    · exact reaches other isOld

/-- Looking along an edge to a vertex that was entered before. -/
theorem Visiting.follow_entered
    (visiting : Visiting successors vertices before walk vertex newer looked)
    (new : before.isEntered vertex = false) (edge : successor ∈ successors vertex)
    (isEntered : walk.isEntered successor = true) (visit : Walk Vertex → Vertex → Walk Vertex) :
    Visiting successors vertices before (follow visit vertex walk successor) vertex newer
      (successor :: looked) := by
  by_cases onStack : successor ∈ walk.stack
  · have follow_eq : follow visit vertex walk successor =
        walk.lower vertex (walk.indexOf successor) := by
      simp [follow, isEntered, onStack]
    have low_eq : (walk.lower vertex (walk.indexOf successor)).lowOf vertex =
        min (walk.lowOf vertex) (walk.indexOf successor) := Walk.lowOf_lower_self
    have lowered {next : Vertex} (seen : Seen before walk vertex next) :
        Seen before (walk.lower vertex (walk.indexOf successor)) vertex next := by
      refine ⟨seen.1, fun occurs => ?_⟩
      rw [low_eq]
      exact Nat.le_trans (Nat.min_le_left _ _) (seen.2 occurs)
    rw [follow_eq]
    refine
      { toExtends := visiting.toExtends.lower new _
        number := visiting.number
        strongly := visiting.strongly
        low_le := low_eq ▸ Nat.le_trans (Nat.min_le_left _ _) visiting.low_le
        low_found := ?found
        explored := fun other occurs next edge => lowered (visiting.explored other occurs next edge)
        seen := ?seen }
    case found =>
      rw [low_eq]
      rcases Nat.le_total (walk.lowOf vertex) (walk.indexOf successor) with less | less
      · rw [Nat.min_eq_left less]
        exact visiting.low_found
      · rw [Nat.min_eq_right less]
        exact ⟨successor, onStack, .single edge, rfl⟩
    case seen =>
      refine List.forall_mem_cons.mpr ⟨⟨isEntered, fun _ => ?_⟩, fun next isLooked => ?_⟩
      · rw [low_eq]
        exact Nat.min_le_right _ _
      · exact lowered (visiting.seen next isLooked)
  · have follow_eq : follow visit vertex walk successor = walk := by
      simp [follow, isEntered, onStack]
    rw [follow_eq]
    refine { visiting with seen := List.forall_mem_cons.mpr ⟨⟨isEntered, fun occurs => ?_⟩,
      visiting.seen⟩ }
    exact absurd (visiting.mem_stack_of_before occurs) onStack

/-- What the visit of a successor leaves on the stack has a way to the vertex and back, since the
successor would have taken it off the stack if it had no way further down. -/
theorem Visiting.strongly_of_newest
    (visiting : Visiting successors vertices before walk vertex newer looked)
    (reaches : ∀ other ∈ before.stack, Reaches successors other vertex)
    (edge : successor ∈ successors vertex) {after : Walk Vertex} {newest : List Vertex}
    (visited : Visited successors vertices walk after successor newest) {other : Vertex}
    (isNewest : other ∈ newest) :
    Reaches successors vertex other ∧ Reaches successors other vertex := by
  obtain ⟨onward, back⟩ := visited.strongly other isNewest
  rcases visited.low with ⟨none, _⟩ | ⟨below, onStack, down, _⟩
  · simp [none] at isNewest
  · exact ⟨.head edge onward, back.trans (down.trans (visiting.reaches_vertex reaches onStack))⟩

/-- The lesser of the least numbers found from a vertex and from a successor belongs to something
that the vertex has a way to and that was on the stack before the successor was visited. -/
theorem Visiting.exists_low
    (visiting : Visiting successors vertices before walk vertex newer looked)
    (edge : successor ∈ successors vertex) {after : Walk Vertex} {newest : List Vertex}
    (visited : Visited successors vertices walk after successor newest) :
    ∃ other ∈ walk.stack, Reaches successors vertex other ∧
      after.indexOf other = min (walk.lowOf vertex) (after.lowOf successor) := by
  rcases Nat.le_total (walk.lowOf vertex) (after.lowOf successor) with less | less
  · obtain ⟨other, onStack, onward, same⟩ := visiting.low_found
    refine ⟨other, onStack, onward, ?_⟩
    rw [Nat.min_eq_left less, ← same]
    exact visited.indexOf_eq other (visiting.sound.of_mem_stack onStack)
  · rcases visited.low with ⟨_, large⟩ | ⟨other, onStack, onward, same⟩
    · have := visiting.low_le
      have := visiting.sound.indexOf_lt vertex
        (visiting.sound.of_mem_stack visiting.vertex_mem_stack)
      omega
    · exact ⟨other, onStack, .head edge onward, by rw [Nat.min_eq_right less]; exact same⟩

/-- Looking along an edge to a vertex that is visited on the way. -/
theorem Visiting.follow_new
    (visiting : Visiting successors vertices before walk vertex newer looked)
    (new : before.isEntered vertex = false)
    (reaches : ∀ other ∈ before.stack, Reaches successors other vertex)
    (edge : successor ∈ successors vertex) (isNew : walk.isEntered successor = false)
    {visit : Walk Vertex → Vertex → Walk Vertex} {newest : List Vertex}
    (visited : Visited successors vertices walk (visit walk successor) successor newest) :
    Visiting successors vertices before (follow visit vertex walk successor) vertex
      (newest ++ newer) (successor :: looked) := by
  have follow_eq : follow visit vertex walk successor =
      (visit walk successor).lower vertex ((visit walk successor).lowOf successor) := by
    simp [follow, isNew]
  rw [follow_eq]
  generalize visit walk successor = after at visited
  have isEntered : walk.isEntered vertex = true :=
    visiting.sound.of_mem_stack visiting.vertex_mem_stack
  have index_eq : after.indexOf vertex = walk.indexOf vertex := visited.indexOf_eq vertex isEntered
  have low_eq : (after.lower vertex (after.lowOf successor)).lowOf vertex =
      min (walk.lowOf vertex) (after.lowOf successor) := by
    rw [Walk.lowOf_lower_self, visited.lowOf_eq vertex isEntered]
  have ofOld {next : Vertex} (seen : Seen before walk vertex next) :
      Seen before (after.lower vertex (after.lowOf successor)) vertex next := by
    refine ⟨visited.entered next seen.1, fun occurs => ?_⟩
    have bound : min (walk.lowOf vertex) (after.lowOf successor) ≤ walk.indexOf next :=
      Nat.le_trans (Nat.min_le_left _ _) (seen.2 occurs)
    rw [low_eq]
    exact (visited.indexOf_eq next seen.1).symm ▸ bound
  have ofNew {next : Vertex} (seen : Seen walk after successor next) :
      Seen before (after.lower vertex (after.lowOf successor)) vertex next := by
    refine ⟨seen.1, fun occurs => ?_⟩
    rw [low_eq]
    exact Nat.le_trans (Nat.min_le_right _ _) (seen.2 (visiting.mem_stack_of_before occurs))
  have extension : Extends successors vertices before after (newest ++ newer ++ [vertex]) := by
    rw [List.append_assoc]
    exact visiting.toExtends.trans visited.toExtends
  refine
    { toExtends := extension.lower new _
      number := index_eq.trans visiting.number
      strongly := ?strongly
      low_le := ?low
      low_found := ?found
      explored := ?explored
      seen := ?seen }
  case strongly =>
    intro other occurs
    rcases List.mem_append.mp occurs with isNewest | isNewer
    · exact visiting.strongly_of_newest reaches edge visited isNewest
    · exact visiting.strongly other isNewer
  case low =>
    rw [low_eq]
    exact Nat.le_trans (Nat.min_le_left _ _) (index_eq.symm ▸ visiting.low_le)
  case found =>
    obtain ⟨other, onStack, onward, same⟩ := visiting.exists_low edge visited
    have kept : other ∈ after.stack := by
      rw [visited.stack_eq]
      exact List.mem_append_right _ onStack
    exact ⟨other, kept, onward, same.trans low_eq.symm⟩
  case explored =>
    intro other occurs next edge
    rcases List.mem_append.mp occurs with isNewest | isNewer
    · exact ofNew (visited.explored other isNewest next edge)
    · exact ofOld (visiting.explored other isNewer next edge)
  case seen =>
    refine List.forall_mem_cons.mpr ⟨⟨visited.enters, fun occurs => ?_⟩, fun next isLooked => ?_⟩
    · have old := visiting.sound.of_mem_stack (visiting.mem_stack_of_before occurs)
      simp [isNew] at old
    · exact ofOld (visiting.seen next isLooked)

/-! ## Leaving a vertex -/

/-- The numbers on the stack below a vertex are less than its own, and those above it greater. -/
theorem Visiting.indexOf_lt
    (visiting : Visiting successors vertices before walk vertex newer looked) {other : Vertex}
    (occurs : other ∈ before.stack) : walk.indexOf other < walk.indexOf vertex := by
  have sorted := visiting.sound.sorted
  rw [visiting.stack_eq, List.append_assoc] at sorted
  exact (List.pairwise_cons.mp (List.pairwise_append.mp sorted).2.1).1 other occurs

theorem Visiting.lt_indexOf
    (visiting : Visiting successors vertices before walk vertex newer looked) {other : Vertex}
    (occurs : other ∈ newer) : walk.indexOf vertex < walk.indexOf other := by
  have sorted := visiting.sound.sorted
  rw [visiting.stack_eq, List.append_assoc] at sorted
  exact (List.pairwise_append.mp sorted).2.2 other occurs vertex List.mem_cons_self

/-- What was found of the edges from the vertex and from all that stands above it. -/
theorem Visiting.seen_of_mem
    (visiting : Visiting successors vertices before walk vertex newer (successors vertex))
    {other : Vertex} (occurs : other ∈ newer ++ [vertex]) :
    ∀ next ∈ successors other, Seen before walk vertex next := by
  rcases List.mem_append.mp occurs with isNewer | isVertex
  · exact visiting.explored other isNewer
  · rw [List.mem_singleton.mp isVertex]
    exact visiting.seen

theorem Visiting.strongly_of_mem
    (visiting : Visiting successors vertices before walk vertex newer looked) {other : Vertex}
    (occurs : other ∈ newer ++ [vertex]) :
    Reaches successors vertex other ∧ Reaches successors other vertex := by
  rcases List.mem_append.mp occurs with isNewer | isVertex
  · exact visiting.strongly other isNewer
  · rw [List.mem_singleton.mp isVertex]
    exact ⟨.refl, .refl⟩

theorem Visiting.nodup
    (visiting : Visiting successors vertices before walk vertex newer looked) :
    walk.stack.Nodup :=
  visiting.sound.sorted.imp fun less same => by simp [same] at less

/-- If the number of a vertex is the least one found from it, then the vertex and what stands above
it are a component. -/
theorem Visiting.condensed
    (visiting : Visiting successors vertices before walk vertex newer (successors vertex))
    (first : walk.lowOf vertex = walk.indexOf vertex) :
    Condensed successors ((newer ++ [vertex]).reverse :: walk.components) := by
  have stack_eq := visiting.stack_eq
  have nodup := visiting.nodup
  rw [stack_eq] at nodup
  refine .cons (by simp) ?nodup ?apart ?mutually ?edges visiting.sound.condensed
  case nodup => exact List.nodup_reverse.mpr (List.nodup_append'.mp nodup).1
  case apart =>
    intro other occurs
    apply visiting.sound.apart
    rw [stack_eq]
    exact List.mem_append_left _ (List.mem_reverse.mp occurs)
  case mutually =>
    intro one isOne other isOther
    exact (visiting.strongly_of_mem (List.mem_reverse.mp isOne)).2.trans
      (visiting.strongly_of_mem (List.mem_reverse.mp isOther)).1
  case edges =>
    intro other occurs next edge
    obtain ⟨isEntered, bound⟩ := visiting.seen_of_mem (List.mem_reverse.mp occurs) next edge
    rcases (visiting.sound.entered_iff next).mp isEntered with onStack | isComplete
    · rw [stack_eq, List.mem_append] at onStack
      rcases onStack with inside | below
      · exact Or.inl (List.mem_reverse.mpr inside)
      · have := bound below
        have := visiting.indexOf_lt below
        omega
    · exact Or.inr isComplete

/-- Completing a component ends the visit of its first vertex. -/
theorem Visiting.complete
    (visiting : Visiting successors vertices before walk vertex newer (successors vertex))
    (first : walk.lowOf vertex = walk.indexOf vertex) :
    Visited successors vertices before (walk.complete vertex) vertex [] := by
  have stack_eq : walk.stack = newer ++ vertex :: before.stack := by simp [visiting.stack_eq]
  have nodup := visiting.nodup
  rw [visiting.stack_eq] at nodup
  have last : vertex ∉ newer := fun occurs => by
    have := visiting.lt_indexOf occurs
    omega
  have onStack {other : Vertex} (occurs : other ∈ before.stack) : other ∈ walk.stack :=
    visiting.mem_stack_of_before occurs
  rw [Walk.complete_eq stack_eq last]
  refine
    { sound := ?sound
      stack_eq := rfl
      entered := visiting.entered
      indexOf_eq := visiting.indexOf_eq
      lowOf_eq := visiting.lowOf_eq
      length_le := visiting.length_le
      newer_le := by simp
      enters := visiting.sound.of_mem_stack visiting.vertex_mem_stack
      strongly := by simp
      explored := by simp
      low := Or.inl ⟨rfl, ?low⟩ }
  case sound =>
    refine
      { known := visiting.sound.known
        keys_nodup := visiting.sound.keys_nodup
        entered_iff := fun other => (visiting.sound.entered_iff other).trans ?_
        apart := ?_
        sorted := ?_
        indexOf_lt := visiting.sound.indexOf_lt
        condensed := visiting.condensed first }
    · simp only [visiting.stack_eq, List.mem_append, List.flatten_cons, List.mem_reverse]
      tauto
    · intro other isOld isComplete
      rw [List.flatten_cons, List.mem_append, List.mem_reverse] at isComplete
      rcases isComplete with inside | isComplete
      · exact (List.nodup_append'.mp nodup).2.2 inside isOld
      · exact visiting.sound.apart (onStack isOld) isComplete
    · have sorted := visiting.sound.sorted
      rw [visiting.stack_eq] at sorted
      exact (List.pairwise_append.mp sorted).2.1
  case low => exact Nat.le_of_eq (first.trans visiting.number).symm

/-- If a smaller number than its own was found from a vertex, it has a way to a vertex below it. -/
theorem Visiting.keep
    (visiting : Visiting successors vertices before walk vertex newer (successors vertex))
    (notFirst : walk.lowOf vertex ≠ walk.indexOf vertex) :
    Visited successors vertices before walk vertex (newer ++ [vertex]) where
  toExtends := visiting.toExtends
  enters := visiting.sound.of_mem_stack visiting.vertex_mem_stack
  strongly _ occurs := visiting.strongly_of_mem occurs
  explored _ occurs := visiting.seen_of_mem occurs
  low := by
    have low_le := visiting.low_le
    obtain ⟨other, onStack, reaches, same⟩ := visiting.low_found
    rw [visiting.stack_eq, List.append_assoc, List.mem_append] at onStack
    rcases onStack with isNewer | isVertexOrOld
    · have := visiting.lt_indexOf isNewer
      omega
    · rcases List.mem_cons.mp isVertexOrOld with rfl | isOld
      · exact absurd same.symm notFirst
      · exact Or.inr ⟨other, isOld, reaches, same⟩

end Digraph

end Typeloom
