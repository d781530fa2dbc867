import Mathlib.Data.Set.Finite.Basic
import Mathlib.Data.Finset.Card

/-!
# Breadth first search

A search that always visits the first node of a queue which it has not visited yet, and puts the
targets of a node at the end of the queue, visits the nodes level by level.  It visits what can be
reached from the queue, and it ends if that is finite.
-/

namespace Typeloom

namespace Search

variable {Node : Type} [DecidableEq Node]

/-- The nodes of a list that are not seen yet, each of them once, in the order of the list. -/
def fresh (seen found : List Node) : List Node :=
  (found.filter (· ∉ seen)).eraseDups

/-- An order in which nodes are visited breadth first: after a level come the targets of its nodes,
in their order, as far as they are not seen yet. -/
inductive BreadthFirst (targets : Node → List Node) : List Node → List Node → List Node → Prop where
  | done {seen : List Node} : BreadthFirst targets seen [] []
  | level {seen level order : List Node} : level ≠ [] →
      BreadthFirst targets (seen ++ level) (fresh (seen ++ level) (level.flatMap targets)) order →
      BreadthFirst targets seen level (level ++ order)

/-- A search with a queue visits nodes in an order: as long as there is one, the first node of the
queue that is not visited yet, whose targets are then appended to the queue. -/
inductive Visits (targets : Node → List Node) : List Node → List Node → List Node → Prop where
  | done {visited queue : List Node} : (∀ node ∈ queue, node ∈ visited) →
      Visits targets visited queue []
  | visit {visited queue order : List Node} {node : Node} :
      queue.find? (· ∉ visited) = some node →
      Visits targets (visited ++ [node]) (queue ++ targets node) order →
      Visits targets visited queue (node :: order)

/-! ## Fresh nodes -/

theorem fresh_nil (seen : List Node) : fresh seen [] = [] := rfl

theorem nil_fresh (found : List Node) : fresh [] found = found.eraseDups := by
  simp [fresh]

theorem filter_append_seen (seen more found : List Node) :
    found.filter (· ∉ seen ++ more) = (found.filter (· ∉ seen)).filter (· ∉ more) := by
  rw [List.filter_filter]
  congr 1
  funext node
  simp [not_or, Bool.and_comm]

theorem fresh_cons_of_mem {seen found : List Node} {node : Node} (isSeen : node ∈ seen) :
    fresh seen (node :: found) = fresh seen found := by
  simp [fresh, isSeen]

theorem fresh_cons_of_not_mem {seen found : List Node} {node : Node} (unseen : node ∉ seen) :
    fresh seen (node :: found) = node :: fresh (seen ++ [node]) found := by
  have others : (found.filter (· ∉ seen)).filter (fun other => !other == node) =
      found.filter (· ∉ seen ++ [node]) := by
    rw [filter_append_seen]
    congr 1
    funext other
    by_cases same : other = node <;> simp [same]
  rw [fresh, List.filter_cons_of_pos (by simpa using unseen), List.eraseDups_cons, others, fresh]

/-! ## The order of a search -/

section Visits

variable {targets : Node → List Node} {visited queue order : List Node}

/-- Only the nodes of the queue that are not visited yet matter. -/
theorem Visits.congr {queue' : List Node} (visits : Visits targets visited queue order)
    (same : queue.filter (· ∉ visited) = queue'.filter (· ∉ visited)) :
    Visits targets visited queue' order := by
  induction visits generalizing queue' with
  | @done visited queue all =>
      refine .done fun node occurs => ?_
      have nothing : queue.filter (· ∉ visited) = [] := by simpa using all
      rw [nothing, eq_comm] at same
      simpa using List.filter_eq_nil_iff.mp same node occurs
  | @visit visited queue order node next _ ih =>
      refine Visits.visit ?_ (ih ?_)
      · rw [← List.head?_filter, ← same, List.head?_filter]
        exact next
      · simp only [filter_append_seen, List.filter_append, same]

theorem Visits.nil_of_subset (visits : Visits targets visited queue order)
    (all : ∀ node ∈ queue, node ∈ visited) : order = [] := by
  cases visits with
  | done => rfl
  | visit next =>
      have occurs := List.mem_of_find?_eq_some next
      have unvisited := List.find?_some next
      simp [all _ occurs] at unvisited

/-- A search visits the fresh nodes at the front of its queue first. -/
theorem Visits.front {front rest : List Node}
    (visits : Visits targets visited (front ++ rest) order) :
    ∃ later, order = fresh visited front ++ later ∧
      Visits targets (visited ++ fresh visited front)
        (rest ++ (fresh visited front).flatMap targets) later := by
  induction front generalizing visited rest order with
  | nil => exact ⟨order, rfl, by simpa [fresh_nil] using visits⟩
  | cons node front ih =>
      by_cases isVisited : node ∈ visited
      · rw [fresh_cons_of_mem isVisited]
        exact ih (visits.congr (by simp [isVisited]))
      · rw [fresh_cons_of_not_mem isVisited]
        cases visits with
        | done all => exact absurd (all node (by simp)) isVisited
        | @visit _ _ order first next visits =>
            obtain rfl : node = first := by simpa [isVisited] using next
            have shorter :
                Visits targets (visited ++ [node]) (front ++ (rest ++ targets node)) order :=
              visits.congr (by simp)
            obtain ⟨later, rfl, afterwards⟩ := ih shorter
            exact ⟨later, rfl, by simpa using afterwards⟩

/-- A search visits nodes breadth first. -/
theorem Visits.breadthFirst (visits : Visits targets visited queue order) :
    BreadthFirst targets visited (fresh visited queue) order := by
  -- What remains of the order after a level is the order of a search that begins after it.
  induction lengthEq : order.length using Nat.strong_induction_on
    generalizing visited queue order with
  | _ length ih =>
      have split : Visits targets visited (queue ++ []) order := by simpa using visits
      obtain ⟨later, rfl, afterwards⟩ := split.front
      by_cases nothing : fresh visited queue = []
      · have ends : later = [] := afterwards.nil_of_subset (by simp [nothing])
        rw [nothing, ends]
        exact .done
      · have positive : 0 < (fresh visited queue).length := List.length_pos_iff.mpr nothing
        refine .level nothing (ih later.length ?_ afterwards rfl)
        rw [← lengthEq, List.length_append]
        omega

/-! ## What a search visits -/

theorem Visits.unvisited (visits : Visits targets visited queue order) :
    ∀ node ∈ order, node ∉ visited := by
  induction visits with
  | done => simp
  | visit next _ ih =>
      intro other occurs
      rcases List.mem_cons.mp occurs with rfl | later
      · simpa using List.find?_some next
      · exact fun isVisited => ih other later (List.mem_append_left _ isVisited)

theorem Visits.nodup (visits : Visits targets visited queue order) : order.Nodup := by
  induction visits with
  | done => exact List.nodup_nil
  | visit _ visits ih =>
      refine List.nodup_cons.mpr ⟨?_, ih⟩
      exact fun again => visits.unvisited _ again (by simp)

theorem Visits.of_mem_queue (visits : Visits targets visited queue order) {node : Node}
    (occurs : node ∈ queue) : node ∈ visited ++ order := by
  induction visits with
  | done all => simpa using all node occurs
  | visit _ _ ih => simpa using ih (List.mem_append_left _ occurs)

/-- With a node its targets are visited. -/
theorem Visits.of_mem_targets (visits : Visits targets visited queue order) {node target : Node}
    (occurs : node ∈ order) (isTarget : target ∈ targets node) : target ∈ visited ++ order := by
  induction visits with
  | done => simp at occurs
  | visit _ visits ih =>
      rcases List.mem_cons.mp occurs with rfl | later
      · simpa using visits.of_mem_queue (List.mem_append_right _ isTarget)
      · simpa using ih later

/-- A property of the nodes of the queue that passes from nodes to their targets is one of all
nodes that are visited. -/
theorem Visits.of_mem {property : Node → Prop} (visits : Visits targets visited queue order)
    (ofQueue : ∀ node ∈ queue, property node)
    (ofTargets : ∀ node, property node → ∀ target ∈ targets node, property target) :
    ∀ node ∈ order, property node := by
  induction visits with
  | done => simp
  | @visit visited queue order node next _ ih =>
      have first : property node := ofQueue node (List.mem_of_find?_eq_some next)
      have rest : ∀ other ∈ order, property other := by
        apply ih
        intro other occurs
        rcases List.mem_append.mp occurs with old | isTarget
        · exact ofQueue other old
        · exact ofTargets node first other isTarget
      simpa using ⟨first, rest⟩

end Visits

/-- A search ends if the nodes that it can come to are within a finite set. -/
theorem exists_visits {targets : Node → List Node} {bound : Set Node} (finite : bound.Finite)
    (ofTargets : ∀ node ∈ bound, ∀ target ∈ targets node, target ∈ bound)
    (visited queue : List Node) (ofQueue : ∀ node ∈ queue, node ∈ bound) :
    ∃ order, Visits targets visited queue order := by
  -- With every visit, fewer nodes of the finite set remain unvisited.
  induction remainingEq : (finite.toFinset \ visited.toFinset).card using Nat.strong_induction_on
    generalizing visited queue with
  | _ remaining ih =>
      cases next : queue.find? (· ∉ visited) with
      | none => exact ⟨[], .done (by simpa using next)⟩
      | some node =>
          have inBound : node ∈ bound := ofQueue node (List.mem_of_find?_eq_some next)
          have unvisited : node ∉ visited := by simpa using List.find?_some next
          have fewer : (finite.toFinset \ (visited ++ [node]).toFinset).card < remaining := by
            rw [← remainingEq]
            refine Finset.card_lt_card (Finset.ssubset_iff_of_subset ?_ |>.mpr ⟨node, ?_, ?_⟩)
            · intro other
              simp only [List.toFinset_append, Finset.mem_sdiff, Finset.mem_union, not_or]
              tauto
            · simp [inBound, unvisited]
            · simp
          have ofLonger : ∀ other ∈ queue ++ targets node, other ∈ bound := by
            intro other occurs
            rcases List.mem_append.mp occurs with old | isTarget
            · exact ofQueue other old
            · exact ofTargets node inBound other isTarget
          obtain ⟨order, visits⟩ :=
            ih _ fewer (visited ++ [node]) (queue ++ targets node) ofLonger rfl
          exact ⟨node :: order, .visit next visits⟩

end Search

end Typeloom
