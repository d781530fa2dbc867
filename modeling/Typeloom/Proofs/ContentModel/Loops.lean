import Mathlib.Data.List.Chain
import Mathlib.Data.List.Pairwise
import Typeloom.Proofs.ContentModel.Blocks
import Typeloom.Proofs.ContentModel.Components

/-!
# Loops of content models

The vertices of the graph of a content model stand in a line: each element can be followed by the
next one, and by no earlier one.  Every component of such a graph is a single vertex, the components
are found in the order of the vertices, and the loops are the elements that can follow themselves.
These are the elements of the properties that hold arrays.
-/

namespace Typeloom

namespace Digraph

open Relation

variable {Vertex : Type} {successors : Vertex → List Vertex} {vertices : List Vertex}

/-- The vertices stand in a line: an edge leads from each of them to the next one, and all edges
lead onward or back to the vertex that they come from. -/
structure InLine (successors : Vertex → List Vertex) (vertices : List Vertex) : Prop where
  nodup : vertices.Nodup
  adjacent : vertices.IsChain fun vertex next => next ∈ successors vertex
  onward : ∀ vertex ∈ vertices, ∀ next ∈ successors vertex,
    next = vertex ∨ [vertex, next].Sublist vertices

namespace InLine

theorem closed (inLine : InLine successors vertices) :
    ∀ vertex ∈ vertices, ∀ next ∈ successors vertex, next ∈ vertices := by
  intro vertex known next edge
  rcases inLine.onward vertex known next edge with rfl | behind
  · exact known
  · exact behind.subset (by simp)

/-- Each vertex has a way to all that come after it. -/
theorem pairwise_reaches (inLine : InLine successors vertices) :
    vertices.Pairwise (Reaches successors) :=
  (inLine.adjacent.imp fun _ _ edge => ReflTransGen.single edge).pairwise

theorem reaches_or (inLine : InLine successors vertices) {vertex other : Vertex}
    (known : vertex ∈ vertices) (otherKnown : other ∈ vertices) :
    Reaches successors vertex other ∨ Reaches successors other vertex := by
  let Either (earlier later : Vertex) : Prop :=
    Reaches successors earlier later ∨ Reaches successors later earlier
  have symmetric : Std.Symm Either := ⟨fun _ _ => Or.symm⟩
  have either : vertices.Pairwise Either := inLine.pairwise_reaches.imp Or.inl
  exact List.Pairwise.forall_of_forall (R := Either) (fun _ _ => Or.inl .refl) either known
    otherKnown

variable [DecidableEq Vertex]

theorem idxOf_le_of_reaches (inLine : InLine successors vertices) {vertex other : Vertex}
    (known : vertex ∈ vertices) (reaches : Reaches successors vertex other) :
    vertices.idxOf vertex ≤ vertices.idxOf other := by
  have increasing : vertices.Pairwise fun earlier later =>
      vertices.idxOf earlier < vertices.idxOf later := by
    refine List.pairwise_iff_getElem.mpr fun place later isPlace isLater less => ?_
    rwa [inLine.nodup.idxOf_getElem, inLine.nodup.idxOf_getElem]
  have within : other ∈ vertices ∧ vertices.idxOf vertex ≤ vertices.idxOf other := by
    induction reaches with
    | refl => exact ⟨known, Nat.le_refl _⟩
    | @tail middle next _ edge ih =>
        obtain ⟨isVertex, notAfter⟩ := ih
        refine ⟨inLine.closed middle isVertex next edge, ?_⟩
        rcases inLine.onward middle isVertex next edge with rfl | behind
        · exact notAfter
        · exact notAfter.trans (List.pairwise_pair.mp (increasing.sublist behind)).le
  exact within.2

theorem eq_of_reaches (inLine : InLine successors vertices) {vertex other : Vertex}
    (known : vertex ∈ vertices) (otherKnown : other ∈ vertices)
    (reaches : Reaches successors vertex other) (returns : Reaches successors other vertex) :
    vertex = other :=
  (List.idxOf_inj known).mp (Nat.le_antisymm (inLine.idxOf_le_of_reaches known reaches)
    (inLine.idxOf_le_of_reaches otherKnown returns))

theorem mem_vertices (inLine : InLine successors vertices) {component : List Vertex}
    (isComponent : component ∈ components successors vertices) {vertex : Vertex}
    (occurs : vertex ∈ component) : vertex ∈ vertices :=
  ((condensed_components_of_closed inLine.closed).2 vertex).mp
    (List.mem_flatten_of_mem isComponent occurs)

/-- Every component of a line is a single vertex. -/
theorem exists_eq_singleton (inLine : InLine successors vertices) {component : List Vertex}
    (isComponent : component ∈ components successors vertices) :
    ∃ vertex, component = [vertex] := by
  have condensed := (condensed_components_of_closed inLine.closed).1
  obtain ⟨vertex, rest, rfl⟩ :=
    List.exists_cons_of_ne_nil (condensed.nonempty component isComponent)
  refine ⟨vertex, congrArg (vertex :: ·) (List.eq_nil_iff_forall_not_mem.mpr ?_)⟩
  intro other occurs
  have isFirst : vertex ∈ vertex :: rest := List.mem_cons_self
  have isLater : other ∈ vertex :: rest := List.mem_cons_of_mem vertex occurs
  obtain ⟨reaches, returns⟩ :=
    (condensed.together_iff (List.mem_flatten_of_mem isComponent isFirst)).mp
      ⟨_, isComponent, isFirst, isLater⟩
  obtain rfl := inLine.eq_of_reaches (inLine.mem_vertices isComponent isFirst)
    (inLine.mem_vertices isComponent isLater) reaches returns
  have nodup := (List.nodup_flatten.mp condensed.nodup).1 _ isComponent
  exact (List.nodup_cons.mp nodup).1 occurs

/-- The components of a line are found in the order of its vertices. -/
theorem flatten_components (inLine : InLine successors vertices) :
    (components successors vertices).flatten = vertices := by
  obtain ⟨condensed, mem_iff⟩ := condensed_components_of_closed inLine.closed
  have ordered : (components successors vertices).flatten.Pairwise (Reaches successors) := by
    refine List.pairwise_flatten.mpr ⟨fun component isComponent => ?_, ?_⟩
    · obtain ⟨vertex, rfl⟩ := inLine.exists_eq_singleton isComponent
      exact List.pairwise_singleton _ _
    · refine condensed.pairwise_not_reaches.imp_of_mem
        fun isEarlier isLater noReturn vertex occurs other alsoOccurs => ?_
      exact (inLine.reaches_or (inLine.mem_vertices isEarlier occurs)
        (inLine.mem_vertices isLater alsoOccurs)).resolve_right
          (noReturn vertex occurs other alsoOccurs)
  refine List.Perm.eq_of_pairwise (fun vertex other occurs isVertex => ?_) ordered
    inLine.pairwise_reaches
    ((List.perm_ext_iff_of_nodup condensed.nodup inLine.nodup).mpr mem_iff)
  exact inLine.eq_of_reaches ((mem_iff vertex).mp occurs) isVertex

/-- The components of a line are its vertices, in their order. -/
theorem components_eq (inLine : InLine successors vertices) :
    components successors vertices = vertices.map fun vertex => [vertex] := by
  have single (component : List Vertex) (isComponent : component ∈ components successors vertices) :=
    inLine.exists_eq_singleton isComponent
  calc components successors vertices
    _ = (components successors vertices).flatten.map fun vertex => [vertex] := by
      generalize components successors vertices = found at single
      induction found with
      | nil => rfl
      | cons component found ih =>
          obtain ⟨⟨vertex, rfl⟩, later⟩ := List.forall_mem_cons.mp single
          exact congrArg ([vertex] :: ·) (ih later)
    _ = vertices.map fun vertex => [vertex] := by rw [inLine.flatten_components]

end InLine

end Digraph

namespace Expression

/-! ## Expressions whose elements stand in a line -/

/-- The elements of an expression stand in a line: each can be followed by the next one, and
otherwise only by itself and by later ones. -/
structure Lined (expression : Expression) : Prop where
  nullable_of_eq_nil : expression.elements = [] → expression.nullable = true
  begins : ∀ item ∈ expression.elements.head?, item ∈ expression.first
  ends : ∀ item ∈ expression.elements.getLast?, item ∈ expression.last
  adjacent : expression.elements.IsChain fun item next => next ∈ expression.follow item
  onward : ∀ item, ∀ next ∈ expression.follow item,
    next = item ∨ [item, next].Sublist expression.elements

theorem Lined.sequence {left right : Expression} (linedBefore : Lined left)
    (linedAfter : Lined right) : Lined (sequence left right) where
  nullable_of_eq_nil := by
    intro nothing
    obtain ⟨nothingBefore, nothingAfter⟩ := List.append_eq_nil_iff.mp nothing
    simp [nullable, linedBefore.nullable_of_eq_nil nothingBefore,
      linedAfter.nullable_of_eq_nil nothingAfter]
  begins := by
    intro item isFirst
    by_cases nothing : left.elements = []
    · have skips := linedBefore.nullable_of_eq_nil nothing
      have begins := linedAfter.begins item (by simpa [elements, nothing] using isFirst)
      simp [first, skips, begins]
    · have begins := linedBefore.begins item (by
        simpa [elements, List.head?_append_of_ne_nil _ nothing] using isFirst)
      cases skips : left.nullable <;> simp [first, skips, begins]
  ends := by
    intro item isLast
    by_cases nothing : right.elements = []
    · have skips := linedAfter.nullable_of_eq_nil nothing
      have ends := linedBefore.ends item (by simpa [elements, nothing] using isLast)
      simp [last, skips, ends]
    · have ends := linedAfter.ends item (by
        simpa [elements, List.getLast?_append_of_ne_nil _ nothing] using isLast)
      cases skips : right.nullable <;> simp [last, skips, ends]
  adjacent := by
    refine List.isChain_append.mpr ⟨?_, ?_, ?_⟩
    · exact linedBefore.adjacent.imp fun item next follows =>
        mem_follow_sequence.mpr (Or.inl follows)
    · exact linedAfter.adjacent.imp fun item next follows =>
        mem_follow_sequence.mpr (Or.inr (Or.inl follows))
    · intro item isLast next isFirst
      exact mem_follow_sequence.mpr
        (Or.inr (Or.inr ⟨linedBefore.ends item isLast, linedAfter.begins next isFirst⟩))
  onward := by
    intro item next follows
    rcases mem_follow_sequence.mp follows with within | within | ⟨ends, begins⟩
    · exact (linedBefore.onward item next within).imp_right fun behind =>
        behind.trans (List.sublist_append_left _ _)
    · exact (linedAfter.onward item next within).imp_right fun behind =>
        behind.trans (List.sublist_append_right _ _)
    · have isBefore := List.singleton_sublist.mpr (mem_elements_of_mem_last ends)
      have isAfter := List.singleton_sublist.mpr (mem_elements_of_mem_first begins)
      exact Or.inr (isBefore.append isAfter)

/-- Elements one after the other, each of which may be missing.  The list says for each element
whether it may repeat. -/
inductive IsLine : Expression → List Bool → Prop where
  | element (item : Element) : IsLine (element item) [false]
  | epsilon : IsLine epsilon []
  | repeated (item : Element) : IsLine (oneOrMore (element item)) [true]
  | sequence {left right : Expression} {before after : List Bool} (isBefore : IsLine left before)
      (isAfter : IsLine right after) : IsLine (sequence left right) (before ++ after)
  | optional {expression : Expression} {repeats : List Bool} (isLine : IsLine expression repeats) :
      IsLine (choice expression epsilon) repeats

namespace IsLine

variable {expression left right : Expression} {repeats before after : List Bool}

theorem append (isBefore : IsLine left before) (isAfter : IsLine right after) :
    IsLine (left.append right) (before ++ after) := by
  by_cases nothingAfter : right = .epsilon
  · subst nothingAfter
    cases isAfter
    simpa using isBefore
  by_cases nothingBefore : left = .epsilon
  · subst nothingBefore
    cases isBefore
    simpa using isAfter
  have appended : left.append right = .sequence left right := by
    cases left <;> cases right <;> first | rfl | contradiction
  rw [appended]
  exact isBefore.sequence isAfter

theorem sequenceOf {Item : Type} {items : List Item} {part : Item → Expression}
    {repeats : Item → List Bool} (isLine : ∀ item ∈ items, IsLine (part item) (repeats item)) :
    IsLine (Expression.sequenceOf (items.map part)) (items.flatMap repeats) := by
  have folded {start : Expression} {before : List Bool} (isBefore : IsLine start before) :
      IsLine ((items.map part).foldl Expression.append start)
        (before ++ items.flatMap repeats) := by
    induction items generalizing start before with
    | nil => simpa using isBefore
    | cons item items ih =>
        have extended := isBefore.append (isLine item List.mem_cons_self)
        simpa using ih (fun item later => isLine item (List.mem_cons_of_mem _ later)) extended
  exact folded .epsilon

theorem optionalOf (isLine : IsLine expression repeats) : IsLine expression.optional repeats := by
  unfold Expression.optional
  split
  · exact isLine
  · exact isLine.optional

theorem numberFrom (isLine : IsLine expression repeats) (next : Nat) :
    IsLine (expression.numberFrom next).1 repeats := by
  induction isLine generalizing next with
  | element item => exact .element _
  | epsilon => exact .epsilon
  | repeated item => exact .repeated _
  | sequence isBefore isAfter beforeIH afterIH => exact (beforeIH next).sequence (afterIH _)
  | optional isLine ih => exact (ih next).optional

theorem length_elements (isLine : IsLine expression repeats) :
    expression.elements.length = repeats.length := by
  induction isLine <;> simp_all [elements]

theorem lined (isLine : IsLine expression repeats) : Lined expression := by
  induction isLine with
  | element item => constructor <;> simp [elements, first, last, follow]
  | epsilon => constructor <;> simp [elements, nullable, follow]
  | repeated item => constructor <;> simp [elements, first, last, follow]
  | sequence isBefore isAfter linedBefore linedAfter => exact linedBefore.sequence linedAfter
  | optional isLine lined =>
      exact {
        nullable_of_eq_nil := by simp [nullable]
        begins := by simpa [elements, first] using lined.begins
        ends := by simpa [elements, last] using lined.ends
        adjacent := by simpa [elements, follow] using lined.adjacent
        onward := by simpa [elements, follow] using lined.onward }

/-- The elements of a line that can follow themselves are those that may repeat. -/
theorem mem_follow_self_iff (isLine : IsLine expression repeats)
    (distinct : expression.elements.Nodup) :
    ∀ pair ∈ expression.elements.zip repeats,
      pair.1 ∈ expression.follow pair.1 ↔ pair.2 = true := by
  induction isLine with
  | element item => simp [elements, follow]
  | epsilon => simp [elements]
  | repeated item => simp [elements, follow, first, last]
  | @sequence left right before after isBefore isAfter beforeIH afterIH =>
      obtain ⟨distinctBefore, distinctAfter, apart⟩ := List.nodup_append'.mp distinct
      rw [elements, List.zip_append isBefore.length_elements, List.forall_mem_append]
      constructor
      · rintro ⟨item, mayRepeat⟩ member
        have occurs := (List.of_mem_zip member).1
        have notBehind : item ∉ right.elements := apart occurs
        have noFollow : item ∉ right.follow item := fun follows =>
          notBehind (mem_elements_of_mem_follow follows).1
        have noFirst : item ∉ right.first := fun begins =>
          notBehind (mem_elements_of_mem_first begins)
        rw [← beforeIH distinctBefore _ member]
        simp [follow, noFollow, noFirst, apply_ite (item ∈ ·)]
      · rintro ⟨item, mayRepeat⟩ member
        have occurs := (List.of_mem_zip member).1
        have notAhead : item ∉ left.elements := fun ahead => apart ahead occurs
        have noFollow : item ∉ left.follow item := fun follows =>
          notAhead (mem_elements_of_mem_follow follows).1
        have noLast : item ∉ left.last := fun ends => notAhead (mem_elements_of_mem_last ends)
        rw [← afterIH distinctAfter _ member]
        simp [follow, noFollow, noLast]
  | optional isLine ih => simpa [elements, follow] using ih (by simpa [elements] using distinct)

end IsLine

/-- The elements of an expression are numbered in their order. -/
theorem elements_numbered (expression : Expression) :
    expression.numbered.elements =
      (expression.elements.map Element.name).zipIdx.map fun (name, number) => ⟨number, name⟩ := by
  have names := map_name_elements_numberFrom expression 0
  have numbers := (map_number_elements_numberFrom expression 0).2
  calc expression.numbered.elements
    _ = expression.numbered.elements.map fun item => ⟨item.number, item.name⟩ :=
      (List.map_id _).symm
    _ = ((expression.numbered.elements.map Element.name).zip
          (expression.numbered.elements.map Element.number)).map
            fun (name, number) => ⟨number, name⟩ := by
      rw [List.zip_map', List.map_map]
      rfl
    _ = (expression.elements.map Element.name).zipIdx.map fun (name, number) => ⟨number, name⟩ := by
      rw [numbered, names, numbers, List.zipIdx_eq_zip_range', List.length_map]

end Expression

namespace ContentModel

open Expression

theorem isLine_ofProperty (property : Property Node) :
    IsLine (ofProperty property) [property.type.minItems?.isSome] := by
  have single := IsLine.element ⟨0, property.name⟩
  have several := IsLine.repeated ⟨0, property.name⟩
  obtain ⟨info, name, type, required, default?⟩ := property
  have settled (expression : Expression) (repeats : List Bool) (isNeeded : Bool)
      (isLine : IsLine expression repeats) :
      IsLine (if isNeeded then expression else expression.optional) repeats := by
    cases isNeeded
    · exact isLine.optionalOf
    · exact isLine
  cases type with
  | array _ _ minItems => exact settled _ _ _ (settled _ _ _ several)
  | tuple _ _ minItems => exact settled _ _ _ (settled _ _ _ several)
  | _ => exact settled _ _ _ single

theorem isLine_ofBodies (bodies : List (Body Node)) :
    IsLine (ofBodies bodies)
      ((bodies.flatMap Body.properties).map fun property => property.type.minItems?.isSome) := by
  have isLine (body : Body Node) : IsLine (ofBody body)
      (body.properties.flatMap fun property => [property.type.minItems?.isSome]) :=
    IsLine.sequenceOf fun property _ => isLine_ofProperty property
  simpa [ofBodies, List.map_flatMap, ← List.map_eq_flatMap] using
    IsLine.sequenceOf fun body (_ : body ∈ bodies) => isLine body

end ContentModel

namespace Graph

open Expression

/-- The vertices of the graph of a line stand in a line. -/
theorem inLine_ofExpression {expression : Expression} (lined : Lined expression)
    (distinct : expression.elements.Nodup) :
    Digraph.InLine (ofExpression expression).successors (ofExpression expression).vertices where
  nodup := by
    have apart := distinct.map (f := Vertex.element) fun _ _ => Vertex.element.inj
    simpa [ofExpression, verticesOf, List.nodup_append] using apart
  adjacent := by
    refine List.isChain_append.mpr ⟨List.isChain_cons.mpr ⟨?begins, ?follows⟩,
      List.isChain_singleton _, ?ends⟩
    case begins =>
      simpa [element_mem_successors_source] using lined.begins
    case follows =>
      refine List.isChain_map_of_isChain Vertex.element (fun item next follows => ?_) lined.adjacent
      exact (element_mem_successors_element (mem_elements_of_mem_follow follows).1).mpr follows
    case ends =>
      intro vertex isLast next isSink
      obtain rfl : Vertex.sink = next := by simpa using isSink
      by_cases nothing : expression.elements = []
      · obtain rfl : Vertex.source = vertex := by simpa [nothing] using isLast
        exact sink_mem_successors_source.mpr (lined.nullable_of_eq_nil nothing)
      · obtain ⟨item, isLastItem, rfl⟩ :
            ∃ item ∈ expression.elements.getLast?, Vertex.element item = vertex := by
          rw [← List.singleton_append,
            List.getLast?_append_of_ne_nil _ (by simpa using nothing)] at isLast
          simpa using isLast
        exact (sink_mem_successors_element (List.mem_of_getLast? isLastItem)).mpr
          (lined.ends item isLastItem)
  onward := by
    intro vertex known next edge
    have isVertex := mem_verticesOf_of_mem_successors known edge
    cases vertex with
    | source =>
        refine (List.mem_cons.mp isVertex).imp_right fun later => ?_
        exact (List.singleton_sublist.mpr later).cons_cons _
    | sink => simp [successors_ofExpression known, targetsOf] at edge
    | element item =>
        have occurs : item ∈ expression.elements := by simpa [verticesOf, ofExpression] using known
        cases next with
        | source => simp [successors_ofExpression known, targetsOf] at edge
        | sink =>
            have isBefore : [Vertex.element item].Sublist
                (.source :: expression.elements.map Vertex.element) :=
              (List.singleton_sublist.mpr (List.mem_map_of_mem occurs)).cons _
            exact Or.inr (isBefore.append (List.Sublist.refl [Vertex.sink]))
        | element other =>
            have follows := (element_mem_successors_element occurs).mp edge
            rcases lined.onward item other follows with rfl | behind
            · exact Or.inl rfl
            · have within := (behind.map Vertex.element).cons .source
              exact Or.inr (within.trans (List.sublist_append_left _ [Vertex.sink]))
theorem isCyclic_source (expression : Expression) :
    (ofExpression expression).isCyclic [.source] = false := by
  rw [isCyclic, successors_ofExpression (by simp [verticesOf])]
  simp [targetsOf]

theorem isCyclic_sink (expression : Expression) :
    (ofExpression expression).isCyclic [.sink] = false := by
  rw [isCyclic, successors_ofExpression (by simp [verticesOf])]
  simp [targetsOf]

theorem isCyclic_element {expression : Expression} {item : Element}
    (occurs : item ∈ expression.elements) :
    (ofExpression expression).isCyclic [.element item] = true ↔ item ∈ expression.follow item := by
  rw [isCyclic, List.contains_iff_mem, element_mem_successors_element occurs]

end Graph

namespace ContentModel

open Expression

theorem elements_numbered_ofBodies (bodies : List (Body Node)) :
    (ofBodies bodies).numbered.elements =
      (bodies.flatMap Body.properties).zipIdx.map fun (property, number) =>
        ⟨number, property.name⟩ := by
  rw [elements_numbered, map_name_elements_ofBodies, List.zipIdx_map, List.map_map]
  rfl

/-- The vertices that can repeat are the elements of the properties that hold arrays. -/
theorem isCyclic_numbered_ofBodies (bodies : List (Body Node)) :
    ∀ place ∈ (bodies.flatMap Body.properties).zipIdx,
      (Graph.ofExpression (ofBodies bodies).numbered).isCyclic
        [.element ⟨place.2, place.1.name⟩] = place.1.type.minItems?.isSome := by
  intro place isPlace
  have isLine := (isLine_ofBodies bodies).numberFrom 0
  have distinct := (ofBodies bodies).nodup_elements_numbered
  have elements := elements_numbered_ofBodies bodies
  have occurs : (⟨place.2, place.1.name⟩ : Element) ∈ (ofBodies bodies).numbered.elements :=
    elements ▸ List.mem_map.mpr ⟨place, isPlace, rfl⟩
  have repeats := congrArg (List.map fun property => property.type.minItems?.isSome)
    (List.zipIdx_map_fst 0 (bodies.flatMap Body.properties))
  have paired : ((⟨place.2, place.1.name⟩, place.1.type.minItems?.isSome) : Element × Bool) ∈
      (ofBodies bodies).numbered.elements.zip
        ((bodies.flatMap Body.properties).map fun property => property.type.minItems?.isSome) := by
    rw [elements, ← repeats, List.map_map, List.zip_map']
    exact List.mem_map.mpr ⟨place, isPlace, rfl⟩
  rw [Bool.eq_iff_iff, Graph.isCyclic_element occurs]
  exact isLine.mem_follow_self_iff distinct _ paired

theorem vertices_numbered_ofBodies (bodies : List (Body Node)) :
    (Graph.ofExpression (ofBodies bodies).numbered).vertices =
      .source :: (bodies.flatMap Body.properties).zipIdx.map (fun (property, number) =>
        .element ⟨number, property.name⟩) ++ [.sink] := by
  change Graph.verticesOf _ = _
  rw [Graph.verticesOf, elements_numbered_ofBodies, List.map_map]
  rfl

theorem components_numbered_ofBodies (bodies : List (Body Node)) :
    (Graph.ofExpression (ofBodies bodies).numbered).components =
      (Graph.ofExpression (ofBodies bodies).numbered).vertices.map fun vertex => [vertex] :=
  (Graph.inLine_ofExpression ((isLine_ofBodies bodies).numberFrom 0).lined
    (ofBodies bodies).nodup_elements_numbered).components_eq

/-- There is one line for each property that holds an array. -/
theorem loops_numbered_ofBodies (bodies : List (Body Node)) :
    ((Graph.ofExpression (ofBodies bodies).numbered).components.filter
        (Graph.ofExpression (ofBodies bodies).numbered).isCyclic).map Graph.renderLoop =
      ((bodies.flatMap Body.properties).filter fun property =>
        property.type.minItems?.isSome).map fun property => "loop: " ++ property.name := by
  let graph := Graph.ofExpression (ofBodies bodies).numbered
  let places := (bodies.flatMap Body.properties).zipIdx
  have atSource : graph.isCyclic [.source] = false := Graph.isCyclic_source _
  have atSink : graph.isCyclic [.sink] = false := Graph.isCyclic_sink _
  calc (graph.components.filter graph.isCyclic).map Graph.renderLoop
    _ = (places.filter fun place => graph.isCyclic [.element ⟨place.2, place.1.name⟩]).map
          fun place => "loop: " ++ place.1.name := by
      rw [components_numbered_ofBodies, vertices_numbered_ofBodies]
      simp [List.filter_map, atSource, atSink, Function.comp_def, Graph.renderLoop, Vertex.name,
        places]
    _ = (places.filter fun place => place.1.type.minItems?.isSome).map
          fun place => "loop: " ++ place.1.name := by
      rw [List.filter_congr (isCyclic_numbered_ofBodies bodies)]
    _ = ((places.map Prod.fst).filter fun property => property.type.minItems?.isSome).map
          fun property => "loop: " ++ property.name := by
      rw [List.filter_map, List.map_map]
      rfl
    _ = _ := by rw [List.zipIdx_map_fst]

/-- The chain of bases of a root or definition ends.  If all references on the chain can be read,
every component of the graph of the content model is a single vertex, and the components are the
source, the properties of the chain, the outermost base first, and the sink, in this order.  Those
of the properties that hold arrays are the loops, and the graph is written with one line for each
of these. -/
theorem loops_ofNamed (library : Library) (named : NamedNode) :
    (∃ outcome, BaseChain library [] named.address named.node outcome) ∧
      (∀ fault, BaseChain library [] named.address named.node (.error fault) →
        ofNamed library named = .error fault) ∧
      ∀ bodies, BaseChain library [] named.address named.node (.ok bodies) →
        ∃ expression, ofNamed library named = .ok expression ∧
          let properties := bodies.flatMap Body.properties
          let graph := Graph.ofExpression expression
          graph.vertices =
              .source :: properties.zipIdx.map (fun (property, number) =>
                .element ⟨number, property.name⟩) ++ [.sink] ∧
            graph.components = graph.vertices.map (fun vertex => [vertex]) ∧
            graph.isCyclic [.source] = false ∧
            (∀ place ∈ properties.zipIdx, graph.isCyclic [.element ⟨place.2, place.1.name⟩] =
              place.1.type.minItems?.isSome) ∧
            graph.isCyclic [.sink] = false ∧
            graph.render = "\n".intercalate (graph.vertices.map graph.renderVertex ++
              (properties.filter fun property => property.type.minItems?.isSome).map
                fun property => "loop: " ++ property.name) := by
  have bounded := bounded_start library named.address
  refine ⟨bounded.exists_baseChain named.node, ?unreadable, ?readable⟩
  case unreadable => exact fun fault chain => chain.ofNamed_eq
  case readable =>
    intro bodies chain
    refine ⟨(ofBodies bodies).numbered, chain.ofNamed_eq, vertices_numbered_ofBodies bodies,
      components_numbered_ofBodies bodies, Graph.isCyclic_source _,
      isCyclic_numbered_ofBodies bodies, Graph.isCyclic_sink _, ?_⟩
    rw [Graph.render, loops_numbered_ofBodies]

end ContentModel

end Typeloom
