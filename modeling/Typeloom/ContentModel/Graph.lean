import Typeloom.ContentModel.Components
import Typeloom.ContentModel.Expression

/-!
# Transition graphs

The graph of an expression has a source, a sink and the elements as vertices.  Its paths from the
source to the sink run through the sequences of elements that the expression admits.
-/

namespace Typeloom

inductive Vertex where
  | source
  | element (element : Element)
  | sink
deriving DecidableEq, Repr, Inhabited

def Vertex.name : Vertex → String
  | .source => "#source"
  | .element item => item.name
  | .sink => "#sink"

structure Graph where
  vertices : List Vertex
  /-- The vertices to which edges lead from each vertex. -/
  edges : Table Vertex (List Vertex)
deriving Repr, Inhabited

namespace Graph

def verticesOf (expression : Expression) : List Vertex :=
  .source :: expression.elements.map .element ++ [.sink]

/-- The vertices to which edges lead from a vertex, for an expression of which all is known. -/
def targetsOf (profile : Expression.Profile) : Vertex → List Vertex
  | .source => profile.first.map .element ++ (if profile.nullable then [.sink] else [])
  | .element item =>
      (profile.follow item).map .element ++
        (if profile.last.contains item then [.sink] else [])
  | .sink => []

def ofExpression (expression : Expression) : Graph :=
  let profile := expression.profile
  let vertices := verticesOf expression
  { vertices, edges := Digraph.tabulate vertices (targetsOf profile) }

def successors (graph : Graph) (vertex : Vertex) : List Vertex :=
  (Table.get? graph.edges vertex).getD []

/-- The components of a graph, so that no edge leads to an earlier one. -/
def components (graph : Graph) : List (List Vertex) :=
  Digraph.components graph.successors graph.vertices

/-- Whether the vertices of a component can repeat. -/
def isCyclic (graph : Graph) : List Vertex → Bool
  | [] => false
  | [vertex] => (graph.successors vertex).contains vertex
  | _ => true

def renderVertex (graph : Graph) (vertex : Vertex) : String :=
  let targets := ", ".intercalate ((graph.successors vertex).map Vertex.name)
  if targets.isEmpty then vertex.name ++ " ->" else vertex.name ++ " -> " ++ targets

/-- A component that can repeat in one line. -/
def renderLoop (component : List Vertex) : String :=
  "loop: " ++ " ".intercalate (component.map Vertex.name)

/-- A graph as a text: a line for every vertex and one for every component that can repeat. -/
def render (graph : Graph) : String :=
  let edges := graph.vertices.map graph.renderVertex
  let loops := (graph.components.filter graph.isCyclic).map renderLoop
  "\n".intercalate (edges ++ loops)

end Graph

end Typeloom
