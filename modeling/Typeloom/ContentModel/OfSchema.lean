import Typeloom.ContentModel.Graph
import Typeloom.Schema.Library

/-!
# Content models of schemas

The content model of an object runs through its properties in the order of their declarations,
those of the base first.  A property that is not required may be missing, and one that holds an
array may repeat.  A base that is already on the chain of bases adds nothing.
-/

namespace Typeloom

namespace ContentModel

def ofProperty (property : Property Node) : Expression :=
  let item := Expression.element ⟨0, property.name⟩
  let repeated (minItems : Json) : Expression :=
    let several := Expression.oneOrMore item
    if minItems.isTruthy then several else several.optional
  let content :=
    match property.type with
    | .array _ _ minItems => repeated minItems
    | .tuple _ _ minItems => repeated minItems
    | _ => item
  if property.required then content else content.optional

def ofBody (body : Body Node) : Expression :=
  Expression.sequenceOf (body.properties.map ofProperty)

/-- The expression for a node; `visiting` holds the places of the nodes that are derived from it.
The first number bounds the length of the chain of bases. -/
def ofNode (library : Library) : Nat → List Address → Address → Node → Except Fault Expression
  | 0, _, _, _ => .ok .epsilon
  | depth + 1, visiting, address, node =>
      if visiting.contains address then .ok .epsilon
      else
        match node with
        | .object body => .ok (ofBody body)
        | .allOf _ base extension => do
            let inherited ←
              match base with
              | none => pure Expression.epsilon
              | some reference =>
                  match ← library.resolve address.document reference with
                  | none => pure Expression.epsilon
                  | some target =>
                      ofNode library depth (address :: visiting) target.address target.node
            let added := (extension.map ofBody).getD .epsilon
            return Expression.sequenceOf [inherited, added]
        | _ => .ok .epsilon

/-- The content model of a root or definition, with its elements numbered from left to right. -/
def ofNamed (library : Library) (named : NamedNode) : Except Fault Expression := do
  let bound := library.namedNodes.length + 1
  return (← ofNode library bound [] named.address named.node).numbered

def dumpNamed (library : Library) (named : NamedNode) : Except Fault String := do
  let expression ← ofNamed library named
  return "Graph for " ++ named.name ++ "\n" ++ expression.render ++ "\n" ++
    (Graph.ofExpression expression).render ++ "\n\n"

/-- The content models of all roots and definitions that describe objects, any of which may turn
out not to exist. -/
def pieces (library : Library) : List (Except Fault String) :=
  (library.namedNodes.filter (·.node.isObject)).map (dumpNamed library)

end ContentModel

end Typeloom
