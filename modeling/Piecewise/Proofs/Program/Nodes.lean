import Piecewise.Program.Basic

/-!
# The nodes of a program

A program is a tree of nodes, each with a span: the program, its declarations, their parameters,
types and bodies, branches, and expressions. Something that is said of a span and of the spans of
the parts directly in it, in the order of the source, is said of all nodes here.
-/

namespace Piecewise

variable {N M : Span → List Span → Prop}

/-- Every node of an expression has the property. -/
inductive Expr.Nodes (N : Span → List Span → Prop) : Expr → Prop
  | boolean {span : Span} {value : Bool} (node : N span []) : Nodes N (.boolean span value)
  | number {span : Span} {value : Float} (node : N span []) : Nodes N (.number span value)
  | text {span : Span} {value : String} (node : N span []) : Nodes N (.text span value)
  | identifier {span : Span} {name : String} (node : N span []) : Nodes N (.identifier span name)
  | call {span : Span} {callee : String} {arguments : List Expr}
      (node : N span (arguments.map Expr.span)) (parts : ∀ e ∈ arguments, Nodes N e) :
      Nodes N (.call span callee arguments)
  | unary {span : Span} {op : UnaryOp} {operand : Expr} (node : N span [operand.span])
      (part : Nodes N operand) : Nodes N (.unary span op operand)
  | binary {span : Span} {op : BinaryOp} {left right : Expr}
      (node : N span [left.span, right.span]) (first : Nodes N left) (second : Nodes N right) :
      Nodes N (.binary span op left right)
  | conditional {span : Span} {condition whenTrue whenFalse : Expr}
      (node : N span [condition.span, whenTrue.span, whenFalse.span]) (test : Nodes N condition)
      (first : Nodes N whenTrue) (second : Nodes N whenFalse) :
      Nodes N (.conditional span condition whenTrue whenFalse)
  | list {span : Span} {elements : List Expr} (node : N span (elements.map Expr.span))
      (parts : ∀ e ∈ elements, Nodes N e) : Nodes N (.list span elements)

inductive TypeExpr.Nodes (N : Span → List Span → Prop) : TypeExpr → Prop
  | primitive {span : Span} {name : PrimitiveType} (node : N span []) :
      Nodes N (.primitive span name)
  | list {span : Span} {element : TypeExpr} (node : N span [element.span])
      (part : Nodes N element) : Nodes N (.list span element)
  | function {span : Span} {inputs : List TypeExpr} {output : TypeExpr}
      (node : N span (inputs.map TypeExpr.span ++ [output.span]))
      (parts : ∀ t ∈ inputs, Nodes N t) (last : Nodes N output) :
      Nodes N (.function span inputs output)

structure Param.Nodes (N : Span → List Span → Prop) (p : Param) : Prop where
  node : N p.span [p.type.span]
  type : p.type.Nodes N

structure Branch.Nodes (N : Span → List Span → Prop) (b : Branch) : Prop where
  node : N b.span [b.guard.span, b.action.span]
  guard : b.guard.Nodes N
  action : b.action.Nodes N

/-- Every node of a body has the property. A body that is one expression is no node of its own. -/
inductive Body.Nodes (N : Span → List Span → Prop) : Body → Prop
  | inline {value : Expr} (part : value.Nodes N) : Nodes N (.inline value)
  | piecewise {span : Span} {branches : List Branch} {otherwise : Expr}
      (node : N span (branches.map Branch.span ++ [otherwise.span]))
      (parts : ∀ b ∈ branches, b.Nodes N) (last : otherwise.Nodes N) :
      Nodes N (.piecewise span branches otherwise)

structure Declaration.Nodes (N : Span → List Span → Prop) (d : Declaration) : Prop where
  node : N d.span (d.parameters.map Param.span ++ [d.returns.span, d.body.span])
  parameters : ∀ p ∈ d.parameters, p.Nodes N
  returns : d.returns.Nodes N
  body : d.body.Nodes N

structure Program.Nodes (N : Span → List Span → Prop) (p : Program) : Prop where
  node : N p.span (p.declarations.map Declaration.span)
  declarations : ∀ d ∈ p.declarations, d.Nodes N

theorem Expr.Nodes.root {e : Expr} (k : e.Nodes N) : ∃ parts, N e.span parts := by
  cases k with
  | boolean node | number node | text node | identifier node | call node | unary node
  | binary node | conditional node | list node => exact ⟨_, node⟩

theorem Body.Nodes.root {b : Body} (k : b.Nodes N) : ∃ parts, N b.span parts := by
  cases k with
  | inline part => exact part.root
  | piecewise node => exact ⟨_, node⟩

/-- A node that starts at a place of the given sort. -/
def Span.StartsAt (S : Position → Prop) (span : Span) (_ : List Span) : Prop := S span.start

theorem Expr.Nodes.start {S : Position → Prop} {e : Expr} (k : e.Nodes (Span.StartsAt S)) :
    S e.start := k.root.choose_spec

section Imply

variable (h : ∀ span parts, N span parts → M span parts)

include h

theorem Expr.Nodes.imply {e : Expr} (k : e.Nodes N) : e.Nodes M := by
  induction k with
  | boolean node => exact .boolean (h _ _ node)
  | number node => exact .number (h _ _ node)
  | text node => exact .text (h _ _ node)
  | identifier node => exact .identifier (h _ _ node)
  | call node _ ih => exact .call (h _ _ node) ih
  | unary node _ ih => exact .unary (h _ _ node) ih
  | binary node _ _ ih₁ ih₂ => exact .binary (h _ _ node) ih₁ ih₂
  | conditional node _ _ _ ih ih₁ ih₂ => exact .conditional (h _ _ node) ih ih₁ ih₂
  | list node _ ih => exact .list (h _ _ node) ih

theorem TypeExpr.Nodes.imply {t : TypeExpr} (k : t.Nodes N) : t.Nodes M := by
  induction k with
  | primitive node => exact .primitive (h _ _ node)
  | list node _ ih => exact .list (h _ _ node) ih
  | function node _ _ ih ih₁ => exact .function (h _ _ node) ih ih₁

theorem Body.Nodes.imply {b : Body} (k : b.Nodes N) : b.Nodes M := by
  cases k with
  | inline part => exact .inline (part.imply h)
  | piecewise node parts last =>
    refine .piecewise (h _ _ node) (fun b hb => ?_) (last.imply h)
    obtain ⟨hnode, hguard, haction⟩ := parts b hb
    exact ⟨h _ _ hnode, hguard.imply h, haction.imply h⟩

theorem Declaration.Nodes.imply {d : Declaration} (k : d.Nodes N) : d.Nodes M := by
  refine ⟨h _ _ k.node, fun p hp => ?_, k.returns.imply h, k.body.imply h⟩
  obtain ⟨hnode, htype⟩ := k.parameters p hp
  exact ⟨h _ _ hnode, htype.imply h⟩

end Imply

/-- The number of a declaration is in none of its nodes. -/
theorem Declaration.Nodes.numbered {d : Declaration} (k : d.Nodes N) (n : Nat) :
    ({ d with number := n } : Declaration).Nodes N :=
  ⟨k.node, k.parameters, k.returns, k.body⟩

theorem Program.spans_numberedFrom (p : Program) (n : Nat) :
    (p.numberedFrom n).declarations.map Declaration.span =
      p.declarations.map Declaration.span :=
  List.ext_getElem? fun i => by
    rw [numberedFrom, List.getElem?_map, List.getElem?_mapIdx, Option.map_map, List.getElem?_map]
    rfl

theorem Program.nodes_numberedFrom {p : Program} (k : ∀ d ∈ p.declarations, d.Nodes N) (n : Nat) :
    ∀ d ∈ (p.numberedFrom n).declarations, d.Nodes N := by
  intro d hd
  obtain ⟨i, hi, rfl⟩ := List.mem_mapIdx.mp hd
  exact (k _ (List.getElem_mem hi)).numbered _

end Piecewise
