import Inlay.Pattern.Expr

/-!
Patterns as graphs of steps.

A node either consumes a character, tries one node and then another, marks a place of the text,
tests a condition, or accepts.  The graph of an expression is built from its end: each expression
is compiled in front of the node that goes on behind it.
-/

namespace Inlay
namespace Pattern

/-- A node of the graph; nodes refer to others by their index. -/
inductive Node where
  | step (s : CharSet) (next : Nat)
  | fork (first second : Nat)
  | mark (slot : Nat) (next : Nat)
  | test (a : Assertion) (next : Nat)
  | accept
deriving Repr, Inhabited

abbrev Graph := Array Node

/-- Adds a node, and gives its index. -/
def Graph.add (g : Graph) (n : Node) : Nat × Graph := (g.size, g.push n)

/-- The fork that goes on with a repetition or leaves it. -/
def repetitionFork (greedy : Bool) (again leave : Nat) : Node :=
  if greedy then .fork again leave else .fork leave again

/-- Compiles an expression in front of a node. -/
abbrev Compile := Nat → Graph → Nat × Graph

def copies (body : Compile) : Nat → Compile
  | 0, next, g => (next, g)
  | n + 1, next, g =>
    let (start, g) := body next g
    copies body n start g

/-- Optional copies, each of which is only tried behind the one before it. -/
def optionalCopies (body : Compile) (greedy : Bool) (leave : Nat) : Nat → Compile
  | 0, next, g => (next, g)
  | n + 1, next, g =>
    let (start, g) := body next g
    let (fork, g) := Graph.add g (repetitionFork greedy start leave)
    optionalCopies body greedy leave n fork g

/-- A loop: the index of its fork behind the body, the start of the body, and the graph. -/
def loop (body : Compile) (greedy : Bool) (leave : Nat) (g : Graph) : Nat × Nat × Graph :=
  let (fork, g) := Graph.add g .accept
  let (start, g) := body fork g
  (fork, start, g.setIfInBounds fork (repetitionFork greedy start leave))

/-- Any number of repetitions.  A body that may match nothing runs at least once when it is
entered, so that leaving the loop is tried behind it and not in its place. -/
def anyNumber (body : Compile) (consumes greedy : Bool) : Compile := fun next g =>
  let (fork, start, g) := loop body greedy next g
  if consumes then (fork, g) else Graph.add g (repetitionFork greedy start next)

def repetitions (body : Compile) (consumes : Bool) (least : Nat) (most : Option Nat)
    (greedy : Bool) : Compile := fun next g =>
  match most, least with
  | some most, _ =>
    let (start, g) := optionalCopies body greedy next (most - least) next g
    copies body least start g
  | none, 0 => anyNumber body consumes greedy next g
  | none, before + 1 =>
    let (_, start, g) := loop body greedy next g
    copies body before start g

/-- One step for each character of a text. -/
def steps (text : List Char) : Compile := fun next g =>
  text.foldr (fun c (next, g) => Graph.add g (.step (.single c) next)) (next, g)

/-- Compiles an expression in front of a node. -/
def compileExpr : Expr → Compile
  | .empty, next, g => (next, g)
  | .literal text, next, g => steps text next g
  | .set s, next, g => Graph.add g (.step s next)
  | .assert a, next, g => Graph.add g (.test a next)
  | .capture index body, next, g =>
    let (close, g) := Graph.add g (.mark (2 * index + 1) next)
    let (start, g) := compileExpr body close g
    Graph.add g (.mark (2 * index) start)
  | .concat a b, next, g =>
    let (start, g) := compileExpr b next g
    compileExpr a start g
  | .either a b, next, g =>
    let (second, g) := compileExpr b next g
    let (first, g) := compileExpr a next g
    Graph.add g (.fork first second)
  | .repeated body least most greedy, next, g =>
    repetitions (compileExpr body) body.consumes least most greedy next g

/-- A compiled pattern: its graph, where it starts, and the numbers of its named groups. -/
structure Program where
  nodes : Graph
  start : Nat
  names : List (String × Nat)
deriving Repr, Inhabited

def Parsed.compile (p : Parsed) : Program :=
  let (start, nodes) := compileExpr p.expr 0 #[.accept]
  ⟨nodes, start, p.names⟩

end Pattern
end Inlay
