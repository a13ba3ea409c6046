import Reckoner.Task.Basic
import Std.Data.TreeSet

/-!
# Dependency graphs

The tasks of one expression, each with the tasks it depends on. A graph has no task twice, no
dependency outside it, and no cycle. Its edges lead from a dependency to its consumer; a task that
lists a dependency twice has two edges from it.
-/

namespace Reckoner

namespace TaskGraph

structure Node where
  id : TaskId
  dependencies : List TaskId
deriving DecidableEq, Repr

end TaskGraph

structure TaskGraph where
  nodes : List TaskGraph.Node
deriving Repr

namespace TaskGraph

/-! ## Order -/

/-- Nodes whose dependencies have all been placed before them, and nodes that wait, latest first. -/
structure Sweep where
  placed : Std.TreeSet TaskId
  order : List TaskId
  waiting : List Node

def Sweep.step (s : Sweep) (n : Node) : Sweep :=
  if n.dependencies.all s.placed.contains then
    { s with placed := s.placed.insert n.id, order := n.id :: s.order }
  else { s with waiting := n :: s.waiting }

/-- Sweeps over the waiting nodes until all are placed; none if a sweep places no node. -/
def place? : (sweeps : Nat) → Sweep → Option (List TaskId)
  | _, ⟨_, order, []⟩ => some order.reverse
  | 0, _ => none
  | sweeps + 1, s => place? sweeps (s.waiting.reverse.foldl Sweep.step { s with waiting := [] })

/-- The nodes in an order in which dependencies precede their consumers, if there is one. -/
def order? (nodes : List Node) : Option (List TaskId) :=
  place? nodes.length ⟨∅, [], nodes.reverse⟩

/-! ## Making graphs -/

def firstRepeated? (seen : Std.TreeSet TaskId) : List Node → Option TaskId
  | [] => none
  | n :: rest => if seen.contains n.id then some n.id else firstRepeated? (seen.insert n.id) rest

/-- The first dependency outside the nodes, and its consumer. -/
def firstUnknown? (nodes : List Node) : Option (TaskId × TaskId) :=
  let known : Std.TreeSet TaskId := .ofList (nodes.map Node.id)
  nodes.findSome? fun n => (n.dependencies.find? fun d => !known.contains d).map fun d => (n.id, d)

def ofTasks (tasks : List Task) : Except Fault TaskGraph :=
  let nodes := tasks.map fun t => (⟨t.id, t.dependencies⟩ : Node)
  match firstRepeated? ∅ nodes with
  | some id => .error (.invalid (.repeatedTask id))
  | none =>
    match firstUnknown? nodes with
    | some (id, dependency) => .error (.invalid (.unknownDependency id dependency))
    | none => if (order? nodes).isSome then .ok ⟨nodes⟩ else .error (.invalid .cycle)

/-! ## Reading graphs -/

def taskIds (g : TaskGraph) : List TaskId := g.nodes.map Node.id

def taskCount (g : TaskGraph) : Nat := g.nodes.length

def dependencies (g : TaskGraph) : List TaskId := g.nodes.flatMap Node.dependencies

def dependencyCount (g : TaskGraph) : Nat := g.dependencies.length

def contains (g : TaskGraph) (id : TaskId) : Bool := g.taskIds.contains id

def dependents (g : TaskGraph) (id : TaskId) : List TaskId :=
  g.nodes.flatMap fun n => (n.dependencies.filter (· == id)).map fun _ => n.id

def sinks (g : TaskGraph) : List TaskId :=
  let consumed : Std.TreeSet TaskId := .ofList g.dependencies
  g.taskIds.filter fun id => !consumed.contains id

def root (g : TaskGraph) : Option TaskId :=
  match g.sinks with
  | [id] => some id
  | _ => none

/-- Whether there is one sink and every other task has exactly one consumer. -/
def isTree (g : TaskGraph) : Bool :=
  match g.root with
  | none => false
  | some root =>
    let consumed := g.dependencies
    g.taskIds.all fun id => consumed.count id == if id = root then 0 else 1

def topologicalOrder (g : TaskGraph) : Except Fault (List TaskId) :=
  match order? g.nodes with
  | some order => .ok order
  | none => .error (.invalid .cycle)

def summary (g : TaskGraph) : String :=
  s!"TaskGraph \x7b tasks: {g.taskCount}, dependencies: {g.dependencyCount} \x7d"

end TaskGraph

end Reckoner
