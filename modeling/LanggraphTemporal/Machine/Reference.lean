/-
# Machine.Reference -- settings on the reference LangGraph

The graphs that the runs of `Properties` are made on: nodes with their trigger
channels, an input channel `in`, a single-value channel `x`, and for every node
its branch channel.
-/
import LanggraphTemporal.Machine.Trees
import LanggraphTemporal.Model.Reference

namespace LanggraphTemporal.Machine

set_option autoImplicit false

open Theory Model

namespace Reference

/-- A graph with these nodes, each with its trigger channels. -/
def graph (nodes : List (String × List String)) : Pregel Channel where
  name := "graph"
  nodes := Dict.ofList (nodes.map fun n => (n.1, { triggers := n.2 }))
  channels := Dict.ofList ([("in", .ephemeral none), ("x", .lastValue none)] ++
    nodes.map fun n => (branchTo n.1, .ephemeral none))
  inputChannels := "in"

/-- An environment in which one graph is registered. -/
def env (g : Pregel Channel) : Env Channel where
  lg := reference
  registry ref := if ref = g.name then some g else none
  pyStr _ := ""
  workflowId := "workflow"
  taskQueue := "queue"

/-- One run of such a graph, with its interrupt settings. -/
def setting (nodes : List (String × List String)) (before after : Option InterruptNodes) :
    Setting Channel where
  env := env (graph nodes)
  graph := graph nodes
  input :=
    { graphDefinitionRef := "graph", inputData := some (.int 0), interruptBefore := before,
      interruptAfter := after }
  registered := rfl

/-- What a scheduled node returns. -/
def pulled (node : String) (writes : List (String × PyVal)) : NodeActivityOutput where
  nodeName := node
  writes := writes
  taskPath := [.str "__pregel_pull", .str node]

/-- What a node that a Send or a goto has started returns. -/
def pushed (node : String) (writes : List (String × PyVal)) : NodeActivityOutput where
  nodeName := node
  writes := writes
  taskPath := [.str node, .str "push"]

/-- `Command(goto=goto)` -/
def going (goto : PyVal) (r : NodeActivityOutput) : NodeActivityOutput :=
  { r with command := some ⟨goto, .none, .none⟩ }

/-- The output of a node that called `interrupt()`. -/
def asking (question : String) (r : NodeActivityOutput) : NodeActivityOutput :=
  { r with interrupts := [⟨.str question, question⟩] }

/-- An output with one tool call for a sub-agent. -/
def delegating (r : NodeActivityOutput) : NodeActivityOutput :=
  { r with childWorkflowRequests := [{ subagentType := some "researcher", toolCallId := some "call" }] }

/-- The history of a run on a script. -/
def history (S : Setting Channel) (script : List (Action Response Signal)) : List Event :=
  runHistory S none (fun _ => "") script

/-! ## A graph in a graph -/

/-- A graph that asks. -/
def inner : Pregel Channel := { graph [("ask", ["in"])] with name := "inner" }

/-- A graph whose one node is bound to it. -/
def outer : Pregel Channel :=
  { graph [("sub", ["in"])] with nodes := Dict.ofList [("sub", ⟨["in"], some (.pregel "inner")⟩)] }

/-- One run of the outer graph. -/
def outerSetting (useWorkerAffinity : Bool) : Setting Channel where
  env := env outer
  graph := outer
  input := { graphDefinitionRef := "graph", inputData := some (.int 0), useWorkerAffinity }
  registered := rfl

/-- The call of its node, when no hex digits are drawn. -/
def innerCall : ChildCall :=
  LangGraphWorkflow.subgraphCall (env outer) ⟨"sub", [.str "__pregel_pull", .str "sub"]⟩ "inner_"
    (Dict.ofList [("in", .int 0)])

/-- What the child runs in. -/
def innerSetting : Setting Channel where
  env := { env inner with
    registry := fun ref => if ref = "inner_" then some inner else none
    workflowId := innerCall.id }
  graph := inner
  input := innerCall.input
  registered := rfl

/-- A workflow that has just begun. -/
def launched (S : Setting Channel) : Workflow none Channel := .begin S (fun _ => "") []

/-- A workflow starts the child, on any graph, once it waits for it. -/
theorem child_reachable {root S : Setting Channel} {parent : Workflow none Channel}
    (before : (treeMachine none root).Reachable [parent])
    (asks : .executeChildWorkflow innerCall ∈ parent.requests)
    (started : .subgraphStarted "sub" innerCall ∈ historyOf parent.outcome)
    (other : parent.workflowId ≠ innerCall.id) (input : S.input = innerCall.input)
    (named : S.env.workflowId = innerCall.id) :
    (treeMachine none root).Reachable [launched S, parent] := by
  have awaits : AwaitsChild parent innerCall := ⟨asks, "sub", started⟩
  refine .step before (.child (List.mem_singleton_self _) awaits input named ?_ _ _)
  intro wf member same
  rw [List.mem_singleton.mp member] at same
  exact absurd same other

theorem inner_reachable {root : Setting Channel} {parent : Workflow none Channel}
    (before : (treeMachine none root).Reachable [parent])
    (asks : parent.requests[0]? = some (.executeChildWorkflow innerCall))
    (started : .subgraphStarted "sub" innerCall ∈ historyOf parent.outcome)
    (other : parent.workflowId ≠ innerCall.id) :
    (treeMachine none root).Reachable [launched innerSetting, parent] :=
  child_reachable before (List.mem_of_getElem? asks) started other rfl rfl

/-- The child has returned. -/
def innerDone : Workflow none Channel :=
  (launched innerSetting).act (.answer 0 (.output (pulled "ask" [("x", .int 1)])))

end Reference

end LanggraphTemporal.Machine
