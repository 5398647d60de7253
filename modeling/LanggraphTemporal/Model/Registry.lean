/-
# Model.Registry -- `GraphRegistry` of `converter.py`, one for each process

The registry is a singleton of its process, and empty when the process starts.
A reference is made when a graph is registered, of its name and of eight hex
digits of a fresh `uuid4`: a `TemporalGraph` registers its graph and keeps the
reference for the inputs of the workflows it starts; `create_worker` registers
its graph and drops the reference; a parent workflow registers a subgraph for
the time that its child runs.
-/
import LanggraphTemporal.Model.Workflow

namespace LanggraphTemporal.Model

set_option autoImplicit false

open Theory

variable {P Chan : Type}

/-- `_graphs` -/
structure GraphRegistry (Chan : Type) where
  graphs : Dict (Pregel Chan) := ∅

namespace GraphRegistry

/-- `f"{graph.name}_{uuid.uuid4().hex[:8]}"` -/
def refOf (graph : Pregel Chan) (hex : String) : String := graph.name ++ "_" ++ hex.take 8

/-- `register`, with the hex digits of the `uuid4` it draws -/
def register (registry : GraphRegistry Chan) (graph : Pregel Chan) (hex : String) :
    GraphRegistry Chan × String :=
  (⟨registry.graphs.set (refOf graph hex) graph⟩, refOf graph hex)

/-- `get`; the error is the key of a `KeyError`. -/
def get (registry : GraphRegistry Chan) (ref : String) : Except String (Pregel Chan) :=
  match registry.graphs.get? ref with
  | some graph => .ok graph
  | none => .error ref

/-- `unregister` -/
def unregister (registry : GraphRegistry Chan) (ref : String) : GraphRegistry Chan :=
  ⟨registry.graphs.filterMap fun key graph => if key = ref then none else some graph⟩

theorem get_eq_ok {registry : GraphRegistry Chan} {ref : String} {graph : Pregel Chan} :
    registry.get ref = .ok graph ↔ registry.graphs.get? ref = some graph := by
  unfold get
  cases registry.graphs.get? ref with
  | none => simp
  | some found => simp

theorem get?_register (registry : GraphRegistry Chan) (graph : Pregel Chan) (hex ref : String) :
    (registry.register graph hex).1.graphs.get? ref =
      if ref = refOf graph hex then some graph else registry.graphs.get? ref :=
  Dict.get?_set _ _ _ _

theorem get?_unregister (registry : GraphRegistry Chan) (gone ref : String) :
    (registry.unregister gone).graphs.get? ref =
      if ref = gone then none else registry.graphs.get? ref := by
  unfold unregister
  rw [Dict.get?_filterMap]
  by_cases here : ref = gone
  · rw [if_pos here]
    cases registry.graphs.get? ref <;> simp [here]
  · rw [if_neg here]
    cases registry.graphs.get? ref <;> simp [here]

end GraphRegistry

/-- A `TemporalGraph`, as far as its graph goes: `_graph_ref` is what it puts
into every workflow input. -/
structure TemporalGraph (Chan : Type) where
  graph : Pregel Chan
  graphRef : String

/-- `TemporalGraph.__init__` -/
def TemporalGraph.init (registry : GraphRegistry Chan) (graph : Pregel Chan) (hex : String) :
    GraphRegistry Chan × TemporalGraph Chan :=
  let (registry, ref) := registry.register graph hex
  (registry, ⟨graph, ref⟩)

/-- `create_worker`, as far as the registry goes -/
def createWorker (registry : GraphRegistry Chan) (graph : Pregel Chan) (hex : String) :
    GraphRegistry Chan :=
  (registry.register graph hex).1

/-! ## Processes -/

/-- What the client and worker processes do to their registries. -/
inductive Act (P Chan : Type) where
  /-- The process starts, or starts again. -/
  | start (process : P)
  | temporalGraph (process : P) (graph : Pregel Chan) (hex : String)
  | createWorker (process : P) (graph : Pregel Chan) (hex : String)
  /-- A parent workflow registers the graph of a subgraph node for its child. -/
  | startSubgraph (process : P) (graph : Pregel Chan) (hex : String)
  /-- The child has ended, and the parent unregisters the reference. -/
  | endSubgraph (process : P) (ref : String)

/-- The process an act takes place in. -/
def Act.process : Act P Chan → P
  | start p | temporalGraph p _ _ | createWorker p _ _ | startSubgraph p _ _ | endSubgraph p _ => p

/-- What an act makes of the registry of its process. -/
def Act.perform (registry : GraphRegistry Chan) : Act P Chan → GraphRegistry Chan
  | start _ => {}
  | temporalGraph _ graph hex => (TemporalGraph.init registry graph hex).1
  | createWorker _ graph hex => Model.createWorker registry graph hex
  | startSubgraph _ graph hex => (registry.register graph hex).1
  | endSubgraph _ ref => registry.unregister ref

/-- The registry of a process after these acts of all processes. -/
def registryOf [DecidableEq P] (acts : List (Act P Chan)) (process : P) : GraphRegistry Chan :=
  acts.foldl (fun registry act => if act.process = process then act.perform registry else registry) {}

end LanggraphTemporal.Model
