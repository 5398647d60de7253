/-
# Properties.GraphRefs -- graph references in other processes

A reference is a key of the registry of the process that made it, with eight
random digits in it.  Another process that has registered the same graph knows
it under another key: `ref_unknown_elsewhere`.  A reference resolves to its graph
in a worker process exactly when the last thing that this process did with that
very key, since it was started, was to register the graph under it
(`refs_resolve_iff`).
-/
import LanggraphTemporal.Model.Registry
import LanggraphTemporal.Machine.Reference

namespace LanggraphTemporal.Properties

set_option autoImplicit false

open Theory Theory.System Model Model.LangGraphWorkflow Model.GraphRegistry Machine

variable {P Chan : Type}

/-! ## The statement -/

/-- A client has made `ref` for the graph, and puts it into workflow inputs. -/
def Issued (acts : List (Act P Chan)) (ref : String) (graph : Pregel Chan) : Prop :=
  ∃ process hex, .temporalGraph process graph hex ∈ acts ∧ ref = refOf graph hex

/-- A parent workflow has made `ref` for the graph of a subgraph node, and its
child runs. -/
def ChildRuns (acts : List (Act P Chan)) (ref : String) (graph : Pregel Chan) : Prop :=
  ∃ a process hex b, acts = a ++ .startSubgraph process graph hex :: b ∧ ref = refOf graph hex ∧
    ∀ other, .endSubgraph other ref ∉ b

/-- The process has created a worker for the graph since it was started. -/
def HasWorker (acts : List (Act P Chan)) (process : P) (graph : Pregel Chan) : Prop :=
  ∃ a hex b, acts = a ++ .createWorker process graph hex :: b ∧ .start process ∉ b

/-- A reference in use resolves in all worker processes that may be asked: that
of a client in every worker process for its graph, that of a child in every
worker process. -/
def Resolves [DecidableEq P] (acts : List (Act P Chan)) : Prop :=
  (∀ ref graph, Issued acts ref graph → ∀ process, HasWorker acts process graph →
    (registryOf acts process).get ref = .ok graph) ∧
  ∀ ref graph, ChildRuns acts ref graph → ∀ process parent, HasWorker acts process parent →
    (registryOf acts process).get ref = .ok graph

/-- The act registers the graph under `ref`, in this process. -/
def Registers (process : P) (ref : String) (graph : Pregel Chan) : Act P Chan → Prop
  | .temporalGraph p g hex | .createWorker p g hex | .startSubgraph p g hex =>
      p = process ∧ g = graph ∧ ref = refOf g hex
  | _ => False

/-- The act changes what `ref` is in this process. -/
def Touches (process : P) (ref : String) : Act P Chan → Prop
  | .start p => p = process
  | .temporalGraph p g hex | .createWorker p g hex | .startSubgraph p g hex =>
      p = process ∧ ref = refOf g hex
  | .endSubgraph p gone => p = process ∧ ref = gone

/-- The last act that changes what `ref` is in the process registers the graph
under it. -/
def Known (acts : List (Act P Chan)) (process : P) (ref : String) (graph : Pregel Chan) : Prop :=
  ∃ a act b, acts = a ++ act :: b ∧ Registers process ref graph act ∧ ∀ x ∈ b, ¬Touches process ref x

/-! ## When it holds -/

variable {acts : List (Act P Chan)} {act : Act P Chan} {process : P} {ref : String}
  {graph : Pregel Chan}

theorem Registers.process_eq (registers : Registers process ref graph act) : act.process = process := by
  cases act with
  | temporalGraph | createWorker | startSubgraph => exact registers.1
  | _ => cases registers

theorem Registers.touches (registers : Registers process ref graph act) : Touches process ref act := by
  cases act with
  | temporalGraph | createWorker | startSubgraph => exact ⟨registers.1, registers.2.2⟩
  | _ => cases registers

theorem Touches.process_eq (touches : Touches process ref act) : act.process = process := by
  cases act with
  | start => exact touches
  | _ => exact touches.1

theorem known_snoc_of_not (untouched : ¬Touches process ref act) :
    Known (acts ++ [act]) process ref graph ↔ Known acts process ref graph := by
  constructor
  · rintro ⟨a, x, b, split, registers, later⟩
    rcases History.snoc_eq_append_cons.mp split with ⟨rfl, rfl, rfl⟩ | ⟨b', rfl, inner⟩
    · exact absurd registers.touches untouched
    · exact ⟨a, x, b', inner, registers, fun y mem => later y (List.mem_append_left _ mem)⟩
  · rintro ⟨a, x, b, rfl, registers, later⟩
    refine ⟨a, x, b ++ [act], by simp, registers, fun y mem => ?_⟩
    rcases List.mem_append.mp mem with old | new
    · exact later y old
    · rw [List.mem_singleton.mp new]
      exact untouched

/-- Once a reference is touched, only that act counts. -/
theorem known_snoc (touches : Touches process ref act) :
    Known (acts ++ [act]) process ref graph ↔ Registers process ref graph act := by
  constructor
  · rintro ⟨a, x, b, split, registers, later⟩
    rcases History.snoc_eq_append_cons.mp split with ⟨rfl, rfl, rfl⟩ | ⟨b', rfl, inner⟩
    · exact registers
    · exact absurd touches (later act (by simp))
  · exact fun registers => ⟨acts, act, [], rfl, registers, fun y mem => absurd mem List.not_mem_nil⟩

section Registries

variable [DecidableEq P]

theorem registryOf_snoc (acts : List (Act P Chan)) (act : Act P Chan) (process : P) :
    registryOf (acts ++ [act]) process =
      if act.process = process then act.perform (registryOf acts process) else registryOf acts process := by
  simp [registryOf, List.foldl_append]

theorem registryOf_here (here : act.process = process) :
    registryOf (acts ++ [act]) process = act.perform (registryOf acts process) := by
  rw [registryOf_snoc, if_pos here]

theorem get?_registers (registers : Registers process ref graph act) :
    (registryOf (acts ++ [act]) process).graphs.get? ref = some graph := by
  rw [registryOf_here registers.process_eq]
  cases act with
  | temporalGraph p g hex | createWorker p g hex | startSubgraph p g hex =>
      obtain ⟨rfl, rfl, rfl⟩ := registers
      exact (get?_register _ _ _ _).trans (if_pos rfl)
  | _ => cases registers

theorem get?_untouched (untouched : ¬Touches process ref act) :
    (registryOf (acts ++ [act]) process).graphs.get? ref = (registryOf acts process).graphs.get? ref := by
  rw [registryOf_snoc]
  split
  · rename_i here
    cases act with
    | start p => exact absurd here untouched
    | temporalGraph p g hex | createWorker p g hex | startSubgraph p g hex =>
        refine (get?_register _ _ _ _).trans (if_neg fun same => untouched ⟨here, same⟩)
    | endSubgraph p gone =>
        exact (get?_unregister _ _ _).trans (if_neg fun same => untouched ⟨here, same⟩)
  · rfl

/-- An act that changes what a reference is makes it nothing, or registers a
graph under it. -/
theorem get?_touched (touches : Touches process ref act)
    (found : (registryOf (acts ++ [act]) process).graphs.get? ref = some graph) :
    Registers process ref graph act := by
  rw [registryOf_here touches.process_eq] at found
  cases act with
  | start p => cases found
  | temporalGraph p g hex | createWorker p g hex | startSubgraph p g hex =>
      obtain ⟨rfl, rfl⟩ := touches
      have same := found.symm.trans ((get?_register _ _ _ _).trans (if_pos rfl))
      exact ⟨rfl, (Option.some.inj same).symm, rfl⟩
  | endSubgraph p gone =>
      obtain ⟨rfl, rfl⟩ := touches
      have none := found.symm.trans ((get?_unregister _ _ _).trans (if_pos rfl))
      cases none

/-- **A process knows a graph by a reference exactly when the last thing it did
with that reference was to register the graph under it.** -/
theorem get_iff_known :
    (registryOf acts process).get ref = .ok graph ↔ Known acts process ref graph := by
  rw [get_eq_ok]
  induction acts using List.reverseRecOn with
  | nil =>
      constructor
      · intro found
        cases found
      · rintro ⟨a, act, b, split, -⟩
        simp at split
  | append_singleton acts act ih =>
      by_cases touches : Touches process ref act
      · rw [known_snoc touches]
        exact ⟨get?_touched touches, get?_registers⟩
      · rw [get?_untouched touches, ih, known_snoc_of_not touches]

/-- **References resolve exactly in the worker processes that know the graph by
them.** -/
theorem refs_resolve_iff (acts : List (Act P Chan)) :
    Resolves acts ↔
      (∀ ref graph, Issued acts ref graph → ∀ process, HasWorker acts process graph →
        Known acts process ref graph) ∧
      ∀ ref graph, ChildRuns acts ref graph → ∀ process parent, HasWorker acts process parent →
        Known acts process ref graph := by
  unfold Resolves
  simp only [get_iff_known]

/-- What a workflow finds in a worker process. -/
def workerEnv (env : Env Chan) (acts : List (Act P Chan)) (process : P) : Env Chan :=
  { env with registry := fun ref => ((registryOf acts process).get ref).toOption }

/-- A workflow fails at once in a process that does not know its graph. -/
theorem run_of_unknown {env : Env Chan} {threshold : Option Nat} {input : WorkflowInput}
    (unknown : ∀ graph, ¬Known acts process input.graphDefinitionRef graph)
    (script : List (Action Response Signal)) (w : Execution Chan) :
    ∃ t, (workflowSystem (workerEnv env acts process)).replay
      (run (workerEnv env acts process) threshold input) script w =
        .failed (.keyError input.graphDefinitionRef) t := by
  have missing : (workerEnv env acts process).registry input.graphDefinitionRef = none := by
    unfold workerEnv
    cases found : (registryOf acts process).get input.graphDefinitionRef with
    | ok graph => exact absurd (get_iff_known.mp found) (unknown graph)
    | error key => simp [found, Except.toOption]
  unfold run
  rw [missing]
  exact ⟨_, rfl⟩

end Registries

section Runs

open Reference

/-- A client, and a worker in another process. -/
inductive Process where
  | client
  | worker
  deriving DecidableEq

/-- Both register the same graph. -/
def apart : List (Act Process Channel) :=
  [.start .client, .temporalGraph .client (Reference.graph []) "1f0a6c2e9b7d4f53",
    .start .worker, .createWorker .worker (Reference.graph []) "9c3b51d8e04a7f26"]

theorem digits_differ : refOf (Reference.graph []) "1f0a6c2e9b7d4f53" ≠
    refOf (Reference.graph []) "9c3b51d8e04a7f26" := by
  intro same
  have digits := congrArg String.toList same
  simp [refOf] at digits

/-- **The worker does not know the graph by the reference of the client.** -/
theorem ref_unknown_elsewhere : ¬Resolves apart := by
  intro resolves
  have issued : Issued apart (refOf (Reference.graph []) "1f0a6c2e9b7d4f53") (Reference.graph []) :=
    ⟨.client, _, List.mem_cons_of_mem _ List.mem_cons_self, rfl⟩
  have serves : HasWorker apart .worker (Reference.graph []) :=
    ⟨apart.take 3, _, [], rfl, List.not_mem_nil⟩
  obtain ⟨a, act, b, split, registers, -⟩ := get_iff_known.mp (resolves.1 _ _ issued .worker serves)
  have here := registers.process_eq
  have mem : act ∈ apart := by
    rw [split]
    simp
  simp only [apart, List.mem_cons, List.not_mem_nil, or_false] at mem
  rcases mem with rfl | rfl | rfl | rfl
  · cases here
  · cases here
  · cases registers
  · exact digits_differ registers.2.2

end Runs

end LanggraphTemporal.Properties
