/-
# Model.Threads -- `GraphRegistry.get_instance()` between threads

Activities run in threads of one worker process, and each call goes through the
class: `GraphRegistry.get_instance().register(graph)` and the like.  The class
attribute `_instance` and its lock, and `_graphs` and its lock, are the shared
object of `Theory.Singleton`; what is done under the lock of an instance is what
`Model.Registry` says, taken as a load and a store, so that nothing is assumed of
`dict`.  `reset` is for tests, and no thread calls it.
-/
import LanggraphTemporal.Theory.Singleton
import LanggraphTemporal.Model.Registry

namespace LanggraphTemporal.Model

set_option autoImplicit false

open Theory

variable {Chan : Type}

/-- A call on the registry, with the hex digits that `register` draws before it
takes the lock. -/
inductive RegistryCall (Chan : Type) where
  | register (graph : Pregel Chan) (hex : String)
  | get (ref : String)
  | unregister (ref : String)

/-- What a call comes to: a reference, a graph or a `KeyError`, or nothing. -/
inductive RegistryResult (Chan : Type) where
  | ref (ref : String)
  | found (graph : Except String (Pregel Chan))
  | none

/-- What happens under `_graph_lock`. -/
def RegistryCall.perform (registry : GraphRegistry Chan) :
    RegistryCall Chan → GraphRegistry Chan × RegistryResult Chan
  | register graph hex => ((registry.register graph hex).1, .ref (registry.register graph hex).2)
  | get ref => (registry, .found (registry.get ref))
  | unregister ref => (registry.unregister ref, .none)

/-- The call may change what the reference stands for. -/
def RegistryCall.Touches (ref : String) : RegistryCall Chan → Prop
  | register graph hex => GraphRegistry.refOf graph hex = ref
  | get _ => False
  | unregister gone => gone = ref

/-- `GraphRegistry`, as a class whose one instance is shared. -/
def graphRegistry : Operations (RegistryCall Chan) (RegistryResult Chan) (GraphRegistry Chan) where
  fresh := {}
  perform call registry := call.perform registry

theorem get?_perform {registry : GraphRegistry Chan} {call : RegistryCall Chan} {ref : String}
    (other : ¬call.Touches ref) :
    (call.perform registry).1.graphs.get? ref = registry.graphs.get? ref := by
  cases call with
  | register graph hex =>
      have apart : ref ≠ GraphRegistry.refOf graph hex := fun same => other same.symm
      exact (GraphRegistry.get?_register registry graph hex ref).trans (if_neg apart)
  | get key => rfl
  | unregister gone =>
      have apart : ref ≠ gone := fun same => other same.symm
      exact (GraphRegistry.get?_unregister registry gone ref).trans (if_neg apart)

end LanggraphTemporal.Model
