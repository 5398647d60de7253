/-
# Model.Deployment -- the worker processes of a deployment

Worker processes come and go.  A process that is started again knows nothing but
the files: the queue of its workers is kept in a file, if `create_worker` is given
one.  `Deployment` is a number of processes that share a disk, with all the groups
that `create_worker` has returned in any of their lives.

Uuids are drawn from one source, so that no life repeats those of another one.
-/
import LanggraphTemporal.Model.Worker
import Mathlib.Logic.Function.Basic

namespace LanggraphTemporal.Model

set_option autoImplicit false

open Theory Theory.Effects

/-- The files that paths name, and their texts. -/
structure FileSystem {δ ε : Type} (files : Files δ ε) (φ : Type) where
  file : String → φ
  text : φ → δ → Option String
  pathExists_ok : ∀ {path disk}, files.pathExists path disk = .ok false → text (file path) disk = none
  readText_ok : ∀ {path disk t}, files.readText path disk = .ok t → text (file path) disk = some t
  /-- No file is written when directories are made. -/
  mkdirParents_text : ∀ f path disk, text f (stateAfter (files.mkdirParents path) disk) = text f disk
  writeText_ok : ∀ {path t disk disk'}, files.writeText path t disk = .ok () disk' →
    text (file path) disk' = some t
  /-- A write that fails may have emptied the file. -/
  writeText_error : ∀ {path t disk disk' e}, files.writeText path t disk = .error e disk' →
    text (file path) disk' = text (file path) disk ∨ text (file path) disk' = some ""
  writeText_other : ∀ {path t disk f}, f ≠ file path →
    text f (stateAfter (files.writeText path t) disk) = text f disk

variable {P Chan δ ε : Type}

/-- Worker processes that share a disk, and the groups that have been made in any
of their lives, with the calls that made them. -/
structure Deployment (P Chan δ ε : Type) where
  registry : P → GraphRegistry Chan
  workerTaskQueue : P → Option String
  uuids : Nat := 0
  disk : δ
  created : List (CreateWorker Chan ε × WorkerGroup TemporalWorker) := []

inductive DeploymentStep (P Chan δ ε : Type) where
  | createWorker (process : P) (call : CreateWorker Chan ε)
  /-- A process ends, and is started again. -/
  | restart (process : P)
  /-- Others change files. -/
  | changeFiles (disk : δ)

namespace Deployment

def start (disk : δ) : Deployment P Chan δ ε where
  registry _ := {}
  workerTaskQueue _ := none
  disk := disk

/-- What a process sees. -/
def host (d : Deployment P Chan δ ε) (process : P) : Host Chan δ where
  registry := d.registry process
  workerTaskQueue := d.workerTaskQueue process
  uuids := d.uuids
  disk := d.disk

variable [DecidableEq P]

/-- What it leaves. -/
def leave (d : Deployment P Chan δ ε) (process : P) (host : Host Chan δ) : Deployment P Chan δ ε :=
  { d with
    registry := Function.update d.registry process host.registry
    workerTaskQueue := Function.update d.workerTaskQueue process host.workerTaskQueue
    uuids := host.uuids
    disk := host.disk }

variable (files : Files δ ε) (uuid4 : Nat → String)

def step (d : Deployment P Chan δ ε) : DeploymentStep P Chan δ ε → Deployment P Chan δ ε
  | .createWorker process call =>
      match call.run files uuid4 (d.host process) with
      | .ok (.inl _) host => d.leave process host
      | .ok (.inr group) host => { d.leave process host with created := d.created ++ [(call, group)] }
      | .error _ host => d.leave process host
  | .restart process => d.leave process { uuids := d.uuids, disk := d.disk }
  | .changeFiles disk => { d with disk }

def after (disk : δ) (steps : List (DeploymentStep P Chan δ ε)) : Deployment P Chan δ ε :=
  steps.foldl (step files uuid4) (start disk)

end Deployment

/-- The queue from which a group executes nodes. -/
def nodeQueue (group : WorkerGroup TemporalWorker) : Option String :=
  (group.workers.find? fun worker => worker.activities.contains .executeNode).map TemporalWorker.taskQueue

theorem nodeQueue_group (call : CreateWorker Chan ε) (name : String) :
    nodeQueue (call.group name) = some name := rfl

end LanggraphTemporal.Model
