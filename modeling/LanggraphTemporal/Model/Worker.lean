/-
# Model.Worker -- `worker.py`, and the task queue of `activities.py`

`create_worker` makes one worker or, with worker affinity, a group of two: a
shared worker, which tells workflows a queue, and one that executes nodes from
that queue.  The queue is kept in a variable of the process.  The file system, the
uuids and what the constructor of `temporalio.worker.Worker` refuses are taken
from outside.
-/
import LanggraphTemporal.Model.Registry
import LanggraphTemporal.Theory.Effects
import LanggraphTemporal.Theory.Loop

namespace LanggraphTemporal.Model

set_option autoImplicit false

open Theory Theory.Effects

/-! ## Workers -/

/-- The activities that workers are made with. -/
inductive ActivityDefn where
  | executeNode
  | dynamicExecuteNode
  | evaluateConditionalEdge
  | getAvailableTaskQueue
  deriving DecidableEq

inductive WorkflowDefn where
  | langGraphWorkflow
  deriving DecidableEq

/-- A `temporalio.worker.Worker`, as it has been made. -/
structure TemporalWorker where
  client : PyVal
  taskQueue : String
  workflows : List WorkflowDefn := []
  activities : List ActivityDefn
  /-- The other arguments. -/
  kwargs : Dict PyVal := ∅

/-! ## `WorkerGroup` -/

structure WorkerGroup (W : Type) where
  workers : List W

/-- What a group has done with its workers, by their positions. -/
inductive GroupEvent where
  /-- `__aenter__` of the worker has returned. -/
  | entered (position : Nat)
  /-- `__aexit__` of the worker has been called. -/
  | exited (position : Nat)
  deriving DecidableEq

structure GroupRun (ε : Type) where
  events : List GroupEvent
  raised : Option ε

namespace WorkerGroup

variable {W ε : Type} (group : WorkerGroup W)

/-- `__aenter__`; the workers at some positions raise. -/
def aenter (enterRaises : Nat → Option ε) : GroupRun ε :=
  let loop := Loop.run enterRaises (List.range group.workers.length)
  ⟨loop.returned.map .entered, loop.raised.map Prod.snd⟩

/-- `__aexit__` -/
def aexit (exitRaises : Nat → Option ε) : GroupRun ε :=
  let loop := Loop.run exitRaises (List.range group.workers.length).reverse
  ⟨loop.called.map .exited, loop.raised.map Prod.snd⟩

end WorkerGroup

/-! ## The queue of a process -/

/-- What a process keeps for its workers, and the files that it sees. -/
structure Host (Chan δ : Type) where
  registry : GraphRegistry Chan := {}
  /-- `_worker_task_queue` -/
  workerTaskQueue : Option String := none
  /-- The number of uuids that have been drawn. -/
  uuids : Nat := 0
  disk : δ

structure ApplicationError where
  message : String
  nonRetryable : Bool
  deriving DecidableEq

/-- What `worker.py` uses of the file system. -/
structure Files (δ ε : Type) where
  pathExists : String → δ → Except ε Bool
  readText : String → δ → Except ε String
  /-- `path.parent.mkdir(parents=True, exist_ok=True)` -/
  mkdirParents : String → EStateM ε δ Unit
  writeText : String → String → EStateM ε δ Unit

namespace Host

variable {Chan δ ε : Type} (files : Files δ ε) (uuid4 : Nat → String)

/-- `get_available_task_queue` -/
def getAvailableTaskQueue (host : Host Chan δ) : Except ApplicationError String :=
  match host.workerTaskQueue with
  | some queue => .ok queue
  | none => .error ⟨"Worker task queue not configured. Call set_worker_task_queue() at worker startup.", true⟩

/-- `set_worker_task_queue` -/
def setWorkerTaskQueue (queue : String) : EStateM ε (Host Chan δ) Unit :=
  modify fun host => { host with workerTaskQueue := some queue }

/-- `uuid.uuid4().hex` -/
def drawUuid : EStateM ε (Host Chan δ) String :=
  modifyGet fun host => (uuid4 host.uuids, { host with uuids := host.uuids + 1 })

/-- The white space that `str.strip` removes. -/
def isSpace (c : Char) : Bool :=
  let n := c.toNat
  (0x09 ≤ n && n ≤ 0x0d) || (0x1c ≤ n && n ≤ 0x20) || n == 0x85 || n == 0xa0 || n == 0x1680 ||
    (0x2000 ≤ n && n ≤ 0x200a) || n == 0x2028 || n == 0x2029 || n == 0x202f || n == 0x205f || n == 0x3000

/-- `text.strip()` -/
def strip (text : String) : String :=
  String.ofList ((text.toList.dropWhile isSpace).reverse.dropWhile isSpace).reverse

/-- `path.read_text().strip()`, and nothing if there is no such file. -/
def storedName (path : String) (disk : δ) : Except ε String := do
  if ← files.pathExists path disk then return strip (← files.readText path disk)
  else return ""

/-- `f"{task_queue}-worker-{uuid.uuid4().hex[:12]}"` -/
def queueName (taskQueue hex : String) : String := taskQueue ++ "-worker-" ++ (hex.take 12).copy

/-- Something that changes files. -/
def onDisk (change : EStateM ε δ Unit) : EStateM ε (Host Chan δ) Unit := fun host =>
  match change host.disk with
  | .ok _ disk => .ok () { host with disk }
  | .error e disk => .error e { host with disk }

/-- `_resolve_worker_queue` -/
def resolveWorkerQueue (taskQueue : String) (queueFile : Option String) :
    EStateM ε (Host Chan δ) String := do
  match queueFile with
  | some path =>
      let host ← get
      match storedName files path host.disk with
      | .error e => throw e
      | .ok stored =>
          if stored ≠ "" then return stored
          else
            let queue := queueName taskQueue (← drawUuid uuid4)
            onDisk (files.mkdirParents path)
            onDisk (files.writeText path queue)
            return queue
  | none => return queueName taskQueue (← drawUuid uuid4)

/-! ### What it comes to -/

section Resolve

variable {τ : Type} {view : Host Chan δ → τ} {files : Files δ ε} {uuid4 : Nat → String}
  {taskQueue name path : String} {host : Host Chan δ}

theorem onDisk_ok {change : EStateM ε δ Unit} {host' : Host Chan δ} :
    onDisk change host = .ok () host' ↔ ∃ disk, change host.disk = .ok () disk ∧ host' = { host with disk } := by
  unfold onDisk
  cases ran : change host.disk with
  | ok u disk => simp [eq_comm]
  | error e disk => simp

/-- What is seen of a process does not depend on its uuids and its files. -/
def Blind (view : Host Chan δ → τ) : Prop :=
  ∀ (host : Host Chan δ) (uuids : Nat) (disk : δ), view { host with uuids, disk } = view host

theorem onDisk_keeps (blind : Blind view) (change : EStateM ε δ Unit) :
    Keeps view (onDisk change : EStateM ε (Host Chan δ) Unit) := by
  intro host
  unfold stateAfter onDisk
  cases change host.disk with
  | ok u disk => exact blind host host.uuids disk
  | error e disk => exact blind host host.uuids disk

theorem drawUuid_keeps (blind : Blind view) :
    Keeps view (drawUuid uuid4 : EStateM ε (Host Chan δ) String) :=
  .modifyGet fun host => blind host (host.uuids + 1) host.disk

theorem drawUuid_bind {α : Type} {f : String → EStateM ε (Host Chan δ) α} :
    (drawUuid uuid4 >>= f) host = f (uuid4 host.uuids) { host with uuids := host.uuids + 1 } := rfl

theorem resolveWorkerQueue_keeps (blind : Blind view) (taskQueue : String) (queueFile : Option String) :
    Keeps view (resolveWorkerQueue files uuid4 taskQueue queueFile : EStateM ε (Host Chan δ) String) := by
  unfold resolveWorkerQueue
  cases queueFile with
  | none => exact (drawUuid_keeps blind).bind fun _ => .pure _
  | some path =>
      refine Keeps.get.bind fun host => ?_
      cases storedName files path host.disk with
      | error e => exact .throw e
      | ok stored =>
          dsimp only
          by_cases named : stored ≠ ""
          · rw [if_pos named]
            exact .pure _
          · rw [if_neg named]
            refine (drawUuid_keeps blind).bind fun hex => ?_
            refine (onDisk_keeps blind _).bind fun _ => ?_
            exact (onDisk_keeps blind _).bind fun _ => .pure _

theorem resolveWorkerQueue_error {e : ε} (found : storedName files path host.disk = .error e) :
    resolveWorkerQueue files uuid4 taskQueue (some path) host = .error e host := by
  unfold resolveWorkerQueue
  dsimp only
  rw [get_bind, found]
  rfl

theorem resolveWorkerQueue_stored (found : storedName files path host.disk = .ok name)
    (named : name ≠ "") : resolveWorkerQueue files uuid4 taskQueue (some path) host = .ok name host := by
  unfold resolveWorkerQueue
  dsimp only
  rw [get_bind, found]
  dsimp only
  rw [if_pos named]
  rfl

/-- A fresh name is stored before it is returned. -/
theorem resolveWorkerQueue_absent (found : storedName files path host.disk = .ok "") :
    resolveWorkerQueue files uuid4 taskQueue (some path) host =
      (do
        onDisk (files.mkdirParents path)
        onDisk (files.writeText path (queueName taskQueue (uuid4 host.uuids)))
        return queueName taskQueue (uuid4 host.uuids) : EStateM ε (Host Chan δ) String)
        { host with uuids := host.uuids + 1 } := by
  unfold resolveWorkerQueue
  dsimp only
  rw [get_bind, found]
  dsimp only
  rw [if_neg (not_not.mpr rfl), drawUuid_bind]

end Resolve

end Host

/-! ## `create_worker` -/

/-- A call of `create_worker`. -/
structure CreateWorker (Chan ε : Type) where
  graph : Pregel Chan
  client : PyVal
  taskQueue : String := "langgraph-default"
  useWorkerAffinity : Bool := false
  workerQueueFile : Option String := none
  kwargs : Dict PyVal := ∅
  /-- What the constructor of `Worker` raises for a worker. -/
  refuses : TemporalWorker → Option ε

namespace CreateWorker

variable {Chan δ ε : Type} (files : Files δ ε) (uuid4 : Nat → String) (call : CreateWorker Chan ε)

/-- The worker without affinity. -/
def worker : TemporalWorker where
  client := call.client
  taskQueue := call.taskQueue
  workflows := [.langGraphWorkflow]
  activities := [.executeNode, .dynamicExecuteNode, .evaluateConditionalEdge]
  kwargs := call.kwargs

def sharedWorker : TemporalWorker where
  client := call.client
  taskQueue := call.taskQueue
  workflows := [.langGraphWorkflow]
  activities := [.getAvailableTaskQueue]
  kwargs := call.kwargs

/-- The other arguments are not passed on to this one. -/
def specificWorker (workerSpecificQueue : String) : TemporalWorker where
  client := call.client
  taskQueue := workerSpecificQueue
  activities := [.executeNode, .dynamicExecuteNode, .evaluateConditionalEdge]

def group (workerSpecificQueue : String) : WorkerGroup TemporalWorker :=
  ⟨[call.sharedWorker, call.specificWorker workerSpecificQueue]⟩

/-- `Worker(...)` -/
def construct (worker : TemporalWorker) : EStateM ε (Host Chan δ) TemporalWorker :=
  match call.refuses worker with
  | some e => throw e
  | none => return worker

/-- `GraphRegistry.get_instance().register(graph)` -/
def registered (host : Host Chan δ) : Host Chan δ :=
  { host with
    registry := Model.createWorker host.registry call.graph (uuid4 host.uuids)
    uuids := host.uuids + 1 }

/-- `create_worker` -/
def run : EStateM ε (Host Chan δ) (TemporalWorker ⊕ WorkerGroup TemporalWorker) := do
  modify (call.registered uuid4)
  if call.useWorkerAffinity then
    let workerSpecificQueue ← Host.resolveWorkerQueue files uuid4 call.taskQueue call.workerQueueFile
    Host.setWorkerTaskQueue workerSpecificQueue
    let sharedWorker ← call.construct call.sharedWorker
    let specificWorker ← call.construct (call.specificWorker workerSpecificQueue)
    return .inr ⟨[sharedWorker, specificWorker]⟩
  else
    return .inl (← call.construct call.worker)

/-! ### What a call comes to -/

section Run

variable {files : Files δ ε} {uuid4 : Nat → String} {call : CreateWorker Chan ε} {host host' : Host Chan δ}

theorem construct_cases (worker : TemporalWorker) (host : Host Chan δ) :
    call.construct worker host = .ok worker host ∨ ∃ e, call.construct worker host = .error e host := by
  unfold construct
  cases call.refuses worker with
  | none => exact .inl rfl
  | some e => exact .inr ⟨e, rfl⟩

theorem run_plain (plain : call.useWorkerAffinity = false) :
    call.run files uuid4 host = .ok (.inl call.worker) (call.registered uuid4 host) ∨
      ∃ e, call.run files uuid4 host = .error e (call.registered uuid4 host) := by
  unfold run
  rw [modify_bind, plain, if_neg Bool.false_ne_true]
  rcases construct_cases call.worker (call.registered uuid4 host) with made | ⟨e, refused⟩
  · exact .inl (bind_of_ok made)
  · exact .inr ⟨e, bind_of_error refused⟩

theorem run_unresolved {e : ε} (affinity : call.useWorkerAffinity = true)
    (ran : Host.resolveWorkerQueue files uuid4 call.taskQueue call.workerQueueFile
      (call.registered uuid4 host) = .error e host') : call.run files uuid4 host = .error e host' := by
  unfold run
  rw [modify_bind, if_pos affinity, bind_of_error ran]

/-- The queue is in use before the workers are made. -/
theorem run_resolved {name : String} (affinity : call.useWorkerAffinity = true)
    (ran : Host.resolveWorkerQueue files uuid4 call.taskQueue call.workerQueueFile
      (call.registered uuid4 host) = .ok name host') :
    call.run files uuid4 host = .ok (.inr (call.group name)) { host' with workerTaskQueue := some name } ∨
      ∃ e, call.run files uuid4 host = .error e { host' with workerTaskQueue := some name } := by
  unfold run
  rw [modify_bind, if_pos affinity, bind_of_ok ran, Host.setWorkerTaskQueue, modify_bind]
  rcases construct_cases call.sharedWorker { host' with workerTaskQueue := some name } with made | ⟨e, refused⟩
  · rw [bind_of_ok made]
    rcases construct_cases (call.specificWorker name) { host' with workerTaskQueue := some name } with
      made' | ⟨e, refused⟩
    · exact .inl (bind_of_ok made')
    · exact .inr ⟨e, bind_of_error refused⟩
  · exact .inr ⟨e, bind_of_error refused⟩

/-- However it ends, the graph has been registered. -/
theorem run_registers (call : CreateWorker Chan ε) (host : Host Chan δ) :
    (stateAfter (call.run files uuid4) host).registry =
      Model.createWorker host.registry call.graph (uuid4 host.uuids) := by
  have keeps : Keeps Host.registry (Host.resolveWorkerQueue files uuid4 call.taskQueue
      call.workerQueueFile : EStateM ε (Host Chan δ) String) :=
    Host.resolveWorkerQueue_keeps (fun _ _ _ => rfl) _ _
  cases affinity : call.useWorkerAffinity with
  | false =>
      rcases @run_plain _ _ _ files uuid4 call host affinity with ran | ⟨e, ran⟩
      · simp only [stateAfter, ran]
        rfl
      · simp only [stateAfter, ran]
        rfl
  | true =>
      cases ran : Host.resolveWorkerQueue files uuid4 call.taskQueue call.workerQueueFile
          (call.registered uuid4 host) with
      | error e host' =>
          simp only [stateAfter, run_unresolved affinity ran]
          exact keeps.of_error ran
      | ok name host' =>
          rcases run_resolved affinity ran with made | ⟨e, refused⟩
          · simp only [stateAfter, made]
            exact keeps.of_ok ran
          · simp only [stateAfter, refused]
            exact keeps.of_ok ran

end Run

end CreateWorker

/-! ## The groups of a process -/

/-- A process, with the groups that it has been given. -/
structure GroupHost (Chan δ : Type) where
  host : Host Chan δ
  groups : List (WorkerGroup TemporalWorker) := []

/-- What happens in a process, or to the files that it sees. -/
inductive HostStep (Chan δ ε : Type) where
  | createWorker (call : CreateWorker Chan ε)
  /-- The files are changed by others. -/
  | changeFiles (disk : δ)

namespace GroupHost

variable {Chan δ ε : Type} (files : Files δ ε) (uuid4 : Nat → String)

def step (p : GroupHost Chan δ) : HostStep Chan δ ε → GroupHost Chan δ
  | .createWorker call =>
      match call.run files uuid4 p.host with
      | .ok (.inl _) host => { p with host }
      | .ok (.inr group) host => { host, groups := p.groups ++ [group] }
      | .error _ host => { p with host }
  | .changeFiles disk => { p with host := { p.host with disk } }

/-- A new process, after these steps. -/
def after (disk : δ) (steps : List (HostStep Chan δ ε)) : GroupHost Chan δ :=
  steps.foldl (step files uuid4) { host := { disk } }

end GroupHost

end LanggraphTemporal.Model
