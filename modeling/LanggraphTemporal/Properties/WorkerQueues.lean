/-
# Properties.WorkerQueues -- the queues that shared workers tell

A shared worker tells the queue that its process has been given last.  The queue
of a group is told until another call of `create_worker` comes to a different one,
whether or not that call returns a group (`step_cases`).  So every group is told
its own queue, in every state of a process, exactly if each call with worker
affinity that finds a group comes to the queue already in use, or to none
(`own_queue_iff`).
-/
import LanggraphTemporal.Machine.Reference
import LanggraphTemporal.Model.Worker
import LanggraphTemporal.Theory.Effects
import LanggraphTemporal.Theory.History

namespace LanggraphTemporal.Properties

set_option autoImplicit false

open Theory Theory.History Theory.Effects Model

section Queues

variable {Chan δ ε : Type} {files : Files δ ε} {uuid4 : Nat → String}

/-! ## The statement -/

/-- What the shared workers of a group tell is the queue of its node workers. -/
def TellsOwnQueue (host : Host Chan δ) (group : WorkerGroup TemporalWorker) : Prop :=
  ∀ shared ∈ group.workers, .getAvailableTaskQueue ∈ shared.activities →
    ∀ node ∈ group.workers, .executeNode ∈ node.activities →
      host.getAvailableTaskQueue = .ok node.taskQueue

/-- So it is in all groups of a process. -/
def OwnQueues (p : GroupHost Chan δ) : Prop := ∀ group ∈ p.groups, TellsOwnQueue p.host group

/-- The queue that `_resolve_worker_queue` comes to, from what is on the disk: a name
that is stored there, or a fresh one, which is stored if there is a file for it. -/
inductive ResolvesTo (files : Files δ ε) (uuid4 : Nat → String) (taskQueue : String) (host : Host Chan δ) :
    Option String → String → Prop where
  | stored {path name : String} (stored : Host.storedName files path host.disk = .ok name)
      (named : name ≠ "") : ResolvesTo files uuid4 taskQueue host (some path) name
  | persisted {path : String} {made written : δ} (absent : Host.storedName files path host.disk = .ok "")
      (parents : files.mkdirParents path host.disk = .ok () made)
      (write : files.writeText path (Host.queueName taskQueue (uuid4 host.uuids)) made = .ok () written) :
      ResolvesTo files uuid4 taskQueue host (some path) (Host.queueName taskQueue (uuid4 host.uuids))
  | fresh : ResolvesTo files uuid4 taskQueue host none (Host.queueName taskQueue (uuid4 host.uuids))

/-- The queue that a step asks for.  The first uuid of a call is for its graph. -/
def AsksFor (files : Files δ ε) (uuid4 : Nat → String) (p : GroupHost Chan δ) :
    HostStep Chan δ ε → String → Prop
  | .createWorker call, name => call.useWorkerAffinity = true ∧
      ResolvesTo files uuid4 call.taskQueue (call.registered uuid4 p.host) call.workerQueueFile name
  | .changeFiles _, _ => False

/-- There is no group yet, or the step asks for no other queue than the one in use. -/
def KeepsQueue (files : Files δ ε) (uuid4 : Nat → String) (p : GroupHost Chan δ)
    (s : HostStep Chan δ ε) : Prop :=
  p.groups = [] ∨ ∀ name, AsksFor files uuid4 p s name → p.host.workerTaskQueue = some name

/-! ## What a step does -/

section Resolve

variable {taskQueue name path : String} {queueFile : Option String} {host : Host Chan δ}

theorem resolvesTo_of_ok {host' : Host Chan δ}
    (ran : Host.resolveWorkerQueue files uuid4 taskQueue queueFile host = .ok name host') :
    ResolvesTo files uuid4 taskQueue host queueFile name := by
  cases queueFile with
  | none =>
      cases ran
      exact .fresh
  | some path =>
      cases found : Host.storedName files path host.disk with
      | error e =>
          rw [Host.resolveWorkerQueue_error found] at ran
          cases ran
      | ok stored =>
          by_cases named : stored = ""
          · subst named
            rw [Host.resolveWorkerQueue_absent found] at ran
            obtain ⟨⟨⟩, made, makes, rest⟩ := bind_eq_ok.mp ran
            obtain ⟨⟨⟩, written, writes, rest⟩ := bind_eq_ok.mp rest
            obtain ⟨disk, parents, rfl⟩ := Host.onDisk_ok.mp makes
            obtain ⟨disk', write, rfl⟩ := Host.onDisk_ok.mp writes
            cases rest
            exact .persisted found parents write
          · rw [Host.resolveWorkerQueue_stored found named] at ran
            cases ran
            exact .stored found named

theorem ResolvesTo.returns (resolves : ResolvesTo files uuid4 taskQueue host queueFile name) :
    ∃ host', Host.resolveWorkerQueue files uuid4 taskQueue queueFile host = .ok name host' := by
  cases resolves with
  | fresh => exact ⟨_, rfl⟩
  | stored found named => exact ⟨host, Host.resolveWorkerQueue_stored found named⟩
  | @persisted path made written absent parents write =>
      let drawn : Host Chan δ := { host with uuids := host.uuids + 1 }
      have makes : Host.onDisk (files.mkdirParents path) drawn = .ok () { drawn with disk := made } :=
        Host.onDisk_ok.mpr ⟨made, parents, rfl⟩
      have writes : Host.onDisk (files.writeText path (Host.queueName taskQueue (uuid4 host.uuids)))
          { drawn with disk := made } = .ok () { drawn with disk := written } :=
        Host.onDisk_ok.mpr ⟨written, write, rfl⟩
      refine ⟨{ drawn with disk := written }, ?_⟩
      rw [Host.resolveWorkerQueue_absent absent, bind_of_ok makes, bind_of_ok writes]
      rfl

theorem ResolvesTo.unique {other : String} (resolves : ResolvesTo files uuid4 taskQueue host queueFile name)
    (resolves' : ResolvesTo files uuid4 taskQueue host queueFile other) : name = other := by
  obtain ⟨host', ran⟩ := resolves.returns
  obtain ⟨host'', ran'⟩ := resolves'.returns
  rw [ran] at ran'
  cases ran'
  rfl

end Resolve

theorem AsksFor.unique {p : GroupHost Chan δ} {s : HostStep Chan δ ε} {name other : String}
    (asks : AsksFor files uuid4 p s name) (asks' : AsksFor files uuid4 p s other) : name = other := by
  cases s with
  | createWorker call => exact asks.2.unique asks'.2
  | changeFiles disk => exact asks.elim

section Calls

variable {call : CreateWorker Chan ε} {host' : Host Chan δ} {p : GroupHost Chan δ}

/-- A call without affinity leaves the queue and the groups. -/
theorem step_plain (plain : call.useWorkerAffinity = false) :
    (p.step files uuid4 (.createWorker call)).host.workerTaskQueue = p.host.workerTaskQueue ∧
      (p.step files uuid4 (.createWorker call)).groups = p.groups := by
  rcases @CreateWorker.run_plain _ _ _ files uuid4 call p.host plain with ran | ⟨e, ran⟩
  · simp only [GroupHost.step, ran]
    exact ⟨rfl, trivial⟩
  · simp only [GroupHost.step, ran]
    exact ⟨rfl, trivial⟩

/-- So does one that raises before it has a queue. -/
theorem step_unresolved {e : ε} (affinity : call.useWorkerAffinity = true)
    (ran : Host.resolveWorkerQueue files uuid4 call.taskQueue call.workerQueueFile
      (call.registered uuid4 p.host) = .error e host') :
    (p.step files uuid4 (.createWorker call)).host.workerTaskQueue = p.host.workerTaskQueue ∧
      (p.step files uuid4 (.createWorker call)).groups = p.groups := by
  have same : host'.workerTaskQueue = (call.registered uuid4 p.host).workerTaskQueue :=
    (Host.resolveWorkerQueue_keeps (fun _ _ _ => rfl) _ _).of_error ran
  simp only [GroupHost.step, CreateWorker.run_unresolved affinity ran]
  exact ⟨same, trivial⟩

theorem step_resolved {name : String} (affinity : call.useWorkerAffinity = true)
    (ran : Host.resolveWorkerQueue files uuid4 call.taskQueue call.workerQueueFile
      (call.registered uuid4 p.host) = .ok name host') :
    (p.step files uuid4 (.createWorker call)).host.workerTaskQueue = some name ∧
      ((p.step files uuid4 (.createWorker call)).groups = p.groups ∨
        (p.step files uuid4 (.createWorker call)).groups = p.groups ++ [call.group name]) := by
  rcases CreateWorker.run_resolved affinity ran with made | ⟨e, refused⟩
  · simp only [GroupHost.step, made]
    exact ⟨trivial, .inr trivial⟩
  · simp only [GroupHost.step, refused]
    exact ⟨trivial, .inl trivial⟩

end Calls

variable (files uuid4) in
/-- A step that asks for a queue puts it in use, and may add a group with it; any
other step leaves the queue and the groups. -/
theorem step_cases (p : GroupHost Chan δ) (s : HostStep Chan δ ε) :
    ((∀ name, ¬AsksFor files uuid4 p s name) ∧
      (p.step files uuid4 s).host.workerTaskQueue = p.host.workerTaskQueue ∧
      (p.step files uuid4 s).groups = p.groups) ∨
    ∃ name, AsksFor files uuid4 p s name ∧ (p.step files uuid4 s).host.workerTaskQueue = some name ∧
      ((p.step files uuid4 s).groups = p.groups ∨
        ∃ call : CreateWorker Chan ε, (p.step files uuid4 s).groups = p.groups ++ [call.group name]) := by
  cases s with
  | changeFiles disk => exact .inl ⟨fun _ => id, rfl, rfl⟩
  | createWorker call =>
      cases affinity : call.useWorkerAffinity with
      | false =>
          refine .inl ⟨fun name asks => ?_, step_plain affinity⟩
          have needed := asks.1
          rw [affinity] at needed
          cases needed
      | true =>
          cases ran : Host.resolveWorkerQueue files uuid4 call.taskQueue call.workerQueueFile
              (call.registered uuid4 p.host) with
          | error e host' =>
              refine .inl ⟨fun name asks => ?_, step_unresolved affinity ran⟩
              obtain ⟨host'', returns⟩ := asks.2.returns
              rw [ran] at returns
              cases returns
          | ok name host' =>
              obtain ⟨queue, groups⟩ := step_resolved affinity ran
              exact .inr ⟨name, ⟨affinity, resolvesTo_of_ok ran⟩, queue, groups.imp_right fun more => ⟨call, more⟩⟩

/-! ## What a process does -/

theorem tellsOwnQueue_group {host : Host Chan δ} (call : CreateWorker Chan ε) (name : String) :
    TellsOwnQueue host (call.group name) ↔ host.workerTaskQueue = some name := by
  have told : host.getAvailableTaskQueue = .ok name ↔ host.workerTaskQueue = some name := by
    unfold Host.getAvailableTaskQueue
    cases host.workerTaskQueue with
    | none => simp
    | some queue => simp
  rw [← told]
  constructor
  · intro tells
    exact tells call.sharedWorker (by simp [CreateWorker.group]) (by simp [CreateWorker.sharedWorker])
      (call.specificWorker name) (by simp [CreateWorker.group]) (by simp [CreateWorker.specificWorker])
  · intro own shared _ _ node mem executes
    rcases List.mem_pair.mp mem with rfl | rfl
    · simp [CreateWorker.sharedWorker] at executes
    · exact own

/-- All groups have been made by calls. -/
def Made (ε : Type) (p : GroupHost Chan δ) : Prop :=
  ∀ group ∈ p.groups, ∃ (call : CreateWorker Chan ε) (name : String), group = call.group name

theorem made_step {p : GroupHost Chan δ} (made : Made ε p) (s : HostStep Chan δ ε) :
    Made ε (p.step files uuid4 s) := by
  rcases step_cases files uuid4 p s with ⟨-, -, same⟩ | ⟨name, -, -, same | ⟨call, more⟩⟩
  · rwa [Made, same]
  · rwa [Made, same]
  · intro group mem
    rw [more] at mem
    rcases List.mem_append.mp mem with old | new
    · exact made group old
    · exact ⟨call, name, List.mem_singleton.mp new⟩

/-- What is told stays right exactly as long as the queue stays. -/
theorem tells_iff {p : GroupHost Chan δ} {host : Host Chan δ} (made : Made ε p) (own : OwnQueues p)
    {group : WorkerGroup TemporalWorker} (mem : group ∈ p.groups) :
    TellsOwnQueue host group ↔ host.workerTaskQueue = p.host.workerTaskQueue := by
  obtain ⟨call, name, rfl⟩ := made group mem
  have now := (tellsOwnQueue_group call name).mp (own _ mem)
  rw [tellsOwnQueue_group, now]

/-- A step keeps every group's own queue in use exactly if it asks for no other. -/
theorem own_step_iff {p : GroupHost Chan δ} (made : Made ε p) (own : OwnQueues p) (s : HostStep Chan δ ε) :
    OwnQueues (p.step files uuid4 s) ↔ KeepsQueue files uuid4 p s := by
  rcases step_cases files uuid4 p s with ⟨silent, queue, groups⟩ | ⟨name, asks, queue, groups⟩
  · refine iff_of_true (fun group mem => ?_) (.inr fun name asks => absurd asks (silent name))
    rw [groups] at mem
    exact (tells_iff made own mem).mpr queue
  · constructor
    · intro own'
      by_cases empty : p.groups = []
      · exact .inl empty
      · obtain ⟨group, mem⟩ := List.exists_mem_of_ne_nil _ empty
        have mem' : group ∈ (p.step files uuid4 s).groups := by
          rcases groups with same | ⟨call, more⟩
          · rwa [same]
          · rw [more]
            exact List.mem_append_left _ mem
        have same := (tells_iff made own mem).mp (own' group mem')
        refine .inr fun other asks' => ?_
        rw [asks'.unique asks, ← same, queue]
    · intro keeps group mem
      have stays (old : group ∈ p.groups) : TellsOwnQueue (p.step files uuid4 s).host group := by
        rcases keeps with empty | same
        · rw [empty] at old
          cases old
        · exact (tells_iff made own old).mpr (queue.trans (same name asks).symm)
      rcases groups with unchanged | ⟨call, more⟩
      · exact stays (unchanged ▸ mem)
      · rw [more] at mem
        rcases List.mem_append.mp mem with old | new
        · exact stays old
        · rw [List.mem_singleton.mp new]
          exact (tellsOwnQueue_group call name).mpr queue

section Runs

variable (files uuid4)

theorem after_snoc (disk : δ) (steps : List (HostStep Chan δ ε)) (s : HostStep Chan δ ε) :
    GroupHost.after files uuid4 disk (steps ++ [s]) =
      (GroupHost.after files uuid4 disk steps).step files uuid4 s := by
  rw [GroupHost.after, List.foldl_append]
  rfl

theorem made_after (disk : δ) (steps : List (HostStep Chan δ ε)) :
    Made ε (GroupHost.after files uuid4 disk steps) := by
  induction steps using List.reverseRecOn with
  | nil =>
      intro group mem
      cases mem
  | append_singleton steps s ih =>
      rw [after_snoc]
      exact made_step ih s

/-- **All groups of a process are told their own queues, in each of its states, if
and only if no step asks for another queue than the one in use once there is a
group.** -/
theorem own_queue_iff (disk : δ) (steps : List (HostStep Chan δ ε)) :
    (∀ before, before <+: steps → OwnQueues (GroupHost.after files uuid4 disk before)) ↔
      Guarded (fun before s => KeepsQueue files uuid4 (GroupHost.after files uuid4 disk before) s) steps := by
  refine forall_prefix_iff_guarded (fun group mem => ?_) fun before s own => ?_
  · cases mem
  · rw [after_snoc]
    exact own_step_iff (made_after files uuid4 disk before) own s

end Runs

end Queues

/-! ## Two groups -/

/-- No files. -/
def noFiles : Files Unit String where
  pathExists _ _ := .ok false
  readText _ _ := .error "FileNotFoundError"
  mkdirParents _ := return ()
  writeText _ _ := return ()

/-- Random uuids. -/
def someUuids : Nat → String
  | 0 => "5b0f5e0c7c0e4a53b6fd0d3a4c7f1e92"
  | 1 => "0f3c9a4be1d24c7f8a5b6c7d8e9fa0b1"
  | 2 => "a94d7e21f3b84c06910c5d2e8b7f6a34"
  | _ => "7d21e6058c394f1ab2c3d4e5f6a7b8c9"

def affinityCall : CreateWorker Channel String where
  graph := Machine.Reference.graph []
  client := .obj 0
  taskQueue := "queue"
  useWorkerAffinity := true
  refuses _ := none

theorem queueNames_differ : Host.queueName "queue" (someUuids 3) ≠ Host.queueName "queue" (someUuids 1) := by
  intro same
  have digits := congrArg String.toList same
  simp [Host.queueName, someUuids] at digits

/-- **The shared worker of the first group tells the queue of the second one.** -/
theorem first_group_misled :
    ¬OwnQueues (GroupHost.after noFiles someUuids () [.createWorker affinityCall, .createWorker affinityCall]) := by
  intro own
  have told := own (affinityCall.group (Host.queueName "queue" (someUuids 1))) List.mem_cons_self
  exact queueNames_differ (Option.some.inj ((tellsOwnQueue_group affinityCall _).mp told))

end LanggraphTemporal.Properties
