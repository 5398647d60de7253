/-
# Properties.QueueFiles -- a worker that is started again finds its queue

`create_worker` keeps the name of a queue in a file, so that a worker process that
is started again listens on the queue it had.  Over all lives of all processes of a
deployment, two groups execute nodes from the same queue exactly if they were made
with the same queue file (`shared_queue_iff`).

`_resolve_worker_queue` strips what it reads, so this needs that no task queue
begins with white space: the name of such a queue is not the one that is read from
its file (`strip_spaced`).
-/
import LanggraphTemporal.Model.Deployment
import LanggraphTemporal.Properties.WorkerQueues

namespace LanggraphTemporal.Properties

set_option autoImplicit false

open Theory Theory.History Theory.Effects Model

variable {P Chan δ ε φ : Type} {files : Files δ ε} {uuid4 : Nat → String}

/-! ## Names -/

/-- The digits of the `n`-th uuid that names are made with. -/
def nameDigits (uuid4 : Nat → String) (n : Nat) : String := ((uuid4 n).take 12).copy

/-- Of the first `n` uuids, no two give the same digits. -/
def FreshNames (uuid4 : Nat → String) (n : Nat) : Prop :=
  ∀ i < n, ∀ j < n, nameDigits uuid4 i = nameDigits uuid4 j → i = j

/-- The digits are twelve characters, none of which is white space. -/
def Digits (uuid4 : Nat → String) : Prop :=
  ∀ n, (nameDigits uuid4 n).length = 12 ∧ ∀ c ∈ (nameDigits uuid4 n).toList, Host.isSpace c = false

/-- The name ends with the digits of this uuid. -/
def NamedBy (uuid4 : Nat → String) (n : Nat) (name : String) : Prop :=
  ∃ front, name.toList = front ++ (nameDigits uuid4 n).toList

theorem NamedBy.unique (digits : Digits uuid4) {m n : Nat} {name : String} (named : NamedBy uuid4 m name)
    (named' : NamedBy uuid4 n name) : nameDigits uuid4 m = nameDigits uuid4 n := by
  obtain ⟨front, ends⟩ := named
  obtain ⟨front', ends'⟩ := named'
  rw [ends] at ends'
  have lengths : (nameDigits uuid4 m).toList.length = (nameDigits uuid4 n).toList.length := by
    rw [String.length_toList, String.length_toList, (digits m).1, (digits n).1]
  exact String.toList_inj.mp (List.append_inj' ends' lengths).2

theorem namedBy_queueName (taskQueue : String) (n : Nat) :
    NamedBy uuid4 n (Host.queueName taskQueue (uuid4 n)) := by
  refine ⟨(taskQueue ++ "-worker-").toList, ?_⟩
  show (taskQueue ++ "-worker-" ++ nameDigits uuid4 n).toList = _
  rw [String.toList_append]

/-- The text does not begin with white space. -/
def Unspaced (text : String) : Prop := ∀ c, text.toList.head? = some c → Host.isSpace c = false

theorem dropWhile_of_head {p : Char → Bool} {cs : List Char} (stops : ∀ c, cs.head? = some c → p c = false) :
    cs.dropWhile p = cs := by
  cases cs with
  | nil => rfl
  | cons c cs => exact List.dropWhile_cons_of_neg (Bool.eq_false_iff.mp (stops c rfl))

/-- A name of such a task queue is read as it has been written. -/
theorem strip_queueName (digits : Digits uuid4) {taskQueue : String} (unspaced : Unspaced taskQueue) (n : Nat) :
    Host.strip (Host.queueName taskQueue (uuid4 n)) = Host.queueName taskQueue (uuid4 n) := by
  obtain ⟨twelve, plain⟩ := digits n
  have name : (Host.queueName taskQueue (uuid4 n)).toList =
      taskQueue.toList ++ "-worker-".toList ++ (nameDigits uuid4 n).toList := by
    show (taskQueue ++ "-worker-" ++ nameDigits uuid4 n).toList = _
    rw [String.toList_append, String.toList_append]
  have some : (nameDigits uuid4 n).toList ≠ [] := by
    intro none
    rw [← String.length_toList, none] at twelve
    cases twelve
  have front : (Host.queueName taskQueue (uuid4 n)).toList.dropWhile Host.isSpace =
      (Host.queueName taskQueue (uuid4 n)).toList := by
    refine dropWhile_of_head fun c first => ?_
    rw [name] at first
    cases chars : taskQueue.toList with
    | nil =>
        rw [chars] at first
        cases first
        rfl
    | cons d ds =>
        rw [chars] at first
        exact unspaced c (by rw [chars]; exact first)
  have back : (Host.queueName taskQueue (uuid4 n)).toList.reverse.dropWhile Host.isSpace =
      (Host.queueName taskQueue (uuid4 n)).toList.reverse := by
    refine dropWhile_of_head fun c last => plain c ?_
    rw [List.head?_reverse, name, List.getLast?_append_of_ne_nil _ some] at last
    exact List.mem_of_getLast? last
  unfold Host.strip
  rw [front, back, List.reverse_reverse, String.ofList_toList]

/-- A name that begins with white space is read as another one. -/
theorem strip_spaced {name : String} (spaced : ¬Unspaced name) : Host.strip name ≠ name := by
  intro same
  refine spaced fun c first => ?_
  cases chars : name.toList with
  | nil =>
      rw [chars] at first
      cases first
  | cons d ds =>
      rw [chars] at first
      cases first
      by_contra space
      have space : Host.isSpace c = true := by simpa using space
      have stripped := congrArg (fun text : String => text.toList.length) same
      have front := (List.dropWhile_sublist (p := Host.isSpace) (l := ds)).length_le
      have back := (List.dropWhile_sublist Host.isSpace (l := (ds.dropWhile Host.isSpace).reverse)).length_le
      simp [Host.strip, chars, space] at stripped back
      omega

theorem queueName_ne (taskQueue hex : String) : Host.queueName taskQueue hex ≠ "" := by
  intro empty
  have lists := congrArg String.toList empty
  simp [Host.queueName] at lists

/-! ## What a call does to the files -/

section Calls

variable (F : FileSystem files φ)

/-- There is no name in the file. -/
def Blank (f : φ) (disk : δ) : Prop := ∀ t, F.text f disk = some t → Host.strip t = ""

/-- What a call comes to when `n` uuids have been drawn, and what it does to the
files: its queue, if it has got one, and what it has drawn by then. -/
inductive Resolution (uuid4 : Nat → String) (call : CreateWorker Chan ε) (n : Nat) (disk : δ) :
    Option String → Nat → δ → Prop where
  | fresh (unnamed : call.workerQueueFile = none) :
      Resolution uuid4 call n disk (some (Host.queueName call.taskQueue (uuid4 n))) (n + 1) disk
  | stored {path t : String} (file : call.workerQueueFile = some path)
      (text : F.text (F.file path) disk = some t) (named : Host.strip t ≠ "") :
      Resolution uuid4 call n disk (some (Host.strip t)) n disk
  | persisted {path : String} {disk' : δ} (file : call.workerQueueFile = some path)
      (blank : Blank F (F.file path) disk)
      (written : F.text (F.file path) disk' = some (Host.queueName call.taskQueue (uuid4 n)))
      (others : ∀ f, f ≠ F.file path → F.text f disk' = F.text f disk) :
      Resolution uuid4 call n disk (some (Host.queueName call.taskQueue (uuid4 n))) (n + 1) disk'
  | failed {m : Nat} {disk' : δ} (drawn : n ≤ m)
      (same : ∀ f, F.text f disk' = F.text f disk ∨ Blank F f disk ∧ Blank F f disk') :
      Resolution uuid4 call n disk none m disk'

variable {F} {call : CreateWorker Chan ε} {host host' : Host Chan δ} {path name : String}

theorem storedName_ok {disk : δ} (found : Host.storedName files path disk = .ok name) :
    name ≠ "" ∧ (∃ t, F.text (F.file path) disk = some t ∧ Host.strip t = name) ∨
      name = "" ∧ Blank F (F.file path) disk := by
  unfold Host.storedName at found
  cases present : files.pathExists path disk with
  | error e =>
      rw [present] at found
      cases found
  | ok b =>
      rw [present] at found
      cases b with
      | false =>
          cases found
          refine .inr ⟨rfl, fun t text => ?_⟩
          rw [F.pathExists_ok present] at text
          cases text
      | true =>
          cases read : files.readText path disk with
          | error e =>
              have failed : (files.readText path disk >>= fun t => (Except.ok (Host.strip t) : Except ε String)) =
                  .ok name := found
              rw [read] at failed
              cases failed
          | ok t =>
              have strips : (files.readText path disk >>= fun t => (Except.ok (Host.strip t) : Except ε String)) =
                  .ok name := found
              rw [read] at strips
              cases strips
              have text := F.readText_ok read
              by_cases empty : Host.strip t = ""
              · refine .inr ⟨empty, fun t' text' => ?_⟩
                rw [text] at text'
                cases text'
                exact empty
              · exact .inl ⟨empty, t, text, rfl⟩

theorem stateAfter_eq {change : EStateM ε δ Unit} {disk disk' : δ}
    (ran : change disk = .ok () disk' ∨ ∃ e, change disk = .error e disk') : stateAfter change disk = disk' := by
  unfold stateAfter
  rcases ran with ran | ⟨e, ran⟩
  · rw [ran]
  · rw [ran]

theorem mkdir_text {disk disk' : δ} (ran : files.mkdirParents path disk = .ok () disk' ∨
    ∃ e, files.mkdirParents path disk = .error e disk') (f : φ) : F.text f disk' = F.text f disk := by
  rw [← stateAfter_eq ran]
  exact F.mkdirParents_text f path disk

theorem write_other {t : String} {disk disk' : δ} {f : φ} (other : f ≠ F.file path)
    (ran : files.writeText path t disk = .ok () disk' ∨ ∃ e, files.writeText path t disk = .error e disk') :
    F.text f disk' = F.text f disk := by
  rw [← stateAfter_eq ran]
  exact F.writeText_other other

variable (F) in
theorem resolution_of_ok (ran : Host.resolveWorkerQueue files uuid4 call.taskQueue call.workerQueueFile host =
    .ok name host') : Resolution F uuid4 call host.uuids host.disk (some name) host'.uuids host'.disk := by
  cases file : call.workerQueueFile with
  | none =>
      rw [file] at ran
      cases ran
      exact .fresh file
  | some path =>
      rw [file] at ran
      cases found : Host.storedName files path host.disk with
      | error e =>
          rw [Host.resolveWorkerQueue_error found] at ran
          cases ran
      | ok stored =>
          rcases storedName_ok (F := F) found with ⟨named, t, text, same⟩ | ⟨empty, blank⟩
          · rw [Host.resolveWorkerQueue_stored found named] at ran
            cases ran
            rw [← same] at named ⊢
            exact .stored file text named
          · subst empty
            rw [Host.resolveWorkerQueue_absent found] at ran
            obtain ⟨⟨⟩, made, makes, rest⟩ := bind_eq_ok.mp ran
            obtain ⟨⟨⟩, written, writes, rest⟩ := bind_eq_ok.mp rest
            obtain ⟨disk, parents, rfl⟩ := Host.onDisk_ok.mp makes
            obtain ⟨disk', write, rfl⟩ := Host.onDisk_ok.mp writes
            cases rest
            refine .persisted file blank (F.writeText_ok write) fun f other => ?_
            rw [write_other other (.inl write)]
            exact mkdir_text (.inl parents) f

theorem onDisk_error {change : EStateM ε δ Unit} {e : ε} (ran : Host.onDisk change host = .error e host') :
    ∃ disk, change host.disk = .error e disk ∧ host' = { host with disk } := by
  unfold Host.onDisk at ran
  cases changed : change host.disk with
  | ok u disk =>
      rw [changed] at ran
      cases ran
  | error e' disk =>
      rw [changed] at ran
      cases ran
      exact ⟨disk, rfl, rfl⟩

variable (F) in
theorem resolution_of_error {e : ε} (ran : Host.resolveWorkerQueue files uuid4 call.taskQueue
    call.workerQueueFile host = .error e host') :
    Resolution F uuid4 call host.uuids host.disk none host'.uuids host'.disk := by
  cases file : call.workerQueueFile with
  | none =>
      rw [file] at ran
      cases ran
  | some path =>
      rw [file] at ran
      cases found : Host.storedName files path host.disk with
      | error e' =>
          rw [Host.resolveWorkerQueue_error found] at ran
          cases ran
          exact .failed le_rfl fun f => .inl rfl
      | ok stored =>
          rcases storedName_ok (F := F) found with ⟨named, t, text, same⟩ | ⟨empty, blank⟩
          · rw [Host.resolveWorkerQueue_stored found named] at ran
            cases ran
          · subst empty
            rw [Host.resolveWorkerQueue_absent found] at ran
            let drawn : Host Chan δ := { host with uuids := host.uuids + 1 }
            cases makes : Host.onDisk (files.mkdirParents path) drawn with
            | error e' made =>
                rw [bind_of_error makes] at ran
                cases ran
                obtain ⟨disk, parents, rfl⟩ := onDisk_error makes
                exact .failed (Nat.le_succ _) fun f => .inl (mkdir_text (.inr ⟨_, parents⟩) f)
            | ok u made =>
                rw [bind_of_ok makes] at ran
                obtain ⟨disk, parents, rfl⟩ := Host.onDisk_ok.mp makes
                cases writes : Host.onDisk (files.writeText path (Host.queueName call.taskQueue
                    (uuid4 host.uuids))) { drawn with disk } with
                | ok u' written =>
                    rw [bind_of_ok writes] at ran
                    cases ran
                | error e' written =>
                    rw [bind_of_error writes] at ran
                    cases ran
                    obtain ⟨disk', write, rfl⟩ := onDisk_error writes
                    refine .failed (Nat.le_succ _) fun f => ?_
                    have kept := mkdir_text (F := F) (.inl parents) f
                    by_cases here : f = F.file path
                    · subst here
                      rcases F.writeText_error write with same | emptied
                      · exact .inl (same.trans kept)
                      · refine .inr ⟨blank, fun t text => ?_⟩
                        change F.text (F.file path) disk' = some t at text
                        rw [emptied] at text
                        cases text
                        rfl
                    · exact .inl ((write_other here (.inr ⟨_, write⟩)).trans kept)

end Calls

/-! ## What a step does -/

section Steps

variable [DecidableEq P] (F : FileSystem files φ) (uuid4) (d : Deployment P Chan δ ε)
  (call : CreateWorker Chan ε)

/-- A call comes to a queue or to none, and may return a group with that queue. -/
theorem step_createWorker (process : P) :
    ∃ name, Resolution F uuid4 call (d.uuids + 1) d.disk name
        (d.step files uuid4 (.createWorker process call)).uuids
        (d.step files uuid4 (.createWorker process call)).disk ∧
      ((d.step files uuid4 (.createWorker process call)).created = d.created ∨
        ∃ queue, name = some queue ∧ (d.step files uuid4 (.createWorker process call)).created =
          d.created ++ [(call, call.group queue)]) := by
  have start : (call.registered uuid4 (d.host process)).uuids = d.uuids + 1 := rfl
  have disk : (call.registered uuid4 (d.host process)).disk = d.disk := rfl
  cases affinity : call.useWorkerAffinity with
  | false =>
      refine ⟨none, ?_⟩
      rcases @CreateWorker.run_plain _ _ _ files uuid4 call (d.host process) affinity with ran | ⟨e, ran⟩
      · simp only [Deployment.step, ran]
        exact ⟨.failed le_rfl fun f => .inl rfl, .inl rfl⟩
      · simp only [Deployment.step, ran]
        exact ⟨.failed le_rfl fun f => .inl rfl, .inl rfl⟩
  | true =>
      cases ran : Host.resolveWorkerQueue files uuid4 call.taskQueue call.workerQueueFile
          (call.registered uuid4 (d.host process)) with
      | error e host' =>
          simp only [Deployment.step, CreateWorker.run_unresolved affinity ran]
          exact ⟨none, resolution_of_error F ran, .inl rfl⟩
      | ok name host' =>
          have resolution := resolution_of_ok F ran
          rcases CreateWorker.run_resolved affinity ran with made | ⟨e, refused⟩
          · simp only [Deployment.step, made]
            exact ⟨some name, resolution, .inr ⟨name, rfl, rfl⟩⟩
          · simp only [Deployment.step, refused]
            exact ⟨some name, resolution, .inl rfl⟩

end Steps

/-! ## What is kept of the names -/

/-- Two calls have been given the same queue file. -/
def SameQueueFile (F : FileSystem files φ) (a b : CreateWorker Chan ε) : Prop :=
  ∃ p q, a.workerQueueFile = some p ∧ b.workerQueueFile = some q ∧ F.file p = F.file q

/-- Two groups execute nodes from the same queue if their calls have been given the
same queue file, and only then. -/
def SharesByFile (F : FileSystem files φ) (a b : CreateWorker Chan ε × WorkerGroup TemporalWorker) : Prop :=
  nodeQueue a.2 = nodeQueue b.2 ↔ SameQueueFile F a.1 b.1

section KeptNames

variable (F : FileSystem files φ) (uuid4 : Nat → String) (queueFiles : φ → Prop)

/-- Each name in a queue file has been drawn for this file, it is the queue of all
groups with that file, and the names of other groups have been drawn for none. -/
structure KeptNames (owner : Nat → Option φ) (uuids : Nat) (disk : δ)
    (created : List (CreateWorker Chan ε × WorkerGroup TemporalWorker)) : Prop where
  filed : ∀ p ∈ created, ∀ path, p.1.workerQueueFile = some path → queueFiles (F.file path) ∧
    ∃ t, F.text (F.file path) disk = some t ∧ Host.strip t ≠ "" ∧ nodeQueue p.2 = some (Host.strip t)
  unfiled : ∀ p ∈ created, p.1.workerQueueFile = none →
    ∃ n < uuids, owner n = none ∧ ∃ queue, nodeQueue p.2 = some queue ∧ NamedBy uuid4 n queue
  stored : ∀ f t, queueFiles f → F.text f disk = some t → Host.strip t ≠ "" →
    ∃ n < uuids, owner n = some f ∧ NamedBy uuid4 n (Host.strip t)
  apart : created.Pairwise (SharesByFile F)

variable {F uuid4 queueFiles} {owner owner' : Nat → Option φ} {uuids uuids' : Nat} {disk disk' : δ}
  {created : List (CreateWorker Chan ε × WorkerGroup TemporalWorker)} {call : CreateWorker Chan ε}

theorem NamedBy.drawn (digits : Digits uuid4) (fresh : FreshNames uuid4 uuids) {m n : Nat} {name : String}
    (named : NamedBy uuid4 m name) (named' : NamedBy uuid4 n name) (below : m < uuids) (below' : n < uuids) :
    m = n := fresh m below n below' (named.unique digits named')

/-- A name has been drawn for one file at most. -/
theorem owner_unique (digits : Digits uuid4) (fresh : FreshNames uuid4 uuids) {who who' : Option φ} {name : String}
    (drawn : ∃ n < uuids, owner n = who ∧ NamedBy uuid4 n name)
    (drawn' : ∃ n < uuids, owner n = who' ∧ NamedBy uuid4 n name) : who = who' := by
  obtain ⟨m, below, rfl, named⟩ := drawn
  obtain ⟨n, below', rfl, named'⟩ := drawn'
  rw [named.drawn digits fresh named' below below']

/-- Nothing is lost where the names stay, and what is drawn later has other owners. -/
theorem KeptNames.later (kept : KeptNames F uuid4 queueFiles owner uuids disk created) (drawn : uuids ≤ uuids')
    (before : ∀ n < uuids, owner' n = owner n)
    (same : ∀ f, queueFiles f → F.text f disk' = F.text f disk ∨ Blank F f disk ∧ Blank F f disk') :
    KeptNames F uuid4 queueFiles owner' uuids' disk' created where
  filed p mem path file := by
    obtain ⟨known, t, text, named, queue⟩ := kept.filed p mem path file
    refine ⟨known, t, ?_, named, queue⟩
    rcases same _ known with unchanged | ⟨blank, -⟩
    · exact unchanged.trans text
    · exact absurd (blank t text) named
  unfiled p mem none := by
    obtain ⟨n, below, unowned, named⟩ := kept.unfiled p mem none
    exact ⟨n, Nat.lt_of_lt_of_le below drawn, (before n below).trans unowned, named⟩
  stored f t known text named := by
    rcases same f known with unchanged | ⟨-, blank⟩
    · obtain ⟨n, below, owned, namedBy⟩ := kept.stored f t known (unchanged ▸ text) named
      exact ⟨n, Nat.lt_of_lt_of_le below drawn, (before n below).trans owned, namedBy⟩
    · exact absurd (blank t text) named
  apart := kept.apart

/-- A fresh name is written to a blank file. -/
theorem KeptNames.persist (kept : KeptNames F uuid4 queueFiles owner uuids disk created) {f₀ : φ} {name : String}
    (known : queueFiles f₀) (blank : Blank F f₀ disk) (written : F.text f₀ disk' = some name)
    (others : ∀ f, f ≠ f₀ → F.text f disk' = F.text f disk) {n : Nat} (drawn : uuids ≤ n)
    (named : NamedBy uuid4 n (Host.strip name)) :
    KeptNames F uuid4 queueFiles (Function.update owner n (some f₀)) (n + 1) disk' created where
  filed p mem path file := by
    obtain ⟨known', t, text, some, queue⟩ := kept.filed p mem path file
    refine ⟨known', t, ?_, some, queue⟩
    by_cases here : F.file path = f₀
    · rw [here] at text
      exact absurd (blank t text) some
    · exact (others _ here).trans text
  unfiled p mem none := by
    obtain ⟨m, below, unowned, namedBy⟩ := kept.unfiled p mem none
    refine ⟨m, by omega, ?_, namedBy⟩
    rw [Function.update_of_ne (by omega)]
    exact unowned
  stored f t known' text some := by
    by_cases here : f = f₀
    · subst here
      rw [written] at text
      cases text
      exact ⟨n, Nat.lt_succ_self n, Function.update_self n _ owner, named⟩
    · rw [others f here] at text
      obtain ⟨m, below, owned, namedBy⟩ := kept.stored f t known' text some
      refine ⟨m, by omega, ?_, namedBy⟩
      rw [Function.update_of_ne (by omega)]
      exact owned
  apart := kept.apart

/-- What a new group needs: its queue is the name in its file, or it has been drawn
for no file and is nobody else's. -/
structure Fits (F : FileSystem files φ) (uuid4 : Nat → String) (queueFiles : φ → Prop)
    (owner : Nat → Option φ) (uuids : Nat) (disk : δ)
    (created : List (CreateWorker Chan ε × WorkerGroup TemporalWorker)) (call : CreateWorker Chan ε)
    (queue : String) : Prop where
  filed : ∀ path, call.workerQueueFile = some path → queueFiles (F.file path) ∧
    ∃ t, F.text (F.file path) disk = some t ∧ Host.strip t ≠ "" ∧ queue = Host.strip t
  unfiled : call.workerQueueFile = none → (∃ n < uuids, owner n = none ∧ NamedBy uuid4 n queue) ∧
    ∀ p ∈ created, p.1.workerQueueFile = none → nodeQueue p.2 ≠ some queue

/-- A new group shares its queue with the groups that have its queue file. -/
theorem KeptNames.shares (digits : Digits uuid4) (fresh : FreshNames uuid4 uuids)
    (kept : KeptNames F uuid4 queueFiles owner uuids disk created) {queue : String}
    (fits : Fits F uuid4 queueFiles owner uuids disk created call queue)
    {p : CreateWorker Chan ε × WorkerGroup TemporalWorker} (old : p ∈ created) :
    SharesByFile F p (call, call.group queue) := by
  unfold SharesByFile SameQueueFile
  rw [nodeQueue_group]
  cases file : p.1.workerQueueFile with
  | none =>
      refine iff_of_false (fun same => ?_) (by simp)
      cases file' : call.workerQueueFile with
      | none => exact (fits.unfiled file').2 p old file same
      | some path =>
          obtain ⟨known, t, text, some, rfl⟩ := fits.filed path file'
          obtain ⟨n, below, unowned, name, queue, namedBy⟩ := kept.unfiled p old file
          rw [queue] at same
          cases same
          cases owner_unique digits fresh ⟨n, below, unowned, namedBy⟩ (kept.stored _ t known text some)
  | some path =>
      obtain ⟨known, t, text, some, named⟩ := kept.filed p old path file
      have owned := kept.stored _ t known text some
      rw [named]
      cases file' : call.workerQueueFile with
      | none =>
          refine iff_of_false (fun same => ?_) (by simp)
          cases same
          cases owner_unique digits fresh owned (fits.unfiled file').1
      | some path' =>
          obtain ⟨known', t', text', some', rfl⟩ := fits.filed path' file'
          constructor
          · intro same
            have owned' := kept.stored _ t' known' text' some'
            rw [← Option.some.inj same] at owned'
            exact ⟨path, path', rfl, rfl, Option.some.inj (owner_unique digits fresh owned owned')⟩
          · rintro ⟨p', q', rfl', rfl'', same⟩
            cases rfl'
            cases rfl''
            rw [same, text'] at text
            cases text
            rfl

theorem KeptNames.add (digits : Digits uuid4) (fresh : FreshNames uuid4 uuids)
    (kept : KeptNames F uuid4 queueFiles owner uuids disk created) {queue : String}
    (fits : Fits F uuid4 queueFiles owner uuids disk created call queue) :
    KeptNames F uuid4 queueFiles owner uuids disk (created ++ [(call, call.group queue)]) where
  filed p mem path file := by
    rcases List.mem_append.mp mem with old | new
    · exact kept.filed p old path file
    · rw [List.mem_singleton.mp new] at file ⊢
      obtain ⟨known, t, text, named, rfl⟩ := fits.filed path file
      exact ⟨known, t, text, named, nodeQueue_group call _⟩
  unfiled p mem none := by
    rcases List.mem_append.mp mem with old | new
    · exact kept.unfiled p old none
    · rw [List.mem_singleton.mp new] at none ⊢
      obtain ⟨⟨n, below, unowned, named⟩, -⟩ := fits.unfiled none
      exact ⟨n, below, unowned, queue, nodeQueue_group call _, named⟩
  stored := kept.stored
  apart := by
    refine List.pairwise_append.mpr ⟨kept.apart, List.pairwise_singleton _ _, fun p old q new => ?_⟩
    rw [List.mem_singleton.mp new]
    exact kept.shares digits fresh fits old

end KeptNames

/-! ## Whole deployments -/

section Deployments

variable [DecidableEq P] (F : FileSystem files φ) (uuid4 : Nat → String) (queueFiles : φ → Prop)

/-- The step is given a queue file only for names, and no task queue that begins
with white space; others leave the queue files alone. -/
def OrderlyFiles (d : Deployment P Chan δ ε) : DeploymentStep P Chan δ ε → Prop
  | .createWorker _ call =>
      Unspaced call.taskQueue ∧ ∀ path, call.workerQueueFile = some path → queueFiles (F.file path)
  | .restart _ => True
  | .changeFiles disk => ∀ f, queueFiles f → F.text f disk = F.text f d.disk

variable {F uuid4 queueFiles} {d : Deployment P Chan δ ε} {owner : Nat → Option φ}

omit [DecidableEq P] in
/-- What is kept after a call that has come to a queue or to none. -/
theorem kept_resolution {call : CreateWorker Chan ε} {name : Option String} {uuids : Nat} {disk : δ}
    (digits : Digits uuid4) (unspaced : Unspaced call.taskQueue)
    (files : ∀ path, call.workerQueueFile = some path → queueFiles (F.file path))
    (fresh : FreshNames uuid4 uuids) (kept : KeptNames F uuid4 queueFiles owner d.uuids d.disk d.created)
    (resolution : Resolution F uuid4 call (d.uuids + 1) d.disk name uuids disk) :
    ∃ owner', KeptNames F uuid4 queueFiles owner' uuids disk d.created ∧
      ∀ queue, name = some queue → Fits F uuid4 queueFiles owner' uuids disk d.created call queue := by
  cases resolution with
  | fresh unnamed =>
      refine ⟨Function.update owner (d.uuids + 1) none, kept.later (by omega) (fun n below => ?_)
        (fun f _ => .inl rfl), ?_⟩
      · exact Function.update_of_ne (by omega) _ _
      · rintro queue ⟨rfl⟩
        refine ⟨fun path file => ?_, fun _ => ⟨⟨d.uuids + 1, by omega, Function.update_self _ _ _,
          namedBy_queueName _ _⟩, fun p mem none same => ?_⟩⟩
        · rw [unnamed] at file
          cases file
        · obtain ⟨n, below, -, queue, named, namedBy⟩ := kept.unfiled p mem none
          rw [named] at same
          cases same
          have drawn := namedBy.drawn digits fresh (namedBy_queueName _ _) (by omega) (by omega)
          omega
  | @stored path t file text named =>
      refine ⟨owner, kept.later (by omega) (fun _ _ => rfl) (fun f _ => .inl rfl), ?_⟩
      rintro queue ⟨rfl⟩
      refine ⟨fun path' file' => ?_, fun none => ?_⟩
      · rw [file] at file'
        cases file'
        exact ⟨files path file, t, text, named, rfl⟩
      · rw [file] at none
        cases none
  | @persisted path disk' file blank written others =>
      have read := strip_queueName digits unspaced (d.uuids + 1)
      refine ⟨Function.update owner (d.uuids + 1) (some (F.file path)), kept.persist (files path file) blank
        written others (by omega) ?_, ?_⟩
      · rw [read]
        exact namedBy_queueName _ _
      · rintro queue ⟨rfl⟩
        refine ⟨fun path' file' => ?_, fun none => ?_⟩
        · rw [file] at file'
          cases file'
          refine ⟨files path file, _, written, ?_, read.symm⟩
          rw [read]
          exact queueName_ne _ _
        · rw [file] at none
          cases none
  | failed drawn same =>
      refine ⟨owner, kept.later (by omega) (fun _ _ => rfl) (fun f _ => same f), ?_⟩
      rintro queue ⟨⟩

theorem kept_step (digits : Digits uuid4) {s : DeploymentStep P Chan δ ε} (orderly : OrderlyFiles F queueFiles d s)
    (fresh : FreshNames uuid4 (d.step files uuid4 s).uuids)
    (kept : KeptNames F uuid4 queueFiles owner d.uuids d.disk d.created) :
    ∃ owner', KeptNames F uuid4 queueFiles owner' (d.step files uuid4 s).uuids (d.step files uuid4 s).disk
      (d.step files uuid4 s).created := by
  cases s with
  | restart process => exact ⟨owner, kept⟩
  | changeFiles disk =>
      exact ⟨owner, kept.later le_rfl (fun _ _ => rfl) fun f known => .inl (orderly f known)⟩
  | createWorker process call =>
      obtain ⟨unspaced, known⟩ := orderly
      obtain ⟨name, resolution, created⟩ := step_createWorker uuid4 F d call process
      obtain ⟨owner', kept', fits⟩ := kept_resolution digits unspaced known fresh kept resolution
      refine ⟨owner', ?_⟩
      rcases created with same | ⟨queue, rfl, more⟩
      · rw [same]
        exact kept'
      · rw [more]
        exact kept'.add digits fresh (fits queue rfl)

/-- Uuids are drawn, never given back. -/
theorem uuids_step (F : FileSystem files φ) (d : Deployment P Chan δ ε) (s : DeploymentStep P Chan δ ε) :
    d.uuids ≤ (d.step files uuid4 s).uuids := by
  cases s with
  | restart process => exact le_rfl
  | changeFiles disk => exact le_rfl
  | createWorker process call =>
      obtain ⟨name, resolution, -⟩ := step_createWorker uuid4 F d call process
      generalize (d.step files uuid4 (.createWorker process call)).uuids = uuids at resolution ⊢
      generalize (d.step files uuid4 (.createWorker process call)).disk = disk at resolution
      cases resolution with
      | failed drawn => omega
      | _ => omega

theorem deployment_snoc (disk : δ) (steps : List (DeploymentStep P Chan δ ε)) (s : DeploymentStep P Chan δ ε) :
    Deployment.after files uuid4 disk (steps ++ [s]) =
      (Deployment.after files uuid4 disk steps).step files uuid4 s := by
  rw [Deployment.after, List.foldl_append]
  rfl

theorem kept_after (digits : Digits uuid4) {disk : δ} (blank : ∀ f, queueFiles f → Blank F f disk)
    (steps : List (DeploymentStep P Chan δ ε))
    (orderly : Guarded (fun before s => OrderlyFiles F queueFiles (Deployment.after files uuid4 disk before) s) steps)
    (fresh : FreshNames uuid4 (Deployment.after files uuid4 disk steps).uuids) :
    ∃ owner, KeptNames F uuid4 queueFiles owner (Deployment.after files uuid4 disk steps).uuids
      (Deployment.after files uuid4 disk steps).disk (Deployment.after files uuid4 disk steps).created := by
  induction steps using List.reverseRecOn with
  | nil =>
      refine ⟨fun _ => none, ⟨?_, ?_, fun f t known text named => absurd (blank f known t text) named, .nil⟩⟩
      · intro p mem
        cases mem
      · intro p mem
        cases mem
  | append_singleton steps s ih =>
      rw [deployment_snoc] at fresh ⊢
      have earlier : FreshNames uuid4 (Deployment.after files uuid4 disk steps).uuids :=
        fun i below j below' => fresh i (below.trans_le (uuids_step F _ s)) j (below'.trans_le (uuids_step F _ s))
      obtain ⟨owner, kept⟩ := ih orderly.front earlier
      exact kept_step digits orderly.last fresh kept

variable (queueFiles) in
/-- **Groups share a queue exactly if they share a queue file**, over all lives of
all processes of a deployment. -/
theorem shared_queue_iff (digits : Digits uuid4) {disk : δ} (blank : ∀ f, queueFiles f → Blank F f disk)
    (steps : List (DeploymentStep P Chan δ ε))
    (orderly : Guarded (fun before s => OrderlyFiles F queueFiles (Deployment.after files uuid4 disk before) s) steps)
    (fresh : FreshNames uuid4 (Deployment.after files uuid4 disk steps).uuids) :
    (Deployment.after files uuid4 disk steps).created.Pairwise (SharesByFile F) := by
  obtain ⟨owner, kept⟩ := kept_after digits blank steps orderly fresh
  exact kept.apart

end Deployments

/-! ## A worker that is started again -/

section Runs

/-- Files in memory, without directories. -/
def memoryFiles : Files (Dict String) String where
  pathExists path disk := .ok (disk.get? path).isSome
  readText path disk := (disk.get? path).elim (.error "FileNotFoundError") .ok
  mkdirParents _ := return ()
  writeText path t := modify fun disk => disk.set path t

def memoryFileSystem : FileSystem memoryFiles String where
  file := id
  text path disk := disk.get? path
  pathExists_ok := by
    intro path disk absent
    exact Option.isSome_eq_false_iff.mp (Except.ok.inj absent) |> Option.isNone_iff_eq_none.mp
  readText_ok := by
    intro path disk t read
    change (disk.get? path).elim (.error "FileNotFoundError") .ok = (.ok t : Except String String) at read
    cases found : disk.get? path with
    | none =>
        rw [found] at read
        cases read
    | some t' =>
        rw [found] at read
        cases read
        exact found
  mkdirParents_text _ _ _ := rfl
  writeText_ok := by
    intro path t disk disk' ran
    cases ran
    exact Dict.get?_set_self disk path t
  writeText_error := by
    intro path t disk disk' e ran
    cases ran
  writeText_other := by
    intro path t disk f other
    exact Dict.get?_set_ne disk t other

def filedCall : CreateWorker Channel String := { affinityCall with workerQueueFile := some "worker.queue" }

/-- One process is started again, with its queue file; another one has none. -/
def restartedSteps : List (DeploymentStep Bool Channel (Dict String) String) :=
  [.createWorker false filedCall, .restart false, .createWorker false filedCall, .createWorker true affinityCall]

/-- Random uuids. -/
def moreUuids : Nat → String
  | 0 => "1e6f0d3b9a424c58b7c2d4e5f6a70819"
  | n + 1 => someUuids n

theorem unspaced_of_all {cs : List Char} (all : cs.all (fun c => !Host.isSpace c) = true) :
    ∀ c ∈ cs, Host.isSpace c = false := by
  simpa using all

theorem moreUuids_digits : Digits moreUuids := by
  intro n
  unfold nameDigits moreUuids someUuids
  split
  · exact ⟨rfl, unspaced_of_all rfl⟩
  · split
    · exact ⟨rfl, unspaced_of_all rfl⟩
    · exact ⟨rfl, unspaced_of_all rfl⟩
    · exact ⟨rfl, unspaced_of_all rfl⟩
    · exact ⟨rfl, unspaced_of_all rfl⟩

theorem moreUuids_fresh : FreshNames moreUuids 5 := by
  unfold FreshNames
  decide

theorem restartedSteps_orderly :
    Guarded (fun before s => OrderlyFiles memoryFileSystem (fun _ => True)
      (Deployment.after memoryFiles moreUuids ∅ before) s) restartedSteps := by
  refine guarded_of_forall fun s mem before => ?_
  have unspaced : Unspaced affinityCall.taskQueue := by
    intro c first
    cases first
    rfl
  have filed : OrderlyFiles memoryFileSystem (fun _ => True) (Deployment.after memoryFiles moreUuids ∅ before)
      (.createWorker false filedCall) := ⟨unspaced, fun _ _ => trivial⟩
  simp only [restartedSteps, List.mem_cons, List.not_mem_nil, or_false] at mem
  rcases mem with rfl | rfl | rfl | rfl
  · exact filed
  · trivial
  · exact filed
  · exact ⟨unspaced, fun _ _ => trivial⟩

/-- **The process that is started again has its queue**, and the other one has another. -/
theorem shared_queue_restarted :
    ((Deployment.after memoryFiles moreUuids ∅ restartedSteps).created.map fun p => nodeQueue p.2) =
      [some "queue-worker-5b0f5e0c7c0e", some "queue-worker-5b0f5e0c7c0e", some "queue-worker-7d21e6058c39"] ∧
    (Deployment.after memoryFiles moreUuids ∅ restartedSteps).created.Pairwise
      (SharesByFile memoryFileSystem) := by
  refine ⟨by decide, shared_queue_iff (fun _ => True) moreUuids_digits (fun f _ t text => ?_) restartedSteps
    restartedSteps_orderly moreUuids_fresh⟩
  cases text

end Runs

end LanggraphTemporal.Properties
