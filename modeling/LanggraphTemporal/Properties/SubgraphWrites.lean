/-
# Properties.SubgraphWrites -- a subgraph node as an activity and as a child

A node bound to a compiled graph has writers like any other: they write its
output to the state channels of the parent, and trigger the nodes its edges lead
to.  As an activity it runs them; as a child workflow it does not, and all
channels of the child are written to the parent instead, its own trigger
channels among them (`edge_not_triggered`).  The two come to the same writes
exactly when each channel of the child is copied by one of the writers, and none
of them writes to any other channel (`subgraph_paths_agree_iff`).
-/
import LanggraphTemporal.Model.Activities
import LanggraphTemporal.Machine.Reference
import Mathlib.Data.List.Perm.Basic

namespace LanggraphTemporal.Properties

set_option autoImplicit false

open Theory Theory.System Model Model.LangGraphWorkflow Model.Activities Machine

variable {Chan : Type}

/-! ## The statement -/

/-- `output_channels` of a compiled graph. -/
inductive OutputChannels where
  | one (name : String)
  | many (names : List String)

/-- What a graph returns when it ends with these channel values. -/
def outputValue (outputs : OutputChannels) (values : Dict PyVal) : PyVal :=
  match outputs with
  | .one name => values.getD name .none
  | .many names => .ofDict (values.filterMap fun name v => if names.contains name then some v else none)

/-- Where the two paths are compared: a task of the parent, the code of its
node, and what the child ends with. -/
structure SubgraphNode (Chan : Type) where
  env : Env Chan
  graph : Pregel Chan
  untracked : Chan → Bool
  graphCode : GraphCode
  task : PregelTask
  subgraph : String
  bound : subgraphOf task.name graph = some subgraph
  node : NodeCode
  code : graphCode.nodes task.name = some node

variable (N : SubgraphNode Chan) (w : Execution Chan) (result : WorkflowOutput)

/-- The input of the node as an activity. -/
def SubgraphNode.input : NodeActivityInput :=
  taskInput w.self.graphRef (getChannelValues N.env.lg w.self.channels) N.task

/-- What the bound graph does when it is invoked in the activity. -/
def SubgraphNode.invoked : NodeRun :=
  N.node.ainvoke (nodeInput (N.input w)) (N.input w).inputState ((N.input w).resumeValues.getD [])

/-- In the activity, the graph returns the output of what the child ends with. -/
def SameOutput (outputs : OutputChannels) : Prop :=
  (N.invoked w).outcome = .returned (.value (outputValue outputs result.channelValues))

/-- The activity and the child workflow come to the same writes, up to their
order, and to the same Sends. -/
def PathsAgree : Prop :=
  ∃ o o' rest t, executeNodeImpl N.untracked N.graph.channels N.graphCode (N.input w) = .ok o ∧
    (workflowSystem N.env).replay (executeTask N.env N.graph w.self.graphRef
      (getChannelValues N.env.lg w.self.channels) N.task) [.answer 0 (.childOutput result)] w =
        .done o' rest t ∧
    o.writes.Perm o'.writes ∧ o.pushSends = o'.pushSends

/-- The writers of a node, run in turn on its result: what each of them writes
after the writes `before`. -/
inductive WriteInTurn (inputState : PyVal) (result : NodeResult) :
    List (NodeResult → (String → Option PyVal) → Except Exc (List (String × PyVal))) →
      List (String × PyVal) → List (List (String × PyVal)) → Prop
  | none (before : List (String × PyVal)) : WriteInTurn inputState result [] before []
  | next {writer : NodeResult → (String → Option PyVal) → Except Exc (List (String × PyVal))}
      {writers : List (NodeResult → (String → Option PyVal) → Except Exc (List (String × PyVal)))}
      {before share : List (String × PyVal)} {shares : List (List (String × PyVal))}
      (writes : writer result (readHandler inputState before) = .ok share)
      (later : WriteInTurn inputState result writers (before ++ share) shares) :
      WriteInTurn inputState result (writer :: writers) before (share :: shares)

/-- Writes to this channel get to the parent: it takes no Sends, and it is no
`UntrackedValue` of the graph. -/
def SubgraphNode.Reached (chan : String) : Prop :=
  chan ≠ TASKS ∧ ∀ c, N.graph.channels.get? chan = some c → N.untracked c = false

/-- What is written to the channels that get to the parent are copies of channels
of the child, and of each channel of the child that has a value there is one
copy; nobody passes a Send. -/
structure Copies (values : Dict PyVal) (shares : List (List (String × PyVal))) : Prop where
  copy : ∀ share ∈ shares, ∀ chan v, (chan, v) ∈ share → N.Reached chan → values.get? chan = some v
  all : ∀ chan ∈ values.keys, N.Reached chan ∧ ∃ share ∈ shares, ∃ v, (chan, v) ∈ share
  once : ∀ chan, N.Reached chan → (shares.flatten.map Prod.fst).count chan ≤ 1
  sends : ∀ share ∈ shares, ∀ node arg, (TASKS, PyVal.send node arg) ∉ share

/-! ## When it holds -/

variable {N w result}

/-- A list that copies each entry of a dictionary once is a permutation of its
entries. -/
theorem perm_entries_iff {values : Dict PyVal} {writes : List (String × PyVal)} :
    writes.Perm values.entries ↔
      (∀ write ∈ writes, values.get? write.1 = some write.2) ∧
      (∀ name ∈ values.keys, name ∈ writes.map Prod.fst) ∧ (writes.map Prod.fst).Nodup := by
  constructor
  · intro perm
    have keys : (writes.map Prod.fst).Perm values.keys := perm.map Prod.fst
    refine ⟨fun write mem => Dict.get?_eq_some.mpr (perm.mem_iff.mp mem),
      fun name mem => keys.mem_iff.mpr mem, keys.nodup_iff.mpr values.nodup⟩
  · rintro ⟨copy, all, once⟩
    refine (List.perm_ext_iff_of_nodup once.of_map (values.nodup.of_map)).mpr fun write => ?_
    constructor
    · exact fun mem => Dict.get?_eq_some.mp (copy write mem)
    · intro entry
      have named : write.1 ∈ writes.map Prod.fst := all write.1 (List.mem_map_of_mem entry)
      obtain ⟨write', mem, same⟩ := List.mem_map.mp named
      have value := copy write' mem
      rw [same, Dict.get?_eq_some.mpr entry] at value
      have here : write' = write := Prod.ext same (Option.some.inj value).symm
      rw [← here]
      exact mem

/-- As a child workflow, the node writes every channel of the child. -/
theorem replay_child (N : SubgraphNode Chan) (w : Execution Chan) (result : WorkflowOutput) :
    ∃ t, (workflowSystem N.env).replay (executeTask N.env N.graph w.self.graphRef
      (getChannelValues N.env.lg w.self.channels) N.task) [.answer 0 (.childOutput result)] w =
        .done (subgraphOutput N.task result) [] t := by
  unfold executeTask
  rw [N.bound]
  exact ⟨_, rfl⟩

theorem runWriters_iff {inputState : PyVal} {result : NodeResult} {writes : List (String × PyVal)}
    {writers : List (NodeResult → (String → Option PyVal) → Except Exc (List (String × PyVal)))}
    {before : List (String × PyVal)} :
    runWriters inputState result writers before = .ok writes ↔
      ∃ shares, WriteInTurn inputState result writers before shares ∧
        writes = (before :: shares).flatten := by
  induction writers generalizing before with
  | nil =>
      constructor
      · intro ran
        cases ran
        exact ⟨[], .none _, by simp⟩
      · rintro ⟨shares, inTurn, rfl⟩
        cases inTurn
        simp [runWriters]
  | cons writer writers ih =>
      unfold runWriters
      cases here : writer result (readHandler inputState before) with
      | error exc =>
          refine iff_of_false nofun ?_
          rintro ⟨shares, inTurn, -⟩
          cases inTurn with
          | next writes later =>
              rw [here] at writes
              cases writes
      | ok share =>
          dsimp only
          rw [ih]
          constructor
          · rintro ⟨shares, later, rfl⟩
            exact ⟨share :: shares, .next here later, by simp⟩
          · rintro ⟨shares, inTurn, rfl⟩
            cases inTurn with
            | next writes later =>
                rw [here] at writes
                cases writes
                exact ⟨_, later, by simp⟩

/-- As an activity, it runs its writers. -/
theorem executeNodeImpl_eq {outputs : OutputChannels} (computes : SameOutput N w result outputs) :
    executeNodeImpl N.untracked N.graph.channels N.graphCode (N.input w) =
      match runWriters (N.input w).inputState (.value (outputValue outputs result.channelValues))
          N.node.writers (N.invoked w).sent with
      | .ok writes => .ok (completed N.untracked N.graph.channels (N.input w) (N.invoked w)
          (.value (outputValue outputs result.channelValues)) writes)
      | .error exc => .error (failure (getNodeRetryPolicy N.graphCode (N.input w).nodeName) exc) := by
  have code : N.graphCode.nodes (N.input w).nodeName = some N.node := N.code
  have returned : (N.node.ainvoke (nodeInput (N.input w)) (N.input w).inputState
      ((N.input w).resumeValues.getD [])).outcome =
        .returned (.value (outputValue outputs result.channelValues)) := computes
  unfold executeNodeImpl
  simp only [code, returned, runsWriters, if_true]
  rfl

/-- The writes that get to the parent, of all that there are. -/
theorem mem_kept_iff {writes : List (String × PyVal)} {chan : String} {v : PyVal} :
    (chan, v) ∈ filterUntrackedWrites N.untracked N.graph.channels (plainWrites writes) ↔
      (chan, v) ∈ writes ∧ N.Reached chan := by
  simp only [filterUntrackedWrites, plainWrites, List.mem_filter, SubgraphNode.Reached]
  cases here : N.graph.channels.get? chan with
  | none => simp
  | some c => simp [and_assoc]

theorem count_map_filter (p : String → Bool) {writes : List (String × PyVal)} {chan : String}
    (here : p chan = true) :
    ((writes.filter fun w => p w.1).map Prod.fst).count chan = (writes.map Prod.fst).count chan := by
  have moved : (writes.filter fun w => p w.1).map Prod.fst = (writes.map Prod.fst).filter p :=
    List.filter_map.symm
  rw [moved, List.count_filter here]

/-- A channel of the graph that is no `UntrackedValue`, or none of its channels. -/
def SubgraphNode.tracked (N : SubgraphNode Chan) (chan : String) : Bool :=
  match N.graph.channels.get? chan with
  | some c => !N.untracked c
  | none => true

/-- Channels that get to the parent are written as often as there are writes. -/
theorem count_kept {writes : List (String × PyVal)} {chan : String} (reached : N.Reached chan) :
    ((filterUntrackedWrites N.untracked N.graph.channels (plainWrites writes)).map Prod.fst).count chan =
      (writes.map Prod.fst).count chan := by
  obtain ⟨plain, tracked⟩ := reached
  have here : N.tracked chan = true := by
    unfold SubgraphNode.tracked
    cases channel : N.graph.channels.get? chan with
    | none => rfl
    | some c => simp [tracked c channel]
  have filtered : filterUntrackedWrites N.untracked N.graph.channels (plainWrites writes) =
      (plainWrites writes).filter fun w => N.tracked w.1 := rfl
  have untasked : plainWrites writes = writes.filter fun w => decide (w.1 ≠ TASKS) := rfl
  rw [filtered, count_map_filter N.tracked here, untasked]
  exact count_map_filter (fun other => decide (other ≠ TASKS)) (decide_eq_true plain)

theorem sendsOf_eq_nil_iff {writes : List (String × PyVal)} :
    sendsOf writes = [] ↔ ∀ node arg, (TASKS, PyVal.send node arg) ∉ writes := by
  unfold sendsOf
  rw [List.filterMap_eq_nil_iff]
  constructor
  · intro none node arg mem
    have here := none _ mem
    simp at here
  · rintro all ⟨chan, v⟩ mem
    cases v with
    | send node arg =>
        have other : chan ≠ TASKS := fun same => all node arg (same ▸ mem)
        simp [other]
    | _ => rfl

/-- The writes that get to the parent are those of the child when they are copies
of its channels. -/
theorem kept_perm_iff {values : Dict PyVal} {shares : List (List (String × PyVal))} :
    (filterUntrackedWrites N.untracked N.graph.channels (plainWrites shares.flatten)).Perm
        values.entries ∧ sendsOf shares.flatten = [] ↔ Copies N values shares := by
  have inside : ∀ {chan v}, (chan, v) ∈ shares.flatten ↔ ∃ share ∈ shares, (chan, v) ∈ share :=
    List.mem_flatten
  rw [perm_entries_iff, sendsOf_eq_nil_iff]
  constructor
  · rintro ⟨⟨copy, covers, once⟩, sends⟩
    refine ⟨fun share mem chan v write reached => ?_, fun chan key => ?_, fun chan reached => ?_, ?_⟩
    · exact copy _ (mem_kept_iff.mpr ⟨inside.mpr ⟨share, mem, write⟩, reached⟩)
    · obtain ⟨⟨_, v⟩, kept, rfl⟩ := List.mem_map.mp (covers chan key)
      obtain ⟨written, reached⟩ := mem_kept_iff.mp kept
      obtain ⟨share, mem, write⟩ := inside.mp written
      exact ⟨reached, share, mem, v, write⟩
    · rw [← count_kept reached]
      exact List.nodup_iff_count_le_one.mp once chan
    · exact fun share mem node arg write => sends node arg (inside.mpr ⟨share, mem, write⟩)
  · rintro ⟨copy, covers, once, sends⟩
    refine ⟨⟨?_, fun chan key => ?_, List.nodup_iff_count_le_one.mpr fun chan => ?_⟩, ?_⟩
    · rintro ⟨chan, v⟩ kept
      obtain ⟨written, reached⟩ := mem_kept_iff.mp kept
      obtain ⟨share, mem, write⟩ := inside.mp written
      exact copy share mem chan v write reached
    · obtain ⟨reached, share, mem, v, write⟩ := covers chan key
      exact List.mem_map.mpr ⟨(chan, v), mem_kept_iff.mpr ⟨inside.mpr ⟨share, mem, write⟩, reached⟩, rfl⟩
    · by_cases reached : N.Reached chan
      · rw [count_kept reached]
        exact once chan reached
      · -- no other channel is left
        have missing : chan ∉ (filterUntrackedWrites N.untracked N.graph.channels
            (plainWrites shares.flatten)).map Prod.fst := by
          intro mem
          obtain ⟨⟨_, v⟩, kept, rfl⟩ := List.mem_map.mp mem
          exact reached (mem_kept_iff.mp kept).2
        rw [List.count_eq_zero_of_not_mem missing]
        exact Nat.zero_le 1
    · intro node arg written
      obtain ⟨share, mem, write⟩ := inside.mp written
      exact sends share mem node arg write

/-- **The two paths agree exactly when the writers copy the channels of the
child, each of them once, and write to no other channel.** -/
theorem subgraph_paths_agree_iff (outputs : OutputChannels) (computes : SameOutput N w result outputs) :
    PathsAgree N w result ↔
      ∃ shares, WriteInTurn (N.input w).inputState (.value (outputValue outputs result.channelValues))
          N.node.writers (N.invoked w).sent shares ∧
        Copies N result.channelValues ((N.invoked w).sent :: shares) := by
  obtain ⟨u, child⟩ := replay_child N w result
  have activity := executeNodeImpl_eq computes
  constructor
  · rintro ⟨o, o', rest, t, executed, replayed, writes, sends⟩
    rw [child] at replayed
    cases replayed
    rw [activity] at executed
    cases ran : runWriters (N.input w).inputState (.value (outputValue outputs result.channelValues))
        N.node.writers (N.invoked w).sent with
    | error exc =>
        rw [ran] at executed
        cases executed
    | ok all =>
        rw [ran] at executed
        cases executed
        obtain ⟨shares, inTurn, rfl⟩ := runWriters_iff.mp ran
        exact ⟨shares, inTurn, kept_perm_iff.mp ⟨writes, sends⟩⟩
  · rintro ⟨shares, inTurn, copies⟩
    obtain ⟨writes, sends⟩ := kept_perm_iff.mpr copies
    rw [runWriters_iff.mpr ⟨shares, inTurn, rfl⟩] at activity
    exact ⟨_, _, _, u, activity, child, writes, sends⟩

section Runs

open Reference

/-- `ChannelWrite` of the state channels: the keys of the output that are
channels of the parent. -/
def writeState (keys : List String) :
    NodeResult → (String → Option PyVal) → Except Exc (List (String × PyVal)) := fun result _ =>
  match result with
  | .value (.dict kvs) => .ok (kvs.filter fun kv => keys.contains kv.1)
  | _ => .ok []

/-- The writer of a static edge. -/
def writeEdge (target : String) :
    NodeResult → (String → Option PyVal) → Except Exc (List (String × PyVal)) := fun _ _ =>
  .ok [(branchTo target, .none)]

/-- A node bound to a compiled graph that sets `x`, with these writers. -/
def nestedNode (writers : List (NodeResult → (String → Option PyVal) → Except Exc (List (String × PyVal)))) :
    SubgraphNode Channel where
  env := env (Reference.graph [])
  graph := { Reference.graph [] with nodes := Dict.ofList [("sub", ⟨["in"], some (.pregel "inner")⟩)] }
  untracked _ := false
  graphCode :=
    { nodes := fun name => if name = "sub" then
        some ⟨fun _ _ _ => { outcome := .returned (.value (.dict [("x", .int 1)])) }, writers, none⟩
      else none }
  task := ⟨"sub", [.str "__pregel_pull", .str "sub"]⟩
  subgraph := "inner"
  bound := rfl
  node := ⟨fun _ _ _ => { outcome := .returned (.value (.dict [("x", .int 1)])) }, writers, none⟩
  code := rfl

/-- What the child ends with. -/
def nestedResult : WorkflowOutput := ⟨Dict.ofList [("x", .int 1)], 1⟩

/-- The parent, when it executes the node. -/
def nestedParent : Execution Channel := { self := init (env (Reference.graph [])), uuids := fun _ => "" }

theorem paths_agree_without_edges : PathsAgree (nestedNode [writeState ["x"]]) nestedParent nestedResult := by
  have computes : SameOutput (nestedNode [writeState ["x"]]) nestedParent nestedResult (.many ["x"]) := rfl
  refine (subgraph_paths_agree_iff (.many ["x"]) computes).mpr
    ⟨[[("x", .int 1)]], .next rfl (.none _), ?_, ?_, ?_, ?_⟩
  · rintro share mem chan v write -
    have written : (chan, v) ∈ [[], [("x", PyVal.int 1)]].flatten := List.mem_flatten.mpr ⟨share, mem, write⟩
    cases List.mem_singleton.mp written
    rfl
  · intro chan key
    have named : chan = "x" := List.mem_singleton.mp key
    subst named
    refine ⟨⟨by decide, fun c _ => rfl⟩, _, .tail _ (.head _), .int 1, .head _⟩
  · intro chan _
    exact List.nodup_iff_count_le_one.mp (by decide : ["x"].Nodup) chan
  · intro share mem node arg write
    have written : (TASKS, PyVal.send node arg) ∈ [[], [("x", PyVal.int 1)]].flatten :=
      List.mem_flatten.mpr ⟨share, mem, write⟩
    have tasks : TASKS = "x" := congrArg Prod.fst (List.mem_singleton.mp written)
    exact absurd tasks (by decide)

/-- **The edge that leaves a subgraph node is not triggered** when the node is
executed as a child workflow. -/
theorem edge_not_triggered : ∃ outputs,
    SameOutput (nestedNode [writeState ["x"], writeEdge "next"]) nestedParent nestedResult outputs ∧
      ¬PathsAgree (nestedNode [writeState ["x"], writeEdge "next"]) nestedParent nestedResult := by
  refine ⟨.many ["x"], rfl, ?_⟩
  rintro ⟨o, o', rest, t, executed, replayed, writes, -⟩
  cases executed
  cases replayed
  have lengths := writes.length_eq
  exact absurd lengths (by decide)

end Runs

end LanggraphTemporal.Properties
