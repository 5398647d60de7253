/-
# Properties.Dispatch -- Sends and gotos

The tasks that a Send or a `Command.goto` starts run in the superstep of the
node that asked for them.  They are extracted in two passes, Sends first, so a
request that a Send task makes with a Send of its own, or a goto task with
anything, is not looked at; nor is a goto that is a single Send (`Flat`).  They
read the channels as they were when the superstep began, and their writes are
applied together with those of the node that asked (`SameSuperstep`).
-/
import LanggraphTemporal.Machine.Channels
import LanggraphTemporal.Properties.GotoPayloads
import Mathlib.Data.List.Perm.Subperm

namespace LanggraphTemporal.Properties

set_option autoImplicit false

open Theory Theory.History Model Model.LangGraphWorkflow Machine

variable {Chan : Type} {S : Setting Chan}

/-! ## What a node emits -/

/-- What a node asks for: the Sends that it or a writer of it passes to
`CONFIG_KEY_SEND`, and the goto of the `Command` that it returns. -/
structure Emission where
  sends : List SendRequest := []
  goto : Option Goto := none

/-- What an element of a goto asks for, unless it is `END`. -/
def GotoElement.target : GotoElement → Option SendRequest
  | .name node => if node = END then none else some ⟨node, .none⟩
  | .send node arg => some ⟨node, arg⟩

namespace Emission

def targets (x : Emission) : List SendRequest :=
  match x.goto with
  | some goto => goto.elements.filterMap GotoElement.target
  | none => []

def requests (x : Emission) : List SendRequest := x.sends ++ x.targets

end Emission

/-- A Send, as it is passed to `CONFIG_KEY_SEND`. -/
def sendWrite (send : SendRequest) : String × PyVal := (TASKS, .send send.node send.arg)

def isSendWrite (w : String × PyVal) : Bool :=
  match w with
  | (chan, .send _ _) => chan = TASKS
  | _ => false

/-- The goto of what a node returns. -/
inductive GotoOf : NodeResult → Option Goto → Prop
  | value (v : PyVal) : GotoOf (.value v) none
  | command {c : CommandData} {goto : Goto} (same : c.goto = goto.val) : GotoOf (.command c) (some goto)

/-- What a node emits for this input. A node that is interrupted emits nothing. -/
inductive NodeEmits (code : NodeCode) (input : NodeActivityInput) : Emission → Prop
  | interrupted {interrupts : List InterruptData}
      (outcome : (code.ainvoke (Activities.nodeInput input) input.inputState
        (input.resumeValues.getD [])).outcome = .interrupted interrupts) : NodeEmits code input {}
  | returned {run : NodeRun} {result : NodeResult} {writes : List (String × PyVal)}
      {sends : List SendRequest} {goto : Option Goto}
      (ran : code.ainvoke (Activities.nodeInput input) input.inputState
        (input.resumeValues.getD []) = run) (outcome : run.outcome = .returned result)
      (written : if Activities.runsWriters result then
          Activities.runWriters input.inputState result code.writers run.sent = .ok writes
        else run.sent = writes)
      (sent : writes.filter isSendWrite = sends.map sendWrite) (goto_eq : GotoOf result goto) :
      NodeEmits code input ⟨sends, goto⟩

/-- `r` is the output of a node that emits `x`: that of an activity, or that of a
child workflow, which emits nothing. -/
def Emits (S : Setting Chan) (r : NodeActivityOutput) (x : Emission) : Prop :=
  (∃ (untracked : Chan → Bool) (graph : GraphCode) (input : NodeActivityInput) (code : NodeCode),
    graph.nodes input.nodeName = some code ∧ NodeEmits code input x ∧
      Activities.executeNodeImpl untracked S.graph.channels graph input = .ok r) ∨
    (r.pushSends = [] ∧ r.command = none ∧ x = {})

theorem sendsOf_writes {writes : List (String × PyVal)} {sends : List SendRequest}
    (sent : writes.filter isSendWrite = sends.map sendWrite) : Activities.sendsOf writes = sends := by
  have kept : Activities.sendsOf writes = Activities.sendsOf (writes.filter isSendWrite) := by
    clear sent
    induction writes with
    | nil => rfl
    | cons w writes ih =>
        obtain ⟨chan, v⟩ := w
        unfold Activities.sendsOf at *
        cases v with
        | send node arg =>
            by_cases tasks : chan = TASKS
            · simp [isSendWrite, tasks, ih]
            · simp [isSendWrite, tasks, ih]
        | _ => simp [isSendWrite, ih]
  rw [kept, sent]
  clear sent kept
  induction sends with
  | nil => rfl
  | cons send sends ih =>
      unfold Activities.sendsOf at *
      simp [sendWrite, ih]

/-- The output has the Sends that its node has emitted. -/
theorem Emits.sends {r : NodeActivityOutput} {x : Emission} (emits : Emits S r x) :
    r.pushSends = x.sends := by
  rcases emits with ⟨untracked, graph, input, code, found, emits, executed⟩ | ⟨sends, -, rfl⟩
  · cases emits with
    | interrupted outcome =>
        simp only [Activities.executeNodeImpl, found, outcome] at executed
        cases executed
        rfl
    | @returned run result writes sends goto ran outcome written sent _ =>
        simp only [Activities.executeNodeImpl, found, ran, outcome] at executed
        split at executed
        · rename_i runs
          rw [if_pos runs] at written
          rw [written] at executed
          cases executed
          exact sendsOf_writes sent
        · rename_i skipped
          rw [if_neg skipped] at written
          cases executed
          subst written
          exact sendsOf_writes sent
  · exact sends

theorem convertOutput_id (r : NodeActivityOutput) : convertOutput id r = r := by
  obtain ⟨nodeName, writes, triggers, taskPath, interrupts, pushSends, command, customData, requests⟩ := r
  cases command with
  | none => rfl
  | some c => rfl

/-- What the elements of a goto ask for are among what they are decoded to, which
has `END` as well. -/
theorem targets_sublist (elements : List GotoElement) :
    (elements.filterMap GotoElement.target).Sublist (elements.map (GotoElement.request id)) := by
  induction elements with
  | nil => exact List.Sublist.refl _
  | cons element elements ih =>
      cases element with
      | send node arg => exact ih.cons_cons _
      | name node =>
          by_cases ends : node = END
          · rw [List.filterMap_cons_none (by simp [GotoElement.target, ends]), List.map_cons]
            exact ih.cons _
          · rw [List.filterMap_cons_some (by simp [GotoElement.target, ends]; rfl), List.map_cons]
            exact ih.cons_cons _

/-- The gotos that are found in the output are those that its node has emitted,
unless the decoder does not know the goto. -/
theorem Emits.gotos {r : NodeActivityOutput} {x : Emission} (emits : Emits S r x)
    (decoded : ∀ goto, x.goto = some goto → goto.Decoded) :
    x.targets.Sublist (commandGotos r) := by
  rcases emits with ⟨untracked, graph, input, code, found, emits, executed⟩ | ⟨-, -, rfl⟩
  · cases emits with
    | interrupted => exact List.nil_sublist _
    | @returned run result writes sends goto ran outcome _ _ goto_eq =>
        cases goto_eq with
        | value => exact List.nil_sublist _
        | @command c goto same =>
            have returns : ReturnsCommand graph input goto.val :=
              ⟨code, c, found, by rw [ran, outcome], same⟩
            have found := decoded_of_returns preservesPayloads_id (decoded goto rfl) returns executed
            rw [convertOutput_id, extractCommandGotos, List.flatMap_singleton] at found
            rw [found]
            exact targets_sublist goto.elements
  · exact List.nil_sublist _

/-! ## No Send or goto is lost -/

/-- All outputs collected in `b`, by whichever route. -/
def outputsIn (b : List Event) : List NodeActivityOutput :=
  b.flatMap fun e =>
    match e with
    | .collected _ outputs => outputs
    | _ => []

/-- The outputs of the Send and goto tasks collected in `b`. -/
def sendOutputs (b : List Event) : List NodeActivityOutput :=
  b.flatMap fun e =>
    match e with
    | .collected .push outputs => outputs
    | .collected .goto outputs => outputs
    | _ => []

variable {emission : NodeActivityOutput → Emission}

/-- The nodes behind the outputs of a history emit what `emission` says. -/
def Produced (S : Setting Chan) (emission : NodeActivityOutput → Emission) (h : List Event) : Prop :=
  ∀ r ∈ outputsIn h, Emits S r (emission r)

/-- Each request that was emitted has an execution of its own. -/
def AllExecuted (emission : NodeActivityOutput → Emission) (b : List Event) : Prop :=
  ∃ performed, ((outputsIn b).flatMap fun r => (emission r).requests).Subperm performed ∧
    List.Forall₂ (RanSend b) performed (sendOutputs b)

/-- A Send task emits no Send, a goto task neither a Send nor a goto, and no goto
is a single Send (nor the empty string). -/
def Flat (emission : NodeActivityOutput → Emission) (_ : List Event) (e : Event) : Prop :=
  ∀ route outputs, e = .collected route outputs → ∀ r ∈ outputs,
    (∀ goto, (emission r).goto = some goto → goto.Decoded) ∧
      (route = .push → (emission r).sends = []) ∧ (route = .goto → (emission r).requests = [])

theorem outputsIn_eq (b : List Event) : outputsIn b = (collectedIn b).flatMap fun p => p.2 := by
  induction b with
  | nil => rfl
  | cons e b ih =>
      unfold outputsIn collectedIn at *
      cases e <;> simp [ih]

theorem sendOutputs_eq (b : List Event) :
    sendOutputs b = (collectedIn b).flatMap fun p =>
      match p.1 with | .push => p.2 | .goto => p.2 | _ => [] := by
  induction b with
  | nil => rfl
  | cons e b ih =>
      unfold sendOutputs collectedIn at *
      cases e with
      | collected route outputs => cases route <;> simp [ih]
      | _ => simp [ih]

/-- Interrupted outputs make no request, and serving child requests adds none. -/
theorem requests_settled {β : Type} {f : NodeActivityOutput → List β} {outputs results : List NodeActivityOutput}
    (bare : ∀ r ∈ outputs, r.interrupted = true → f r = [])
    (same : ∀ r r', Serves r r' → f r' = f r) (serves : List.Forall₂ Serves outputs results) :
    (settledOf results).flatMap f = outputs.flatMap f := by
  induction serves with
  | nil => rfl
  | @cons r r' outputs results here rest ih =>
      have tail := ih fun q mem => bare q (List.mem_cons_of_mem r mem)
      have interrupts : r'.interrupted = r.interrupted := by
        rw [NodeActivityOutput.interrupted, NodeActivityOutput.interrupted, here.same.2.2.1]
      unfold settledOf at *
      rw [List.filter_cons, List.flatMap_cons, ← tail, interrupts]
      cases asked : r.interrupted with
      | true => simp [bare r List.mem_cons_self asked]
      | false => simp [same r r' here]

theorem requests_of_bare {r : NodeActivityOutput} (bare : Bare r) (interrupted : r.interrupted = true) :
    r.pushSends = [] ∧ commandGotos r = [] := by
  obtain ⟨-, sends, command, -⟩ := bare interrupted
  refine ⟨sends, ?_⟩
  unfold commandGotos
  rw [command]

theorem settled_requests {h : List Event} {tasks : List PregelTask} {level : Nat} {o : Outputs}
    (course : Course h tasks level o) (past : 2 ≤ level) :
    extractPushSends (settledOf o.served) = extractPushSends o.scheduled ∧
      extractCommandGotos (settledOf o.served) = extractCommandGotos o.scheduled := by
  have bare : ∀ r ∈ o.scheduled, Bare r := by
    intro r mem
    obtain ⟨t, -, ran⟩ := forall₂_mem_right (course.scheduled (by omega)) mem
    exact ran.bare
  constructor
  · exact requests_settled (fun r mem interrupted => (requests_of_bare (bare r mem) interrupted).1)
      (fun r r' serves => serves.same.2.2.2.1) (course.served past)
  · exact requests_settled (fun r mem interrupted => (requests_of_bare (bare r mem) interrupted).2)
      (fun r r' serves => serves.commandGotos_eq) (course.served past)

/-- The Sends of a superstep are those of the first two passes, and its gotos those
of the first three. -/
theorem extracted_of_course {h : List Event} {tasks : List PregelTask} {o : Outputs}
    (course : Course h tasks 5 o) :
    extractPushSends o.settled = extractPushSends (o.scheduled ++ o.resumed) ∧
      extractCommandGotos o.afterPush = extractCommandGotos (o.scheduled ++ o.resumed ++ o.push) := by
  obtain ⟨sends, gotos⟩ := settled_requests course (by decide)
  constructor
  · rw [Outputs.settled, extractPushSends, List.flatMap_append, extractPushSends, List.flatMap_append]
    exact congrArg (· ++ _) sends
  · rw [Outputs.afterPush, Outputs.settled, extractCommandGotos, extractCommandGotos,
      List.flatMap_append, List.flatMap_append, List.flatMap_append, List.flatMap_append]
    exact congrArg (fun xs => xs ++ _ ++ _) gotos

/-- The Sends that nodes emit are found in their outputs. -/
theorem sends_found {outputs : List NodeActivityOutput}
    (produced : ∀ r ∈ outputs, Emits S r (emission r)) :
    (outputs.flatMap fun r => (emission r).sends) = extractPushSends outputs := by
  unfold extractPushSends
  exact List.flatMap_congr fun r mem => (produced r mem).sends.symm

/-- So are the gotos that the decoder knows. -/
theorem targets_found {outputs : List NodeActivityOutput}
    (produced : ∀ r ∈ outputs, Emits S r (emission r))
    (decoded : ∀ r ∈ outputs, ∀ goto, (emission r).goto = some goto → goto.Decoded) :
    (outputs.flatMap fun r => (emission r).targets).Sublist (extractCommandGotos outputs) := by
  induction outputs with
  | nil => exact List.Sublist.refl _
  | cons r outputs ih =>
      have here := (produced r List.mem_cons_self).gotos (decoded r List.mem_cons_self)
      have rest := ih (fun q mem => produced q (List.mem_cons_of_mem r mem))
        fun q mem => decoded q (List.mem_cons_of_mem r mem)
      rw [extractCommandGotos, List.flatMap_cons, List.flatMap_cons]
      exact here.append rest

/-- When Send tasks emit no Sends and goto tasks nothing, all that is emitted is
found: the Sends in the outputs of the tasks (`early`), and the gotos in these and
in those of the Send tasks. -/
theorem requests_found {early push goto : List NodeActivityOutput}
    (produced : ∀ r ∈ early ++ push ++ goto, Emits S r (emission r))
    (decoded : ∀ r ∈ early ++ push, ∀ goto, (emission r).goto = some goto → goto.Decoded)
    (noSends : ∀ r ∈ push, (emission r).sends = []) (noRequests : ∀ r ∈ goto, (emission r).requests = []) :
    ((early ++ push ++ goto).flatMap fun r => (emission r).requests).Subperm
      (extractPushSends early ++ extractCommandGotos (early ++ push)) := by
  have nothing : (goto.flatMap fun r => (emission r).requests) = [] := List.flatMap_eq_nil_iff.mpr noRequests
  have pushed : (push.flatMap fun r => (emission r).sends) = [] := List.flatMap_eq_nil_iff.mpr noSends
  have emits : ∀ r ∈ early ++ push, Emits S r (emission r) := fun r mem =>
    produced r (List.mem_append_left _ mem)
  have sends : ((early ++ push).flatMap fun r => (emission r).sends) = extractPushSends early := by
    rw [List.flatMap_append, pushed, List.append_nil]
    exact sends_found fun r mem => emits r (List.mem_append_left _ mem)
  rw [List.flatMap_append, nothing, List.append_nil]
  refine (List.flatMap_append_perm _ _ _).symm.subperm.trans ?_
  rw [sends]
  exact ((List.Sublist.refl _).append (targets_found emits decoded)).subperm

/-- A superstep whose second pass has nothing new to find executes everything. -/
theorem allExecuted_of_course {h : List Event} {tasks : List PregelTask} {o : Outputs}
    (course : Course h tasks 5 o) (produced : Produced S emission (superstepOf h))
    (flat : Guarded (Flat emission) h) : AllExecuted emission (superstepOf h) := by
  have all : outputsIn (superstepOf h) = o.scheduled ++ o.resumed ++ o.push ++ o.goto := by
    rw [outputsIn_eq, course.collected]
    simp [Outputs.collected]
  have outputs : sendOutputs (superstepOf h) = o.push ++ o.goto := by
    rw [sendOutputs_eq, course.collected]
    simp [Outputs.collected]
  have level : ∀ route outputs, (route, outputs) ∈ o.collected 5 → ∀ r ∈ outputs,
      (∀ goto, (emission r).goto = some goto → goto.Decoded) ∧
        (route = .push → (emission r).sends = []) ∧ (route = .goto → (emission r).requests = []) := by
    intro route outputs listed
    obtain ⟨_, here⟩ := flat.of_mem (mem_of_mem_since (course.mem listed))
    exact here route outputs rfl
  have first := level .scheduled o.scheduled (by simp [Outputs.collected])
  have again := level .resumed o.resumed (by simp [Outputs.collected])
  have push := level .push o.push (by simp [Outputs.collected])
  have goto := level .goto o.goto (by simp [Outputs.collected])
  obtain ⟨sends, gotos⟩ := extracted_of_course course
  unfold Produced at produced
  rw [all] at produced
  refine ⟨extractPushSends o.settled ++ extractCommandGotos o.afterPush, ?_, ?_⟩
  · rw [all, sends, gotos]
    refine requests_found produced (fun r mem => ?_) (fun r mem => (push r mem).2.1 rfl)
      fun r mem => (goto r mem).2.2 rfl
    simp only [List.mem_append] at mem
    rcases mem with (mem | mem) | mem
    · exact (first r mem).1
    · exact (again r mem).1
    · exact (push r mem).1
  · rw [outputs]
    exact List.rel_append (course.push (by decide)) (course.goto (by decide))

/-- The outputs of a superstep are outputs of the run. -/
theorem Produced.superstep {a b : List Event} {e : Event} (produced : Produced S emission (a ++ e :: b)) :
    Produced S emission (superstepOf a) := by
  intro r mem
  obtain ⟨e', inside, collected⟩ := List.mem_flatMap.mp mem
  refine produced r (List.mem_flatMap.mpr ⟨e', List.mem_append_left _ (mem_of_mem_since inside), collected⟩)

/-- **In a run whose Send and goto tasks emit nothing further, every Send and
goto is executed before its superstep completes.** -/
theorem sends_executed_of_flat (S : Setting Chan) (threshold : Option Nat) (uuids : Nat → String)
    (script : List (Action Response Signal)) (emission : NodeActivityOutput → Emission)
    (produced : Produced S emission (runHistory S threshold uuids script))
    (flat : Guarded (Flat emission) (runHistory S threshold uuids script)) :
    Guarded (fun a e => completes e = true → AllExecuted emission (superstepOf a))
      (runHistory S threshold uuids script) := by
  intro a e b split done
  obtain ⟨tasks, o, course, -⟩ := runHistory_completesCourse threshold uuids script a e b split done
  rw [split] at produced
  refine allExecuted_of_course course produced.superstep fun a' e' b' split' =>
    flat a' e' (b' ++ e :: b) ?_
  rw [split, split']
  simp

section Runs

open Reference

/-- `d` starts the others. -/
def sendSetting : Setting Channel :=
  setting [("d", ["in"]), ("b", [branchTo "b"]), ("c", [branchTo "c"])] none none

def sending (node : String) (r : NodeActivityOutput) : NodeActivityOutput :=
  { r with pushSends := [⟨node, .int 1⟩] }

/-- A node that writes, and returns `result`. -/
def writingNode (writes : List (String × PyVal)) (result : NodeResult) : NodeCode where
  ainvoke _ _ _ := { sent := writes, outcome := .returned result }
  writers := []

/-- A node that passes on a Send. -/
def sendingNode (writes : List (String × PyVal)) (send : SendRequest) : NodeCode :=
  writingNode (writes ++ [sendWrite send]) (.value .none)

/-- A node that returns `Command(goto=goto)`. -/
def routingNode (writes : List (String × PyVal)) (goto : Goto) : NodeCode :=
  writingNode writes (.command ⟨goto.val, .none, .none⟩)

/-- `d` makes a Send to `b`, and `b` goes to `c`. -/
def flatScript : List (Action Response Signal) :=
  [.answer 0 (.output (sending "b" (pulled "d" [("x", .int 1)]))),
    .answer 0 (.output (going (.str "c") (pushed "b" []))), .answer 0 (.output (pushed "c" []))]

def flatEmission (r : NodeActivityOutput) : Emission :=
  if r.nodeName = "d" then { sends := [⟨"b", .int 1⟩] }
  else if r.nodeName = "b" then { goto := some (.one (.name "c")) }
  else {}

theorem emits_of_code {r : NodeActivityOutput} {x : Emission} (code : NodeCode) (input : NodeActivityInput)
    (emits : NodeEmits code input x)
    (executed : Activities.executeNodeImpl (fun _ => false) S.graph.channels { nodes := fun _ => some code }
      input = .ok r) : Emits S r x :=
  .inl ⟨_, _, input, code, rfl, emits, executed⟩

/-- The activity input of a task with this path. -/
def inputAt (node : String) (path : List PathPart) : NodeActivityInput := taskInput "graph" ∅ ⟨node, path⟩

theorem produced_flatScript : Produced sendSetting flatEmission (history sendSetting flatScript) := by
  have outputs : outputsIn (history sendSetting flatScript) =
      [sending "b" (pulled "d" [("x", .int 1)]), going (.str "c") (pushed "b" []), pushed "c" []] := rfl
  intro r mem
  rw [outputs] at mem
  simp only [List.mem_cons, List.not_mem_nil, or_false] at mem
  rcases mem with rfl | rfl | rfl
  · exact emits_of_code (sendingNode [("x", .int 1)] ⟨"b", .int 1⟩)
      (inputAt "d" [.str "__pregel_pull", .str "d"]) (.returned rfl rfl rfl rfl (.value _)) rfl
  · exact emits_of_code (routingNode [] (.one (.name "c"))) (inputAt "b" [.str "b", .str "push"])
      (.returned rfl rfl rfl rfl (.command rfl)) rfl
  · exact emits_of_code (writingNode [] (.value .none)) (inputAt "c" [.str "c", .str "push"])
      (.returned rfl rfl rfl rfl (.value _)) rfl

theorem sendsExecuted_flatScript :
    Guarded (fun a e => completes e = true → AllExecuted flatEmission (superstepOf a))
      (runHistory sendSetting none (fun _ => "") flatScript) := by
  refine sends_executed_of_flat sendSetting none _ flatScript flatEmission produced_flatScript
    (guarded_of_forall fun e mem a => ?_)
  have flat : (history sendSetting flatScript).all (fun e =>
      match e with
      | .collected .push outputs => outputs.all fun r => r.nodeName = "b"
      | .collected .goto outputs => outputs.all fun r => r.nodeName = "c"
      | _ => true) = true := by decide
  have here := List.all_eq_true.mp flat e mem
  rintro route outputs rfl r collected
  refine ⟨fun goto some => ?_, ?_, ?_⟩
  · unfold flatEmission at some
    split at some
    · cases some
    · split at some
      · cases some
        exact (by decide : "c" ≠ "")
      · cases some
  · rintro rfl
    have name : r.nodeName = "b" := by simpa using List.all_eq_true.mp here r collected
    simp [flatEmission, name]
  · rintro rfl
    have name : r.nodeName = "c" := by simpa using List.all_eq_true.mp here r collected
    simp [flatEmission, name, Emission.requests, Emission.targets]

/-- A run that ends with an output, and without an execution of a node that one
of its nodes has asked for. -/
structure Drops (emission : NodeActivityOutput → Emission) (script : List (Action Response Signal))
    (node : String) : Prop where
  produced : Produced sendSetting emission (history sendSetting script)
  lost : ¬Guarded (fun a e => completes e = true → AllExecuted emission (superstepOf a))
    (history sendSetting script)
  ended : ∃ output rest w,
    replayRun sendSetting none (fun _ => "") script = .done (.output output) rest w
  silent : ∀ e ∈ history sendSetting script, ¬starts node e

/-- `d` makes a Send to `b`, and `b` one to `c`. -/
def nestedScript : List (Action Response Signal) :=
  [.answer 0 (.output (sending "b" (pulled "d" [("x", .int 1)]))),
    .answer 0 (.output (sending "c" (pushed "b" [])))]

def nestedEmission (r : NodeActivityOutput) : Emission :=
  { sends := [⟨if r.nodeName = "d" then "b" else "c", .int 1⟩] }

/-- `d` returns `Command(goto=Send("b", 1))`. -/
def singleScript : List (Action Response Signal) :=
  [.answer 0 (.output (going (.send "b" (.int 1)) (pulled "d" [("x", .int 1)])))]

def singleEmission (_ : NodeActivityOutput) : Emission := { goto := some (.one (.send "b" (.int 1))) }

theorem drops_nested : Drops nestedEmission nestedScript "c" := by
  refine ⟨fun r mem => ?_, fun executed => ?_, ⟨_, _, _, rfl⟩, by decide⟩
  · have outputs : outputsIn (history sendSetting nestedScript) =
        [sending "b" (pulled "d" [("x", .int 1)]), sending "c" (pushed "b" [])] := rfl
    rw [outputs] at mem
    simp only [List.mem_cons, List.not_mem_nil, or_false] at mem
    rcases mem with rfl | rfl
    · exact emits_of_code (sendingNode [("x", .int 1)] ⟨"b", .int 1⟩)
        (inputAt "d" [.str "__pregel_pull", .str "d"]) (.returned rfl rfl rfl rfl (.value _)) rfl
    · exact emits_of_code (sendingNode [] ⟨"c", .int 1⟩) (inputAt "b" [.str "b", .str "push"])
        (.returned rfl rfl rfl rfl (.value _)) rfl
  · have done : completes (history sendSetting nestedScript)[8] = true := rfl
    obtain ⟨performed, emitted, ran⟩ := executed.at 8 (by decide) done
    have two := emitted.length_le
    rw [ran.length_eq] at two
    exact absurd two (by decide)

theorem drops_single : Drops singleEmission singleScript "b" := by
  refine ⟨fun r mem => ?_, fun executed => ?_, ⟨_, _, _, rfl⟩, by decide⟩
  · have outputs : outputsIn (history sendSetting singleScript) =
        [going (.send "b" (.int 1)) (pulled "d" [("x", .int 1)])] := rfl
    rw [outputs, List.mem_singleton] at mem
    subst mem
    exact emits_of_code (routingNode [("x", .int 1)] (.one (.send "b" (.int 1))))
      (inputAt "d" [.str "__pregel_pull", .str "d"]) (.returned rfl rfl rfl rfl (.command rfl)) rfl
  · have done : completes (history sendSetting singleScript)[7] = true := rfl
    obtain ⟨performed, emitted, ran⟩ := executed.at 7 (by decide) done
    have one := emitted.length_le
    rw [ran.length_eq] at one
    exact absurd one (by decide)

/-- **A Send of a Send task is dropped, and so is a single Send as a goto**: the
run ends without an execution of the target. -/
theorem nested_send_dropped :
    Drops nestedEmission nestedScript "c" ∧ Drops singleEmission singleScript "b" :=
  ⟨drops_nested, drops_single⟩

end Runs

/-! ## What a dispatched task reads, and when its writes are applied -/

/-- After the first pass of a superstep, an execution is handed the channels as
they were at a time in it before any of its writes were applied. -/
def ReadsBefore (S : Setting Chan) (a : List Event) (e : Event) : Prop :=
  ∀ input call outputs, e = .dispatched input call → Event.collected .resumed outputs ∈ superstepOf a →
    ∃ state, input.inputState = .ofDict state ∧ Reads S a state

/-- The writes of all outputs collected in a superstep, by whichever route, are
applied in one call, the first and only one of that superstep. -/
def AppliesTogether (a : List Event) (e : Event) : Prop :=
  ∀ writes updated, e = .applied writes updated →
    (∀ x ∈ superstepOf a, completes x = false) ∧
      ∀ route outputs, Event.collected route outputs ∈ superstepOf a → ∀ r ∈ outputs, r.writes ≠ [] →
        ∃ w ∈ writes, w.name = r.nodeName ∧ r.writes <+: w.writes

/-- The tasks that a Send or a goto starts belong to the superstep of the node
that asked for them. -/
structure SameSuperstep (S : Setting Chan) (h : List Event) : Prop where
  reads : Guarded (ReadsBefore S) h
  applies : Guarded AppliesTogether h

theorem readsBefore_of_works {h : List Event} {ph : Phase} {self self' : LangGraphWorkflow Chan}
    {e : Event} (works : Works S ph h self e self')
    (reachable : (workflowMachine S).Reachable ⟨h, ph, self⟩) : ReadsBefore S h e := by
  rintro input call outputs rfl resumed
  cases works with
  | dispatch admitted =>
      have executes := admitted.executes
      obtain ⟨o, on⟩ := course_invariant.holds reachable (Stage.busy_of_executes executes)
      have listed := mem_collectedIn.mpr resumed
      have course := on.course.collected
      dsimp only at course
      rw [course] at listed
      have reads := reads_invariant.holds reachable executes
      cases admitted with
      | scheduled stage =>
          rw [stage] at listed
          cases listed
      | resumed stage =>
          rw [stage] at listed
          simp [Stage.level, Outputs.collected] at listed
      | push => exact ⟨ph.state, rfl, reads⟩
      | goto => exact ⟨ph.state, rfl, reads⟩

/-- Every output with writes is among the results that are applied. -/
theorem applied_of_course {h : List Event} {tasks : List PregelTask} {o : Outputs}
    (course : Course h tasks 5 o) {route : Route} {outputs : List NodeActivityOutput}
    (collected : Event.collected route outputs ∈ superstepOf h) {r : NodeActivityOutput}
    (mem : r ∈ outputs) (writes : r.writes ≠ []) :
    ∃ r' ∈ o.final, r'.nodeName = r.nodeName ∧ r.writes <+: r'.writes := by
  have listed := mem_collectedIn.mpr collected
  rw [course.collected] at listed
  have final : ∀ r' ∈ o.resumed ++ o.push ++ o.goto, r' ∈ o.final := by
    intro r' mem'
    unfold Outputs.final Outputs.afterPush Outputs.settled
    simp only [List.mem_append] at mem' ⊢
    tauto
  simp only [Outputs.collected, List.mem_cons, List.not_mem_nil, or_false] at listed
  rcases listed with same | same | same | same
  · cases same
    obtain ⟨r', mem', serves⟩ := forall₂_mem_left (course.served (by decide)) mem
    obtain ⟨t, -, ran⟩ := forall₂_mem_right (course.scheduled (by decide)) mem
    have settled : r.interrupted = false := by
      cases asked : r.interrupted with
      | false => rfl
      | true => exact absurd (ran.bare asked).1 writes
    have still : r'.interrupted = r.interrupted := by
      rw [NodeActivityOutput.interrupted, NodeActivityOutput.interrupted, serves.same.2.2.1]
    refine ⟨r', ?_, serves.same.1, ?_⟩
    · have kept : r' ∈ settledOf o.served := by
        refine List.mem_filter.mpr ⟨mem', ?_⟩
        rw [still, settled]
        rfl
      unfold Outputs.final Outputs.afterPush Outputs.settled
      simp [kept]
    · obtain ⟨replies, rfl, -⟩ := serves
      exact List.prefix_append _ _
  · cases same
    exact ⟨r, final r (by simp [mem]), rfl, List.prefix_rfl⟩
  · cases same
    exact ⟨r, final r (by simp [mem]), rfl, List.prefix_rfl⟩
  · cases same
    exact ⟨r, final r (by simp [mem]), rfl, List.prefix_rfl⟩

theorem appliesTogether_of_moves {h : List Event} {ph ph' : Phase} {self self' : LangGraphWorkflow Chan}
    {e : Event} (moves : Moves S h ph self e ph' self')
    (reachable : (workflowMachine S).Reachable ⟨h, ph, self⟩) : AppliesTogether h e := by
  have complete := moves.completesCourse (course_invariant.holds reachable)
  rintro writes updated rfl
  cases moves with
  | apply stage =>
      have unapplied : ph.stage.unapplied = true := by rw [stage]; rfl
      refine ⟨fun x mem => not_completes ((open_invariant.holds reachable unapplied).2 x mem), fun route outputs collected r mem writes => ?_⟩
      obtain ⟨tasks, o, course, ⟨skip, -⟩ | ⟨updated, same⟩⟩ := complete rfl
      · cases skip
      obtain ⟨r', mem', name, pre⟩ := applied_of_course course collected mem writes
      obtain ⟨same, -⟩ := Event.applied.inj same
      rw [same]
      refine ⟨taskWrites S.graph r', ?_, name, pre⟩
      have nonempty : r'.writes ≠ [] := fun empty => writes (List.prefix_nil.mp (empty ▸ pre))
      exact List.mem_map_of_mem (List.mem_filter.mpr ⟨mem', by simpa using nonempty⟩)

/-- **A task that a Send or a goto starts reads what its superstep read, and its
writes are applied together with those of the node that asked for it.** -/
theorem dispatched_in_same_superstep (S : Setting Chan) (threshold : Option Nat)
    (uuids : Nat → String) (script : List (Action Response Signal)) :
    SameSuperstep S (runHistory S threshold uuids script) := by
  refine ⟨runHistory_guarded ?_ ?_ ?_ threshold uuids script, runHistory_guarded ?_ ?_ ?_ threshold uuids script⟩
  · rintro a e early input call outputs rfl
    cases early
  · exact fun h ph self self' e reachable works => readsBefore_of_works works reachable
  · rintro h ph ph' self self' e reachable moves input call outputs rfl
    cases moves
  · rintro a e early writes updated rfl
    cases early
  · rintro h ph self self' e reachable works writes updated rfl
    cases works
  · exact fun h ph ph' self self' e reachable moves => appliesTogether_of_moves moves reachable

section Runs

open Reference

/-- The state handed to a goto target has the writes of the node that asked for it. -/
def ReadsDispatcher (h : List Event) : Prop :=
  Guarded (fun a e => ∀ input call outputs, e = .dispatched input call →
    Event.collected .scheduled outputs ∈ superstepOf a → ∀ r ∈ outputs, ∀ send ∈ commandGotos r,
      send.node = input.nodeName → ∀ write ∈ r.writes,
        Activities.readHandler input.inputState [] write.1 = some write.2) h

/-- `d` writes to `x` and goes to `b`, which writes to `x` as well. -/
def conflict : Outcome (Execution Channel) Request Response Signal RunError RunResult :=
  replayRun sendSetting none (fun _ => "")
    [.answer 0 (.output (going (.list [.str "b"]) (pulled "d" [("x", .int 5)]))),
      .answer 0 (.output (pushed "b" [("x", .int 1)]))]

/-- **The target of a goto reads what was there before, and its writes conflict
with those of the node that asked for it.** -/
theorem goto_target_reads_stale :
    ¬ReadsDispatcher (historyOf conflict) ∧
      ∃ w, conflict = .failed (.invalidUpdate "Can receive only one value per step.") w := by
  refine ⟨fun reads => ?_, _, rfl⟩
  have first : Event.collected .scheduled [going (.list [.str "b"]) (pulled "d" [("x", .int 5)])] ∈
      superstepOf ((historyOf conflict).take 6) := .tail _ (.head _)
  have found := reads.at 6 (by decide) _ _ _ rfl first _ (.head _) ⟨"b", .none⟩ (.head _) rfl _ (.head _)
  cases found

end Runs

end LanggraphTemporal.Properties
