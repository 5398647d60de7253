/-
# Properties.GotoPayloads -- a goto as the payload that carries it

The activity encodes `Command.goto` in its output, the workflow decodes it and
starts an activity for each target, and that activity selects its node input by
whether a Send argument came with its input.  Two payload conversions lie in
between.  What the encoder leaves as it is, the decoder does not know: a single
Send is dropped; and neither of them treats `END` or a Send of `None` apart
(`goto_agrees_iff`).
-/
import LanggraphTemporal.Machine.Starts
import LanggraphTemporal.Machine.Reference
import LanggraphTemporal.Model.Activities

namespace LanggraphTemporal.Properties

set_option autoImplicit false

open Theory Model Model.LangGraphWorkflow Machine

variable {Chan α : Type}

/-! ## Values of `Command.goto` -/

/-- A node name, or a Send. -/
inductive GotoElement where
  | name (node : String)
  | send (node : String) (arg : PyVal)

def GotoElement.val : GotoElement → PyVal
  | .name node => .str node
  | .send node arg => .send node arg

/-- A value of `Command.goto`. -/
inductive Goto where
  | one (element : GotoElement)
  | list (elements : List GotoElement)
  | tuple (elements : List GotoElement)

namespace Goto

def val : Goto → PyVal
  | .one element => element.val
  | .list elements => .list (elements.map GotoElement.val)
  | .tuple elements => .tuple (elements.map GotoElement.val)

def elements : Goto → List GotoElement
  | .one element => [element]
  | .list elements => elements
  | .tuple elements => elements

end Goto

/-! ## From the output of one activity to the inputs of others -/

/-- What payload conversion is relied on for: it keeps strings, lists and dicts,
and it makes `None` of `None` only.  A Send is no dict, and does not become
one. -/
structure PreservesPayloads (convert : PyVal → PyVal) : Prop where
  str : ∀ s, convert (.str s) = .str s
  list : ∀ xs, convert (.list xs) = .list (xs.map convert)
  dict : ∀ kvs, convert (.dict kvs) = .dict (kvs.map fun kv => (kv.1, convert kv.2))
  none : ∀ v, (convert v).isNone = v.isNone
  send : ∀ node arg, ∃ node' arg', convert (.send node arg) = .send node' arg'

/-- The output of an activity, as it reaches the workflow. -/
def convertOutput (convert : PyVal → PyVal) (r : NodeActivityOutput) : NodeActivityOutput :=
  { r with command := r.command.map fun c =>
      ⟨convert c.goto, convert c.update, convert c.graph⟩ }

/-- The input of an activity, as it reaches the worker. -/
def convertInput (convert : PyVal → PyVal) (input : NodeActivityInput) : NodeActivityInput :=
  { input with inputState := convert input.inputState, sendInput := convert input.sendInput }

/-- The activities that a method asks for before it waits. -/
def askedInputs (c : WorkflowM Chan α) (w : Execution Chan) : List NodeActivityInput :=
  match settle c w with
  | .await requests _ _ => requests.filterMap fun request =>
      match request with
      | .executeActivity _ input _ => some input
      | _ => none
  | _ => []

/-- The tasks made of the gotos of an output: the node that each invokes, and
what with. -/
def invocations (env : Env Chan) (convert : PyVal → PyVal) (w : Execution Chan)
    (r : NodeActivityOutput) : List (String × PyVal) :=
  let sends := extractCommandGotos [convertOutput convert r]
  (askedInputs (executePushTasks env sends) w).map fun input =>
    (input.nodeName, Activities.nodeInput (convertInput convert input))

/-- The task that an element stands for: a Send invokes its node with its
argument, a name with the channel state, each as they arrive. -/
def GotoElement.task (convert : PyVal → PyVal) (channelValues : Dict PyVal) :
    GotoElement → Option (String × PyVal)
  | .name node => if node = END then none else some (node, convert (.ofDict channelValues))
  | .send node arg => some (node, convert (convert arg))

/-- The node of this input returns a `Command` with this goto. -/
def ReturnsCommand (graph : GraphCode) (input : NodeActivityInput) (goto : PyVal) : Prop :=
  ∃ code c, graph.nodes input.nodeName = some code ∧
    (code.ainvoke (Activities.nodeInput input) input.inputState
      (input.resumeValues.getD [])).outcome = .returned (.command c) ∧ c.goto = goto

/-! ## Where the two agree -/

/-- Elements that the decoder turns into the task they stand for. -/
def GotoElement.Carried : GotoElement → Prop
  | .name node => node ≠ END
  | .send _ arg => arg.isNone = false

/-- Gotos that do: no Send by itself, and no empty name by itself. -/
def Goto.Carried : Goto → Prop
  | .one (.name node) => node ≠ END ∧ node ≠ ""
  | .one (.send _ _) => False
  | .list elements => ∀ element ∈ elements, element.Carried
  | .tuple elements => ∀ element ∈ elements, element.Carried

/-- Gotos that the decoder knows. -/
def Goto.Decoded : Goto → Prop
  | .one (.name node) => node ≠ ""
  | .one (.send _ _) => False
  | .list _ => True
  | .tuple _ => True

section Decoding

variable {convert : PyVal → PyVal} {env : Env Chan} {w : Execution Chan}

/-- Mapping is filtering when nothing is filtered out. -/
theorem map_eq_filterMap_iff {ι β : Type} {f : ι → β} {g : ι → Option β} (xs : List ι) :
    xs.map f = xs.filterMap g ↔ ∀ x ∈ xs, g x = some (f x) := by
  constructor
  · intro same
    induction xs with
    | nil => exact nofun
    | cons x xs ih =>
        cases here : g x with
        | none =>
            have long : (xs.filterMap g).length ≤ xs.length := List.length_filterMap_le g xs
            have lengths := congrArg List.length same
            rw [List.filterMap_cons_none here, List.length_map, List.length_cons] at lengths
            omega
        | some b =>
            rw [List.filterMap_cons_some here, List.map_cons] at same
            obtain ⟨head, tail⟩ := List.cons_eq_cons.mp same
            intro y mem
            rcases List.mem_cons.mp mem with rfl | mem
            · rw [here, head]
            · exact ih tail y mem
  · intro all
    rw [List.filterMap_congr all]
    show _ = xs.filterMap (some ∘ f)
    rw [List.filterMap_eq_map]

theorem askedInputs_pushTasks (sends : List SendRequest) :
    askedInputs (executePushTasks env sends) w = sends.map (sendInput env w) := by
  cases sends with
  | nil => rfl
  | cons send sends =>
      obtain ⟨t, -, k, settled, -⟩ := executePushTasks_launches env send sends w
      simp only [askedInputs, settled]
      induction send :: sends with
      | nil => rfl
      | cons send sends ih => simp

/-- What the decoder makes of an element. -/
def GotoElement.request (convert : PyVal → PyVal) : GotoElement → SendRequest
  | .name node => ⟨node, .none⟩
  | .send node arg => ⟨node, convert arg⟩

theorem gotoTarget_convert (preserves : PreservesPayloads convert) (element : GotoElement) :
    gotoTarget (convert (Activities.encodeTarget element.val)) = some (element.request convert) := by
  cases element with
  | name node =>
      show gotoTarget (convert (.str node)) = _
      rw [preserves.str]
      rfl
  | send node arg =>
      show gotoTarget (convert (.dict [("node", .str node), ("arg", arg)])) = _
      rw [preserves.dict]
      show gotoTarget (.dict [("node", convert (.str node)), ("arg", convert arg)]) = _
      rw [preserves.str]
      simp [gotoTarget, GotoElement.request, List.lookup_cons]

/-- The elements of a list or a tuple are decoded one by one. -/
theorem decode_elements (preserves : PreservesPayloads convert) (elements : List GotoElement) :
    (gotoList (convert (.list ((elements.map GotoElement.val).map Activities.encodeTarget)))).filterMap
      gotoTarget = elements.map (GotoElement.request convert) := by
  rw [preserves.list, gotoList, List.filterMap_map, List.filterMap_map, List.filterMap_map]
  have all := (map_eq_filterMap_iff elements).mpr fun element _ => gotoTarget_convert preserves element
  exact all.symm

/-- The task that is made of an element. -/
def GotoElement.invocation (convert : PyVal → PyVal) (channelValues : Dict PyVal)
    (element : GotoElement) : String × PyVal :=
  match element with
  | .name node => (node, convert (.ofDict channelValues))
  | .send node arg =>
      (node, if arg.isNone then convert (.ofDict channelValues) else convert (convert arg))

theorem invocation_request (preserves : PreservesPayloads convert) (element : GotoElement) :
    ((sendInput env w (element.request convert)).nodeName,
        Activities.nodeInput (convertInput convert (sendInput env w (element.request convert)))) =
      element.invocation convert (getChannelValues env.lg w.self.channels) := by
  cases element with
  | name node =>
      have none : (convert PyVal.none).isNone = true := preserves.none .none
      simp [GotoElement.request, GotoElement.invocation, sendInput, pushInput, convertInput,
        Activities.nodeInput, none]
  | send node arg =>
      have kept : (convert (convert arg)).isNone = arg.isNone := by
        rw [preserves.none, preserves.none]
      simp [GotoElement.request, GotoElement.invocation, sendInput, pushInput, convertInput,
        Activities.nodeInput, kept]

theorem task_eq_invocation_iff (preserves : PreservesPayloads convert) (channelValues : Dict PyVal)
    (element : GotoElement) :
    element.task convert channelValues = some (element.invocation convert channelValues) ↔
      element.Carried := by
  cases element with
  | name node =>
      by_cases ends : node = END
      · simp [GotoElement.task, GotoElement.Carried, ends]
      · simp [GotoElement.task, GotoElement.Carried, GotoElement.invocation, ends]
  | send node arg =>
      have state : (convert (.ofDict channelValues)).isNone = false := preserves.none _
      have kept : (convert (convert arg)).isNone = arg.isNone := by
        rw [preserves.none, preserves.none]
      cases given : arg.isNone with
      | false => simp [GotoElement.task, GotoElement.Carried, GotoElement.invocation, given]
      | true =>
          have other : convert (convert arg) ≠ convert (.ofDict channelValues) := by
            intro same
            rw [same, state, given] at kept
            cases kept
          simp [GotoElement.task, GotoElement.Carried, GotoElement.invocation, given, other]

/-- The gotos of an output are those of the `Command` that its node returned. -/
theorem commandGotos_of_returns {untracked : Chan → Bool} {channels : Dict Chan}
    {graph : GraphCode} {input : NodeActivityInput} {r : NodeActivityOutput}
    {goto : PyVal} (returns : ReturnsCommand graph input goto)
    (executed : Activities.executeNodeImpl untracked channels graph input = .ok r) :
    extractCommandGotos [convertOutput convert r] =
      if (convert (Activities.encodeGoto goto)).truthy then
        (gotoList (convert (Activities.encodeGoto goto))).filterMap gotoTarget
      else [] := by
  obtain ⟨code, c, found, outcome, rfl⟩ := returns
  simp only [Activities.executeNodeImpl, found, outcome] at executed
  have command : r.command = some { c with goto := Activities.encodeGoto c.goto } := by
    split at executed
    · split at executed
      · cases executed
        rfl
      · cases executed
    · cases executed
      rfl
  simp [extractCommandGotos, commandGotos, convertOutput, command]

/-- The decoder knows every goto but a single Send and the empty string. -/
theorem decoded_of_returns (preserves : PreservesPayloads convert) {untracked : Chan → Bool}
    {channels : Dict Chan} {graph : GraphCode} {input : NodeActivityInput} {r : NodeActivityOutput}
    {goto : Goto} (plain : goto.Decoded) (returns : ReturnsCommand graph input goto.val)
    (executed : Activities.executeNodeImpl untracked channels graph input = .ok r) :
    extractCommandGotos [convertOutput convert r] =
      goto.elements.map (GotoElement.request convert) := by
  have decoded : extractCommandGotos [convertOutput convert r] = _ :=
    commandGotos_of_returns returns executed
  have several : convert (Activities.encodeGoto goto.val) =
        convert (.list ((goto.elements.map GotoElement.val).map Activities.encodeTarget)) →
      extractCommandGotos [convertOutput convert r] =
        goto.elements.map (GotoElement.request convert) := by
    intro encoded
    rw [decoded, encoded, decode_elements preserves]
    split
    · rfl
    · rename_i falsy
      rw [preserves.list] at falsy
      cases none : goto.elements with
      | nil => rfl
      | cons element elements => exact absurd (by rw [none]; rfl) falsy
  cases goto with
  | list elements => exact several rfl
  | tuple elements => exact several rfl
  | one element =>
      cases element with
      | name node =>
          have kept : convert (Activities.encodeGoto (Goto.one (.name node)).val) = .str node :=
            preserves.str node
          have named : node ≠ "" := plain
          simp [decoded, kept, PyVal.truthy, named, gotoList, gotoTarget, Goto.elements,
            GotoElement.request]
      | send node arg => cases plain

/-- Each decoded element becomes one task. -/
theorem invocations_of_decoded (preserves : PreservesPayloads convert) {r : NodeActivityOutput}
    (elements : List GotoElement)
    (decoded : extractCommandGotos [convertOutput convert r] =
      elements.map (GotoElement.request convert)) :
    invocations env convert w r =
      elements.map (GotoElement.invocation convert (getChannelValues env.lg w.self.channels)) := by
  simp only [invocations, decoded]
  rw [askedInputs_pushTasks, List.map_map, List.map_map]
  exact List.map_congr_left fun element _ => invocation_request preserves element

end Decoding

/-- The tasks made of a goto are those its elements stand for, in order. -/
def GotoAgrees (env : Env Chan) (convert : PyVal → PyVal) (w : Execution Chan) (goto : Goto)
    (r : NodeActivityOutput) : Prop :=
  invocations env convert w r =
    goto.elements.filterMap (GotoElement.task convert (getChannelValues env.lg w.self.channels))

/-- A goto that is decoded into its elements agrees as each of them does. -/
theorem agrees_of_decoded {convert : PyVal → PyVal} (preserves : PreservesPayloads convert)
    {env : Env Chan} {w : Execution Chan} {r : NodeActivityOutput} {goto : Goto}
    (decoded : extractCommandGotos [convertOutput convert r] =
      goto.elements.map (GotoElement.request convert)) :
    GotoAgrees env convert w goto r ↔ ∀ element ∈ goto.elements, element.Carried := by
  rw [GotoAgrees, invocations_of_decoded preserves _ decoded, map_eq_filterMap_iff]
  exact forall₂_congr fun element _ => task_eq_invocation_iff preserves _ element

/-- **The tasks made of a goto are those its elements stand for if and only if
the goto is no single Send and has no `END` and no Send of `None`** (nor is it
the empty string by itself). -/
theorem goto_agrees_iff {convert : PyVal → PyVal} (preserves : PreservesPayloads convert)
    (env : Env Chan) (w : Execution Chan) {untracked : Chan → Bool} {channels : Dict Chan}
    {graph : GraphCode} {input : NodeActivityInput} {r : NodeActivityOutput}
    {goto : Goto} (returns : ReturnsCommand graph input goto.val)
    (executed : Activities.executeNodeImpl untracked channels graph input = .ok r) :
    GotoAgrees env convert w goto r ↔ goto.Carried := by
  have decoded : extractCommandGotos [convertOutput convert r] = _ :=
    commandGotos_of_returns returns executed
  have agrees : goto.Decoded → (GotoAgrees env convert w goto r ↔
      ∀ element ∈ goto.elements, element.Carried) := fun plain =>
    agrees_of_decoded preserves (decoded_of_returns preserves plain returns executed)
  cases goto with
  | list elements => exact agrees trivial
  | tuple elements => exact agrees trivial
  | one element =>
      cases element with
      | name node =>
          by_cases empty : node = ""
          · -- the empty string is falsy, so it is no goto at all
            subst empty
            have kept : convert (Activities.encodeGoto (Goto.one (.name "")).val) = .str "" :=
              preserves.str ""
            rw [kept] at decoded
            have none : invocations env convert w r = [] :=
              invocations_of_decoded preserves [] decoded
            simp [GotoAgrees, Goto.Carried, Goto.elements, GotoElement.task, END, none]
          · rw [agrees empty]
            simp [Goto.elements, Goto.Carried, GotoElement.Carried, empty]
      | send node arg =>
          -- a Send is neither a list nor a dict nor a string
          obtain ⟨node', arg', kept⟩ := preserves.send node arg
          have sent : convert (Activities.encodeGoto (Goto.one (.send node arg)).val) =
              .send node' arg' := kept
          rw [sent] at decoded
          have none : invocations env convert w r = [] :=
            invocations_of_decoded preserves [] decoded
          simp [GotoAgrees, Goto.Carried, Goto.elements, GotoElement.task, none]

section Runs

open Reference

/-- Payloads that arrive as they were sent. -/
theorem preservesPayloads_id : PreservesPayloads id where
  str _ := rfl
  list xs := by simp
  dict kvs := by simp
  none _ := rfl
  send node arg := ⟨node, arg, rfl⟩

/-- A node that returns `Command(goto=goto)`. -/
def goingNode (goto : PyVal) : NodeCode where
  ainvoke _ _ _ := { outcome := .returned (.command ⟨goto, .none, .none⟩) }
  writers := []

/-- The activity input of a node `a`, in a state without values. -/
def goingInput : NodeActivityInput := taskInput "graph" ∅ ⟨"a", [.str "__pregel_pull", .str "a"]⟩

/-- What the activity of that node returns. -/
def executeGoing (goto : Goto) : Except NodeFailure NodeActivityOutput :=
  Activities.executeNodeImpl (fun _ => false) (∅ : Dict Channel) { nodes := fun _ => some (goingNode goto.val) }
    goingInput

/-- A workflow whose channels have no value. -/
def goingExecution : Execution Channel := { self := { checkpoint := {} }, uuids := fun _ => "" }

/-- `["b", Send("c", 1)]` -/
def mixedGoto : Goto := .list [.name "b", .send "c" (.int 1)]

/-- Its output. -/
def mixedOutput : NodeActivityOutput :=
  going (.list [.str "b", .dict [("node", .str "c"), ("arg", .int 1)]]) (pulled "a" [])

theorem goto_agrees_mixedGoto :
    GotoAgrees (env (graph [])) id goingExecution mixedGoto mixedOutput ↔ mixedGoto.Carried := by
  have returns : ReturnsCommand { nodes := fun _ => some (goingNode mixedGoto.val) } goingInput mixedGoto.val :=
    ⟨_, _, rfl, rfl, rfl⟩
  have executed : executeGoing mixedGoto = .ok mixedOutput := rfl
  exact goto_agrees_iff preservesPayloads_id (env (graph [])) goingExecution returns executed

/-- **A single Send is dropped.** -/
theorem single_send_dropped : ¬∀ r, executeGoing (.one (.send "b" (.int 1))) = .ok r →
    GotoAgrees (env (graph [])) id goingExecution (.one (.send "b" (.int 1))) r := by
  intro agrees
  cases agrees (going (.send "b" (.int 1)) (pulled "a" [])) rfl

end Runs

end LanggraphTemporal.Properties
