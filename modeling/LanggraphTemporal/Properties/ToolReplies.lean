/-
# Properties.ToolReplies -- the replies to the requests for sub-agents

`_process_child_workflow_requests` appends one tool reply for each request, in
request order and made of the answer of its own child, whatever the order in
which the children complete and whichever of them fail.  But the reply to a child
that succeeds is read with `messages[-1]`, outside of what catches the failures:
if the messages are no sequence, the method raises, and there are no replies
(`tool_replies_iff`).
-/
import LanggraphTemporal.Machine.Children
import LanggraphTemporal.Machine.Reference
import LanggraphTemporal.Theory.CoroutineTraces

namespace LanggraphTemporal.Properties

set_option autoImplicit false

open Theory Theory.System Model Model.LangGraphWorkflow Machine

variable {Chan : Type} {env : Env Chan} {input : WorkflowInput} {self : LangGraphWorkflow Chan}

/-! ## Replies -/

/-- The `messages` of a child, as the parent looks at them. -/
def messagesOf (output : WorkflowOutput) : PyVal := output.channelValues.getD "messages" (.list [])

/-- The text of the last of these messages; of none at all, the empty one. -/
def LastMessage (env : Env Chan) (messages : PyVal) (content : String) : Prop :=
  if messages.truthy then
    lastItem messages = some (.str content) ∨
      ∃ m, lastItem messages = some m ∧ (∀ text, m ≠ .str text) ∧ content = env.pyStr m
  else content = ""

/-- The content that is due for a child's answer. -/
def Content (env : Env Chan) (req : ChildRequest) (answer : Response) (content : String) : Prop :=
  match childResult answer with
  | .ok output => LastMessage env (messagesOf output) content
  | .error e => content = "Sub-agent '" ++ req.subagentType.getD "unknown" ++ "' failed: " ++ e.message

/-- The tool reply to a request, made of its child's answer. -/
def ReplyTo (env : Env Chan) (p : ChildRequest × Response) (reply : String × PyVal) : Prop :=
  ∃ content, Content env p.1 p.2 content ∧
    reply = ("messages", .dict [("type", .str "tool"), ("content", .str content),
      ("tool_call_id", .str (p.1.toolCallId.getD ""))])

/-- The messages are none, or a sequence. -/
def Readable (answer : Response) : Prop :=
  match childResult answer with
  | .ok output => (messagesOf output).truthy = true → (lastItem (messagesOf output)).isSome = true
  | .error _ => True

/-- The requests for the children of a result. -/
def childrenOf (env : Env Chan) (self : LangGraphWorkflow Chan) (input : WorkflowInput)
    (r : NodeActivityOutput) : List Request :=
  r.childWorkflowRequests.zipIdx.map fun p => .executeChildWorkflow (childCall env self p.1 input p.2)

/-- Each child has answered once, in some order, and the result is as before, with
the replies to its requests behind its writes. -/
def RepliedTo (env : Env Chan) (self : LangGraphWorkflow Chan) (input : WorkflowInput)
    (r : NodeActivityOutput) (told : List (Request × Response)) (r' : NodeActivityOutput) : Prop :=
  ∃ answers replies, answers.length = r.childWorkflowRequests.length ∧
    told.Perm ((childrenOf env self input r).zip answers) ∧
      List.Forall₂ (ReplyTo env) (r.childWorkflowRequests.zip answers) replies ∧
        r' = { r with writes := r.writes ++ replies }

/-- So with all results, one after the other. -/
inductive AllReplied (env : Env Chan) (self : LangGraphWorkflow Chan) (input : WorkflowInput) :
    List NodeActivityOutput → List (Request × Response) → List NodeActivityOutput → Prop
  | nil : AllReplied env self input [] [] []
  | cons {r r' : NodeActivityOutput} {rs rs' : List NodeActivityOutput}
      {told later : List (Request × Response)} (replied : RepliedTo env self input r told r')
      (others : AllReplied env self input rs later rs') :
      AllReplied env self input (r :: rs) (told ++ later) (r' :: rs')

/-- Without requests there is nothing to reply to. -/
theorem RepliedTo.bare {r : NodeActivityOutput} (none : r.childWorkflowRequests = []) :
    RepliedTo env self input r [] r := by
  refine ⟨[], [], by rw [none]; rfl, ?_, ?_, by rw [List.append_nil]⟩
  · rw [childrenOf, none]
    exact .nil
  · rw [none]
    exact .nil

/-- A result without requests stays as it is. -/
theorem RepliedTo.untouched {r r' : NodeActivityOutput} {told : List (Request × Response)}
    (replied : RepliedTo env self input r told r') (none : r.childWorkflowRequests = []) :
    told = [] ∧ r' = r := by
  obtain ⟨answers, replies, -, parts, each, rfl⟩ := replied
  rw [childrenOf, none] at parts
  rw [none] at each
  cases each
  exact ⟨parts.eq_nil, by rw [List.append_nil]⟩

/-- The content of a reply to a child that has succeeded with these messages. -/
def contentOf (env : Env Chan) (messages : PyVal) : Except RunError String :=
  if messages.truthy then
    match lastItem messages with
    | some (.str m) => .ok m
    | some m => .ok (env.pyStr m)
    | none => .error (noLastItem messages)
  else .ok ""

theorem toolReply_ok (env : Env Chan) (req : ChildRequest) (output : WorkflowOutput) :
    toolReply env req (.ok output) = (contentOf env (messagesOf output)).map fun content =>
      ("messages", .dict [("type", .str "tool"), ("content", .str content),
        ("tool_call_id", .str (req.toolCallId.getD ""))]) := by
  unfold toolReply contentOf messagesOf
  dsimp only
  by_cases some : (output.channelValues.getD "messages" (.list [])).truthy = true
  · rw [if_pos some, if_pos some]
    cases lastItem (output.channelValues.getD "messages" (.list [])) with
    | none => rfl
    | some m =>
        cases m with
        | _ => rfl
  · rw [if_neg some, if_neg some]
    rfl

theorem contentOf_due (env : Env Chan) (messages : PyVal) :
    (∃ content, contentOf env messages = .ok content ∧ LastMessage env messages content ∧
      (messages.truthy = true → (lastItem messages).isSome = true)) ∨
    (contentOf env messages = .error (noLastItem messages) ∧ messages.truthy = true ∧
      lastItem messages = none) := by
  unfold contentOf LastMessage
  by_cases some : messages.truthy = true
  · rw [if_pos some]
    cases last : lastItem messages with
    | none => exact .inr ⟨rfl, some, rfl⟩
    | some m =>
        left
        cases m with
        | str text => exact ⟨text, rfl, by rw [if_pos some]; exact .inl rfl, fun _ => rfl⟩
        | _ => exact ⟨_, rfl, by rw [if_pos some]; exact .inr ⟨_, rfl, fun _ => PyVal.noConfusion, rfl⟩, fun _ => rfl⟩
  · rw [if_neg some]
    exact .inl ⟨"", rfl, by rw [if_neg some], fun again => absurd again some⟩

/-- What `_process_child_workflow_requests` makes of an answer. -/
theorem toolReply_due (env : Env Chan) (req : ChildRequest) (answer : Response) :
    (∃ reply, toolReply env req (childResult answer) = .ok reply ∧ ReplyTo env (req, answer) reply ∧
      Readable answer) ∨
    (∃ e, toolReply env req (childResult answer) = .error e) ∧ ¬Readable answer := by
  unfold ReplyTo Content Readable
  cases childResult answer with
  | error e => exact .inl ⟨_, rfl, ⟨_, rfl, rfl⟩, trivial⟩
  | ok output =>
      rw [toolReply_ok]
      rcases contentOf_due env (messagesOf output) with ⟨content, made, due, readable⟩ | ⟨none, some, missing⟩
      · exact .inl ⟨_, by rw [made]; rfl, ⟨content, due, rfl⟩, readable⟩
      · refine .inr ⟨⟨_, by rw [none]; rfl⟩, fun readable => ?_⟩
        have there := readable some
        rw [missing] at there
        cases there

/-- The replies to the requests of a result are made if all answers can be read. -/
theorem toolReplies (env : Env Chan) :
    ∀ (reqs : List ChildRequest) (answers : List Response), answers.length = reqs.length →
      (∃ replies, ((reqs.zip (answers.map childResult)).mapM fun p => toolReply env p.1 p.2) = .ok replies ∧
        List.Forall₂ (ReplyTo env) (reqs.zip answers) replies ∧ ∀ a ∈ answers, Readable a) ∨
      (∃ e, ((reqs.zip (answers.map childResult)).mapM fun p => toolReply env p.1 p.2) = .error e) ∧
        ∃ a ∈ answers, ¬Readable a
  | [], [], _ => .inl ⟨[], rfl, .nil, by simp⟩
  | req :: reqs, answer :: answers, lengths => by
      rw [List.map_cons, List.zip_cons_cons, List.mapM_cons]
      rcases toolReply_due env req answer with ⟨reply, first, due, readable⟩ | ⟨⟨e, first⟩, bad⟩
      · rw [first]
        rcases toolReplies env reqs answers (Nat.succ.inj lengths) with
          ⟨replies, later, others⟩ | ⟨⟨e, later⟩, others⟩
        · rw [later]
          refine .inl ⟨_, rfl, .cons due others.1, fun a mem => ?_⟩
          rcases List.mem_cons.mp mem with rfl | mem
          · exact readable
          · exact others.2 a mem
        · rw [later]
          obtain ⟨a, mem, bad⟩ := others
          exact .inr ⟨⟨e, rfl⟩, a, List.mem_cons_of_mem _ mem, bad⟩
      · rw [first]
        exact .inr ⟨⟨e, rfl⟩, answer, List.mem_cons_self, bad⟩

/-! ## What the children's answers make of the results -/

/-- The children that would be started are the same. -/
def SameChildren (env : Env Chan) (self : LangGraphWorkflow Chan) (input : WorkflowInput)
    (w : Execution Chan) : Prop :=
  ∀ req index, childCall env w.self req input index = childCall env self req input index

theorem sameChildren_handle {w w' : Execution Chan} {signal : Signal}
    (same : SameChildren env self input w) (handled : (workflowSystem env).handle signal w = .ok w') :
    SameChildren env self input w' := by
  have calmly : Calmly w w' := calmly_handle handled
  intro req index
  rw [← same req index]
  unfold childCall
  rw [calmly.step, calmly.config]

/-- The state keeps to the same children. -/
def KeepsChildren {α : Type} (env : Env Chan) (self : LangGraphWorkflow Chan) (input : WorkflowInput)
    (c : WorkflowM Chan α) : Prop :=
  Maintains (SameChildren env self input) (fun _ _ => True) (fun _ => True) c

/-- `c` comes to `result` when it is told these answers. -/
def Comes {α : Type} (env : Env Chan) (self : LangGraphWorkflow Chan) (input : WorkflowInput)
    (c : WorkflowM Chan α) (told : List (Request × Response)) (result : Except RunError α) : Prop :=
  (workflowSystem env).Tells (SameChildren env self input) c told result

theorem dispatchChildWorkflow_keeps (p : ChildRequest × Nat) :
    KeepsChildren env self input (dispatchChildWorkflow env p.1 input p.2).attempt := by
  rw [dispatchChildWorkflow_attempt]
  intro w same
  refine (Maintains.modify fun _ => id).bind fun _ _ => ?_
  exact .request fun response _ => trivial

theorem serveRequests_keeps (r : NodeActivityOutput) :
    KeepsChildren env self input (serveRequests env input r) := by
  unfold serveRequests
  split
  · trivial
  · refine Maintains.bind (Maintains.gather (fun p => dispatchChildWorkflow_keeps p) _) fun outputs _ => ?_
    split
    · trivial
    · trivial

theorem processChildWorkflowRequests_keeps :
    ∀ rs, KeepsChildren env self input (processChildWorkflowRequests env input rs)
  | [] => trivial
  | r :: rs => (serveRequests_keeps r).bind fun _ _ =>
      (processChildWorkflowRequests_keeps rs).bind fun _ _ => trivial

theorem dispatchChildWorkflow_comes {p : ChildRequest × Nat} {told : List (Request × Response)}
    {result : Except RunError (Except RunError WorkflowOutput)}
    (comes : Comes env self input (dispatchChildWorkflow env p.1 input p.2).attempt told result) :
    ∃ answer, told = [(.executeChildWorkflow (childCall env self p.1 input p.2), answer)] ∧
      result = .ok (childResult answer) := by
  rw [dispatchChildWorkflow_attempt] at comes
  cases comes with
  | get same comes =>
      cases comes with
      | get _ comes =>
          cases comes with
          | put comes =>
              rw [same p.1 p.2] at comes
              cases comes with
              | @await _ _ i q _ _ _ _ at_i given comes =>
                  obtain ⟨rfl, rfl⟩ := tells_ret comes
                  cases i with
                  | succ i => simp at at_i
                  | zero =>
                      cases at_i
                      cases given with
                      | awake ready => cases ready
                      | answer => exact ⟨_, rfl, rfl⟩

/-- Children of which each gives one answer. -/
theorem answers_of_parts {f : ChildRequest × Nat → Request} :
    ∀ {ps : List (ChildRequest × Nat)}
      {parts : List (List (Request × Response) × Except RunError WorkflowOutput)},
      List.Forall₂ (fun p part => ∃ answer, part.1 = [(f p, answer)] ∧ part.2 = childResult answer)
        ps parts →
      ∃ answers, answers.length = ps.length ∧ parts.flatMap Prod.fst = (ps.map f).zip answers ∧
        parts.map Prod.snd = answers.map childResult
  | _, _, .nil => ⟨[], rfl, rfl, rfl⟩
  | p :: _, part :: _, .cons here others => by
      obtain ⟨answer, told, result⟩ := here
      obtain ⟨answers, lengths, heard, outcomes⟩ := answers_of_parts others
      refine ⟨answer :: answers, ?_, ?_, ?_⟩
      · rw [List.length_cons, List.length_cons, lengths]
      · rw [List.flatMap_cons, told, heard]
        rfl
      · rw [List.map_cons, List.map_cons, result, outcomes]

theorem mem_zip_right {α β : Type} {as : List α} {bs : List β} {b : β} (lengths : as.length = bs.length)
    (mem : b ∈ bs) : ∃ a, (a, b) ∈ as.zip bs := by
  rw [← List.map_snd_zip (Nat.le_of_eq lengths.symm)] at mem
  obtain ⟨⟨a, b⟩, pair, rfl⟩ := List.mem_map.mp mem
  exact ⟨a, pair⟩

theorem serveRequests_comes {r : NodeActivityOutput} {told : List (Request × Response)}
    {result : Except RunError NodeActivityOutput}
    (comes : Comes env self input (serveRequests env input r) told result) :
    (∃ r', result = .ok r' ∧ RepliedTo env self input r told r' ∧ ∀ p ∈ told, Readable p.2) ∨
      (∃ e, result = .error e) ∧ ∃ p ∈ told, ¬Readable p.2 := by
  unfold serveRequests at comes
  split at comes
  · rename_i none
    obtain ⟨rfl, rfl⟩ := tells_ret comes
    exact .inl ⟨r, rfl, RepliedTo.bare (List.isEmpty_iff.mp none), by simp⟩
  · have sound (p : ChildRequest × Nat) (told : List (Request × Response)) (e : RunError) :
        ¬Comes env self input (dispatchChildWorkflow env p.1 input p.2).attempt told (.error e) := by
      intro comes
      obtain ⟨answer, -, failed⟩ := dispatchChildWorkflow_comes comes
      cases failed
    rcases tells_bind comes with ⟨outputs, first, second, rfl, gathered, rest⟩ | ⟨e, -, gathered⟩
    · obtain ⟨parts, returned, merged, each⟩ := tells_gather sound _ gathered
      obtain ⟨answers, lengths, heard, outcomes⟩ := answers_of_parts
        (each.imp fun p part comes => by
          obtain ⟨answer, told, result⟩ := dispatchChildWorkflow_comes comes
          exact ⟨answer, told, Except.ok.inj result⟩)
      rw [List.length_zipIdx] at lengths
      cases returned
      rw [outcomes] at rest
      rw [heard] at merged
      have count : (childrenOf env self input r).length = answers.length := by
        rw [childrenOf, List.length_map, List.length_zipIdx, lengths]
      rcases toolReplies env _ answers lengths with
        ⟨replies, made, due, readable⟩ | ⟨⟨e, made⟩, a, mem, bad⟩
      · rw [made] at rest
        obtain ⟨rfl, rfl⟩ := tells_ret rest
        rw [List.append_nil]
        refine .inl ⟨_, rfl, ⟨answers, replies, lengths, merged, due, rfl⟩, fun p mem => ?_⟩
        exact readable p.2 (List.of_mem_zip (merged.mem_iff.mp mem)).2
      · rw [made] at rest
        obtain ⟨rfl, rfl⟩ := tells_raise rest
        obtain ⟨q, pair⟩ := mem_zip_right count mem
        exact .inr ⟨⟨e, rfl⟩, (q, a), List.mem_append_left _ (merged.mem_iff.mpr pair), bad⟩
    · obtain ⟨parts, returned, -⟩ := tells_gather sound _ gathered
      cases returned

theorem processChildWorkflowRequests_comes {rs : List NodeActivityOutput}
    {told : List (Request × Response)} {result : Except RunError (List NodeActivityOutput)}
    (comes : Comes env self input (processChildWorkflowRequests env input rs) told result) :
    (∃ rs', result = .ok rs' ∧ AllReplied env self input rs told rs' ∧ ∀ p ∈ told, Readable p.2) ∨
      (∃ e, result = .error e) ∧ ∃ p ∈ told, ¬Readable p.2 := by
  induction rs generalizing told result with
  | nil =>
      obtain ⟨rfl, rfl⟩ := tells_ret comes
      exact .inl ⟨[], rfl, .nil, by simp⟩
  | cons r rs ih =>
      rcases tells_bind comes with ⟨r', first, second, rfl, here, rest⟩ | ⟨e, rfl, here⟩
      · rcases serveRequests_comes here with ⟨_, same, replied, readable⟩ | ⟨⟨e, failed⟩, -⟩
        · cases same
          rcases tells_bind rest with ⟨rs', third, fourth, rfl, others, rest⟩ | ⟨e, rfl, others⟩
          · obtain ⟨rfl, rfl⟩ := tells_ret rest
            rcases ih others with ⟨_, same, all, readable'⟩ | ⟨⟨e, failed⟩, -⟩
            · cases same
              rw [List.append_nil]
              refine .inl ⟨_, rfl, .cons replied all, fun p mem => ?_⟩
              rcases List.mem_append.mp mem with mem | mem
              · exact readable p mem
              · exact readable' p mem
            · cases failed
          · rcases ih others with ⟨_, same, -⟩ | ⟨-, p, mem, bad⟩
            · cases same
            · exact .inr ⟨⟨e, rfl⟩, p, List.mem_append_right _ mem, bad⟩
        · cases failed
      · rcases serveRequests_comes here with ⟨_, same, -⟩ | ⟨-, bad⟩
        · cases same
        · exact .inr ⟨⟨e, rfl⟩, bad⟩

/-! ## Runs of the method -/

theorem dispatchChildWorkflow_bounded (p : ChildRequest × Nat) :
    Bounded (dispatchChildWorkflow env p.1 input p.2).attempt 1 := by
  rw [dispatchChildWorkflow_attempt]
  exact fun _ _ => ⟨Nat.one_pos, fun _ _ => trivial⟩

theorem serveRequests_bounded (r : NodeActivityOutput) :
    Bounded (serveRequests env input r) r.childWorkflowRequests.length := by
  unfold serveRequests
  split
  · trivial
  · have each (p : ChildRequest × Nat) : Bounded (dispatchChildWorkflow env p.1 input p.2).attempt 1 :=
      dispatchChildWorkflow_bounded p
    have gathered := Bounded.gather each r.childWorkflowRequests.zipIdx
    rw [Nat.one_mul, List.length_zipIdx] at gathered
    refine gathered.bind (m := 0) fun outputs => ?_
    split
    · trivial
    · trivial

/-- The number of all requests. -/
def requestCount (results : List NodeActivityOutput) : Nat :=
  (results.flatMap NodeActivityOutput.childWorkflowRequests).length

theorem processChildWorkflowRequests_bounded (rs : List NodeActivityOutput) :
    Bounded (processChildWorkflowRequests env input rs) (requestCount rs) := by
  induction rs with
  | nil => trivial
  | cons r rs ih =>
      rw [requestCount, List.flatMap_cons, List.length_append]
      exact (serveRequests_bounded r).bind fun _ => ih.bind (m := 0) fun _ => trivial

/-- What the method comes to on a script, from this state. -/
def replayRequests (env : Env Chan) (input : WorkflowInput) (results : List NodeActivityOutput)
    (script : List (Action Response Signal)) (w : Execution Chan) :
    Outcome (Execution Chan) Request Response Signal RunError (List NodeActivityOutput) :=
  (workflowSystem env).replay (processChildWorkflowRequests env input results) script w

/-- The answers that it hears, in the order in which they are given. -/
def heardAnswers (env : Env Chan) (input : WorkflowInput) (results : List NodeActivityOutput)
    (script : List (Action Response Signal)) (w : Execution Chan) : List (Request × Response) :=
  (workflowSystem env).transcript (processChildWorkflowRequests env input results) script w

/-- It returns the results with all replies. -/
def ToolReplies (env : Env Chan) (input : WorkflowInput) (results : List NodeActivityOutput)
    (script : List (Action Response Signal)) (w : Execution Chan) : Prop :=
  ∃ results' rest t, replayRequests env input results script w = .done results' rest t ∧
    AllReplied env w.self input results (heardAnswers env input results script w) results'

/-- Only an update that cannot be applied makes a signal handler fail. -/
theorem handle_error {w : Execution Chan} {signal : Signal} {e : RunError}
    (failed : (workflowSystem env).handle signal w = .error e) : ∃ message, e = .invalidUpdate message := by
  cases signal with
  | resume value => cases failed
  | updateState writes =>
      simp only [workflowSystem, updateStateSignal] at failed
      cases applied : env.lg.applyWrites w.self.checkpoint w.self.channels
          [⟨[.str "__update__"], "__update__", writes, []⟩] increment w.self.triggerToNodes with
      | ok out =>
          rw [applied] at failed
          cases failed
      | error message =>
          rw [applied] at failed
          cases failed
          exact ⟨message, rfl⟩

/-- **When all children have answered, the results have all their replies if and
only if the messages of every child that has succeeded can be read.** -/
theorem tool_replies_iff (env : Env Chan) (input : WorkflowInput) (results : List NodeActivityOutput)
    (script : List (Action Response Signal)) (w : Execution Chan)
    (enough : requestCount results ≤ answersIn script)
    (permitted : replayRequests env input results script w ≠ .refused)
    (handled : ∀ message t, replayRequests env input results script w ≠ .failed (.invalidUpdate message) t) :
    ToolReplies env input results script w ↔
      ∀ p ∈ heardAnswers env input results script w, Readable p.2 := by
  have any (q : Request) (r : Response) (s : Execution Chan) (_ : (workflowSystem env).Answers q r s) : True :=
    trivial
  have keeps : KeepsChildren env w.self input (processChildWorkflowRequests env input results) :=
    processChildWorkflowRequests_keeps results
  have told := replay_tells (fun _ _ _ => sameChildren_handle) any _ script w keeps fun _ _ => rfl
  unfold ToolReplies heardAnswers
  change Outcome.Told _ _ _ _ (replayRequests env input results script w) at told
  cases outcome : replayRequests env input results script w with
  | done results' rest t =>
      rw [outcome] at told
      rcases processChildWorkflowRequests_comes told with ⟨_, same, all, readable⟩ | ⟨⟨e, failed⟩, -⟩
      · cases same
        exact ⟨fun _ => readable, fun _ => ⟨results', rest, t, rfl, all⟩⟩
      · cases failed
  | failed e t =>
      rw [outcome] at told
      have bad : ∃ p ∈ heardAnswers env input results script w, ¬Readable p.2 := by
        rcases told with comes | ⟨signal, s, failed⟩
        · rcases processChildWorkflowRequests_comes comes with ⟨_, same, -⟩ | ⟨-, bad⟩
          · cases same
          · exact bad
        · obtain ⟨message, rfl⟩ := handle_error failed
          exact absurd outcome (handled message t)
      obtain ⟨p, mem, bad⟩ := bad
      constructor
      · rintro ⟨results', rest, t', returned, -⟩
        cases returned
      · exact fun readable => absurd (readable p mem) bad
  | blocked qs k t =>
      have waits := answers_lt_of_blocked (processChildWorkflowRequests_bounded results) outcome
      exact absurd enough (Nat.not_le_of_lt waits)
  | refused => exact absurd outcome permitted

section Runs

open Reference

/-- Two results, of which the second has a request. -/
def delegatedResults : List NodeActivityOutput :=
  [pulled "a" [("x", .int 1)], delegating (pulled "b" [("x", .int 2)])]

/-- Its child completes with these messages. -/
def childMessages (messages : PyVal) : List (Action Response Signal) :=
  [.answer 0 (.childOutput ⟨Dict.ofList [("messages", messages)], 1⟩)]

def pairSetting : Setting Channel := setting [("a", ["in"]), ("b", ["in"])] none none

def pairState : Execution Channel := created pairSetting fun _ => ""

/-- The child's messages are the number 5, and the method raises. -/
theorem reply_lost :
    (∃ t, replayRequests pairSetting.env pairSetting.input delegatedResults (childMessages (.int 5)) pairState =
        .failed .typeError t) ∧
      ¬ToolReplies pairSetting.env pairSetting.input delegatedResults (childMessages (.int 5)) pairState := by
  refine ⟨⟨_, rfl⟩, ?_⟩
  rintro ⟨results', rest, t, returned, -⟩
  cases returned

theorem tool_replies_found :
    ToolReplies pairSetting.env pairSetting.input delegatedResults (childMessages (.list [.str "found"]))
      pairState := by
  refine (tool_replies_iff _ _ _ _ _ (by decide) (fun refused => by cases refused)
    (fun message t failed => by cases failed)).mpr ?_
  intro p mem
  have heard : heardAnswers pairSetting.env pairSetting.input delegatedResults
      (childMessages (.list [.str "found"])) pairState =
        [(.executeChildWorkflow (childCall pairSetting.env pairState.self
          { subagentType := some "researcher", toolCallId := some "call" } pairSetting.input 0),
          .childOutput ⟨Dict.ofList [("messages", .list [.str "found"])], 1⟩)] := rfl
  rw [heard] at mem
  cases List.mem_singleton.mp mem
  exact fun _ => rfl

end Runs

end LanggraphTemporal.Properties
