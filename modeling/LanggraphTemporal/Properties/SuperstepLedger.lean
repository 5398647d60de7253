/-
# Properties.SuperstepLedger -- what each superstep commits

The loop of `run` spreads one superstep over many awaits: the first pass, the
child requests, a re-execution, the Sends and the gotos, with pauses between
them.  Whatever happens in these awaits, every superstep opens, commits once and
closes before the next one opens.  It commits exactly the writes of its results,
among them one result for each scheduled task, one for each Send that the
results of these have passed on, and one for each target of the commands in the
results of both (`superstep_ledger`).
-/
import Mathlib.Data.List.Chain
import LanggraphTemporal.Machine.Streams
import LanggraphTemporal.Machine.Reference

namespace LanggraphTemporal.Properties

set_option autoImplicit false

open Theory Theory.System Theory.History Model Model.LangGraphWorkflow Machine

variable {Chan : Type} {S : Setting Chan}

/-! ## The order of a superstep -/

/-- What the entries of a history do to the superstep that is going on. -/
inductive Mark where
  | opens
  | commits
  | closes

def Mark.next : Mark → Mark
  | opens => commits
  | commits => closes
  | closes => opens

def markOf : Event → Option Mark
  | .scheduled _ _ => some .opens
  | .skipped | .applied _ _ => some .commits
  | .advanced => some .closes
  | _ => none

def marksOf (h : List Event) : List Mark := h.filterMap markOf

/-- The marks follow one another in turn, from a superstep that opens on. -/
def InTurn (h : List Event) : Prop :=
  List.IsChain (fun m m' => m' = m.next) (Mark.closes :: marksOf h)

/-- The last mark before a stage. -/
def stageMark : Stage → Mark
  | .ready => .closes
  | .after | .pausedAfter | .closing => .commits
  | _ => .opens

/-- The marks are in turn, and the last one is that of the stage. -/
structure Marked (h : List Event) (stage : Stage) : Prop where
  inTurn : InTurn h
  last : (Mark.closes :: marksOf h).getLast? = some (stageMark stage)

theorem marksOf_snoc (h : List Event) (e : Event) : marksOf (h ++ [e]) = marksOf h ++ (markOf e).toList := by
  unfold marksOf
  rw [List.filterMap_append]
  cases marked : markOf e with
  | none => simp [marked]
  | some m => simp [marked]

theorem Marked.quiet {h : List Event} {stage stage' : Stage} {e : Event} (marked : Marked h stage)
    (plain : markOf e = none) (same : stageMark stage' = stageMark stage) : Marked (h ++ [e]) stage' := by
  have marks : marksOf (h ++ [e]) = marksOf h := by
    rw [marksOf_snoc, plain]
    exact List.append_nil _
  refine ⟨?_, ?_⟩
  · unfold InTurn
    rw [marks]
    exact marked.inTurn
  · rw [marks, same]
    exact marked.last

theorem Marked.turn {h : List Event} {stage stage' : Stage} {e : Event} (marked : Marked h stage)
    (mark : markOf e = some (stageMark stage')) (next : stageMark stage' = (stageMark stage).next) :
    Marked (h ++ [e]) stage' := by
  have marks : Mark.closes :: marksOf (h ++ [e]) = (Mark.closes :: marksOf h) ++ [stageMark stage'] := by
    rw [marksOf_snoc, mark]
    rfl
  refine ⟨?_, ?_⟩
  · unfold InTurn
    rw [marks, List.isChain_append]
    refine ⟨marked.inTurn, List.isChain_singleton _, fun x last y head => ?_⟩
    rw [marked.last] at last
    cases last
    cases head
    exact next
  · rw [marks]
    exact List.getLast?_concat

variable {h : List Event} {ph ph' : Phase} {self self' : LangGraphWorkflow Chan} {e : Event}

theorem markOf_of_works (works : Works S ph h self e self') : markOf e = none := by cases works <;> rfl

/-- Each step between phases either keeps the mark or takes the next one. -/
theorem marks_of_moves (moves : Moves S h ph self e ph' self') :
    markOf e = none ∧ stageMark ph'.stage = stageMark ph.stage ∨
      markOf e = some (stageMark ph'.stage) ∧
        stageMark ph'.stage = (stageMark ph.stage).next := by
  obtain ⟨here, tasks, results, state⟩ := ph
  cases moves with
  | @schedule tasks stage =>
      cases stage
      right
      rcases opened_cases S tasks self with ⟨-, phase⟩ | ⟨-, phase⟩ <;> rw [phase] <;> exact ⟨rfl, rfl⟩
  | pause pause => left; cases here <;> cases pause <;> exact ⟨rfl, rfl⟩
  | resume resume => left; cases here <;> cases resume <;> exact ⟨rfl, rfl⟩
  | collect route_eq => left; cases here <;> cases route_eq <;> exact ⟨rfl, rfl⟩
  | @serve results stage =>
      cases stage
      left
      rcases served_cases S tasks results self with ⟨-, phase⟩ | ⟨-, phase⟩ <;> rw [phase] <;> exact ⟨rfl, rfl⟩
  | skip stage | apply stage =>
      cases stage
      right
      rcases completed_cases S _ with ⟨-, phase⟩ | ⟨-, phase⟩ <;> rw [phase] <;> exact ⟨rfl, rfl⟩
  | advance stage =>
      cases stage
      exact .inr ⟨rfl, rfl⟩

theorem marksOf_of_preliminary (early : ∀ e ∈ h, preliminary e = true) : marksOf h = [] := by
  unfold marksOf
  refine List.filterMap_eq_nil_iff.mpr fun e mem => ?_
  have before := early e mem
  cases e with
  | discovering | discovered | received => rfl
  | _ => cases before

theorem inTurn_of_preliminary (early : ∀ e ∈ h, preliminary e = true) : InTurn h := by
  unfold InTurn
  rw [marksOf_of_preliminary early]
  exact List.isChain_singleton _

theorem marked_invariant : (workflowMachine S).Invariant fun c => Marked c.history c.phase.stage where
  init c initial := by
    refine ⟨inTurn_of_preliminary initial.history, ?_⟩
    rw [marksOf_of_preliminary initial.history, initial.phase]
    rfl
  step c d _ held step := by
    cases step with
    | work works => exact held.quiet (markOf_of_works works) rfl
    | move moves =>
        rcases marks_of_moves moves with ⟨plain, same⟩ | ⟨mark, next⟩
        · exact held.quiet plain same
        · exact held.turn mark next

/-! ## What is committed -/

/-- The node and the path of a task. -/
def taskKey (t : PregelTask) : String × List PathPart := (t.name, t.path)

/-- The node and the path that a result names. -/
def resultKey (r : NodeActivityOutput) : String × List PathPart := (r.nodeName, r.taskPath)

/-- A goto target, as a result carries it: a name, or the dict of a Send. -/
inductive Denotes : PyVal → SendRequest → Prop
  | name (node : String) : Denotes (.str node) ⟨node, .none⟩
  | send {kvs : List (String × PyVal)} {node : String} (named : kvs.lookup "node" = some (.str node)) :
      Denotes (.dict kvs) ⟨node, (kvs.lookup "arg").getD .none⟩

/-- What the `Command` of a result asks for: its one target, or those of its
list. A goto that is falsy asks for nothing, and neither does a Send that is not
in a list. -/
inductive Asks (r : NodeActivityOutput) : List SendRequest → Prop
  | silent (none : r.command = none) : Asks r []
  | falsy {c : CommandData} (command : r.command = some c) (falsy : c.goto.truthy = false) : Asks r []
  | one {c : CommandData} {request : SendRequest} (command : r.command = some c)
      (truthy : c.goto.truthy = true) (target : Denotes c.goto request) : Asks r [request]
  | list {c : CommandData} {gs : List PyVal} {requests : List SendRequest}
      (command : r.command = some c) (goto : c.goto = .list gs)
      (targets : List.Forall₂ Denotes gs requests) : Asks r requests
  | dropped {c : CommandData} {node : String} {arg : PyVal} (command : r.command = some c)
      (goto : c.goto = .send node arg) : Asks r []

/-- The superstep that `e` commits after `a` hands over exactly the writes of its
results, and has one result for each task, each Send of the tasks, and each
target of the commands of both. -/
structure Settles (S : Setting Chan) (a : List Event) (e : Event) : Prop where
  writes : e = .skipped ∧ writesOf S.graph (resultsIn (superstepOf a)) = [] ∨
    ∃ updated, e = .applied (writesOf S.graph (resultsIn (superstepOf a))) updated ∧
      writesOf S.graph (resultsIn (superstepOf a)) ≠ []
  results : ∃ own push goto, resultsIn (superstepOf a) = own ++ push ++ goto ∧
    (own.map resultKey).Perm ((scheduledTasks a).map taskKey) ∧
    List.Forall₂ (RanSend (superstepOf a)) (own.flatMap fun r => r.pushSends) push ∧
    ∀ requests, List.Forall₂ Asks (own ++ push) requests →
      List.Forall₂ (RanSend (superstepOf a)) requests.flatten goto

theorem gotoTarget_of_denotes {v : PyVal} {request : SendRequest} (asks : Denotes v request) :
    gotoTarget v = some request ∧ gotoList v = [v] := by
  cases asks with
  | name node => exact ⟨rfl, rfl⟩
  | send named => exact ⟨by simp [gotoTarget, named], rfl⟩

theorem commandGotos_of_asks {r : NodeActivityOutput} {requests : List SendRequest}
    (asks : Asks r requests) : commandGotos r = requests := by
  cases asks with
  | silent none => simp [commandGotos, none]
  | falsy command falsy => simp [commandGotos, command, falsy]
  | one command truthy target =>
      obtain ⟨found, single⟩ := gotoTarget_of_denotes target
      simp [commandGotos, command, truthy, single, found]
  | list command goto targets =>
      have found : ∀ {gs requests}, List.Forall₂ Denotes gs requests → gs.filterMap gotoTarget = requests := by
        intro gs requests targets
        induction targets with
        | nil => rfl
        | cons here _ ih => rw [List.filterMap_cons_some (gotoTarget_of_denotes here).1, ih]
      simp only [commandGotos, command, goto, gotoList]
      split
      · exact found targets
      · rename_i falsy
        cases targets with
        | nil => rfl
        | cons => exact absurd rfl falsy
  | dropped command goto => simp [commandGotos, command, goto, PyVal.truthy, gotoList, gotoTarget]

theorem extractCommandGotos_of_asks {results : List NodeActivityOutput}
    {requests : List (List SendRequest)} (asks : List.Forall₂ Asks results requests) :
    extractCommandGotos results = requests.flatten := by
  unfold extractCommandGotos
  induction asks with
  | nil => rfl
  | cons here _ ih => rw [List.flatMap_cons, List.flatten_cons, ih, commandGotos_of_asks here]

/-- Related lists have the same keys in the same order. -/
theorem map_eq_of_forall₂ {α β κ : Type} {R : α → β → Prop} {f : α → κ} {g : β → κ} {xs : List α}
    {ys : List β} (all : List.Forall₂ R xs ys) (same : ∀ x y, R x y → g y = f x) : ys.map g = xs.map f := by
  induction all with
  | nil => rfl
  | cons here _ ih => rw [List.map_cons, List.map_cons, same _ _ here, ih]

theorem resultKey_of_serves {r r' : NodeActivityOutput} (serves : Serves r r') :
    resultKey r' = resultKey r := by
  obtain ⟨name, path, -⟩ := serves.same
  rw [resultKey, resultKey, name, path]

/-- The results of the scheduled tasks, once the interrupted ones have been
executed again. -/
theorem settled_perm {a : List Event} {tasks : List PregelTask} {level : Nat} {o : Outputs}
    (course : Course a tasks level o) (past : 3 ≤ level) :
    (o.settled.map resultKey).Perm (tasks.map taskKey) := by
  have again : o.resumed.map resultKey = (interruptedOf o.served).map resultKey :=
    map_eq_of_forall₂ (course.resumed past) fun q r ran => by rw [resultKey, resultKey, ran.name, ran.path]
  have served : o.served.map resultKey = o.scheduled.map resultKey :=
    map_eq_of_forall₂ (course.served (by omega)) fun _ _ => resultKey_of_serves
  have first : o.scheduled.map resultKey = (sortTasks tasks).map taskKey :=
    map_eq_of_forall₂ (course.scheduled (by omega)) fun t r ran => by
      rw [resultKey, taskKey, ran.name, ran.path]
  have both : (settledOf o.served ++ interruptedOf o.served).Perm o.served :=
    List.perm_append_comm.trans (List.filter_append_perm _ _)
  have keys : o.settled.map resultKey = (settledOf o.served ++ interruptedOf o.served).map resultKey := by
    rw [Outputs.settled, List.map_append, again, List.map_append]
  rw [keys]
  refine (both.map resultKey).trans ?_
  rw [served, first]
  exact (List.perm_insertionSort _ _).map taskKey

theorem settles_of_moves (reachable : (workflowMachine S).Reachable ⟨h, ph, self⟩)
    (moves : Moves S h ph self e ph' self') (commits : completes e = true) : Settles S h e := by
  have stage : ph.stage = .applying := by
    cases moves with
    | skip stage | apply stage => exact stage
    | _ => cases commits
  have busy : ph.stage ≠ .ready := by rw [stage]; nofun
  obtain ⟨o, course, results⟩ := course_invariant.holds reachable busy
  have gathered := gathered_invariant.holds reachable busy
  have tasks : scheduledTasks h = ph.tasks := (tasks_invariant.holds reachable busy).2
  rw [stage] at course results gathered
  have last : ph.results = resultsIn (superstepOf h) := gathered.later (by decide)
  have final : resultsIn (superstepOf h) = o.final := last.symm.trans results
  refine ⟨commits_of_moves reachable moves commits, o.settled, o.push, o.goto, final, ?_,
    course.push (by decide), fun requests asks => ?_⟩
  · rw [tasks]
    exact settled_perm course (by decide)
  · rw [← extractCommandGotos_of_asks asks]
    exact course.goto (by decide)

/-- **Every superstep opens, commits once and closes before the next one, and
commits the writes of exactly one result for each task, each Send of the tasks
and each target of the commands of both.** -/
theorem superstep_ledger (S : Setting Chan) (threshold : Option Nat) (uuids : Nat → String)
    (arrived : List Signal) (script : List (Action Response Signal)) :
    InTurn (executionHistory S threshold uuids arrived script) ∧
      Guarded (fun a e => completes e = true → Settles S a e)
        (executionHistory S threshold uuids arrived script) := by
  constructor
  · exact executionHistory_holds (fun h early => inTurn_of_preliminary early.history)
      (fun c reachable => (marked_invariant.holds reachable).inTurn) threshold uuids arrived script
  · refine executionHistory_guarded (fun a e early commits => ?_)
      (fun h ph self self' e _ works commits => ?_)
      (fun h ph ph' self self' e reachable moves => settles_of_moves reachable moves)
      threshold uuids arrived script
    · rw [not_completes_of_preliminary early] at commits
      cases commits
    · rw [works.not_completes] at commits
      cases commits

end LanggraphTemporal.Properties
