/-
# Theory.Singleton -- a shared object that is made once and used under a lock

Any number of threads call operations on one object of a class.  Each call looks
the object up first, by double-checked locking: it reads the class attribute, and
where that is empty takes the lock of the class, reads again, and makes and
stores the object.  It reads the attribute once more to return it.  The operation
itself runs under the lock of the object, as a load and a store.

Threads take turns at every instruction.  What a thread may rely on at its
program counter is `Relies`, which others leave alone (`Relies.stable`), and
`invariant` says what comes of it: one object is made, nobody finds the attribute
empty at the end, and the operations act one after the other, in the order of
their stores (`atomic`).  No two locks are held at once by one thread, so there
is no deadlock (`never_stuck`).
-/
import LanggraphTemporal.Theory.History
import Mathlib.Logic.Function.Basic

namespace LanggraphTemporal.Theory

set_option autoImplicit false

/-- What is called on the object, and the state it is made in. -/
structure Operations (Op Res σ : Type) where
  fresh : σ
  perform : Op → σ → σ × Res

namespace Singleton

/-- Where a thread is: the instruction it executes next. -/
inductive Point (Op σ : Type) where
  /-- between two calls -/
  | idle
  /-- read the class attribute -/
  | check (op : Op)
  /-- take the lock of the class -/
  | lockClass (op : Op)
  /-- read the attribute again -/
  | recheck (op : Op)
  | construct (op : Op)
  /-- store the object in the attribute -/
  | publish (op : Op) (object : Nat)
  | unlockClass (op : Op)
  /-- read the attribute to return it -/
  | fetch (op : Op)
  | lockObject (op : Op) (object : Nat)
  | load (op : Op) (object : Nat)
  | store (op : Op) (object : Nat) (seen : σ)
  | unlockObject (object : Nat)
  /-- the attribute was empty in the end -/
  | crashed

/-- A store of a thread, with the result of its call. -/
structure Entry (T Op Res : Type) where
  thread : T
  op : Op
  result : Res

/-- What the threads share. Objects are known by the number of those made before. -/
structure Shared (T Op Res σ : Type) where
  current : Option Nat := none
  classLock : Option T := none
  created : Nat := 0
  objects : Nat → σ
  locks : Nat → Option T := fun _ => none
  log : List (Entry T Op Res) := []

structure World (T Op Res σ : Type) extends Shared T Op Res σ where
  point : T → Point Op σ

section Running

variable {T Op Res σ : Type} [DecidableEq T] (O : Operations Op Res σ)

/-- The thread goes on to `p`, with the shared part as it leaves it. -/
def World.go (w : World T Op Res σ) (t : T) (s : Shared T Op Res σ) (p : Point Op σ) :
    World T Op Res σ :=
  { s with point := Function.update w.point t p }

/-- The next instruction of a thread; `none` if it waits for a lock or a call. -/
def advance (w : World T Op Res σ) (t : T) : Option (World T Op Res σ) :=
  let s := w.toShared
  match w.point t with
  | .idle => none
  | .check op =>
      match s.current with
      | none => some (w.go t s (.lockClass op))
      | some _ => some (w.go t s (.fetch op))
  | .lockClass op =>
      match s.classLock with
      | none => some (w.go t { s with classLock := some t } (.recheck op))
      | some _ => none
  | .recheck op =>
      match s.current with
      | none => some (w.go t s (.construct op))
      | some _ => some (w.go t s (.unlockClass op))
  | .construct op =>
      some (w.go t { s with objects := Function.update s.objects s.created O.fresh, created := s.created + 1 }
        (.publish op s.created))
  | .publish op i => some (w.go t { s with current := some i } (.unlockClass op))
  | .unlockClass op => some (w.go t { s with classLock := none } (.fetch op))
  | .fetch op =>
      match s.current with
      | some i => some (w.go t s (.lockObject op i))
      | none => some (w.go t s .crashed)
  | .lockObject op i =>
      match s.locks i with
      | none => some (w.go t { s with locks := Function.update s.locks i (some t) } (.load op i))
      | some _ => none
  | .load op i => some (w.go t s (.store op i (s.objects i)))
  | .store op i seen =>
      some (w.go t
        { s with
          objects := Function.update s.objects i (O.perform op seen).1
          log := s.log ++ [⟨t, op, (O.perform op seen).2⟩] }
        (.unlockObject i))
  | .unlockObject i => some (w.go t { s with locks := Function.update s.locks i none } .idle)
  | .crashed => none

/-- A thread calls an operation, or executes its next instruction. -/
inductive Step : World T Op Res σ → World T Op Res σ → Prop
  | call {w : World T Op Res σ} (t : T) (op : Op) (idle : w.point t = .idle) :
      Step w (w.go t w.toShared (.check op))
  | run {w w' : World T Op Res σ} (t : T) (ran : advance O w t = some w') : Step w w'

/-- No object has been made, and no thread is in a call. -/
structure Initial (w : World T Op Res σ) : Prop where
  current : w.current = none
  classLock : w.classLock = none
  created : w.created = 0
  locks : ∀ i, w.locks i = none
  log : w.log = []
  idle : ∀ t, w.point t = .idle

def machine : Machine (World T Op Res σ) where
  Init := Initial
  Step := Step O

/-- The threads of a schedule execute one instruction each, in its order. -/
def runs (w : World T Op Res σ) (schedule : List T) : Option (World T Op Res σ) :=
  schedule.foldlM (advance O) w

theorem runs_reachable {w w' : World T Op Res σ} {schedule : List T}
    (reachable : (machine O).Reachable w) (ran : runs O w schedule = some w') :
    (machine O).Reachable w' := by
  induction schedule generalizing w with
  | nil =>
      cases ran
      exact reachable
  | cons t schedule ih =>
      obtain ⟨next, first, rest⟩ := Option.bind_eq_some_iff.mp ran
      exact ih (.step reachable (.run t first)) rest

/-- The state of the object after these calls, one after the other. -/
def replayed (log : List (Entry T Op Res)) : σ := log.foldl (fun s e => (O.perform e.op s).1) O.fresh

omit [DecidableEq T] in
theorem replayed_snoc (log : List (Entry T Op Res)) (e : Entry T Op Res) :
    replayed O (log ++ [e]) = (O.perform e.op (replayed O log)).1 := by
  simp [replayed]

/-- The result of a call is the one it has after the calls before it. -/
def Sequential (log : List (Entry T Op Res)) : Prop :=
  History.Guarded (fun a e => e.result = (O.perform e.op (replayed O a)).2) log

/-! ## What a thread may rely on -/

/-- The program counters at which a thread holds the lock of the class. -/
def Point.inClass : Point Op σ → Bool
  | recheck _ | construct _ | publish _ _ | unlockClass _ => true
  | _ => false

/-- The object whose lock a thread holds. -/
def Point.holds : Point Op σ → Option Nat
  | load _ i | store _ i _ | unlockObject i => some i
  | _ => none

variable {O}

/-- What the thread `t` knows of the shared part. -/
def Relies (O : Operations Op Res σ) (s : Shared T Op Res σ) (t : T) : Point Op σ → Prop
  | .idle | .check _ | .lockClass _ => True
  | .recheck _ => s.classLock = some t ∧ (s.current = none → s.created = 0)
  | .construct _ => s.classLock = some t ∧ s.current = none ∧ s.created = 0
  | .publish _ i => s.classLock = some t ∧ s.current = none ∧ s.created = 1 ∧ i = 0 ∧ s.objects 0 = O.fresh
  | .unlockClass _ => s.classLock = some t ∧ s.current = some 0
  | .fetch _ => s.current = some 0
  | .lockObject _ i => s.current = some 0 ∧ i = 0
  | .load _ i => s.current = some 0 ∧ i = 0 ∧ s.locks 0 = some t
  | .store _ i seen => s.current = some 0 ∧ i = 0 ∧ s.locks 0 = some t ∧ seen = s.objects 0
  | .unlockObject i => s.current = some 0 ∧ i = 0 ∧ s.locks 0 = some t
  | .crashed => False

/-- What another thread does to the shared part leaves alone what `t` relies on. -/
structure Leaves (t : T) (s s' : Shared T Op Res σ) : Prop where
  known : s.current = some 0 → s'.current = some 0
  guarded : s.classLock = some t → s'.classLock = some t ∧ s'.current = s.current ∧
    s'.created = s.created ∧ (s.current = none → s'.objects 0 = s.objects 0)
  owned : s.locks 0 = some t → s'.locks 0 = some t ∧ (s.current = some 0 → s'.objects 0 = s.objects 0)

omit [DecidableEq T] in
theorem Relies.stable {t : T} {s s' : Shared T Op Res σ} (leaves : Leaves t s s') {p : Point Op σ}
    (relies : Relies O s t p) : Relies O s' t p := by
  obtain ⟨known, guarded, owned⟩ := leaves
  cases p <;> simp only [Relies] at relies ⊢ <;> grind

/-- What holds of the shared part between any two instructions. -/
structure Sound (O : Operations Op Res σ) (w : World T Op Res σ) : Prop where
  relies : ∀ t, Relies O w.toShared t (w.point t)
  known : w.current = none ∨ w.current = some 0
  once : w.created ≤ 1
  unmade : w.classLock = none → w.current = none → w.created = 0
  unused : w.current = none → w.log = []
  state : w.current = some 0 → w.objects 0 = replayed O w.log
  sequential : Sequential O w.log
  classOwner : ∀ t, w.classLock = some t → (w.point t).inClass = true
  objectOwner : ∀ t, w.locks 0 = some t → (w.point t).holds = some 0

/-- An instruction of `t` that keeps what holds between instructions. -/
structure Effect (O : Operations Op Res σ) (w : World T Op Res σ) (t : T) (s : Shared T Op Res σ)
    (p : Point Op σ) : Prop where
  others : ∀ u, u ≠ t → Leaves u w.toShared s
  mine : Relies O s t p
  known : s.current = none ∨ s.current = some 0
  once : s.created ≤ 1
  unmade : s.classLock = none → s.current = none → s.created = 0
  unused : s.current = none → s.log = []
  state : s.current = some 0 → s.objects 0 = replayed O s.log
  sequential : Sequential O s.log
  classOwner : ∀ u, s.classLock = some u → u = t ∧ p.inClass = true ∨ u ≠ t ∧ w.classLock = some u
  objectOwner : ∀ u, s.locks 0 = some u → u = t ∧ p.holds = some 0 ∨ u ≠ t ∧ w.locks 0 = some u

theorem Sound.go {w : World T Op Res σ} {t : T} {s : Shared T Op Res σ} {p : Point Op σ}
    (sound : Sound O w) (effect : Effect O w t s p) : Sound O (w.go t s p) := by
  refine ⟨fun u => ?_, effect.known, effect.once, effect.unmade, effect.unused, effect.state,
    effect.sequential, fun u owner => ?_, fun u owner => ?_⟩
  · show Relies O s u (Function.update w.point t p u)
    by_cases here : u = t
    · subst here
      rw [Function.update_self]
      exact effect.mine
    · rw [Function.update_of_ne here]
      exact (sound.relies u).stable (effect.others u here)
  · show (Function.update w.point t p u).inClass = true
    rcases effect.classOwner u owner with ⟨rfl, inside⟩ | ⟨other, before⟩
    · rw [Function.update_self]
      exact inside
    · rw [Function.update_of_ne other]
      exact sound.classOwner u before
  · show (Function.update w.point t p u).holds = some 0
    rcases effect.objectOwner u owner with ⟨rfl, inside⟩ | ⟨other, before⟩
    · rw [Function.update_self]
      exact inside
    · rw [Function.update_of_ne other]
      exact sound.objectOwner u before

section Instructions

variable {w w' : World T Op Res σ} {t : T} {op : Op} {i : Nat} {p : Point Op σ}

omit [DecidableEq T] in
/-- The lock of the class keeps its owner. -/
theorem Sound.classKept (sound : Sound O w) (same : (w.point t).inClass = true → p.inClass = true) (u : T)
    (owner : w.classLock = some u) : u = t ∧ p.inClass = true ∨ u ≠ t ∧ w.classLock = some u := by
  by_cases here : u = t
  · subst here
    exact .inl ⟨rfl, same (sound.classOwner u owner)⟩
  · exact .inr ⟨here, owner⟩

omit [DecidableEq T] in
/-- And so does the lock of the object. -/
theorem Sound.objectKept (sound : Sound O w) (same : (w.point t).holds = some 0 → p.holds = some 0) (u : T)
    (owner : w.locks 0 = some u) : u = t ∧ p.holds = some 0 ∨ u ≠ t ∧ w.locks 0 = some u := by
  by_cases here : u = t
  · subst here
    exact .inl ⟨rfl, same (sound.objectOwner u owner)⟩
  · exact .inr ⟨here, owner⟩

omit [DecidableEq T] in
theorem Leaves.refl (u : T) (s : Shared T Op Res σ) : Leaves u s s :=
  ⟨id, fun owner => ⟨owner, rfl, rfl, fun _ => rfl⟩, fun owner => ⟨owner, fun _ => rfl⟩⟩

/-- An instruction that only reads. -/
theorem Sound.reads (sound : Sound O w) (mine : Relies O w.toShared t p)
    (inClass : (w.point t).inClass = true → p.inClass = true)
    (holds : (w.point t).holds = some 0 → p.holds = some 0) : Sound O (w.go t w.toShared p) :=
  sound.go ⟨fun u _ => .refl u _, mine, sound.known, sound.once, sound.unmade, sound.unused, sound.state,
    sound.sequential, sound.classKept inClass, sound.objectKept holds⟩

theorem Sound.takesClass (sound : Sound O w) (here : w.point t = .lockClass op)
    (free : w.classLock = none) :
    Sound O (w.go t { w.toShared with classLock := some t } (.recheck op)) := by
  refine sound.go ⟨fun u other => ⟨id, fun owner => ?_, fun owner => ⟨owner, fun _ => rfl⟩⟩,
    ⟨rfl, sound.unmade free⟩, sound.known, sound.once, nofun, sound.unused, sound.state, sound.sequential,
    fun u owner => .inl ⟨(Option.some.inj owner).symm, rfl⟩, sound.objectKept ?_⟩
  · rw [free] at owner
    cases owner
  · rw [here]
    nofun

theorem Sound.constructs (sound : Sound O w) (here : w.point t = .construct op) :
    Sound O (w.go t
      { w.toShared with objects := Function.update w.objects w.created O.fresh, created := w.created + 1 }
      (.publish op w.created)) := by
  obtain ⟨owned, absent, none⟩ : Relies O w.toShared t (.construct op) := here ▸ sound.relies t
  refine sound.go ⟨fun u other => ⟨fun made => ?_, fun owner => ?_, fun owner => ⟨owner, fun made => ?_⟩⟩,
    ⟨owned, absent, ?_, none, ?_⟩, sound.known, ?_, ?_, sound.unused, fun made => ?_, sound.sequential,
    sound.classKept fun _ => rfl, sound.objectKept ?_⟩
  · exact made
  · exact absurd (Option.some.inj (owner.symm.trans owned)) other
  · rw [absent] at made
    cases made
  · show w.created + 1 = 1
    rw [none]
  · show Function.update w.objects w.created O.fresh 0 = O.fresh
    rw [none, Function.update_self]
  · show w.created + 1 ≤ 1
    omega
  · intro free
    rw [show w.classLock = some t from owned] at free
    cases free
  · rw [show w.current = Option.none from absent] at made
    cases made
  · rw [here]
    nofun

theorem Sound.publishes (sound : Sound O w) (here : w.point t = .publish op i) :
    Sound O (w.go t { w.toShared with current := some i } (.unlockClass op)) := by
  obtain ⟨owned, absent, one, rfl, fresh⟩ : Relies O w.toShared t (.publish op i) := here ▸ sound.relies t
  refine sound.go ⟨fun u other => ⟨fun _ => rfl, fun owner => ?_, fun owner => ⟨owner, fun _ => rfl⟩⟩,
    ⟨owned, rfl⟩, .inr rfl, sound.once, nofun, nofun, fun _ => ?_, sound.sequential,
    sound.classKept fun _ => rfl, sound.objectKept ?_⟩
  · exact absurd (Option.some.inj (owner.symm.trans owned)) other
  · rw [show w.log = [] from sound.unused absent]
    exact fresh
  · rw [here]
    nofun

theorem Sound.leavesClass (sound : Sound O w) (here : w.point t = .unlockClass op) :
    Sound O (w.go t { w.toShared with classLock := none } (.fetch op)) := by
  obtain ⟨owned, made⟩ : Relies O w.toShared t (.unlockClass op) := here ▸ sound.relies t
  refine sound.go ⟨fun u other => ⟨id, fun owner => ?_, fun owner => ⟨owner, fun _ => rfl⟩⟩,
    made, sound.known, sound.once, fun _ absent => ?_, sound.unused, sound.state, sound.sequential,
    nofun, sound.objectKept ?_⟩
  · exact absurd (Option.some.inj (owner.symm.trans owned)) other
  · rw [show w.current = some 0 from made] at absent
    cases absent
  · rw [here]
    nofun

theorem Sound.takesObject (sound : Sound O w) (here : w.point t = .lockObject op i)
    (free : w.locks i = none) :
    Sound O (w.go t { w.toShared with locks := Function.update w.locks i (some t) } (.load op i)) := by
  obtain ⟨made, rfl⟩ : Relies O w.toShared t (.lockObject op i) := here ▸ sound.relies t
  refine sound.go ⟨fun u other => ⟨id, fun owner => ⟨owner, rfl, rfl, fun _ => rfl⟩, fun owner => ?_⟩,
    ⟨made, rfl, ?_⟩, sound.known, sound.once, sound.unmade, sound.unused, sound.state,
    sound.sequential, sound.classKept ?_, fun u owner => .inl ⟨?_, rfl⟩⟩
  · rw [free] at owner
    cases owner
  · show Function.update w.locks 0 (some t) 0 = some t
    rw [Function.update_self]
  · rw [here]
    nofun
  · have taken : Function.update w.locks 0 (some t) 0 = some u := owner
    rw [Function.update_self] at taken
    exact (Option.some.inj taken).symm

theorem Sound.stores {seen : σ} (sound : Sound O w) (here : w.point t = .store op i seen) :
    Sound O (w.go t
      { w.toShared with
        objects := Function.update w.objects i (O.perform op seen).1
        log := w.log ++ [⟨t, op, (O.perform op seen).2⟩] }
      (.unlockObject i)) := by
  obtain ⟨made, rfl, owned, rfl⟩ : Relies O w.toShared t (.store op i seen) := here ▸ sound.relies t
  have before : w.objects 0 = replayed O w.log := sound.state made
  refine sound.go ⟨fun u other => ⟨id, fun owner => ⟨owner, rfl, rfl, fun absent => ?_⟩, fun owner => ?_⟩,
    ⟨made, rfl, owned⟩, sound.known, sound.once, sound.unmade, fun absent => ?_, fun _ => ?_,
    sound.sequential.snoc ?_, sound.classKept ?_, sound.objectKept fun _ => rfl⟩
  · rw [made] at absent
    cases absent
  · exact absurd (Option.some.inj (owner.symm.trans owned)) other
  · rw [show w.current = some 0 from made] at absent
    cases absent
  · have stored : Function.update w.objects 0 (O.perform op (w.objects 0)).1 0 =
        replayed O (w.log ++ [⟨t, op, (O.perform op (w.objects 0)).2⟩]) := by
      rw [Function.update_self, replayed_snoc, before]
    exact stored
  · show (O.perform op (w.objects 0)).2 = (O.perform op (replayed O w.log)).2
    rw [before]
  · rw [here]
    nofun

theorem Sound.leavesObject (sound : Sound O w) (here : w.point t = .unlockObject i) :
    Sound O (w.go t { w.toShared with locks := Function.update w.locks i none } .idle) := by
  obtain ⟨made, rfl, owned⟩ : Relies O w.toShared t (.unlockObject i) := here ▸ sound.relies t
  refine sound.go ⟨fun u other => ⟨id, fun owner => ⟨owner, rfl, rfl, fun _ => rfl⟩, fun owner => ?_⟩,
    trivial, sound.known, sound.once, sound.unmade, sound.unused, sound.state, sound.sequential,
    sound.classKept ?_, fun u owner => ?_⟩
  · exact absurd (Option.some.inj (owner.symm.trans owned)) other
  · rw [here]
    nofun
  · have freed : Function.update w.locks 0 none 0 = some u := owner
    rw [Function.update_self] at freed
    cases freed

/-- **Every instruction keeps it.** -/
theorem Sound.advance (sound : Sound O w) (ran : Singleton.advance O w t = some w') : Sound O w' := by
  have relies := sound.relies t
  unfold Singleton.advance at ran
  cases here : w.point t with
  | idle | crashed =>
      rw [here] at ran
      cases ran
  | check op =>
      rw [here] at ran
      cases current : w.current with
      | none =>
          simp only [current, Option.some.injEq] at ran
          subst ran
          exact sound.reads trivial (by rw [here]; nofun) (by rw [here]; nofun)
      | some i =>
          simp only [current, Option.some.injEq] at ran
          subst ran
          have made : w.current = some 0 := sound.known.resolve_left (by rw [current]; nofun)
          exact sound.reads made (by rw [here]; nofun) (by rw [here]; nofun)
  | lockClass op =>
      rw [here] at ran
      cases lock : w.classLock with
      | some other => simp only [lock, reduceCtorEq] at ran
      | none =>
          simp only [lock, Option.some.injEq] at ran
          subst ran
          exact sound.takesClass here lock
  | recheck op =>
      rw [here] at ran relies
      obtain ⟨owned, unmade⟩ := relies
      cases current : w.current with
      | none =>
          simp only [current, Option.some.injEq] at ran
          subst ran
          exact sound.reads ⟨owned, current, unmade current⟩ (fun _ => rfl) (by rw [here]; nofun)
      | some i =>
          simp only [current, Option.some.injEq] at ran
          subst ran
          have made : w.current = some 0 := sound.known.resolve_left (by rw [current]; nofun)
          exact sound.reads ⟨owned, made⟩ (fun _ => rfl) (by rw [here]; nofun)
  | construct op =>
      rw [here] at ran
      cases ran
      exact sound.constructs here
  | publish op i =>
      rw [here] at ran
      cases ran
      exact sound.publishes here
  | unlockClass op =>
      rw [here] at ran
      cases ran
      exact sound.leavesClass here
  | fetch op =>
      rw [here] at ran relies
      have made : w.current = some 0 := relies
      simp only [made, Option.some.injEq] at ran
      subst ran
      exact sound.reads ⟨made, rfl⟩ (by rw [here]; nofun) (by rw [here]; nofun)
  | lockObject op i =>
      rw [here] at ran
      cases lock : w.locks i with
      | some other => simp only [lock, reduceCtorEq] at ran
      | none =>
          simp only [lock, Option.some.injEq] at ran
          subst ran
          exact sound.takesObject here lock
  | load op i =>
      rw [here] at ran relies
      cases ran
      obtain ⟨made, rfl, owned⟩ := relies
      exact sound.reads ⟨made, rfl, owned, rfl⟩ (by rw [here]; nofun) (fun _ => rfl)
  | store op i seen =>
      rw [here] at ran
      cases ran
      exact sound.stores here
  | unlockObject i =>
      rw [here] at ran
      cases ran
      exact sound.leavesObject here

end Instructions

theorem invariant : (machine (T := T) O).Invariant (Sound O) where
  init w initial := by
    refine ⟨fun t => ?_, .inl initial.current, ?_, fun _ _ => initial.created, fun _ => initial.log,
      fun made => ?_, ?_, fun t owner => ?_, fun t owner => ?_⟩
    · rw [initial.idle t]
      trivial
    · rw [initial.created]
      exact Nat.zero_le 1
    · rw [initial.current] at made
      cases made
    · rw [initial.log]
      exact History.guarded_nil
    · rw [initial.classLock] at owner
      cases owner
    · rw [initial.locks 0] at owner
      cases owner
  step w w' _ sound step := by
    cases step with
    | @call t op idle => exact sound.reads trivial (by rw [idle]; nofun) (by rw [idle]; nofun)
    | run t ran => exact sound.advance ran

/-- **The operations act one after the other, on one object.** -/
theorem atomic {w : World T Op Res σ} (reachable : (machine O).Reachable w) :
    w.created ≤ 1 ∧ Sequential O w.log ∧ (∀ t, w.point t ≠ .crashed) ∧
      ∀ i, w.current = some i → w.objects i = replayed O w.log := by
  have sound := invariant.holds reachable
  refine ⟨sound.once, sound.sequential, fun t crashed => ?_, fun i made => ?_⟩
  · have relies := sound.relies t
    rw [crashed] at relies
    exact relies
  · rcases sound.known with absent | first
    · rw [absent] at made
      cases made
    · rw [first] at made
      cases made
      exact sound.state first

/-- A thread that waits for no lock can go on. -/
theorem advances {w : World T Op Res σ} {t : T} (sound : Sound O w) (busy : w.point t ≠ .idle)
    (class_ : ∀ op, w.point t = .lockClass op → w.classLock = none)
    (object : ∀ op i, w.point t = .lockObject op i → w.locks i = none) :
    ∃ w', advance O w t = some w' := by
  have relies := sound.relies t
  unfold advance
  cases here : w.point t with
  | idle => exact absurd here busy
  | crashed =>
      rw [here] at relies
      exact relies.elim
  | check op | recheck op | fetch op =>
      dsimp only
      split <;> exact ⟨_, rfl⟩
  | lockClass op =>
      simp only [class_ op here]
      exact ⟨_, rfl⟩
  | lockObject op i =>
      simp only [object op i here]
      exact ⟨_, rfl⟩
  | _ => exact ⟨_, rfl⟩

/-- **There is no deadlock**: while some thread is in a call, some thread can
execute its next instruction. -/
theorem never_stuck {w : World T Op Res σ} (reachable : (machine O).Reachable w) {t : T}
    (busy : w.point t ≠ .idle) : ∃ u w', advance O w u = some w' := by
  have sound := invariant.holds reachable
  by_cases class_ : ∃ u, w.classLock = some u
  · obtain ⟨u, owner⟩ := class_
    have inside := sound.classOwner u owner
    exact ⟨u, advances sound (by grind [Point.inClass]) (by grind [Point.inClass])
      (by grind [Point.inClass])⟩
  · have classFree : w.classLock = none := by
      cases lock : w.classLock with
      | none => rfl
      | some u => exact absurd ⟨u, lock⟩ class_
    by_cases object : ∃ u, w.locks 0 = some u
    · obtain ⟨u, owner⟩ := object
      have holds := sound.objectOwner u owner
      exact ⟨u, advances sound (by grind [Point.holds]) (fun _ _ => classFree) (by grind [Point.holds])⟩
    · refine ⟨t, advances sound busy (fun _ _ => classFree) fun op i waits => ?_⟩
      have relies := sound.relies t
      rw [waits] at relies
      obtain ⟨-, rfl⟩ := relies
      cases lock : w.locks 0 with
      | none => rfl
      | some u => exact absurd ⟨u, lock⟩ object

end Running

end Singleton

end LanggraphTemporal.Theory
