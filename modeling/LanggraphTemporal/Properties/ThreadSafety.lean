/-
# Properties.ThreadSafety -- the registry between threads

However many threads call the registry, and whatever the order of their
instructions: one registry is made, and all calls act on it one after the other
(`registry_thread_safe`).  So two threads that find `_instance` empty at the same
time do not make two registries, one of which would be lost with its graphs, and a
graph that is registered is found by every thread from then on.  No thread waits
for ever on a lock that nobody gives back (`registry_never_stuck`).
-/
import LanggraphTemporal.Model.Threads

namespace LanggraphTemporal.Properties

set_option autoImplicit false

open Theory Theory.Singleton Model

variable {T Chan : Type} [DecidableEq T]

/-- Threads that share a registry. -/
abbrev RegistryThreads (T Chan : Type) :=
  World T (RegistryCall Chan) (RegistryResult Chan) (GraphRegistry Chan)

/-- The calls act one after the other on one registry. -/
structure ThreadSafe (w : RegistryThreads T Chan) : Prop where
  one : w.created ≤ 1
  present : ∀ t, w.point t ≠ .crashed
  /-- every result is that of the call after all calls before it -/
  sequential : Sequential graphRegistry w.log
  /-- a graph is found from its registration on, until its reference is touched -/
  found : ∀ a b c e e' graph hex, w.log = a ++ e :: (b ++ e' :: c) → e.op = .register graph hex →
    e'.op = .get (GraphRegistry.refOf graph hex) →
      (∀ x ∈ b, ¬x.op.Touches (GraphRegistry.refOf graph hex)) → e'.result = .found (.ok graph)

omit [DecidableEq T] in
/-- Calls that do not touch a reference leave what it stands for. -/
theorem get?_calls {ref : String} (b : List (Entry T (RegistryCall Chan) (RegistryResult Chan)))
    (untouched : ∀ x ∈ b, ¬x.op.Touches ref) (registry : GraphRegistry Chan) :
    (b.foldl (fun r e => (graphRegistry.perform e.op r).1) registry).graphs.get? ref =
      registry.graphs.get? ref := by
  induction b generalizing registry with
  | nil => rfl
  | cons x b ih =>
      have rest := ih (fun y mem => untouched y (List.mem_cons_of_mem x mem))
        (graphRegistry.perform x.op registry).1
      exact rest.trans (get?_perform (untouched x List.mem_cons_self))

/-- **The registry is thread-safe.** -/
theorem registry_thread_safe {w : RegistryThreads T Chan}
    (reachable : (machine (T := T) (@graphRegistry Chan)).Reachable w) : ThreadSafe w := by
  obtain ⟨one, sequential, present, -⟩ := atomic reachable
  refine ⟨one, present, sequential, ?_⟩
  intro a b c e e' graph hex split registers gets untouched
  have result : e'.result = (graphRegistry.perform e'.op (replayed graphRegistry (a ++ e :: b))).2 :=
    sequential (a ++ e :: b) e' c (by rw [split]; simp)
  have known : (replayed graphRegistry (a ++ e :: b)).graphs.get? (GraphRegistry.refOf graph hex) =
      some graph := by
    unfold replayed
    rw [List.foldl_append, List.foldl_cons, get?_calls b untouched, registers]
    exact (GraphRegistry.get?_register _ graph hex _).trans (if_pos rfl)
  rw [result, gets]
  show RegistryResult.found (GraphRegistry.get _ _) = _
  rw [GraphRegistry.get_eq_ok.mpr known]

/-- No registry has been made. -/
def quiet : RegistryThreads Bool Unit := { objects := fun _ => {}, point := fun _ => .idle }

def racing (hex : String) : RegistryCall Unit := .register ⟨"g", ∅, ∅, ∅, "__start__"⟩ hex

/-- Two threads have each called `register`. -/
def race : RegistryThreads Bool Unit :=
  let first := quiet.go true quiet.toShared (.check (racing "1b"))
  first.go false first.toShared (.check (racing "2c"))

/-- Both find `_instance` empty before either takes the lock. -/
def raceSchedule : List Bool :=
  [false, true, false, false, false, false, false, true, true, true, true, true, false, true, true, true,
    false, false, false, false]

theorem race_reachable : (machine (T := Bool) (@graphRegistry Unit)).Reachable race := by
  have initial : (machine graphRegistry).Reachable quiet := .init ⟨rfl, rfl, rfl, fun _ => rfl, rfl, fun _ => rfl⟩
  exact (initial.step (.call true (racing "1b") rfl)).step (.call false (racing "2c") rfl)

theorem race_thread_safe :
    ∃ w, runs graphRegistry race raceSchedule = some w ∧ w.log.length = 2 ∧ ThreadSafe w := by
  obtain ⟨w, ran⟩ : ∃ w, runs graphRegistry race raceSchedule = some w := ⟨_, rfl⟩
  have both : some w.log.length = (runs graphRegistry race raceSchedule).map fun w => w.log.length :=
    (congrArg (Option.map fun w : RegistryThreads Bool Unit => w.log.length) ran).symm
  exact ⟨w, ran, Option.some.inj both, registry_thread_safe (runs_reachable _ race_reachable ran)⟩

/-- **No thread waits for ever**: while some thread is in a call, some thread can
execute its next instruction. -/
theorem registry_never_stuck {w : RegistryThreads T Chan}
    (reachable : (machine (T := T) (@graphRegistry Chan)).Reachable w) {t : T}
    (busy : w.point t ≠ .idle) : ∃ u w', advance graphRegistry w u = some w' :=
  never_stuck reachable busy

theorem race_never_stuck : ∃ u w', advance graphRegistry race u = some w' := by
  have waits : race.point true ≠ .idle := fun idle => by cases idle
  exact registry_never_stuck race_reachable waits

end LanggraphTemporal.Properties
