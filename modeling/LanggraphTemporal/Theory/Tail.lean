/-
# Theory.Tail -- following a log by a cursor

A reader follows a log by its cursor: it reads what the log holds beyond it, and
moves the cursor to the end.  The log is appended to, and now and then replaced
by a new one, of which the reader is not told.  It reads everything exactly when
it keeps up (`Current`): otherwise it is short of something, and remains so
(`Short`).
-/
import Mathlib.Data.List.Basic

namespace LanggraphTemporal.Theory

set_option autoImplicit false

/-- A reader and what it reads from. -/
structure Tail (α : Type) where
  /-- What the logs held that have been replaced. -/
  earlier : List α
  log : List α
  cursor : Nat
  received : List α
  /-- The reader has read from this log. -/
  polled : Bool

namespace Tail

variable {α : Type}

/-- Everything there was to read. -/
def written (t : Tail α) : List α := t.earlier ++ t.log

def grow (log : List α) (t : Tail α) : Tail α := { t with log }

def replace (log : List α) (t : Tail α) : Tail α :=
  { t with earlier := t.earlier ++ t.log, log, polled := false }

def poll (t : Tail α) : Tail α :=
  { t with received := t.received ++ t.log.drop t.cursor, cursor := t.log.length, polled := true }

/-- The log may be replaced: the reader has read all of it. -/
def ReadOut (t : Tail α) : Prop := t.log = [] ∨ t.polled = true ∧ t.cursor = t.log.length

/-- The reader may poll: its cursor is not one of an earlier log, or there is
nothing to be skipped by it. -/
def Synced (t : Tail α) : Prop := t.polled = true ∨ t.cursor = 0 ∨ t.log = []

/-- How far the reader has got in this log. -/
def position (t : Tail α) : Nat := if t.polled then t.cursor else 0

/-- It has received everything up to its position. -/
def Current (t : Tail α) : Prop :=
  t.position ≤ t.log.length ∧ t.received = t.earlier ++ t.log.take t.position

/-- It has received less than that. -/
def Short (t : Tail α) : Prop :=
  t.position ≤ t.log.length ∧ t.received.length < t.earlier.length + t.position

theorem Current.grow {t : Tail α} {log : List α} (current : t.Current) (longer : t.log <+: log) :
    (t.grow log).Current := by
  obtain ⟨within, received⟩ := current
  obtain ⟨more, rfl⟩ := longer
  refine ⟨?_, ?_⟩
  · show t.position ≤ (t.log ++ more).length
    rw [List.length_append]
    omega
  · show t.received = t.earlier ++ (t.log ++ more).take t.position
    rw [List.take_append_of_le_length within]
    exact received

theorem Short.grow {t : Tail α} {log : List α} (short : t.Short) (longer : t.log <+: log) :
    (t.grow log).Short := ⟨Nat.le_trans short.1 longer.length_le, short.2⟩

theorem Current.replace {t : Tail α} (current : t.Current) (readOut : t.ReadOut) (log : List α) :
    (t.replace log).Current := by
  refine ⟨Nat.zero_le _, ?_⟩
  show t.received = (t.earlier ++ t.log) ++ []
  rw [List.append_nil, current.2]
  congr 1
  rcases readOut with empty | ⟨polled, cursor⟩
  · simp [empty]
  · simp [position, polled, cursor]

theorem Current.lost {t : Tail α} (current : t.Current) (unread : ¬t.ReadOut) (log : List α) :
    (t.replace log).Short := by
  obtain ⟨within, received⟩ := current
  refine ⟨Nat.zero_le _, ?_⟩
  show t.received.length < (t.earlier ++ t.log).length + 0
  have some : t.log.length ≠ 0 := fun none => unread (.inl (List.length_eq_zero_iff.mp none))
  have before : t.position < t.log.length := by
    refine Nat.lt_of_le_of_ne within fun all => ?_
    unfold position at all
    by_cases polled : t.polled = true
    · rw [if_pos polled] at all
      exact unread (.inr ⟨polled, all⟩)
    · rw [if_neg polled] at all
      omega
  rw [received, List.length_append, List.length_append, List.length_take]
  omega

theorem Short.replace {t : Tail α} (short : t.Short) (log : List α) : (t.replace log).Short := by
  obtain ⟨within, behind⟩ := short
  refine ⟨Nat.zero_le _, ?_⟩
  show t.received.length < (t.earlier ++ t.log).length + 0
  rw [List.length_append]
  omega

theorem Current.poll {t : Tail α} (current : t.Current) (synced : t.Synced) : t.poll.Current := by
  obtain ⟨within, received⟩ := current
  refine ⟨Nat.le_refl t.log.length, ?_⟩
  show t.received ++ t.log.drop t.cursor = t.earlier ++ t.log.take t.log.length
  rw [List.take_length, received, List.append_assoc]
  congr 1
  unfold position
  by_cases polled : t.polled = true
  · rw [if_pos polled, List.take_append_drop]
  · rcases synced with polled' | cursor | empty
    · exact absurd polled' polled
    · simp [polled, cursor]
    · simp [empty]

theorem Current.skipped {t : Tail α} (current : t.Current) (unsynced : ¬t.Synced) : t.poll.Short := by
  obtain ⟨-, received⟩ := current
  refine ⟨Nat.le_refl t.log.length, ?_⟩
  show (t.received ++ t.log.drop t.cursor).length < t.earlier.length + t.log.length
  have unpolled : ¬t.polled = true := fun polled => unsynced (.inl polled)
  have cursor : t.cursor ≠ 0 := fun start => unsynced (.inr (.inl start))
  have some : t.log.length ≠ 0 := fun none => unsynced (.inr (.inr (List.length_eq_zero_iff.mp none)))
  have unread : t.received.length = t.earlier.length := by
    rw [received, position, if_neg unpolled]
    simp
  rw [List.length_append, List.length_drop]
  omega

theorem Short.poll {t : Tail α} (short : t.Short) : t.poll.Short := by
  obtain ⟨within, behind⟩ := short
  refine ⟨Nat.le_refl t.log.length, ?_⟩
  show (t.received ++ t.log.drop t.cursor).length < t.earlier.length + t.log.length
  rw [List.length_append, List.length_drop]
  unfold position at within behind
  split at behind
  · rename_i polled
    rw [if_pos polled] at within
    omega
  · omega

/-- A reader that is current has read everything when it polls. -/
theorem Current.received_poll {t : Tail α} (current : t.poll.Current) :
    t.poll.received = t.poll.written := by
  have received := current.2
  rwa [show t.poll.log.take t.poll.position = t.poll.log from List.take_length] at received

/-- **A reader that is short has not received everything.** -/
theorem Short.received_ne {t : Tail α} (short : t.Short) : t.received ≠ t.written := by
  intro all
  obtain ⟨within, behind⟩ := short
  rw [all, written, List.length_append] at behind
  omega

end Tail

end LanggraphTemporal.Theory
