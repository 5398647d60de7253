/-
# Theory.Written -- what the entries of a history write down

A component keeps a list beside its history: each entry adds to it, depending on
the entries before.  `written f h` is that list, read off the history `h`.
-/
import LanggraphTemporal.Theory.History

namespace LanggraphTemporal.Theory.History

set_option autoImplicit false

variable {E β : Type} {f : List E → E → List β} {h : List E} {e : E}

/-- What the entries of `b` write when they come after `a`. -/
def writtenAfter (f : List E → E → List β) (a : List E) : List E → List β
  | [] => []
  | e :: b => f a e ++ writtenAfter f (a ++ [e]) b

/-- What the entries of a history write. -/
def written (f : List E → E → List β) (h : List E) : List β := writtenAfter f [] h

theorem writtenAfter_append (a b c : List E) :
    writtenAfter f a (b ++ c) = writtenAfter f a b ++ writtenAfter f (a ++ b) c := by
  induction b generalizing a with
  | nil => simp [writtenAfter]
  | cons e b ih => simp [writtenAfter, ih]

@[simp] theorem written_nil : written f [] = [] := rfl

@[simp] theorem written_snoc : written f (h ++ [e]) = written f h ++ f h e := by
  simp [written, writtenAfter_append, writtenAfter]

theorem written_snoc_of_quiet (quiet : f h e = []) : written f (h ++ [e]) = written f h := by
  rw [written_snoc, quiet, List.append_nil]

end LanggraphTemporal.Theory.History
