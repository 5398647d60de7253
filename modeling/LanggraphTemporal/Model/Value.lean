/-
# Model.Value -- the Python values that reach the workflow

`Any` in the source: what a node writes to a channel, what a resume signal
carries, what a `Send` passes on.  The workflow looks at such a value in few
places (is it a `Send`, a string, a list, a dict with a key, is it truthy), so
the constructors are those kinds, plus `obj` for every other object, known by
its identity.
-/
import LanggraphTemporal.Theory.Dict

namespace LanggraphTemporal.Model

set_option autoImplicit false

open Theory

inductive PyVal where
  | none
  | bool (b : Bool)
  | int (i : Int)
  | str (s : String)
  | list (xs : List PyVal)
  | tuple (xs : List PyVal)
  | dict (kvs : List (String × PyVal))
  /-- `langgraph.types.Send` -/
  | send (node : String) (arg : PyVal)
  | obj (n : Nat)
  deriving Inhabited

namespace PyVal

/-- `bool(v)` -/
def truthy : PyVal → Bool
  | none => false
  | bool b => b
  | int i => i != 0
  | str s => s != ""
  | list xs => !xs.isEmpty
  | tuple xs => !xs.isEmpty
  | dict kvs => !kvs.isEmpty
  | send _ _ => true
  | obj _ => true

def isNone : PyVal → Bool
  | none => true
  | _ => false

def ofDict (d : Dict PyVal) : PyVal := dict d.entries

end PyVal

/-- `bool(s)` of an optional string. -/
def truthy : Option String → Bool
  | none => false
  | some s => s != ""

end LanggraphTemporal.Model
