import ScriptHost.Instance

/-!
# ErrorLog — the errors of hooks that are kept

A log keeps as many errors as it has room for, the latest ones.
-/

namespace ScriptHost

/-- An error of a hook and the entity it happened on. -/
structure RecordedError where
  entity : Entity
  error : HookError
deriving DecidableEq, Inhabited

/-- Errors, the oldest one first. -/
structure ErrorLog where
  entries : List RecordedError
  capacity : Nat
deriving DecidableEq, Inhabited

namespace ErrorLog

def empty (capacity : Nat) : ErrorLog := ⟨[], capacity⟩

/-- Takes an error in and drops what there is no room for. -/
def record (l : ErrorLog) (e : RecordedError) : ErrorLog :=
  let entries := l.entries ++ [e]
  { l with entries := entries.drop (entries.length - l.capacity) }

def recordAll (l : ErrorLog) (es : List RecordedError) : ErrorLog := es.foldl record l

def clear (l : ErrorLog) : ErrorLog := { l with entries := [] }

theorem record_capacity (l : ErrorLog) (e : RecordedError) : (l.record e).capacity = l.capacity := rfl

theorem record_of_capacity_zero {l : ErrorLog} (h : l.capacity = 0) (e : RecordedError) :
    (l.record e).entries = [] := by
  simp [record, h]

theorem length_record_le (l : ErrorLog) (e : RecordedError) :
    (l.record e).entries.length ≤ l.capacity := by
  simp only [record, List.length_drop]
  omega

end ErrorLog

end ScriptHost
