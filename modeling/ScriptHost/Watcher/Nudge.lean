/-!
# Nudge — when a notified watcher looks again

With notifications on, the first look is free; after that a look takes a notice that matters, or so many
polls in a row without one.
-/

namespace ScriptHost

/-- What the system tells about a watched directory. -/
inductive Notice where
  | created
  | removed
  | contentChanged
  | renamed
  | changed
  | attributesChanged
  | accessed
  | other
  | failed
deriving DecidableEq, Inhabited

/-- Whether a notice can mean that the scripts changed; a failed one may hide any other. -/
def Notice.isRelevant : Notice → Bool
  | created | removed | contentChanged | renamed | changed | failed => true
  | attributesChanged | accessed | other => false

/-- The state of notification: after how many quiet polls to look anyway, zero for never; how many there
    have been since the last look; and whether there has been a poll at all. -/
structure Nudge where
  interval : Nat
  quiet : Nat
  primed : Bool
deriving DecidableEq, Inhabited

namespace Nudge

def start (interval : Nat) : Nudge := ⟨interval, 0, false⟩

/-- Whether to look again, given the notices since the last poll. -/
def poll (n : Nudge) (notices : List Notice) : Bool × Nudge :=
  if !n.primed || notices.any Notice.isRelevant then (true, ⟨n.interval, 0, true⟩)
  else if 0 < n.interval && n.interval ≤ n.quiet + 1 then (true, ⟨n.interval, 0, true⟩)
  else (false, ⟨n.interval, n.quiet + 1, true⟩)

end Nudge

end ScriptHost
