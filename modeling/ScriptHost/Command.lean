import ScriptHost.Entity
import ScriptHost.Vector

/-!
# Command — what scripts ask the world to do

Scripts never touch a world: a host function queues a command, which the host applies later.
-/

namespace ScriptHost

/-- An effect on the entity that asked for it. -/
inductive Effect where
  | setTranslation (place : Vector)
  | setRotation (degrees : Float32)
  | setVelocity (velocity : Vector)
  | applyImpulse (impulse : Vector)
  | playSound (clip : String)
  | despawn
deriving Inhabited

/-- An effect and the entity it is for. -/
structure Command where
  entity : Entity
  effect : Effect
deriving Inhabited

def Effect.name : Effect → String
  | setTranslation _ => "SetTranslation"
  | setRotation _ => "SetRotation"
  | setVelocity _ => "SetVelocity"
  | applyImpulse _ => "ApplyImpulse"
  | playSound _ => "PlaySound"
  | despawn => "Despawn"

end ScriptHost
