/-!
# Entity — names of the things in a world

An entity is an index into the world together with a generation: an index that is used again carries
the next generation, so that an old name never means a new thing.
-/

namespace ScriptHost

structure Entity where
  index : Nat
  generation : Nat
deriving DecidableEq, Inhabited

namespace Entity

/-- The first entity to carry an index. -/
def first (index : Nat) : Entity := ⟨index, 1⟩

/-- Generation and index in one word. -/
def bits (e : Entity) : Nat := e.generation <<< 32 + e.index

/-- The entity of a word; a word below `2 ^ 32` is an index of the first generation. -/
def ofBits (n : Nat) : Entity := if n < 1 <<< 32 then first n else ⟨n % (1 <<< 32), n >>> 32⟩

/-- Whether a word can name an entity: the top bit is kept for other names. -/
def isWord (n : Nat) : Bool := n < 1 <<< 63

/-- The word of an entity as a script sees it. -/
def signedBits (e : Entity) : Int := Int.bmod e.bits (1 <<< 64)

def describe (e : Entity) : String := s!"{e.index}v{e.generation}"

theorem ofBits_bits (e : Entity) (hi : e.index < 1 <<< 32) (hg : 0 < e.generation) :
    ofBits e.bits = e := by
  have hw : (1 : Nat) <<< 32 = 4294967296 := rfl
  have hs : e.bits = e.generation * 4294967296 + e.index :=
    congrArg (· + e.index) (Nat.shiftLeft_eq e.generation 32)
  have hb : ¬ e.bits < 1 <<< 32 := by omega
  have hm : e.bits % (1 <<< 32) = e.index := by rw [hw]; omega
  have hd : e.bits >>> 32 = e.generation := by omega
  rw [ofBits, if_neg hb, hm, hd]

end Entity

end ScriptHost
