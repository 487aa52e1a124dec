import ScriptHost.Diagnostic
import ScriptHost.Hash.Blake3
import ScriptHost.Path

/-!
# Source — the files that a unit is compiled from

The digest of a corpus covers every path and every text, each closed by a zero byte, in the order of the
files.
-/

namespace ScriptHost

/-- When a file was last changed: a time in nanoseconds, or a tick of the clock that runs now. -/
inductive Stamp where
  | time (nanoseconds : Int)
  | tick (count : Nat)
deriving DecidableEq, Inhabited

/-- The path of a source.  A path need not be text: it is shown with a replacement character for each
    run of bytes that stands for no character, and `stray` holds those bytes, each run behind the number
    of its replacement character. -/
structure SourcePath where
  shown : String
  stray : List (Nat × List UInt8)
deriving DecidableEq, Inhabited

namespace SourcePath

def ofText (path : String) : SourcePath := ⟨path, []⟩

instance : Coe String SourcePath := ⟨ofText⟩

instance : Coe SourcePath String := ⟨shown⟩

/-- Whether the path is text throughout. -/
def isText (p : SourcePath) : Bool := p.stray.isEmpty

/-- Whether two paths name the same file. -/
def same (p q : SourcePath) : Bool := Path.same p.shown q.shown && p.stray == q.stray

end SourcePath

/-- A file as it was read. -/
structure Source where
  path : SourcePath
  content : String
  modified : Stamp
deriving DecidableEq, Inhabited

/-- The files of one compilation, with remarks about those that could not be read. -/
structure Batch where
  files : List Source
  notes : List Diagnostic
deriving Inhabited

/-- The bytes of a text. -/
def utf8 (s : String) : List UInt8 := s.toUTF8.toList

/-- The digest of a text. -/
def contentDigest (content : String) : List UInt8 := Hash.blake3 (utf8 content)

namespace Source

/-- What the digest of a corpus is taken of. -/
def preimage (files : List Source) : List UInt8 :=
  files.flatMap fun f => utf8 f.path.shown ++ 0 :: utf8 f.content ++ [0]

/-- The digest of a corpus in hexadecimal digits. -/
def corpusHash (files : List Source) : String := Hash.hexText (Hash.blake3 (preimage files))

end Source

end ScriptHost
