import Cjson.Source

namespace Cjson

/-- A span of a source that has not been evaluated, from byte `start` up to byte `stop`. -/
structure Fragment where
  source : Source
  start : Nat
  stop : Nat
  deriving DecidableEq

namespace Fragment

/-- The span between two offsets. Each is moved back to the start of the character that
holds it, and the first one is not behind the second. -/
def ofOffsets (source : Source) (start stop : Nat) : Fragment :=
  let stop := Text.size (Text.takeBytes stop source.text)
  ⟨source, Text.size (Text.takeBytes (min start stop) source.text), stop⟩

def text (f : Fragment) : List Char :=
  Text.takeBytes (f.stop - f.start) (Text.dropBytes f.start f.source.text)

theorem ofOffsets_start_le_stop (source : Source) (start stop : Nat) :
    (ofOffsets source start stop).start ≤ (ofOffsets source start stop).stop :=
  Nat.le_trans (Text.size_takeBytes_le _ _) (Nat.min_le_right _ _)

end Fragment
end Cjson
