import Cjson.CommandLine

namespace Cjson.CommandLine

def attempt (read : IO ByteArray) : IO (Except String (List UInt8)) := do
  try
    return .ok (← read).toList
  catch
    | .noFileOrDirectory .. => return .error "No such file or directory (os error 2)"
    | e => return .error (toString e)

/-- Reads all of a stream. -/
partial def readAll (stream : IO.FS.Stream) (bytes : ByteArray) : IO ByteArray := do
  let more ← stream.read 65536
  if more.isEmpty then return bytes else readAll stream (bytes ++ more)

def content (r : Request) : IO (Except String (List UInt8)) := do
  match r.input with
  | .ok (.file path) => attempt (IO.FS.readBinFile path)
  | .ok .stdin => attempt (do readAll (← IO.getStdin) .empty)
  | _ => return .ok []

end Cjson.CommandLine

open Cjson.CommandLine in
def main (arguments : List String) : IO UInt32 := do
  let outcome ← match parse? arguments with
    | some r => pure (r.run (← content r))
    | none => pure .misuse
  IO.print outcome.stdout
  IO.eprint outcome.stderr
  return outcome.code.toUInt32
