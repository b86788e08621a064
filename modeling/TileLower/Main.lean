import TileLower.Command

/-!
The command line: a program in JSON comes from standard input, flags from the arguments.
-/
namespace TileLower

partial def readAll (stream : IO.FS.Stream) (lines : String) : IO String := do
  let line ← stream.getLine
  if line.isEmpty then return lines else readAll stream (lines ++ line)

end TileLower

def main (args : List String) : IO UInt32 := do
  let program ← TileLower.readAll (← IO.getStdin) ""
  match TileLower.Command.runWith args program with
  | .ok out =>
    IO.eprint out.log
    IO.print out.text
    return 0
  | .error fault =>
    IO.eprintln (TileLower.Command.faultText fault)
    return 1
