import StateTransition.CommandLine.Run

/-! The program: the commands over the files of the system. -/
namespace StateTransition

namespace CommandLine

def reasonOf : IO.Error → String
  | .noFileOrDirectory _ code _ => s!"No such file or directory (os error {code})"
  | .permissionDenied _ code _ => s!"Permission denied (os error {code})"
  | e => toString e

def attempt {α : Type} (step : IO α) : IO (Except String α) := do
  try return .ok (← step) catch e => return .error (reasonOf e)

def FileSystem.ofSystem : FileSystem IO where
  read path := attempt (IO.FS.readFile path)
  write path text := attempt (IO.FS.writeFile path text)

end CommandLine

end StateTransition

def main (args : List String) : IO UInt32 := do
  let outcome ← StateTransition.CommandLine.run .ofSystem args
  IO.print outcome.output
  IO.eprint outcome.errors
  return outcome.exitCode.toUInt32
