import LeaseLock.CommandLine.Program

/-!
# The command line

The program as it is run: it reads the environment, carries out its words, and prints. Listening on
a socket is not part of it, so a server that could start ends with a fault of its own.
-/

namespace LeaseLock

/-- The variables of the environment that stand for settings. -/
def readEnvironment : IO (Dict String) :=
  Setting.all.foldlM
    (fun environment x ↦ do
      match ← IO.getEnv x.environmentName with
      | some value => return environment.insert x.environmentName value
      | none => return environment)
    ∅

end LeaseLock

/-- Carry out the words of the command line. -/
def main (words : List String) : IO UInt32 := do
  match LeaseLock.conduct (← LeaseLock.readEnvironment) words with
  | .done text =>
    IO.print text
    return 0
  | .failed code text =>
    IO.eprint text
    return code.toUInt32
  | .serving options _ =>
    IO.eprintln ("Failed to bind " ++ options.address ++ ": no socket is available")
    return 1
