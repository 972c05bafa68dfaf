import DocComments.Checkout

/-!
# The command

The command line names the sources. One line of JSON on the standard input describes the checkout
they are in (`Checkout.read?`). The files that were changed are written back.
-/

set_option autoImplicit false

namespace DocComments

/-- The environment variables that say where settings are. -/
def settingsEnvironment : IO Environment := do
  let root ← IO.getEnv "PRJ_ROOT"
  let home ← IO.getEnv "PRJ_CONFIG_HOME"
  return fun name =>
    (if name = "PRJ_ROOT".toList then root
      else if name = "PRJ_CONFIG_HOME".toList then home
      else none).map String.toList

end DocComments

open DocComments

def main (words : List String) : IO UInt32 := do
  let stdin ← IO.getStdin
  let some checkout := Checkout.read? (← stdin.getLine).toList
    | IO.eprintln "Error: the checkout on the standard input cannot be read"
      return 1
  let files ← checkout.files.mapM fun p => return (p, ← IO.FS.readBinFile (String.ofList p))
  let before := Checkout.contents files
  let host := checkout.host (← settingsEnvironment)
  let (exit, after) := Program.start host (words.map String.toList) before
  for (p, bytes) in checkout.changes before after do
    IO.FS.writeBinFile (String.ofList p) bytes
  IO.print (String.ofList exit.stdout)
  IO.eprint (String.ofList exit.stderr)
  return exit.code.toUInt32
