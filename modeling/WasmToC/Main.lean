import WasmToC.CommandLine

/-!
# The program

The command line on real files.

## Main definitions

* `main` — the entry point.
-/

namespace WasmToC

/-- Describes a failed file operation by the system's own words and code. -/
def describeFault : IO.Error → String
  | .noFileOrDirectory _ code details | .inappropriateType _ code details
  | .permissionDenied _ code details | .invalidArgument _ code details
  | .resourceExhausted _ code details | .alreadyExists _ code details
  | .noSuchThing _ code details | .resourceBusy code details
  | .unsatisfiedConstraints code details | .illegalOperation code details
  | .unsupportedOperation code details | .hardwareFault code details
  | .otherError code details => s!"{details} (os error {code})"
  | e => toString e

/-- Runs a file operation and keeps its failure as a text. -/
def guarded {α : Type} (action : IO α) : IO (Except String α) := do
  try
    return .ok (← action)
  catch e =>
    return .error (describeFault e)

/-- Real files. -/
def realFiles : FileAccess IO where
  read name := guarded do
    let file ← IO.FS.Handle.mk name .read
    return (← file.readBinToEnd).toList
  write name text := guarded (IO.FS.writeFile name text)

/-- How the program is called. -/
def usage : String :=
  "Usage: wasmtoc <INPUT> <OUTPUT> [NAMESPACE] [CONTAINER] [--runtime PATH] [--memory-pages N]"

end WasmToC

open WasmToC in
/-- Compiles a binary module into C. -/
def main (args : List String) : IO UInt32 := do
  match Invocation.parse args with
  | .error .usage => IO.eprintln usage
  | .error .help => IO.println usage
  | .error .version => IO.println "wasmtoc 0.1.0"
  | .ok _ => pure ()
  let ended ← commandLine realFiles args
  if let some message := ended.message then IO.eprintln message
  return UInt32.ofNat ended.code
