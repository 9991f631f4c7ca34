import WasmToC.Files
import WasmToC.Support.Header
import WasmToC.Unit.Assemble

/-!
# The command line

`input output [namespace] [container]`, with `--runtime PATH` to write the support header as well
and `--memory-pages N` for the default memory size. Arguments are judged from left to right, so
that a request for help wins over everything after it and over what is missing.

## Main definitions

* `Invocation` — what the arguments ask for.
* `Invocation.parse` — reading the arguments.
* `Invocation.run` — doing what was asked.
* `commandLine` — both, with the exit code.
-/

namespace WasmToC

/-- What the arguments ask for. -/
structure Invocation where
  /-- The binary module. -/
  input : String
  /-- Where the C text goes. -/
  output : String
  /-- What the caller chooses about the C text. -/
  options : Options
  /-- Where the support header goes, if it is asked for. -/
  runtime : Option String
  deriving DecidableEq, Repr

/-- Why no module is compiled. -/
inductive Stop where
  /-- Help was asked for. -/
  | help
  /-- The version was asked for. -/
  | version
  /-- The arguments are wrong. -/
  | usage
  deriving DecidableEq, Repr

/-- The arguments read so far. -/
structure Draft where
  /-- Arguments that are not options, in order. -/
  positionals : List String := []
  /-- The value of `--runtime`. -/
  runtime : Option String := none
  /-- The value of `--memory-pages`. -/
  memoryPages : Option Nat := none
  deriving DecidableEq, Repr

namespace Draft

/-- Adds an argument that is not an option. There are at most four, and the two paths are not
empty. -/
def positional (d : Draft) (arg : String) : Except Stop Draft :=
  let known := d.positionals.length
  if 4 ≤ known || (known < 2 && arg.isEmpty) then .error .usage
  else .ok { d with positionals := d.positionals ++ [arg] }

/-- The value of a digit string. -/
def digitsValue? : List Char → Option Nat
  | [] => none
  | cs =>
    if cs.all Char.isDigit then some (cs.foldl (fun n c => 10 * n + (c.toNat - 48)) 0) else none

/-- The value of a digit string, perhaps with one sign in front. -/
def integerValue? (text : String) : Option Int :=
  match text.toList with
  | '+' :: cs => (digitsValue? cs).map Int.ofNat
  | '-' :: cs => (digitsValue? cs).map fun n => -Int.ofNat n
  | cs => (digitsValue? cs).map Int.ofNat

/-- A number of pages: an integer that fits 32 bits. A zero may have either sign. -/
def parsePages? (text : String) : Option Nat :=
  match integerValue? text with
  | some v => if 0 ≤ v ∧ v < 4294967296 then some v.toNat else none
  | none => none

/-- Sets an option that takes a value; it may be given once. -/
def setOption (d : Draft) (name value : String) : Except Stop Draft :=
  if name = "runtime" then
    if d.runtime.isSome || value.isEmpty then .error .usage
    else .ok { d with runtime := some value }
  else
    match parsePages? value with
    | some n => if d.memoryPages.isSome then .error .usage else .ok { d with memoryPages := some n }
    | none => .error .usage

/-- The invocation the arguments ask for, once all have been read. -/
def complete (d : Draft) : Except Stop Invocation :=
  match d.positionals with
  | input :: output :: rest =>
    let defaults : Options := {}
    let options : Options :=
      { nameSpace := rest[0]?.getD defaults.nameSpace
        container := rest[1]?.getD defaults.container
        memoryPages := d.memoryPages.getD defaults.memoryPages }
    .ok ⟨input, output, options, d.runtime⟩
  | _ => .error .usage

end Draft

/-- How an argument is taken. -/
inductive Argument where
  /-- The end of the options. -/
  | endOfOptions
  /-- A long option, perhaps with a value behind an equals sign. -/
  | long (name : String) (attached : Option String)
  /-- A cluster of short options, of which the first is given. -/
  | short (first : Char)
  /-- Anything else. -/
  | plain
  deriving DecidableEq, Repr

/-- A long option's name and the value behind the first equals sign. -/
def Argument.ofLong (body : List Char) : Argument :=
  let name := String.ofList (body.takeWhile (· ≠ '='))
  match body.dropWhile (· ≠ '=') with
  | [] => .long name none
  | _ :: value => .long name (some (String.ofList value))

/-- How an argument is taken while options are allowed. -/
def Argument.classify (arg : String) : Argument :=
  match arg.toList with
  | ['-', '-'] => .endOfOptions
  | '-' :: '-' :: body => .ofLong body
  | '-' :: c :: _ => .short c
  | _ => .plain

/-- Whether a long option takes a value. -/
def takesValue (name : String) : Bool := name = "runtime" || name = "memory-pages"

/-- Reads the arguments that follow those of a draft. -/
def parseArguments : List String → Draft → Except Stop Draft
  | [], d => .ok d
  | arg :: rest, d =>
    match Argument.classify arg with
    | .endOfOptions => rest.foldlM Draft.positional d
    | .short c => .error (if c = 'h' then .help else if c = 'V' then .version else .usage)
    | .plain => do parseArguments rest (← d.positional arg)
    | .long name attached =>
      if takesValue name then
        match attached with
        | some value => do parseArguments rest (← d.setOption name value)
        | none =>
          match rest with
          | [] => .error .usage
          | value :: rest =>
            if Argument.classify value = .plain then do
              parseArguments rest (← d.setOption name value)
            else .error .usage
      else
        match name, attached with
        | "help", none => .error .help
        | "version", none => .error .version
        | _, _ => .error .usage

/-- What the arguments ask for. -/
def Invocation.parse (args : List String) : Except Stop Invocation := do
  (← parseArguments args {}).complete

/-- Compiles the module and writes the files that were asked for: the C text first, then the
support header. A failure is described by its text; a run that stops without a diagnosis has
none. -/
def Invocation.run {μ : Type → Type} [Monad μ] (fs : FileAccess μ) (i : Invocation) :
    μ (Except (Option String) Unit) := do
  match ← fs.read i.input with
  | .error e => return .error (some s!"couldn't read {i.input}: {e}")
  | .ok bytes =>
    match (compile bytes i.options).outcome with
    | .error .abort => return .error none
    | .error (.error e) => return .error (some (i.input ++ ": " ++ e.message))
    | .ok text =>
      match ← fs.write i.output text with
      | .error e => return .error (some s!"couldn't write {i.output}: {e}")
      | .ok _ =>
        match i.runtime with
        | none => return .ok ()
        | some path =>
          match ← fs.write path Support.header with
          | .error e => return .error (some s!"couldn't write {path}: {e}")
          | .ok _ => return .ok ()

/-- How a run of the command line ends. -/
structure Ended where
  /-- The exit code. -/
  code : Nat
  /-- What is said about a failure. -/
  message : Option String := none
  deriving DecidableEq, Repr

/-- Runs the command line: exit code 2 for wrong arguments, 1 for a failure, 0 otherwise. -/
def commandLine {μ : Type → Type} [Monad μ] (fs : FileAccess μ) (args : List String) : μ Ended := do
  match Invocation.parse args with
  | .error .usage => return { code := 2 }
  | .error _ => return { code := 0 }
  | .ok i =>
    match ← i.run fs with
    | .ok _ => return { code := 0 }
    | .error (some message) => return { code := 1, message := some message }
    | .error none => return { code := 101 }

end WasmToC
