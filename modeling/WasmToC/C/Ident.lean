/-!
# C identifiers

Identifiers of the emitted C: any name turned into an identifier, and the names of locals,
temporaries and labels, which are numbered.

## Main definitions

* `C.identifier` — a name as an identifier.
* `C.localName`, `C.tempName`, `C.labelName`.
-/

namespace WasmToC.C

/-- ASCII letters, digits and the underscore. -/
def isWordChar (c : Char) : Bool := c.isAlphanum || c = '_'

/-- An identifier made of a name: characters that cannot stand in one become underscores, and an
underscore goes in front of a digit or of nothing. -/
def identifier (name : String) : String :=
  let word := name.toList.map fun c => if isWordChar c then c else '_'
  match word with
  | [] => "_"
  | c :: _ => String.ofList (if c.isDigit then '_' :: word else word)

/-- The name of a parameter or local of a function with `params` parameters; both are numbered
together. -/
def localName (params i : Nat) : String := if i < params then s!"p{i}" else s!"l{i}"

/-- The name of a temporary. -/
def tempName (i : Nat) : String := s!"t{i}"

/-- The name of a label. -/
def labelName (n : Nat) : String := s!"L{n}"

end WasmToC.C
