import CompileLog.Analysis.Lookup

/-!
# Naming a method

A method is named by its whole printed form, or by any part of it that no other compiled method
has. The whole form comes first, so a method can be named even if its form is a part of
another's.
-/

namespace CompileLog

/-- Why a text names no method. -/
inductive ResolveError where
  /-- No compiled method has it in its printed form. -/
  | unmatched (query : String)
  /-- Several compiled methods have. -/
  | ambiguous (query : String) (methods : List Method)
  deriving DecidableEq

/-- The number of methods that are listed where several have a text. -/
def ResolveError.listed : Nat := 10

/-- What is said of an error. -/
def ResolveError.message : ResolveError → String
  | .unmatched query => "No compiled method matches '" ++ query ++ "'"
  | .ambiguous query methods =>
    "'" ++ query ++ "' matches " ++ String.ofList (Text.decimal methods.length) ++
      " methods:\n" ++
      "\n".intercalate ((methods.take listed).map fun m => "  " ++ m.display)

namespace Archive

/-- The compiled method whose whole form a text is. -/
def exactMethod? (a : Archive) (query : String) : Option Method :=
  (Method.parse? query).filter fun m => (a.historyOf? m).isSome

/-- The compiled method that a text names. -/
def resolve (a : Archive) (query : String) : Except ResolveError Method :=
  match a.exactMethod? query with
  | some m => .ok m
  | none =>
    match a.findMethods query with
    | [] => .error (.unmatched query)
    | [only] => .ok only
    | methods => .error (.ambiguous query methods)

end Archive

end CompileLog
