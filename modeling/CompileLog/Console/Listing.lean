import CompileLog.Console.Wording

/-!
# Machine code with its bytecodes

The page of a correlation: each entry with where it comes from, and below it its instructions.
-/

namespace CompileLog.Console

/-- An offset with at least four digits. -/
def offset (n : Nat) : String :=
  "0x" ++ String.ofList (Text.padLeft '0' 4 (Text.hexadecimal n))

/-- The line of an instruction. -/
def instructionLine (i : NativeInstruction) : Page :=
  [.quiet ("    " ++ offset i.offset.toNat ++ "  "), .plain (i.mnemonic ++ " " ++ i.operands),
    .lineEnd]

/-- An entry and its instructions. -/
def entryPage (e : Correlation.Entry) : Page :=
  [.plain ("[" ++ offset e.start ++ ", " ++ offset e.stop ++ ") "), mapping e.mapping] ++
    (match e.sourceLine with
      | some line => [.quiet (" line " ++ number line.toNat)]
      | none => []) ++
    [.lineEnd] ++ e.instructions.flatMap instructionLine

/-- The problems met, if there are any. -/
def problemsPage (a : Correlation.Anomalies) : Page :=
  if a.total = 0 then []
  else
    [.suspect (number a.misaligned ++ " misaligned anchors, " ++ number a.pastEnd ++
      " anchors past end, " ++ number a.overlapping ++ " overlapping instructions"), .lineEnd]

/-- The correlation of a task. -/
def correlationPage (t : Task) (c : Correlation) : Page :=
  heading ("#" ++ number t.compileId.toNat ++ " " ++ t.method.display ++ " (" ++
    number c.instructionCount ++ " instructions)") ++
    c.entries.flatMap entryPage ++ problemsPage c.anomalies

end CompileLog.Console
