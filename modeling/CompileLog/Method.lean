import CompileLog.Text.Blank

/-!
# Methods

A compiled method is known by its class, its name and its descriptor, spelled as in the
log. Two methods are the same exactly if the three spellings are; no form of a class
name or descriptor is brought to another.
-/

namespace CompileLog

open Text

/-- A method as the log spells it. -/
structure Method where
  className : String
  name : String
  descriptor : String
  deriving DecidableEq, Repr, Inhabited

namespace Method

/-- Reads `class name descriptor`: three words, the third opening with a parenthesis. -/
def parse? (text : String) : Option Method :=
  match words text.toList with
  | [className, name, descriptor] =>
    if descriptor.head? = some '(' then
      some ⟨String.ofList className, String.ofList name, String.ofList descriptor⟩
    else none
  | _ => none

/-- Stands for the method of a task whose log names none. -/
def unresolved : Method := ⟨"<unresolved>", "<unresolved>", "()V"⟩

/-- Whether this is the stand-in, told by its class name. -/
def isUnresolved (m : Method) : Bool := m.className == "<unresolved>"

/-- The three spellings with a blank between them. -/
def display (m : Method) : String :=
  m.className ++ " " ++ m.name ++ " " ++ m.descriptor

/-- The spellings in the order that methods are compared by. -/
def key (m : Method) : List String := [m.className, m.name, m.descriptor]

/-- The spellings tell methods apart. -/
theorem key_injective {a b : Method} (h : a.key = b.key) : a = b := by
  cases a; cases b; simpa [key] using h

instance : LT Method := ⟨fun a b => a.key < b.key⟩
instance : LE Method := ⟨fun a b => ¬ b.key < a.key⟩
instance : DecidableLT Method := fun a b => inferInstanceAs (Decidable (a.key < b.key))
instance : DecidableLE Method := fun a b => inferInstanceAs (Decidable (¬ b.key < a.key))

/-- Methods are ordered by class, then name, then descriptor. -/
instance : Std.IsLinearOrder Method where
  le_refl a := List.le_refl a.key
  le_trans _ _ _ hab hbc := List.le_trans hab hbc
  le_antisymm _ _ hab hba := key_injective (List.le_antisymm hab hba)
  le_total a b := List.le_total a.key b.key

instance : Std.LawfulOrderLT Method where
  lt_iff _ _ := ⟨fun h => ⟨List.le_of_lt h, not_not_intro h⟩, fun h => Decidable.not_not.mp h.2⟩

end Method

end CompileLog
