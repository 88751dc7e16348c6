/-!
# Blank characters and what they separate

Attribute values, listings and configuration text are trimmed and cut at blanks.
A blank is a character with the Unicode property `White_Space`, so a no-break space
or a line separator counts and a zero-width space does not.
-/

namespace CompileLog.Text

/-- A character with the Unicode property `White_Space`. -/
def isBlank (c : Char) : Bool :=
  let n := c.toNat
  (9 ≤ n && n ≤ 13) || n == 0x20 || n == 0x85 || n == 0xA0 || n == 0x1680 ||
    (0x2000 ≤ n && n ≤ 0x200A) || n == 0x2028 || n == 0x2029 || n == 0x202F ||
    n == 0x205F || n == 0x3000

/-- Drops the blanks at the front. -/
def trimStart (cs : List Char) : List Char :=
  cs.dropWhile isBlank

/-- Drops the blanks at the back. -/
def trimEnd (cs : List Char) : List Char :=
  (cs.reverse.dropWhile isBlank).reverse

/-- Drops the blanks at both ends. -/
def trim (cs : List Char) : List Char :=
  trimEnd (trimStart cs)

/-- A text that is empty or holds blanks only. -/
def isBlankText (cs : List Char) : Bool :=
  cs.all isBlank

/-- Dropping a prefix never lengthens a list. -/
theorem length_dropWhile_le {α : Type} (p : α → Bool) (xs : List α) :
    (xs.dropWhile p).length ≤ xs.length := by
  induction xs with
  | nil => simp
  | cons x xs ih =>
    rw [List.dropWhile_cons]
    split
    · exact Nat.le_succ_of_le ih
    · exact Nat.le_refl _

/-- The maximal runs of non-blank characters, in order. -/
def words (cs : List Char) : List (List Char) :=
  match _start : trimStart cs with
  | [] => []
  | c :: rest =>
    (c :: rest.takeWhile (fun d => !isBlank d)) :: words (rest.dropWhile (fun d => !isBlank d))
termination_by cs.length
decreasing_by
  have hle := length_dropWhile_le isBlank cs
  have hrest := length_dropWhile_le (fun d => !isBlank d) rest
  unfold trimStart at _start
  rw [_start] at hle
  simp only [List.length_cons] at hle
  omega

/-- The lines of a text. A line feed ends a line, together with one carriage return
right before it; text after the last line feed is a line of its own, kept as it is. -/
def lines (cs : List Char) : List (List Char) :=
  match cs with
  | [] => []
  | c :: rest =>
    let line := (c :: rest).takeWhile (· ≠ '\n')
    match _tail : (c :: rest).dropWhile (· ≠ '\n') with
    | [] => [line]
    | _ :: after =>
      (if line.getLast? = some '\r' then line.dropLast else line) :: lines after
termination_by cs.length
decreasing_by
  have hle := length_dropWhile_le (fun d : Char => decide (d ≠ '\n')) (c :: rest)
  rw [_tail] at hle
  simp only [List.length_cons] at hle ⊢
  omega

/-- Puts `separator` between the texts. -/
def join (separator : List Char) : List (List Char) → List Char
  | [] => []
  | [cs] => cs
  | cs :: rest => cs ++ separator ++ join separator rest

/-- Whether `needle` occurs in a text at some position. -/
def contains (needle : List Char) : List Char → Bool
  | [] => needle.isEmpty
  | c :: rest => needle.isPrefixOf (c :: rest) || contains needle rest

/-- The part before the first `separator` and the part after it, if there is one. -/
def splitAt? (separator : Char) (cs : List Char) : Option (List Char × List Char) :=
  match cs.dropWhile (· ≠ separator) with
  | [] => none
  | _ :: after => some (cs.takeWhile (· ≠ separator), after)

/-- The pieces between the occurrences of `separator`; always at least one. -/
def splitOn (separator : Char) : List Char → List (List Char)
  | [] => [[]]
  | c :: rest =>
    if c = separator then [] :: splitOn separator rest
    else
      match splitOn separator rest with
      | [] => [[c]]
      | piece :: pieces => (c :: piece) :: pieces

/-- The ASCII letters in lower case; every other character stays. -/
def lowerAscii (cs : List Char) : List Char :=
  cs.map fun c => if 'A' ≤ c ∧ c ≤ 'Z' then Char.ofNat (c.toNat + 32) else c

end CompileLog.Text
