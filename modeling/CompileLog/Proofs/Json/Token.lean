import CompileLog.Json.Token
import CompileLog.Proofs.Text.Numeral
import Mathlib.Data.List.TakeWhile
import Mathlib.Tactic.SplitIfs

/-!
# Reading back JSON tokens

The written form of each token is read as it. A word runs on as long as word characters follow, so
two words must not stand side by side; between all other tokens nothing is needed.
-/

namespace CompileLog.Json

open Text

/-! ### Strings -/

/-- A written character is read as it. -/
theorem stringParts?_writeChar (c : Char) (rest : List (Option Char)) :
    stringParts? ((writeChar c).map some ++ rest) =
      (stringParts? rest).map fun (ps, after) => (.char c :: ps, after) := by
  unfold writeChar
  split_ifs with hquote hbackslash hback hfeed hline hreturn htab hcontrol
  · subst hquote; rfl
  · subst hbackslash; rfl
  · subst hback; rfl
  · subst hfeed; rfl
  · subst hline; rfl
  · subst hreturn; rfl
  · subst htab; rfl
  · have hunit : unit? [some '0', some '0', some (digitChar (c.toNat / 16)),
        some (digitChar (c.toNat % 16))] = some c.toNat := by
      have hzero : hexDigit? '0' = some 0 := rfl
      simp [unit?, valueFrom, hzero, hexDigit?_digitChar (show c.toNat / 16 < 16 by omega),
        hexDigit?_digitChar (Nat.mod_lt c.toNat (show 0 < 16 by decide))]
      omega
    have hpart : Part.ofUnit c.toNat = .char c := by
      rw [Part.ofUnit, if_neg (by omega), Char.ofNat_toNat]
    simp only [List.map_cons, List.map_nil, List.cons_append, List.nil_append, stringParts?, hunit,
      hpart]
  · simp [stringParts?, hbackslash, hcontrol]

/-- A written text is read as its characters. By induction on them. -/
theorem stringParts?_write (cs : List Char) (rest : List (Option Char)) :
    stringParts? ((cs.flatMap writeChar).map some ++ some '"' :: rest) =
      some (cs.map Part.char, rest) := by
  induction cs with
  | nil => rfl
  | cons c cs ih =>
    rw [List.flatMap_cons, List.map_append, List.append_assoc, stringParts?_writeChar, ih]
    rfl

/-- Characters stand for the text that they make up. -/
theorem textOf?_char (cs : List Char) : textOf? (cs.map Part.char) = some cs := by
  induction cs with
  | nil => rfl
  | cons c cs ih => rw [List.map_cons, textOf?, ih, Option.map_some]

/-! ### Numbers -/

/-- The digits of a number are all that stands before a decimal point. -/
theorem wholePart?_decimal (n : Nat) : wholePart? (decimal n) = some (decimal n, []) := by
  obtain ⟨c, rest, hn, hc⟩ := decimal_eq_cons n
  by_cases hzero : n = 0
  · subst hzero
    rw [decimal_of_lt (by decide)]
    rfl
  · have hdigits : ∀ d ∈ c :: rest, isDigit d = true := hn ▸ isDigit_of_mem_decimal
    have htake : (c :: rest).takeWhile isDigit = c :: rest := List.takeWhile_eq_self_iff.mpr hdigits
    have hdrop : (c :: rest).dropWhile isDigit = [] := List.dropWhile_eq_nil_iff.mpr hdigits
    rw [hn]
    simp [wholePart?, hc hzero, htake, hdrop]

/-- A number behind its sign is read as it. -/
theorem number?_decimal (negative : Bool) (n : Nat) (h : negative = true → n ≠ 0) :
    number? negative (decimal n) = some (.integer (if negative then -n else n)) := by
  have hplain : ¬ (negative = true ∧ decimal n = ['0']) := by
    rintro ⟨hnegative, hzero⟩
    obtain ⟨c, rest, hn, hc⟩ := decimal_eq_cons n
    rw [hzero] at hn
    exact hc (h hnegative) (List.cons.inj hn).1.symm
  rw [number?, wholePart?_decimal]
  show (if _ ∧ _ ∧ ¬ (negative = true ∧ decimal n = ['0']) then
    some (Token.integer (if negative then -((digits? (decimal n)).getD 0 : Nat)
      else ((digits? (decimal n)).getD 0 : Nat))) else _) = _
  rw [if_pos ⟨rfl, rfl, hplain⟩, digits?_decimal, Option.getD_some]

/-! ### Words -/

/-- What is read as a word. -/
def Token.isWord : Token → Bool
  | .null | .bool _ | .integer _ | .real _ => true
  | _ => false

/-- What is written so that it can be read back. -/
def Token.isPlain : Token → Bool
  | .real _ | .garbled => false
  | _ => true

/-- A word that starts with a digit is a number without a sign. -/
theorem word?_of_isDigit {c : Char} (h : isDigit c = true) (rest : List Char) :
    word? (c :: rest) = number? false (c :: rest) := by
  unfold word?
  split <;> simp_all [isDigit, digit?]

/-- The written form of an integer is read as it. -/
theorem word?_signedDecimal (i : Int) : word? (signedDecimal i) = some (.integer i) := by
  unfold signedDecimal
  split_ifs with hnegative
  · show number? true (decimal i.natAbs) = _
    rw [number?_decimal true i.natAbs (fun _ => by omega), if_pos rfl]
    congr 2
    omega
  · obtain ⟨c, rest, hn, hdigit⟩ := exists_digit_decimal i.natAbs
    rw [hn, word?_of_isDigit hdigit, ← hn, number?_decimal false i.natAbs (by simp)]
    simp only [Bool.false_eq_true, if_false]
    congr 2
    omega

/-- The written form of a word is read as it. -/
theorem word?_write {t : Token} (hplain : t.isPlain = true) (hword : t.isWord = true) :
    word? t.write = some t := by
  cases t with
  | null => rfl
  | bool b => cases b <;> rfl
  | integer i => exact word?_signedDecimal i
  | real literal => cases hplain
  | _ => cases hword

/-- A digit is a word character. -/
theorem isWordChar_of_isDigit {c : Char} (h : isDigit c = true) : isWordChar c = true := by
  simp [isWordChar, h]

/-- A word is written with word characters. -/
theorem isWordChar_of_mem_write {t : Token} (hplain : t.isPlain = true) (hword : t.isWord = true) :
    ∀ c ∈ t.write, isWordChar c = true := by
  cases t with
  | null => exact List.all_eq_true.mp rfl
  | bool b => cases b <;> exact List.all_eq_true.mp rfl
  | integer i =>
    intro c hc
    rcases mem_signedDecimal hc with rfl | hdigit
    · rfl
    · exact isWordChar_of_isDigit hdigit
  | real literal => cases hplain
  | _ => cases hword

/-- A text ends, or goes on with what does not belong to a word. -/
def EndsWord (text : List (Option Char)) : Prop := ∀ c ∈ text.head?, c.any isWordChar = false

/-- A text that starts with a word character starts with a word. -/
theorem nextToken?_of_isWordChar {c : Char} (h : isWordChar c = true) (rest : List (Option Char)) :
    nextToken? (some c :: rest) =
      (word? (((some c :: rest).takeWhile fun c => c.any isWordChar).filterMap id)).map fun t =>
        (t, (some c :: rest).dropWhile fun c => c.any isWordChar) := by
  unfold nextToken?
  split <;> simp_all [isWordChar, isDigit, digit?]

/-- The written form of a word is read as it, up to what does not belong to a word. -/
theorem nextToken?_word {t : Token} (hplain : t.isPlain = true) (hword : t.isWord = true)
    {text : List (Option Char)} (htext : EndsWord text) :
    nextToken? (t.write.map some ++ text) = some (t, text) := by
  have hchars : ∀ c ∈ t.write.map some, c.any isWordChar = true := by
    intro c hc
    obtain ⟨d, hd, rfl⟩ := List.mem_map.mp hc
    exact isWordChar_of_mem_write hplain hword d hd
  have hends : (text.takeWhile fun c => c.any isWordChar) = [] ∧
      (text.dropWhile fun c => c.any isWordChar) = text := by
    cases text with
    | nil => exact ⟨rfl, rfl⟩
    | cons c rest => simp [htext c (by simp)]
  have hread := word?_write hplain hword
  cases hwrite : t.write with
  | nil =>
    rw [hwrite] at hread
    cases hread
  | cons c rest =>
    have hc : isWordChar c = true := isWordChar_of_mem_write hplain hword c (by simp [hwrite])
    rw [hwrite] at hchars hread
    rw [List.map_cons, List.cons_append, nextToken?_of_isWordChar hc, ← List.cons_append,
      ← List.map_cons, List.takeWhile_append_of_pos hchars, List.dropWhile_append_of_pos hchars,
      hends.1, hends.2, List.append_nil]
    simp [hread]

/-! ### Tokens -/

/-- The written form of a token is read as it. Behind a word, what does not belong to it must
follow. -/
theorem nextToken?_write {t : Token} (hplain : t.isPlain = true) {text : List (Option Char)}
    (htext : t.isWord = true → EndsWord text) :
    nextToken? (t.write.map some ++ text) = some (t, text) := by
  by_cases hword : t.isWord = true
  · exact nextToken?_word hplain hword (htext hword)
  · cases t with
    | string s =>
      have hwrite : (Token.string s).write = '"' :: (s.toList.flatMap writeChar ++ ['"']) := rfl
      rw [hwrite, List.map_cons, List.map_append, List.cons_append, List.append_assoc,
        List.map_singleton, List.singleton_append, nextToken?, stringParts?_write, Option.map_some]
      simp only [stringToken, textOf?_char, String.ofList_toList]
    | null => exact absurd rfl hword
    | bool b => exact absurd rfl hword
    | integer i => exact absurd rfl hword
    | real literal => cases hplain
    | garbled => cases hplain
    | _ => rfl

/-- A word is written with at least one character. -/
theorem write_word_eq_cons {t : Token} (hplain : t.isPlain = true) (hword : t.isWord = true) :
    ∃ c rest, t.write = c :: rest ∧ isWordChar c = true := by
  have hchars := isWordChar_of_mem_write hplain hword
  have hread := word?_write hplain hword
  cases hwrite : t.write with
  | nil =>
    rw [hwrite] at hread
    cases hread
  | cons c rest => exact ⟨c, rest, rfl, hchars c (by simp [hwrite])⟩

/-- A word character is no blank. -/
theorem isSpace_of_isWordChar {c : Char} (h : isWordChar c = true) : isSpace c = false := by
  by_contra hspace
  simp only [isSpace, Bool.or_eq_true, beq_iff_eq, Bool.not_eq_false] at hspace
  rcases hspace with ((rfl | rfl) | rfl) | rfl <;> cases h

/-- What is written for a token starts with no blank, and with a word character only for a word. -/
theorem write_eq_cons {t : Token} (hplain : t.isPlain = true) :
    ∃ c rest, t.write = c :: rest ∧ isSpace c = false ∧
      (t.isWord = false → isWordChar c = false) := by
  by_cases hword : t.isWord = true
  · obtain ⟨c, rest, hwrite, hc⟩ := write_word_eq_cons hplain hword
    exact ⟨c, rest, hwrite, isSpace_of_isWordChar hc, fun h => by rw [hword] at h; cases h⟩
  · cases t with
    | null => exact absurd rfl hword
    | bool b => exact absurd rfl hword
    | integer i => exact absurd rfl hword
    | real literal => cases hplain
    | garbled => cases hplain
    | _ => exact ⟨_, _, rfl, rfl, fun _ => rfl⟩

/-- Tokens that can be written side by side: each can be read back, and no word follows a word. -/
def Spelled : List Token → Prop
  | [] => True
  | t :: ts =>
    t.isPlain = true ∧ (t.isWord = true → ∀ u ∈ ts.head?, u.isWord = false) ∧ Spelled ts

/-- What is written for tokens that follow a word does not belong to it. -/
theorem Spelled.endsWord {ts : List Token} (h : Spelled ts)
    (hhead : ∀ u ∈ ts.head?, u.isWord = false) :
    EndsWord ((ts.flatMap Token.write).map some) := by
  cases ts with
  | nil => simp [EndsWord]
  | cons t ts =>
    obtain ⟨c, rest, hwrite, _, hc⟩ := write_eq_cons h.1
    simp [EndsWord, hwrite, hc (hhead t (by simp))]

/-- What is written for tokens has at least a character for each. By induction on the tokens. -/
theorem Spelled.length_le {ts : List Token} (h : Spelled ts) :
    ts.length ≤ (ts.flatMap Token.write).length := by
  induction ts with
  | nil => exact Nat.zero_le _
  | cons t ts ih =>
    obtain ⟨c, rest, hwrite, _⟩ := write_eq_cons h.1
    have hrest := ih h.2.2
    simp only [List.length_cons, List.flatMap_cons, List.length_append, hwrite]
    omega

/-- What is written for tokens is read as them. By induction on the tokens. -/
theorem Spelled.lexFrom? {ts : List Token} (h : Spelled ts) {fuel : Nat}
    (hfuel : ts.length ≤ fuel) :
    lexFrom? fuel ((ts.flatMap Token.write).map some) = some ts := by
  induction ts generalizing fuel with
  | nil => cases fuel <;> rfl
  | cons t ts ih =>
    obtain ⟨hplain, hfollow, hrest⟩ := h
    obtain ⟨fuel, rfl⟩ : ∃ k, fuel = k + 1 := ⟨fuel - 1, by simp at hfuel; omega⟩
    obtain ⟨c, rest, hwrite, hc, _⟩ := write_eq_cons hplain
    have hread := nextToken?_write hplain fun hword => hrest.endsWord (hfollow hword)
    have hskip : skipSpace (t.write.map some ++ (ts.flatMap Token.write).map some) =
        some c :: (rest.map some ++ (ts.flatMap Token.write).map some) := by
      simp [hwrite, skipSpace, hc]
    rw [hwrite, List.map_cons, List.cons_append] at hread
    rw [List.flatMap_cons, List.map_append, Json.lexFrom?, hskip]
    simp only [hread, ih hrest (Nat.le_of_succ_le_succ hfuel), Option.map_some]

/-- The text of tokens is read as them. -/
theorem Spelled.lex? {ts : List Token} (h : Spelled ts) :
    lex? ((ts.flatMap Token.write).map some) = some ts := by
  refine h.lexFrom? ?_
  rw [List.length_map]
  exact h.length_le

end CompileLog.Json
