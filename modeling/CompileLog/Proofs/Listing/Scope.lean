import CompileLog.Listing.Scope
import CompileLog.Proofs.Text.Numeral
import CompileLog.Proofs.Text.Words

/-!
# Scope comments that are written

A scope comment is written with two colons between the class and the method. The class may hold
colons and numbers of its own, and is read up to the last two colons from which the rest still reads
as a method at a bytecode index. As the name of a method has no colon in it, these are the two that
were written: nothing behind them is, so a frame is read back from its comment whatever its class is
called.
-/

namespace CompileLog.Listing

open Text

/-! ### Written frames -/

namespace ScopeFrame

/-- The source line behind a frame, if there is one. -/
def lineText (line : Option UInt32) : List Char :=
  line.elim [] fun n => " (line ".toList ++ (decimal n.toNat ++ [')'])

/-- The comment that names a frame. -/
def text (f : ScopeFrame) : List Char :=
  "; - ".toList ++ (f.className.toList ++ ':' :: ':' :: (f.methodName.toList ++
    '@' :: (signedDecimal f.bci.toInt ++ lineText f.line)))

/-- The names in a frame can be told apart in its comment: both are words, and the one of the method
has neither of the signs that end a name. -/
structure WellNamed (f : ScopeFrame) : Prop where
  className : IsWord f.className.toList
  methodName : IsWord f.methodName.toList
  plain : ∀ c ∈ f.methodName.toList, c ≠ '@' ∧ c ≠ ':'

/-- Behind the bytecode index a comment ends or goes on with a blank. -/
theorem eq_of_mem_head?_lineText {line : Option UInt32} {c : Char}
    (h : c ∈ (lineText line).head?) : c = ' ' := by
  cases line with
  | none => cases h
  | some n => exact (Option.some.inj h).symm

end ScopeFrame

/-! ### Digits -/

/-- A decimal digit is one of all scripts. -/
theorem isAnyDigit_of_isDigit {c : Char} (h : isDigit c = true) : isAnyDigit c = true := by
  have hrange : '0' ≤ c ∧ c ≤ '9' := by
    by_contra hout
    rw [isDigit, digit?, if_neg hout] at h
    cases h
  have hlow : 48 ≤ c.toNat := hrange.1
  have hhigh : c.toNat ≤ 57 := hrange.2
  simp only [isAnyDigit, zeros, List.any_cons, Bool.or_eq_true, Bool.and_eq_true, decide_eq_true_eq]
  exact .inl ⟨hlow, by omega⟩

/-- Without a sign the digits are all that is read. -/
theorem bciText?_cons {c : Char} (hsign : c ≠ '-') (rest : List Char) :
    bciText? (c :: rest) =
      if ((c :: rest).takeWhile isAnyDigit).isEmpty then none
      else some ((c :: rest).takeWhile isAnyDigit, (c :: rest).dropWhile isAnyDigit) := by
  simp [bciText?, hsign]

/-- An integer is read up to where its digits end. -/
theorem bciText?_signedDecimal (i : Int) {after : List Char}
    (hafter : ∀ c ∈ after.head?, isAnyDigit c = false) :
    bciText? (signedDecimal i ++ after) = some (signedDecimal i, after) := by
  have hdigits : ∀ c ∈ decimal i.natAbs, isAnyDigit c = true := fun c hc =>
    isAnyDigit_of_isDigit (isDigit_of_mem_decimal c hc)
  have hends : after.takeWhile isAnyDigit = [] ∧ after.dropWhile isAnyDigit = after := by
    cases after with
    | nil => exact ⟨rfl, rfl⟩
    | cons c rest =>
      have hc : ¬ isAnyDigit c = true := by simp [hafter c rfl]
      exact ⟨List.takeWhile_cons_of_neg hc, List.dropWhile_cons_of_neg hc⟩
  have hrun : (decimal i.natAbs ++ after).takeWhile isAnyDigit = decimal i.natAbs := by
    rw [List.takeWhile_append_of_pos hdigits, hends.1, List.append_nil]
  have hrest : (decimal i.natAbs ++ after).dropWhile isAnyDigit = after := by
    rw [List.dropWhile_append_of_pos hdigits, hends.2]
  obtain ⟨c, rest, hn, hdigit⟩ := exists_digit_decimal i.natAbs
  have hsome : (decimal i.natAbs).isEmpty = false := by rw [hn, List.isEmpty_cons]
  unfold signedDecimal
  split_ifs
  · simp [bciText?, hrun, hrest, hsome]
  · have hsign : c ≠ '-' := by
      rintro rfl
      cases hdigit
    rw [hn, List.cons_append] at hrun hrest ⊢
    rw [bciText?_cons hsign, hrun, hrest]
    rfl

/-! ### The method -/

/-- What a name of a method goes on with. -/
abbrev goesOn (c : Char) : Bool := !(c == '@' || isBlank c)

/-- A name without blanks and the sign that ends it is read up to that sign. -/
theorem methodAtBci?_eq {name : List Char} (hname : IsWord name) (hplain : ∀ c ∈ name, c ≠ '@')
    (i : Int) {after : List Char} (hafter : ∀ c ∈ after.head?, isAnyDigit c = false) :
    methodAtBci? (name ++ '@' :: (signedDecimal i ++ after)) =
      some (name, signedDecimal i, after) := by
  have hkept : ∀ c ∈ name, goesOn c = true := fun c hc => by simp [hplain c hc, hname.unbroken c hc]
  have hends : ¬ goesOn '@' = true := by decide
  have htake : (name ++ '@' :: (signedDecimal i ++ after)).takeWhile goesOn = name := by
    rw [List.takeWhile_append_of_pos hkept, List.takeWhile_cons_of_neg hends, List.append_nil]
  have hdrop : (name ++ '@' :: (signedDecimal i ++ after)).dropWhile goesOn =
      '@' :: (signedDecimal i ++ after) := by
    rw [List.dropWhile_append_of_pos hkept, List.dropWhile_cons_of_neg hends]
  unfold methodAtBci?
  simp only [htake, hdrop, bciText?_signedDecimal i hafter, Option.map_some]
  exact if_neg (by simpa using hname.ne_nil)

/-! ### The class -/

/-- What is read if the class ends in front of a character, and what follows it begins a method. -/
def endingAt? (before : List Char) (c : Char) (rest : List Char) :
    Option (List Char × List Char × List Char × List Char) :=
  match before, c, rest with
  | _ :: _, ':', ':' :: after =>
    (methodAtBci? after).map fun (name, bci, tail) => (before.reverse, name, bci, tail)
  | _, _, _ => none

/-- The class goes on as far as it can. -/
theorem frameFrom?_cons (before : List Char) (c : Char) (rest : List Char) :
    frameFrom? before (c :: rest) =
      if isBlank c then none else (frameFrom? (c :: before) rest).or (endingAt? before c rest) := by
  show (if isBlank c then none else _) = _
  cases frameFrom? (c :: before) rest <;> rfl

/-- A character that no second colon follows ends no class. -/
theorem frameFrom?_cons_eq_none {before : List Char} {c : Char} {rest : List Char}
    (hlater : frameFrom? (c :: before) rest = none) (hcolons : c = ':' → rest.head? ≠ some ':') :
    frameFrom? before (c :: rest) = none := by
  have hnone : endingAt? before c rest = none := by
    unfold endingAt?
    split
    · exact absurd rfl (hcolons rfl)
    · rfl
  rw [frameFrom?_cons, hlater, hnone, Option.or_none, ite_self]

/-- Where there are no colons up to the end or the next blank no class ends. By induction on the
characters. -/
theorem frameFrom?_eq_none {cs after : List Char} (hcs : ∀ c ∈ cs, c ≠ ':')
    (hafter : ∀ c ∈ after.head?, isBlank c = true) (before : List Char) :
    frameFrom? before (cs ++ after) = none := by
  induction cs generalizing before with
  | nil =>
    cases after with
    | nil => rfl
    | cons c rest => rw [List.nil_append, frameFrom?_cons, if_pos (hafter c rfl)]
  | cons c cs ih =>
    obtain ⟨hc, hrest⟩ := List.forall_mem_cons.mp hcs
    exact frameFrom?_cons_eq_none (ih hrest (c :: before)) fun h => absurd h hc

/-- Two colons end the class in front of them if none behind them do and a method follows. -/
theorem frameFrom?_colons {before rest name bci after : List Char} (hbefore : before ≠ [])
    (hlater : frameFrom? (':' :: before) (':' :: rest) = none)
    (hmethod : methodAtBci? rest = some (name, bci, after)) :
    frameFrom? before (':' :: ':' :: rest) = some (before.reverse, name, bci, after) := by
  obtain ⟨c, tail, rfl⟩ := List.exists_cons_of_ne_nil hbefore
  rw [frameFrom?_cons, hlater, Option.none_or, endingAt?, hmethod]
  rfl

/-- What is found behind some characters of a class is found from them on. By induction on the
characters. -/
theorem frameFrom?_append {cs rest before : List Char}
    {found : List Char × List Char × List Char × List Char} (hcs : ∀ c ∈ cs, isBlank c = false)
    (h : frameFrom? (cs.reverse ++ before) rest = some found) :
    frameFrom? before (cs ++ rest) = some found := by
  induction cs generalizing before with
  | nil => exact h
  | cons c cs ih =>
    obtain ⟨hc, hrest⟩ := List.forall_mem_cons.mp hcs
    rw [List.reverse_cons, List.append_assoc, List.singleton_append] at h
    rw [List.cons_append, frameFrom?_cons, ih hrest h, hc]
    rfl

/-- A class is read up to the two colons in front of a name without colons. -/
theorem frameFrom?_eq {cls name : List Char} (hcls : IsWord cls) (hname : IsWord name)
    (hplain : ∀ c ∈ name, c ≠ '@' ∧ c ≠ ':') (i : Int) {after : List Char}
    (hafter : ∀ c ∈ after.head?, isBlank c = true)
    (hnoDigit : ∀ c ∈ after.head?, isAnyDigit c = false) :
    frameFrom? [] (cls ++ ':' :: ':' :: (name ++ '@' :: (signedDecimal i ++ after))) =
      some (cls, name, signedDecimal i, after) := by
  have hmethod := methodAtBci?_eq hname (fun c hc => (hplain c hc).1) i hnoDigit
  -- Neither the name nor the index has a colon in it.
  have hnoColon : ∀ c ∈ name ++ '@' :: signedDecimal i, c ≠ ':' := by
    intro c hc
    rw [List.mem_append, List.mem_cons] at hc
    rcases hc with hname | rfl | hindex
    · exact (hplain c hname).2
    · decide
    · rintro rfl
      exact absurd (mem_signedDecimal hindex) (by decide)
  have hlater (before : List Char) :
      frameFrom? before (':' :: (name ++ '@' :: (signedDecimal i ++ after))) = none := by
    have htail := frameFrom?_eq_none hnoColon hafter (':' :: before)
    rw [List.append_assoc, List.cons_append] at htail
    refine frameFrom?_cons_eq_none htail fun _ => ?_
    obtain ⟨c, rest, rfl⟩ := List.exists_cons_of_ne_nil hname.ne_nil
    simpa using (hplain c List.mem_cons_self).2
  apply frameFrom?_append hcls.unbroken
  rw [List.append_nil]
  have hfound := frameFrom?_colons (List.reverse_ne_nil_iff.mpr hcls.ne_nil) (hlater _) hmethod
  rwa [List.reverse_reverse] at hfound

/-! ### The comment -/

/-- Blanks are dropped up to the first other character. -/
theorem trimStart_append {blanks : List Char} (hblanks : ∀ b ∈ blanks, isBlank b = true) {c : Char}
    (hc : isBlank c = false) (rest : List Char) : trimStart (blanks ++ c :: rest) = c :: rest := by
  unfold trimStart
  rw [List.dropWhile_append_of_pos hblanks, List.dropWhile_cons_of_neg (by simp [hc])]

/-- One blank is dropped. -/
theorem trimStart_blank {c : Char} (hc : isBlank c = false) (rest : List Char) :
    trimStart (' ' :: c :: rest) = c :: rest := by
  have hblank : ∀ b ∈ [' '], isBlank b = true := List.forall_mem_singleton.mpr rfl
  exact trimStart_append hblank hc rest

/-- A frame starts behind the semicolon, the hyphen and the blank behind it. -/
theorem frameText?_eq {blanks : List Char} (hblanks : ∀ b ∈ blanks, isBlank b = true)
    {cls : List Char} (hcls : IsWord cls) (rest : List Char) :
    frameText? (blanks ++ ("; - ".toList ++ (cls ++ rest))) = some (cls ++ rest) := by
  obtain ⟨c, tail, rfl⟩ := List.exists_cons_of_ne_nil hcls.ne_nil
  have hc := hcls.unbroken c List.mem_cons_self
  have hstart : trimStart (blanks ++ ("; - ".toList ++ (c :: tail ++ rest))) =
      ';' :: ' ' :: '-' :: ' ' :: (c :: tail ++ rest) := trimStart_append hblanks rfl _
  have hhyphen : trimStart (' ' :: '-' :: ' ' :: (c :: tail ++ rest)) =
      '-' :: ' ' :: (c :: tail ++ rest) := trimStart_blank rfl _
  unfold frameText?
  simp only [hstart, hhyphen]
  exact congrArg some (trimStart_blank hc (tail ++ rest))

/-- A source line is read back. -/
theorem lineText?_lineText (line : Option UInt32) :
    ((lineText? (ScopeFrame.lineText line)).bind natural?).bind word32? = line := by
  cases line with
  | none => rfl
  | some n =>
    have hdigits : ∀ c ∈ decimal n.toNat, isAnyDigit c = true := fun c hc =>
      isAnyDigit_of_isDigit (isDigit_of_mem_decimal c hc)
    have hends : ¬ isAnyDigit ')' = true := by decide
    have hstart : trimStart (ScopeFrame.lineText (some n)) =
        '(' :: 'l' :: 'i' :: 'n' :: 'e' :: ' ' :: (decimal n.toNat ++ [')']) :=
      trimStart_blank rfl _
    have hrun : (decimal n.toNat ++ [')']).takeWhile isAnyDigit = decimal n.toNat := by
      rw [List.takeWhile_append_of_pos hdigits, List.takeWhile_cons_of_neg hends, List.append_nil]
    have hrest : (decimal n.toNat ++ [')']).dropWhile isAnyDigit = [')'] := by
      rw [List.dropWhile_append_of_pos hdigits, List.dropWhile_cons_of_neg hends]
    obtain ⟨c, rest, hn, _⟩ := exists_digit_decimal n.toNat
    have hread : lineText? (ScopeFrame.lineText (some n)) = some (decimal n.toNat) := by
      unfold lineText?
      simp only [hstart, hrun, hrest, List.head?_cons, if_true]
      rw [hn]
      rfl
    rw [hread, Option.bind_some, natural?_decimal, Option.bind_some, word32?_toNat]

/-- Scope comments are read back. Let the class and the method of a frame be words, and let the
method have neither of the signs `@` and `:` in it. Then the comment that names the frame, behind
any blanks, is read as that frame, whatever colons, digits and signs the class has in it: the class,
the method, the bytecode index with its sign, and the source line if there is one. -/
theorem parseScope?_text {f : ScopeFrame} (hnamed : f.WellNamed) {blanks : List Char}
    (hblanks : ∀ b ∈ blanks, isBlank b = true) :
    parseScope? (String.ofList (blanks ++ f.text)) = some f := by
  have hbehind : ∀ c ∈ (ScopeFrame.lineText f.line).head?, c = ' ' := fun c hc =>
    ScopeFrame.eq_of_mem_head?_lineText hc
  have hframe := frameText?_eq hblanks hnamed.className (':' :: ':' :: (f.methodName.toList ++
    '@' :: (signedDecimal f.bci.toInt ++ ScopeFrame.lineText f.line)))
  have hfound := frameFrom?_eq hnamed.className hnamed.methodName hnamed.plain f.bci.toInt
    (fun c hc => hbehind c hc ▸ rfl) (fun c hc => hbehind c hc ▸ rfl)
  unfold parseScope?
  rw [String.toList_ofList, ScopeFrame.text, hframe, Option.bind_some, hfound]
  simp only [integer?_signedDecimal, Option.bind_some, signed32?_toInt, Option.map_some,
    lineText?_lineText, String.ofList_toList]

/-- The class has two colons, an index and a third colon at its end, and is read back whole. -/
theorem parseScope?_text_colons :
    let f : ScopeFrame := ⟨"x::y@7:", "<init>", -1, some 1500⟩
    f.WellNamed ∧ parseScope? "\t ; - x::y@7:::<init>@-1 (line 1500)" = some f := by
  intro f
  have hplain : f.methodName.toList.all (fun c => decide (c ≠ '@' ∧ c ≠ ':')) = true := by decide
  have hnamed : f.WellNamed :=
    ⟨by decide, by decide, by simpa only [List.all_eq_true, decide_eq_true_eq] using hplain⟩
  have htext : String.ofList (['\t', ' '] ++ f.text) =
      "\t ; - x::y@7:::<init>@-1 (line 1500)" := by decide +kernel
  have hblanks : ∀ b ∈ ['\t', ' '], isBlank b = true := List.all_eq_true.mp rfl
  exact ⟨hnamed, htext ▸ parseScope?_text hnamed hblanks⟩

end CompileLog.Listing
