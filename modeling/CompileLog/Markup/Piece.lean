import CompileLog.Markup.Attribute

/-!
# Pieces of markup

A log is cut into pieces from left to right: tags, texts, and what is passed over without
a word, which is comments, processing instructions and document types. A piece ends where
its own bytes say so, whatever follows; only a text at the very end of the input may yet
grow. So cutting the input short never changes an earlier piece.
-/

namespace CompileLog.Markup

/-- `<` -/
def openAngle : UInt8 := 0x3C

/-- `>` -/
def closeAngle : UInt8 := 0x3E

/-- One piece of the input. -/
inductive Piece where
  /-- A start tag, or an empty element: what stands between the angles. -/
  | tag (content : List UInt8)
  /-- An end tag: what stands behind the slash. -/
  | endTag (content : List UInt8)
  /-- Characters between tags, without the blanks around them and still raw. -/
  | text (raw : List UInt8)
  /-- Characters of a section that holds no markup. -/
  | cdata (raw : List UInt8)
  /-- A comment, a processing instruction or a document type. -/
  | silent
  deriving DecidableEq

/-- Why the input cannot be read further. -/
inductive Fault where
  /-- The input ends inside a tag. -/
  | unclosedTag
  /-- What follows `<!` starts nothing known. -/
  | unknownMarkup
  /-- A comment has no end, or a broken start. -/
  | unclosedComment
  /-- A character section has no end, or a broken start. -/
  | unclosedSection
  /-- A document type has no end, or a broken start. -/
  | unclosedDoctype
  /-- A processing instruction has no end. -/
  | unclosedInstruction
  /-- A document type names no type. -/
  | namelessDoctype
  /-- The system gives no bytes, for this reason. -/
  | withheld (reason : String)
  deriving DecidableEq

/-- The text of a fault. -/
def Fault.message : Fault → String
  | .unclosedTag => "syntax error: tag not closed: `>` not found before end of input"
  | .unknownMarkup => "syntax error: unknown or missed symbol in markup"
  | .unclosedComment => "syntax error: comment not closed: `-->` not found before end of input"
  | .unclosedSection => "syntax error: CDATA not closed: `]]>` not found before end of input"
  | .unclosedDoctype => "syntax error: DOCTYPE not closed: `>` not found before end of input"
  | .unclosedInstruction =>
    "syntax error: processing instruction or xml declaration not closed: `?>` not found " ++
      "before end of input"
  | .namelessDoctype =>
    "ill-formed document: `<!DOCTYPE>` declaration does not contain a name of a document type"
  | .withheld reason => "I/O error: " ++ reason

/-- What stands at the front of the input. `width` counts the bytes used up, blanks in
front included. -/
inductive Outcome where
  /-- A piece, and the input behind it. -/
  | piece (piece : Piece) (width : Nat) (rest : List UInt8)
  /-- The input ends here. -/
  | ended
  /-- The input cannot be read further. -/
  | broken (fault : Fault) (width : Nat)

/-- The content of a tag up to the `>` that stands outside quotes, and the input behind
it. `quote` is the quotation mark that is open. -/
def tagContent? (quote : Option UInt8) : List UInt8 → Option (List UInt8 × List UInt8)
  | [] => none
  | b :: rest =>
    match quote with
    | none =>
      if b = closeAngle then some ([], rest)
      else
        (tagContent? (if isQuote b then some b else none) rest).map fun (content, after) =>
          (b :: content, after)
    | some q =>
      (tagContent? (if b = q then none else some q) rest).map fun (content, after) =>
        (b :: content, after)

/-- The bytes up to the first `>` at which `ends` holds of the bytes before it, given last
first, and the input behind it. -/
def upToAngle? (ends : List UInt8 → Bool) (before : List UInt8) :
    List UInt8 → Option (List UInt8 × List UInt8)
  | [] => none
  | b :: rest =>
    if b = closeAngle ∧ ends before then some (before.reverse, rest)
    else upToAngle? ends (b :: before) rest

/-- A processing instruction ends behind a question mark. -/
def endsInstruction (before : List UInt8) : Bool := before.head? == some 0x3F

/-- A comment ends behind two hyphens, and the exclamation mark with the hyphens of both
ends make five bytes. -/
def endsComment (before : List UInt8) : Bool :=
  [0x2D, 0x2D].isPrefixOf before && 5 ≤ before.length

/-- A character section ends behind two brackets. -/
def endsSection (before : List UInt8) : Bool := [0x5D, 0x5D].isPrefixOf before

/-- The content of a document type up to the `>` that is none of an inner `<`, and the input
behind it. `depth` is the number of inner `<` that have no `>` yet. -/
def doctypeContent? (depth : Nat) : List UInt8 → Option (List UInt8 × List UInt8)
  | [] => none
  | b :: rest =>
    if b = closeAngle ∧ depth = 0 then some ([], rest)
    else
      let depth :=
        if b = openAngle then depth + 1 else if b = closeAngle then depth - 1 else depth
      (doctypeContent? depth rest).map fun (content, after) => (b :: content, after)

/-- Whether bytes start with the given ones, letters compared without case. -/
def startsUncased (start bytes : List UInt8) : Bool :=
  let lower := fun b : UInt8 => if 0x41 ≤ b && b ≤ 0x5A then b + 32 else b
  (start.map lower).isPrefixOf (bytes.map lower)

/-- The bytes of an ASCII text. -/
def ascii (text : String) : List UInt8 := text.toList.map Char.toUInt8

/-- What stands behind `<!`; `input` starts with the exclamation mark. -/
def declaration (width : Nat) (input : List UInt8) : Outcome :=
  let finish (fault : Fault) (found : Option (List UInt8 × List UInt8))
      (read : List UInt8 → Except Fault Piece) : Outcome :=
    match found with
    | none => .broken fault (width + input.length)
    | some (content, rest) =>
      match read content with
      | .ok piece => .piece piece (width + content.length + 1) rest
      | .error fault => .broken fault (width + content.length + 1)
  match input.drop 1 with
  | [] => .broken .unknownMarkup width
  | b :: _ =>
    if b = 0x5B then
      finish .unclosedSection (upToAngle? endsSection [] input) fun content =>
        if (ascii "![CDATA[").isPrefixOf content then
          .ok (.cdata ((content.drop 8).take (content.length - 10)))
        else .error .unclosedSection
    else if b = 0x2D then
      finish .unclosedComment (upToAngle? endsComment [] input) fun content =>
        if (ascii "!--").isPrefixOf content then .ok .silent else .error .unclosedComment
    else if b = 0x44 ∨ b = 0x64 then
      finish .unclosedDoctype (doctypeContent? 0 input) fun content =>
        if startsUncased (ascii "!DOCTYPE") content then
          if (content.drop 8).all isSpace then .error .namelessDoctype else .ok .silent
        else .error .unclosedDoctype
    else .broken .unknownMarkup width

/-- An end tag's name: without the blanks at its end, unless it has nothing else. -/
def endTagName (content : List UInt8) : List UInt8 :=
  match content.reverse.dropWhile isSpace with
  | [] => content
  | kept => kept.reverse

/-- What stands behind a `<`, of which `width` bytes are used up already. -/
def markup (width : Nat) (input : List UInt8) : Outcome :=
  match input with
  | [] => .broken .unclosedTag width
  | b :: _ =>
    if b = 0x21 then declaration width input
    else if b = 0x3F then
      match upToAngle? endsInstruction [] input with
      | none => .broken .unclosedInstruction (width + input.length)
      | some (content, after) =>
        if 2 ≤ content.length then .piece .silent (width + content.length + 1) after
        else .broken .unclosedInstruction (width + content.length + 1)
    else
      match tagContent? none input with
      | none => .broken .unclosedTag (width + input.length)
      | some (content, after) =>
        if b = 0x2F then
          .piece (.endTag (endTagName (content.drop 1))) (width + content.length + 1) after
        else .piece (.tag content) (width + content.length + 1) after

/-- The bytes without the blanks at their end. -/
def trimEnd (bytes : List UInt8) : List UInt8 :=
  (bytes.reverse.dropWhile isSpace).reverse

/-- What stands at the front of the input. Blanks in front are passed over. -/
def scan (input : List UInt8) : Outcome :=
  let blanks := (input.takeWhile isSpace).length
  match input.dropWhile isSpace with
  | [] => .ended
  | b :: rest =>
    if b = openAngle then markup (blanks + 1) rest
    else
      let run := b :: rest.takeWhile (· ≠ openAngle)
      .piece (.text (trimEnd run)) (blanks + run.length) (rest.dropWhile (· ≠ openAngle))

/-- A tag's content, its closing angle and what follows make up the input. -/
theorem eq_of_tagContent? {quote : Option UInt8} {input content rest : List UInt8}
    (h : tagContent? quote input = some (content, rest)) :
    input = content ++ closeAngle :: rest := by
  induction input generalizing quote content with
  | nil => simp [tagContent?] at h
  | cons b input ih =>
    unfold tagContent? at h
    split at h
    · split at h
      · next hb => simp at h; obtain ⟨rfl, rfl⟩ := h; simp [hb]
      · obtain ⟨⟨c, r⟩, hcr, h⟩ := Option.map_eq_some_iff.1 h
        cases h
        simp [← ih hcr]
    · obtain ⟨⟨c, r⟩, hcr, h⟩ := Option.map_eq_some_iff.1 h
      cases h
      simp [← ih hcr]

/-- A document type's content, its closing angle and what follows make up the input. -/
theorem eq_of_doctypeContent? {depth : Nat} {input content rest : List UInt8}
    (h : doctypeContent? depth input = some (content, rest)) :
    input = content ++ closeAngle :: rest := by
  induction input generalizing depth content with
  | nil => simp [doctypeContent?] at h
  | cons b input ih =>
    unfold doctypeContent? at h
    split at h
    · next hb =>
      simp only [Option.some.injEq, Prod.mk.injEq] at h
      obtain ⟨rfl, rfl⟩ := h
      simp [hb.1]
    · obtain ⟨⟨c, r⟩, hcr, h⟩ := Option.map_eq_some_iff.1 h
      cases h
      simp [← ih hcr]

/-- The bytes read, the angle found and what follows make up the input. -/
theorem eq_of_upToAngle? {ends : List UInt8 → Bool} {before input content rest : List UInt8}
    (h : upToAngle? ends before input = some (content, rest)) :
    before.reverse ++ input = content ++ closeAngle :: rest := by
  induction input generalizing before with
  | nil => simp [upToAngle?] at h
  | cons b input ih =>
    unfold upToAngle? at h
    split at h
    · next hb =>
      simp only [Option.some.injEq, Prod.mk.injEq] at h
      obtain ⟨rfl, rfl⟩ := h
      rw [hb.1]
    · simpa using ih h

/-- Behind a declaration less is left. -/
theorem length_declaration_lt {width w : Nat} {input rest : List UInt8} {piece : Piece}
    (h : declaration width input = .piece piece w rest) : rest.length < input.length := by
  have angle : ∀ {ends content after}, upToAngle? ends [] input = some (content, after) →
      after.length < input.length := by
    intro ends content after found
    have := congrArg List.length (eq_of_upToAngle? found)
    simp at this
    omega
  have doctype : ∀ {content after}, doctypeContent? 0 input = some (content, after) →
      after.length < input.length := by
    intro content after found
    have := congrArg List.length (eq_of_doctypeContent? found)
    simp at this
    omega
  unfold declaration at h
  simp only at h
  repeat' split at h
  all_goals first
    | (cases h; apply angle; assumption)
    | (cases h; apply doctype; assumption)
    | cases h

/-- Behind a piece of markup less is left. -/
theorem length_markup_lt {width w : Nat} {input rest : List UInt8} {piece : Piece}
    (h : markup width input = .piece piece w rest) : rest.length < input.length := by
  unfold markup at h
  split at h
  · cases h
  · split at h
    · exact length_declaration_lt h
    · split at h
      · split at h
        · cases h
        · next hup =>
          have := congrArg List.length (eq_of_upToAngle? hup)
          simp at this
          split at h
          · cases h; simp; omega
          · cases h
      · split at h
        · cases h
        · next htag =>
          have := congrArg List.length (eq_of_tagContent? htag)
          simp at this
          split at h <;> (cases h; simp; omega)

/-- Behind a piece less is left. -/
theorem length_scan_lt {w : Nat} {input rest : List UInt8} {piece : Piece}
    (h : scan input = .piece piece w rest) : rest.length < input.length := by
  unfold scan at h
  have h₁ := Text.length_dropWhile_le isSpace input
  simp only at h
  split at h
  · cases h
  · next b tail heq =>
    rw [heq] at h₁
    simp only [List.length_cons] at h₁
    split at h
    · have := length_markup_lt h
      omega
    · cases h
      have := Text.length_dropWhile_le (fun x => decide (x ≠ openAngle)) tail
      omega

end CompileLog.Markup
