import CompileLog.Text.Blank
import CompileLog.Markup.Reference

/-!
# Names and attributes of a tag

The content of a start tag is a name and then attributes. What is no attribute is
skipped: scanning goes on behind it, and the attributes after it are kept.
-/

namespace CompileLog.Markup

/-- A blank of the markup: space, tab, carriage return or line feed. -/
def isSpace (b : UInt8) : Bool :=
  b == 0x20 || b == 0x09 || b == 0x0D || b == 0x0A

/-- The equals sign. -/
def equals : UInt8 := 0x3D

/-- A quotation mark, single or double. -/
def isQuote (b : UInt8) : Bool := b == 0x27 || b == 0x22

/-- The name at the front of a tag's content: everything up to the first blank. -/
def tagName (content : List UInt8) : List UInt8 :=
  content.takeWhile fun b => !isSpace b

/-- One attribute, its value still raw. -/
structure RawAttribute where
  /-- The key. -/
  key : List UInt8
  /-- The bytes between the quotes. -/
  value : List UInt8

/-- The outcome of looking for one attribute. -/
inductive AttributeStep where
  /-- An attribute was read; the rest follows its closing quote. -/
  | found (attr : RawAttribute) (rest : List UInt8)
  /-- Something else stood there; scanning goes on at the rest. -/
  | skipped (rest : List UInt8)
  /-- Nothing more can be read. -/
  | done

/-- What follows a key and its equals sign: a quoted value. Without a quote the
attribute is skipped up to the next blank; without the closing quote nothing follows. -/
def attributeValue (key afterEquals : List UInt8) : AttributeStep :=
  match afterEquals.dropWhile isSpace with
  | [] => .done
  | b :: rest =>
    if isQuote b then
      match rest.dropWhile (· ≠ b) with
      | [] => .done
      | _ :: after => .found ⟨key, rest.takeWhile (· ≠ b)⟩ after
    else .skipped (rest.dropWhile fun c => !isSpace c)

/-- Looks for one attribute. The first byte after blanks always belongs to the key; the
key then runs up to an equals sign or a blank, and an equals sign must follow it. -/
def attributeStep (content : List UInt8) : AttributeStep :=
  match content.dropWhile isSpace with
  | [] => .done
  | first :: rest =>
    let inKey := fun b : UInt8 => !(b == equals || isSpace b)
    let key := first :: rest.takeWhile inKey
    match (rest.dropWhile inKey).dropWhile isSpace with
    | [] => .done
    | b :: after => if b = equals then attributeValue key after else .skipped (b :: after)

theorem length_attributeValue_lt {key afterEquals rest : List UInt8} {attr : RawAttribute}
    (h : attributeValue key afterEquals = .found attr rest) :
    rest.length < afterEquals.length := by
  unfold attributeValue at h
  have h₁ := Text.length_dropWhile_le isSpace afterEquals
  split at h
  · cases h
  · next b tail heq =>
    rw [heq] at h₁
    simp only [List.length_cons] at h₁
    split at h
    · have h₂ := Text.length_dropWhile_le (fun x => decide (x ≠ b)) tail
      split at h
      · cases h
      · next heq' =>
        cases h
        rw [heq'] at h₂
        simp only [List.length_cons] at h₂
        omega
    · cases h

/-- Looking for an attribute leaves less than there was. -/
theorem length_attributeStep_lt {content rest : List UInt8}
    (h : (∃ attr, attributeStep content = .found attr rest) ∨
      attributeStep content = .skipped rest) :
    rest.length < content.length := by
  unfold attributeStep at h
  have h₁ := Text.length_dropWhile_le isSpace content
  split at h
  · simp at h
  · next first tail heq =>
    rw [heq] at h₁
    simp only [List.length_cons] at h₁
    have h₂ := Text.length_dropWhile_le (fun b => !(b == equals || isSpace b)) tail
    have h₃ := Text.length_dropWhile_le isSpace
      (tail.dropWhile fun b => !(b == equals || isSpace b))
    simp only at h
    split at h
    · simp at h
    · next b after heq' =>
      rw [heq'] at h₃
      simp only [List.length_cons] at h₃
      split at h
      · rcases h with ⟨attr, h⟩ | h
        · have := length_attributeValue_lt h
          omega
        · unfold attributeValue at h
          have h₄ := Text.length_dropWhile_le isSpace after
          split at h
          · cases h
          · next heq'' =>
            rw [heq''] at h₄
            simp only [List.length_cons] at h₄
            split at h
            · split at h <;> cases h
            · next tail' _ =>
              cases h
              have h₅ := Text.length_dropWhile_le (fun c => !isSpace c) tail'
              omega
      · rcases h with ⟨attr, h⟩ | h
        · cases h
        · cases h
          simp only [List.length_cons]
          omega

/-- All attributes behind a tag's name, in document order. -/
def rawAttributes (content : List UInt8) : List RawAttribute :=
  match _step : attributeStep content with
  | .done => []
  | .skipped rest => rawAttributes rest
  | .found attr rest => attr :: rawAttributes rest
termination_by content.length
decreasing_by
  · exact length_attributeStep_lt (.inr _step)
  · exact length_attributeStep_lt (.inl ⟨_, _step⟩)

/-- The attributes of a tag's content as texts, in document order. -/
def attributes (content : List UInt8) : List (String × String) :=
  (rawAttributes (content.dropWhile fun b => !isSpace b)).map fun attr =>
    (String.ofList (Text.Utf8.decodeLossy attr.key), unescape attr.value)

end CompileLog.Markup
