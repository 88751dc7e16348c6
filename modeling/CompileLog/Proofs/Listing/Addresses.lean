import CompileLog.Listing.Parser
import CompileLog.Proofs.Text.Lines
import CompileLog.Proofs.Text.Numeral
import Mathlib.Data.List.DropRight
import Mathlib.Data.List.Infix
import Mathlib.Data.List.TakeWhile

/-!
# Address lines are kept

Reading a listing drops no address line: the addresses of its instructions are those that its lines
start with, and the bytes of a listing that is not disassembled are, in order, those behind these
addresses. An address with nothing behind it may have its bytes on the line below.
-/

namespace CompileLog.Listing

open Text

/-! ### Lines that start with an address -/

/-- A line starts with the hexadecimal digits of an address, and a rest is behind their colon. -/
structure IsAddressed (line digits rest : List Char) : Prop where
  /-- The digits stand between a mark and a colon. -/
  spelled : line = '0' :: 'x' :: (digits ++ ':' :: rest)
  /-- There is a digit. -/
  ne_nil : digits ≠ []
  /-- All digits are hexadecimal. -/
  hex : ∀ c ∈ digits, isHexDigit c = true

/-- An address line is recognised as such, and the rest of it is read without the blanks in front.
-/
theorem addressLine?_eq_some_iff {line digits body : List Char} :
    addressLine? line = some (digits, body) ↔
      ∃ rest, IsAddressed line digits rest ∧ body = trimStart rest := by
  constructor
  · intro h
    unfold addressLine? at h
    split at h
    · next behind =>
      simp only at h
      split_ifs at h with hempty
      split at h
      · next rest hrest =>
        obtain ⟨rfl, rfl⟩ := Prod.mk.inj (Option.some.inj h)
        refine ⟨rest, ⟨?_, ?_, fun c hc => List.mem_takeWhile_imp hc⟩, rfl⟩
        · rw [← hrest, List.takeWhile_append_dropWhile]
        · exact fun hnil => hempty (List.isEmpty_iff.mpr hnil)
      · cases h
    · cases h
  · rintro ⟨rest, ⟨rfl, hne, hhex⟩, rfl⟩
    have hcolon : isHexDigit ':' = false := rfl
    have htake : (digits ++ ':' :: rest).takeWhile isHexDigit = digits := by
      rw [List.takeWhile_append_of_pos hhex]
      simp [hcolon]
    have hdrop : (digits ++ ':' :: rest).dropWhile isHexDigit = ':' :: rest := by
      rw [List.dropWhile_append_of_pos hhex]
      simp [hcolon]
    rw [addressLine?]
    simp only [htake, hdrop]
    rw [if_neg (by simpa using hne)]

/-- The address of a line, if it starts with one below 2^64, and what is behind its colon. -/
def address? (line : List Char) : Option (UInt64 × List Char) :=
  (addressLine? line).bind fun (digits, body) =>
    ((hexDigits? digits).bind word64?).map fun address => (address, body)

/-- A line has an address exactly if it starts with hexadecimal digits that stand for it. -/
theorem address?_eq_some_iff {line body : List Char} {address : UInt64} :
    address? line = some (address, body) ↔
      ∃ digits rest, IsAddressed line digits rest ∧
        numberOf 16 hexDigit? digits = address.toNat ∧ body = trimStart rest := by
  unfold address?
  rw [Option.bind_eq_some_iff]
  constructor
  · rintro ⟨⟨digits, body'⟩, hline, hvalue⟩
    obtain ⟨address', hword, heq⟩ := Option.map_eq_some_iff.mp hvalue
    obtain ⟨rfl, rfl⟩ := Prod.mk.inj heq
    obtain ⟨rest, hrest, hbody⟩ := addressLine?_eq_some_iff.mp hline
    rw [hexDigits?_eq hrest.ne_nil hrest.hex, Option.bind_some, word64?_eq_some_iff] at hword
    exact ⟨digits, rest, hrest, hword.2.symm, hbody⟩
  · rintro ⟨digits, rest, hrest, hvalue, hbody⟩
    refine ⟨(digits, body), addressLine?_eq_some_iff.mpr ⟨rest, hrest, hbody⟩, ?_⟩
    have hword : word64? (numberOf 16 hexDigit? digits) = some address :=
      word64?_eq_some_iff.mpr ⟨hvalue ▸ address.toNat_lt_size, hvalue.symm⟩
    simp only [hexDigits?_eq hrest.ne_nil hrest.hex, Option.bind_some, hword, Option.map_some]

/-- The address of an address line is that of its digits. -/
theorem address?_eq {line digits body : List Char}
    (h : addressLine? line = some (digits, body)) :
    address? line = ((hexDigits? digits).bind word64?).map fun address => (address, body) := by
  rw [address?, h, Option.bind_some]

/-- It has one if they stand for one. -/
theorem address?_of_word {line digits body : List Char} {address : UInt64}
    (h : addressLine? line = some (digits, body))
    (hword : (hexDigits? digits).bind word64? = some address) :
    address? line = some (address, body) := by
  rw [address?_eq h, hword, Option.map_some]

/-- A line that can be the rest of the one above has no address. -/
theorem address?_of_canContinue {line : List Char} (h : canContinue line = true) :
    address? line = none := by
  rw [Option.eq_none_iff_forall_ne_some]
  rintro ⟨address, body⟩ haddress
  obtain ⟨digits, rest, hrest, -⟩ := address?_eq_some_iff.mp haddress
  rw [hrest.spelled] at h
  simp [canContinue] at h

/-! ### Instructions read so far -/

namespace Draft

/-- The lines read so far. -/
def printed (d : Draft) : List Line := d.finish.lines

/-- The lines read so far are those of the finished blocks and of the open one. -/
theorem printed_eq (d : Draft) :
    d.printed = d.blocks.reverse.flatMap Block.lines ++
      (d.block.map fun b => b.lines.reverse).getD [] := by
  unfold printed finish Listing.lines
  cases d.block with
  | none => simp
  | some b => simp [OpenBlock.close]

/-- A new block has no instruction. -/
theorem printed_startBlock (d : Draft) (title : String) :
    (d.startBlock title).printed = d.printed := by
  rw [printed_eq, printed_eq]
  unfold startBlock
  cases d.block with
  | none => simp
  | some b => simp [OpenBlock.close]

/-- Only the last instruction can change. -/
theorem printed_mapLast (d : Draft) (f : Line → Line) :
    (d.mapLast f).printed = d.printed ∨ ∃ front last, d.printed = front ++ [last] ∧
      (d.mapLast f).printed = front ++ [f last] := by
  unfold mapLast
  split
  · next title last before hblock =>
    refine .inr ⟨d.blocks.reverse.flatMap Block.lines ++ before.reverse, last, ?_, ?_⟩
    · simp [printed_eq, hblock]
    · simp [printed_eq]
  · exact .inl rfl

/-- A line is added behind the others, or joined to the last one if that has the same address. -/
theorem printed_addLine (d : Draft) (line : Line) :
    (d.addLine line).printed = d.printed ++ [line] ∨
      ∃ front last, d.printed = front ++ [last] ∧ last.address = line.address ∧
        (d.addLine line).printed = front ++ [last.join line] := by
  unfold addLine
  split
  · next title last before hblock =>
    split
    · next hsame =>
      refine .inr ⟨d.blocks.reverse.flatMap Block.lines ++ before.reverse, last, ?_, hsame, ?_⟩
      · simp [printed_eq, hblock]
      · simp [printed_eq]
    · exact .inl (by simp [printed_eq, hblock])
  · next title hblock => exact .inl (by simp [printed_eq, hblock])
  · next hblock => exact .inl (by simp [printed_eq, hblock])

/-- The address and the bytes of each line read so far. -/
def code (d : Draft) : List (UInt64 × List UInt8) :=
  d.printed.map fun line => (line.address, line.bytes)

/-- What a line says of the method leaves the addresses and the bytes alone. -/
theorem code_note (d : Draft) (line : List Char) : (d.note line).code = d.code := rfl

/-- A change of the last instruction that leaves its address and its bytes alone does so for all. -/
theorem code_mapLast {f : Line → Line} (hf : ∀ line, (f line).address = line.address ∧
    (f line).bytes = line.bytes) (d : Draft) : (d.mapLast f).code = d.code := by
  unfold code
  rcases d.printed_mapLast f with hsame | ⟨front, last, hbefore, hafter⟩
  · rw [hsame]
  · rw [hbefore, hafter, List.map_append, List.map_append, List.map_singleton, List.map_singleton,
      (hf last).1, (hf last).2]

/-- A line without an address leaves the addresses and the bytes alone. -/
theorem code_readOther (d : Draft) (line : List Char) : (d.readOther line).code = d.code := by
  unfold readOther
  split
  · split <;> rfl
  · split
    · rfl
    · exact congrArg (List.map _) (d.printed_startBlock _)
  · refine code_mapLast (fun last => ?_) d
    exact ⟨rfl, rfl⟩
  · split
    · rfl
    · refine code_mapLast (fun last => ?_) d
      split <;> exact ⟨rfl, rfl⟩

/-- An instruction adds its address. -/
theorem mem_code_addLine (d : Draft) (line : Line) (address : UInt64) :
    address ∈ (d.addLine line).code.map Prod.fst ↔
      address ∈ d.code.map Prod.fst ∨ address = line.address := by
  unfold code
  rcases d.printed_addLine line with hadded | ⟨front, last, hbefore, hsame, hafter⟩
  · simp [hadded, eq_comm]
  · simp [hbefore, hafter, Line.join, hsame]

/-- An instruction adds its bytes. -/
theorem flatMap_code_addLine (d : Draft) (line : Line) :
    (d.addLine line).code.flatMap Prod.snd = d.code.flatMap Prod.snd ++ line.bytes := by
  unfold code
  rcases d.printed_addLine line with hadded | ⟨front, last, hbefore, -, hafter⟩
  · simp [hadded]
  · simp [hbefore, hafter, Line.join]

end Draft

/-! ### Reading line after line -/

/-- The code of an address line: what is behind the colon or, with nothing there, the line below
if that can be the rest. -/
def codeOf (body : List Char) (below : List (List Char)) : List Char :=
  match below with
  | next :: _ => (splitComment true (if body.isEmpty && canContinue next then next else body)).1
  | [] => (splitComment true body).1

/-- The bytes of the first of some lines; none if it has no address. -/
def bytesOf : List (List Char) → List UInt8
  | [] => []
  | line :: below =>
    match address? line with
    | some (_, body) => rawBytes (codeOf body below)
    | none => []

/-- What reading lines adds to a listing: the addresses of these lines and, unless the listing is
disassembled, their bytes. -/
structure Draft.Reads (disassembled : Bool) (d d' : Draft) (ls : List (List Char)) : Prop where
  /-- There are the old addresses and those of the lines. -/
  addresses : ∀ address, address ∈ d'.code.map Prod.fst ↔
    address ∈ d.code.map Prod.fst ∨ ∃ line ∈ ls, ∃ body, address? line = some (address, body)
  /-- Behind the old bytes are those of the lines. -/
  bytes : disassembled = false →
    d'.code.flatMap Prod.snd = d.code.flatMap Prod.snd ++ ls.tails.flatMap bytesOf

namespace Draft.Reads

variable {disassembled : Bool} {d d₁ d' : Draft} {line body : List Char} {rest : List (List Char)}
  {address : UInt64}

/-- Nothing is added by no lines. -/
theorem nil : Reads disassembled d d [] :=
  ⟨by simp, by simp [bytesOf]⟩

/-- A line without an address adds nothing. -/
theorem cons_none (hline : address? line = none) (hcode : d₁.code = d.code)
    (h : Reads disassembled d₁ d' rest) : Reads disassembled d d' (line :: rest) := by
  refine ⟨fun address => ?_, fun hraw => ?_⟩
  · rw [h.addresses address, hcode, List.exists_mem_cons_iff, hline]
    simp
  · rw [h.bytes hraw, hcode, List.tails_cons, List.flatMap_cons, bytesOf, hline, List.nil_append]

/-- A line with an address adds it, and its bytes. -/
theorem cons_some (hline : address? line = some (address, body)) (hcode : d₁.code = d.code)
    {added : Line} (haddress : added.address = address)
    (hbytes : disassembled = false → added.bytes = rawBytes (codeOf body rest))
    (h : Reads disassembled (d₁.addLine added) d' rest) :
    Reads disassembled d d' (line :: rest) := by
  refine ⟨fun address' => ?_, fun hraw => ?_⟩
  · rw [h.addresses address', mem_code_addLine, hcode, List.exists_mem_cons_iff, hline, haddress]
    simp [or_assoc, eq_comm]
  · rw [h.bytes hraw, flatMap_code_addLine, hcode, hbytes hraw, List.tails_cons,
      List.flatMap_cons, bytesOf, hline, List.append_assoc]

end Draft.Reads

/-- A line that starts with no address is passed over or kept as text. -/
theorem Draft.code_pass (d : Draft) (line : List Char) :
    (if line.isEmpty then d.note line else (d.note line).readOther line).code = d.code := by
  split
  · rfl
  · exact (d.note line).code_readOther line

/-- The line of an address is at this. -/
theorem address_ofBody (disassembled : Bool) (address : UInt64) (body : List Char) :
    (Line.ofBody disassembled address body).address = address := by
  unfold Line.ofBody
  cases disassembled <;> rfl

/-- Without a disassembler it has the bytes of its code. -/
theorem bytes_ofBody {disassembled : Bool} (hraw : disassembled = false) (address : UInt64)
    (body : List Char) :
    (Line.ofBody disassembled address body).bytes = rawBytes (splitComment true body).1 := by
  rw [hraw]
  rfl

/-- Reading lines adds what stands on them. By induction along the reading: a line that is joined to
the one above is passed over, and has no address itself. -/
theorem Draft.reads_readLines (disassembled : Bool) (d : Draft) (ls : List (List Char)) :
    Draft.Reads disassembled d (d.readLines disassembled ls) ls := by
  fun_induction Draft.readLines disassembled d ls with
  | case1 d => exact .nil
  | case2 d line rest _ hline ih =>
    have hnone : address? line = none := by rw [address?, hline, Option.bind_none]
    exact ih.cons_none hnone (d.code_pass line)
  | case3 d line rest _ digits body hline hvalue ih =>
    have hnone : address? line = none := by rw [address?_eq hline, hvalue, Option.map_none]
    exact ih.cons_none hnone (d.code_note line)
  | case4 d line _ digits body hline address hvalue next rest hjoined ih =>
    have hsome := address?_of_word hline hvalue
    have hnext := address?_of_canContinue (Bool.and_eq_true_iff.mp hjoined).2
    refine (ih.cons_none hnext rfl).cons_some hsome (d.code_note line) (address_ofBody ..) ?_
    intro hraw
    rw [bytes_ofBody hraw, codeOf, if_pos hjoined]
  | case5 d line _ digits body hline address hvalue next rest hapart ih =>
    have hsome := address?_of_word hline hvalue
    refine ih.cons_some hsome (d.code_note line) (address_ofBody ..) ?_
    intro hraw
    rw [bytes_ofBody hraw, codeOf, if_neg hapart]
  | case6 d line _ digits body hline address hvalue =>
    have hsome := address?_of_word hline hvalue
    refine Reads.nil.cons_some hsome (d.code_note line) (address_ofBody ..) ?_
    intro hraw
    rw [bytes_ofBody hraw, codeOf]

/-! ### Whether there was a disassembler -/

namespace Draft

/-- No line says that there was a disassembler. -/
theorem disassembled_note (d : Draft) (line : List Char) :
    (d.note line).facts.disassembled = d.facts.disassembled := by
  unfold note
  cases heading? line <;> cases decodedAddress? line <;> rfl

/-- Nor does an instruction. -/
theorem disassembled_addLine (d : Draft) (line : Line) :
    (d.addLine line).facts.disassembled = d.facts.disassembled := by
  unfold addLine
  split
  · split <;> rfl
  · rfl
  · rfl

/-- A change of the last instruction leaves alone what is known of the method. -/
theorem facts_mapLast (d : Draft) (f : Line → Line) : (d.mapLast f).facts = d.facts := by
  unfold mapLast
  split <;> rfl

/-- Nor does a line without an address. -/
theorem disassembled_readOther (d : Draft) (line : List Char) :
    (d.readOther line).facts.disassembled = d.facts.disassembled := by
  unfold readOther
  split
  · split <;> rfl
  · split <;> rfl
  · exact congrArg Listing.disassembled (d.facts_mapLast _)
  · split
    · rfl
    · exact congrArg Listing.disassembled (d.facts_mapLast _)

/-- So it is known from the start. By induction along the reading. -/
theorem disassembled_readLines (disassembled : Bool) (d : Draft) (ls : List (List Char)) :
    (d.readLines disassembled ls).facts.disassembled = d.facts.disassembled := by
  fun_induction Draft.readLines disassembled d ls with
  | case1 d => rfl
  | case2 d line rest d₁ _ ih =>
    rw [ih]
    split
    · exact d.disassembled_note line
    · exact (d₁.disassembled_readOther line).trans (d.disassembled_note line)
  | case3 d line rest d₁ _ _ _ _ ih => exact ih.trans (d.disassembled_note line)
  | case4 d line d₁ _ _ _ _ _ _ _ _ ih =>
    exact ih.trans ((d₁.disassembled_addLine _).trans (d.disassembled_note line))
  | case5 d line d₁ _ _ _ _ _ _ _ _ ih =>
    exact ih.trans ((d₁.disassembled_addLine _).trans (d.disassembled_note line))
  | case6 d line d₁ => exact (d₁.disassembled_addLine _).trans (d.disassembled_note line)

end Draft

/-! ### Lines as they stand in the text -/

/-- What ends in no blank is in front of a text exactly if it is so without the blanks behind. -/
theorem concat_prefix_trimEnd_iff {c : Char} (hc : isBlank c = false) (start cs : List Char) :
    start ++ [c] <+: trimEnd cs ↔ start ++ [c] <+: cs := by
  have htrim : trimEnd cs <+: cs := List.rdropWhile_prefix isBlank cs
  refine ⟨fun h => h.trans htrim, fun h => ?_⟩
  have hboth : trimEnd cs ++ cs.rtakeWhile isBlank = cs :=
    List.rdropWhile_append_rtakeWhile
  rcases List.prefix_or_prefix_of_prefix h htrim with hkept | ⟨mid, hmid⟩
  · exact hkept
  · rcases List.eq_nil_or_concat mid with rfl | ⟨front, last, rfl⟩
    · rw [← hmid, List.append_nil]
    · -- The last character would be one of the blanks that are dropped.
      rw [List.concat_eq_append, ← List.append_assoc] at hmid
      obtain rfl := List.singleton_inj.mp (List.append_inj' hmid rfl).2
      have hblanks : front ++ [last] <+: cs.rtakeWhile isBlank := by
        rw [← List.prefix_append_right_inj (trimEnd cs), hboth, ← List.append_assoc, hmid]
        exact h
      have hmem : last ∈ cs.rtakeWhile isBlank := hblanks.subset (by simp)
      rw [List.mem_rtakeWhile_imp hmem] at hc
      cases hc

/-- Writing plain apostrophes goes on behind anything but an ampersand sign. -/
theorem plainApostrophes_cons {c : Char} (hc : c ≠ '&') (cs : List Char) :
    plainApostrophes (c :: cs) = c :: plainApostrophes cs := by
  rw [plainApostrophes]
  rintro rest rfl
  exact absurd rfl hc

/-- An ampersand sign stays or becomes an apostrophe. -/
theorem plainApostrophes_ampersand (cs : List Char) :
    ∃ c rest, plainApostrophes ('&' :: cs) = c :: rest ∧ (c = '&' ∨ c = '\'') := by
  by_cases hname : ['a', 'p', 'o', 's', ';'] <+: cs
  · obtain ⟨rest, rfl⟩ := hname
    exact ⟨_, _, rfl, .inr rfl⟩
  · refine ⟨'&', plainApostrophes cs, ?_, .inl rfl⟩
    rw [plainApostrophes]
    rintro rest - rfl
    exact hname ⟨rest, rfl⟩

/-- What has neither an ampersand sign nor an apostrophe is in front of a text exactly if it is so
once apostrophes are plain. By induction on it. -/
theorem prefix_plainApostrophes_iff {start : List Char} (h : ∀ c ∈ start, c ≠ '&' ∧ c ≠ '\'')
    (cs : List Char) : start <+: plainApostrophes cs ↔ start <+: cs := by
  induction start generalizing cs with
  | nil => simp
  | cons c rest ih =>
    obtain ⟨⟨hampersand, hapostrophe⟩, hrest⟩ := List.forall_mem_cons.mp h
    cases cs with
    | nil => rfl
    | cons first behind =>
      by_cases hfirst : first = '&'
      · subst hfirst
        obtain ⟨d, tail, heq, hd⟩ := plainApostrophes_ampersand behind
        have hother : c ≠ d := by
          rcases hd with rfl | rfl
          · exact hampersand
          · exact hapostrophe
        rw [heq, List.cons_prefix_cons, List.cons_prefix_cons]
        exact ⟨fun h => absurd h.1 hother, fun h => absurd h.1 hampersand⟩
      · rw [plainApostrophes_cons hfirst, List.cons_prefix_cons, List.cons_prefix_cons,
          ih hrest behind]

/-- Blanks in front are dropped before or after apostrophes become plain. By induction on the
text. -/
theorem trimStart_plainApostrophes (cs : List Char) :
    trimStart (plainApostrophes cs) = plainApostrophes (trimStart cs) := by
  unfold trimStart
  induction cs with
  | nil => rfl
  | cons c rest ih =>
    by_cases hc : isBlank c = true
    · have hampersand : c ≠ '&' := by
        rintro rfl
        exact absurd hc (by decide)
      rw [plainApostrophes_cons hampersand, List.dropWhile_cons_of_pos hc,
        List.dropWhile_cons_of_pos hc, ih]
    · rw [List.dropWhile_cons_of_neg hc]
      by_cases hampersand : c = '&'
      · subst hampersand
        obtain ⟨d, tail, heq, hd⟩ := plainApostrophes_ampersand rest
        rw [heq, List.dropWhile_cons_of_neg]
        rcases hd with rfl | rfl <;> decide
      · rw [plainApostrophes_cons hampersand, List.dropWhile_cons_of_neg hc]

/-- Whether a line starts with an address is told by its first characters. -/
theorem exists_isAddressed_iff {line digits : List Char} :
    (∃ rest, IsAddressed line digits rest) ↔
      (digits ≠ [] ∧ ∀ c ∈ digits, isHexDigit c = true) ∧
        '0' :: 'x' :: digits ++ [':'] <+: line := by
  constructor
  · rintro ⟨rest, rfl, hne, hhex⟩
    exact ⟨⟨hne, hhex⟩, rest, by simp⟩
  · rintro ⟨⟨hne, hhex⟩, rest, rfl⟩
    exact ⟨rest, by simp, hne, hhex⟩

/-- A line starts with an address as it stands in the text exactly if it does so once apostrophes
are plain. -/
theorem exists_isAddressed_plain_iff {line digits : List Char} :
    (∃ rest, IsAddressed (trim (plainApostrophes line)) digits rest) ↔
      ∃ rest, IsAddressed (trim line) digits rest := by
  rw [exists_isAddressed_iff, exists_isAddressed_iff]
  refine and_congr_right fun ⟨_, hhex⟩ => ?_
  have hcolon : isBlank ':' = false := rfl
  unfold trim
  rw [concat_prefix_trimEnd_iff hcolon, concat_prefix_trimEnd_iff hcolon,
    trimStart_plainApostrophes, prefix_plainApostrophes_iff]
  intro c hc
  have hother : ∀ d, isHexDigit d = false → d ∉ digits := fun d hd hmem => by
    rw [hhex d hmem] at hd
    cases hd
  have hampersand : '&' ∉ digits := hother '&' rfl
  have hapostrophe : '\'' ∉ digits := hother '\'' rfl
  constructor
  · rintro rfl
    simp [hampersand] at hc
  · rintro rfl
    simp [hapostrophe] at hc

/-- A line has an address, once it is read, exactly if it starts with digits that stand for it. -/
theorem exists_address?_iff {line : List Char} {address : UInt64} :
    (∃ body, address? (trim (plainApostrophes line)) = some (address, body)) ↔
      ∃ digits rest, IsAddressed (trim line) digits rest ∧
        numberOf 16 hexDigit? digits = address.toNat := by
  constructor
  · rintro ⟨body, haddress⟩
    obtain ⟨digits, rest, hline, hvalue, -⟩ := address?_eq_some_iff.mp haddress
    obtain ⟨rest', hline'⟩ := exists_isAddressed_plain_iff.mp ⟨rest, hline⟩
    exact ⟨digits, rest', hline', hvalue⟩
  · rintro ⟨digits, rest, hline, hvalue⟩
    obtain ⟨rest', hline'⟩ := exists_isAddressed_plain_iff.mpr ⟨rest, hline⟩
    exact ⟨_, address?_eq_some_iff.mpr ⟨digits, rest', hline', hvalue, rfl⟩⟩

/-! ### A whole listing -/

/-- A listing of which nothing has been read. -/
def Draft.start (disassembled : Bool) : Draft :=
  ⟨{ Listing.blank with disassembled }, [], [], none⟩

/-- The lines of a text as they are read. -/
def readable (text : List Char) : List (List Char) :=
  (Text.lines text).map (trim ∘ plainApostrophes)

/-- The listing of a text is what its lines add to none. -/
theorem parse_eq_finish (text : List Char) :
    parse text = ((Draft.start (isDisassembly text)).readLines (isDisassembly text)
      (readable text)).finish := rfl

/-- Whether it is disassembled is known from the whole text. -/
theorem disassembled_parse (text : List Char) : (parse text).disassembled = isDisassembly text :=
  Draft.disassembled_readLines ..

/-- Reading a listing drops no address line. The addresses of its instructions are those below 2^64
that the lines of the text start with, blanks in front apart. And if it is not disassembled, the
bytes of its instructions are, in order, those behind the addresses: the bytes of the code in front
of any comment, on the line below where nothing is behind the colon and that line can be the
rest. -/
theorem parse_keeps_address_lines (text : List Char) :
    (∀ address, (∃ line ∈ (parse text).lines, line.address = address) ↔
      ∃ line ∈ Text.lines text, ∃ digits rest, IsAddressed (trim line) digits rest ∧
        numberOf 16 hexDigit? digits = address.toNat) ∧
    ((parse text).disassembled = false →
      (parse text).lines.flatMap Line.bytes = (readable text).tails.flatMap bytesOf) := by
  have hreads := Draft.reads_readLines (isDisassembly text) (.start (isDisassembly text))
    (readable text)
  rw [disassembled_parse, parse_eq_finish]
  constructor
  · intro address
    have hnone : address ∉ (Draft.start (isDisassembly text)).code.map Prod.fst :=
      List.not_mem_nil
    have haddresses := hreads.addresses address
    rw [or_iff_right hnone, Draft.code, List.map_map, List.mem_map] at haddresses
    simp only [readable, List.mem_map, exists_exists_and_eq_and, Function.comp_apply,
      exists_address?_iff] at haddresses
    exact haddresses
  · intro hraw
    have hbytes := hreads.bytes hraw
    rw [Draft.code, List.flatMap_map] at hbytes
    exact hbytes

/-- Raw bytes of which the first ones stand below their address, and others behind it again. -/
def wrappedDump : List (List Char) :=
  ["0x10:".toList, "90 c3 ; a return".toList, "0x10: # padding".toList, "0x12: 0f05".toList]

/-- All bytes of this dump are read. -/
theorem parse_keeps_address_lines_wrapped :
    (parse (wrappedDump.flatMap fun line => line ++ ['\n'])).disassembled = false ∧
      (parse (wrappedDump.flatMap fun line => line ++ ['\n'])).lines.flatMap Line.bytes =
        [0x90, 0xc3, 0x0f, 0x05] := by
  have hlines : Text.lines (wrappedDump.flatMap fun line => line ++ ['\n']) =
      wrappedDump.map withoutReturn := lines_flatMap (by decide)
  have hraw : (parse (wrappedDump.flatMap fun line => line ++ ['\n'])).disassembled = false := by
    rw [disassembled_parse, isDisassembly, hlines]
    decide +kernel
  refine ⟨hraw, ((parse_keeps_address_lines _).2 hraw).trans ?_⟩
  rw [readable, hlines]
  decide +kernel

end CompileLog.Listing
