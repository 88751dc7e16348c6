import CompileLog.Method
import Mathlib.Data.List.TakeWhile
import Mathlib.Tactic.SplitIfs

/-!
# Words that are put together

Words without blanks in them, put together with a blank between them, are cut into the same words
again. So a method whose spellings have no blanks is read back from the way it is displayed, as long
as its descriptor opens with a parenthesis. A method that was read has such spellings.
-/

namespace CompileLog

namespace Text

/-- A text that is one word: it is not empty and has no blank in it. -/
structure IsWord (cs : List Char) : Prop where
  /-- It is not empty. -/
  ne_nil : cs ≠ []
  /-- It has no blank in it. -/
  unbroken : ∀ c ∈ cs, isBlank c = false

/-- Whether a text is one word can be told by looking at its characters. -/
instance (cs : List Char) : Decidable (IsWord cs) :=
  decidable_of_iff (cs.isEmpty = false ∧ cs.all (fun c => !isBlank c) = true)
    ⟨fun ⟨hne, hall⟩ => ⟨by simpa using hne, by simpa using hall⟩,
      fun ⟨hne, hall⟩ => ⟨by simpa using hne, by simpa using hall⟩⟩

/-- Blanks in front of the words do not count. -/
theorem words_cons_of_isBlank {b : Char} (hb : isBlank b = true) (cs : List Char) :
    words (b :: cs) = words cs := by
  have htrim : trimStart (b :: cs) = trimStart cs := by
    unfold trimStart
    rw [List.dropWhile_cons, if_pos hb]
  rw [words, words, htrim]

/-- The first word goes up to the first blank. -/
theorem words_cons {c : Char} (hc : isBlank c = false) (cs : List Char) :
    words (c :: cs) = (c :: cs.takeWhile fun d => !isBlank d) ::
      words (cs.dropWhile fun d => !isBlank d) := by
  have htrim : trimStart (c :: cs) = c :: cs := by
    unfold trimStart
    rw [List.dropWhile_cons, if_neg (by simp [hc])]
  rw [words, htrim]

/-- What a text is cut into are words. By induction on them. -/
theorem isWord_of_mem_words {cs word : List Char} (h : word ∈ words cs) : IsWord word := by
  fun_induction words cs with
  | case1 cs hnone => exact absurd h List.not_mem_nil
  | case2 cs c rest hstart ih =>
    rcases List.mem_cons.mp h with rfl | hlater
    · have hc : isBlank c = false := by
        have hhead := List.head?_dropWhile_not isBlank cs
        unfold trimStart at hstart
        rw [hstart] at hhead
        simpa using hhead
      refine ⟨List.cons_ne_nil _ _, List.forall_mem_cons.mpr ⟨hc, fun d hd => ?_⟩⟩
      simpa using List.mem_takeWhile_imp hd
    · exact ih hlater

namespace IsWord

variable {word : List Char}

/-- A word may go on with anything but blanks. -/
theorem append (h : IsWord word) {more : List Char} (hmore : ∀ c ∈ more, isBlank c = false) :
    IsWord (word ++ more) := by
  refine ⟨List.append_ne_nil_of_left_ne_nil h.ne_nil more, fun c hc => ?_⟩
  rcases List.mem_append.mp hc with hword | hbehind
  · exact h.unbroken c hword
  · exact hmore c hbehind

/-- The word that a text begins with goes up to where the text goes on with a blank or ends. -/
theorem words_append (h : IsWord word) {rest : List Char}
    (hrest : rest.takeWhile (fun d => !isBlank d) = []) :
    words (word ++ rest) = word :: words rest := by
  obtain ⟨c, tail, rfl⟩ := List.exists_cons_of_ne_nil h.ne_nil
  have htail : ∀ d ∈ tail, (!isBlank d) = true := fun d hd => by
    rw [h.unbroken d (List.mem_cons_of_mem c hd), Bool.not_false]
  have hkept : rest.dropWhile (fun d => !isBlank d) = rest := by
    have hboth := List.takeWhile_append_dropWhile (p := fun d => !isBlank d) (l := rest)
    rwa [hrest, List.nil_append] at hboth
  rw [List.cons_append, words_cons (h.unbroken c List.mem_cons_self),
    List.takeWhile_append_of_pos htail, List.dropWhile_append_of_pos htail, hrest, hkept,
    List.append_nil]

/-- The words behind a blank are those of what follows. -/
theorem words_append_cons (h : IsWord word) {b : Char} (hb : isBlank b = true)
    (rest : List Char) : words (word ++ b :: rest) = word :: words rest := by
  have hends : (b :: rest).takeWhile (fun d => !isBlank d) = [] := by
    rw [List.takeWhile_cons, if_neg (by simp [hb])]
  rw [h.words_append hends, words_cons_of_isBlank hb]

/-- One word alone. -/
theorem words_eq (h : IsWord word) : words word = [word] := by
  have halone := h.words_append List.takeWhile_nil
  have hnone : words [] = [] := by simp [words, trimStart]
  rwa [List.append_nil, hnone] at halone

end IsWord

end Text

open Text

/-- A method whose spellings are words, and whose descriptor opens with a parenthesis, is read back
from the way it is displayed. -/
theorem Method.parse?_display {m : Method} (hclass : IsWord m.className.toList)
    (hname : IsWord m.name.toList) (hdescriptor : IsWord m.descriptor.toList)
    (hopens : m.descriptor.toList.head? = some '(') : Method.parse? m.display = some m := by
  have hblank : isBlank ' ' = true := rfl
  have hspelled : m.display.toList =
      m.className.toList ++ ' ' :: (m.name.toList ++ ' ' :: m.descriptor.toList) := by
    simp [Method.display]
  have hwords : words m.display.toList =
      [m.className.toList, m.name.toList, m.descriptor.toList] := by
    rw [hspelled, hclass.words_append_cons hblank, hname.words_append_cons hblank,
      hdescriptor.words_eq]
  unfold Method.parse?
  rw [hwords]
  simp only [if_pos hopens, String.ofList_toList]

namespace Method

/-- A method that is read back from the way it is displayed. -/
def ReadsBack (m : Method) : Prop := parse? m.display = some m

/-- A method that was read is read back. -/
theorem readsBack_of_parse? {text : String} {m : Method} (h : parse? text = some m) :
    m.ReadsBack := by
  unfold parse? at h
  split at h
  · next className name descriptor hwords =>
    split_ifs at h with hopens
    obtain rfl := Option.some.inj h
    have hword : ∀ word ∈ [className, name, descriptor], IsWord (String.ofList word).toList := by
      intro word hmem
      rw [String.toList_ofList]
      exact isWord_of_mem_words (hwords ▸ hmem)
    refine parse?_display (hword _ (by simp)) (hword _ (by simp)) (hword _ (by simp)) ?_
    rw [String.toList_ofList]
    exact hopens
  · cases h

/-- So is the stand-in for a method that is not known. -/
theorem readsBack_unresolved : unresolved.ReadsBack :=
  parse?_display (by decide) (by decide) (by decide) (by decide)

end Method

end CompileLog
