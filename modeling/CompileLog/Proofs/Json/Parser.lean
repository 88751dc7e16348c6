import CompileLog.Json.Parser
import CompileLog.Json.Printer
import CompileLog.Proofs.Json.Token

/-!
# Reading back JSON values

A value without numbers other than integers and without strings that stand for no text is written
in such a way that reading gives it back. Its tokens can be written side by side, and behind them
the reader goes on with whatever follows.
-/

namespace CompileLog.Json

/-- A value that can be written and read back. -/
inductive Value.Plain : Value → Prop where
  | null : Plain .null
  | bool (b : Bool) : Plain (.bool b)
  | integer (i : Int) : Plain (.integer i)
  | string (s : String) : Plain (.string s)
  | array {vs : List Value} (h : ∀ v ∈ vs, Plain v) : Plain (.array vs)
  | object {ms : List (String × Value)} (h : ∀ m ∈ ms, Plain m.2) : Plain (.object ms)

/-! ### The tokens of a value -/

/-- What may follow a value: nothing, or tokens that start with no word. -/
def Follows (ts : List Token) : Prop := Spelled ts ∧ ∀ t ∈ ts.head?, t.isWord = false

/-- Punctuation may follow a value. -/
theorem Spelled.follows_cons {ts : List Token} (h : Spelled ts) {t : Token}
    (hplain : t.isPlain = true) (hword : t.isWord = false) : Follows (t :: ts) := by
  refine ⟨⟨hplain, fun h => ?_, h⟩, ?_⟩
  · rw [hword] at h
    cases h
  · simp [hword]

/-- Elements with a comma between the first and the others. -/
theorem tokensOfElements_cons_cons (v w : Value) (rest : List Value) :
    tokensOfElements (v :: w :: rest) = v.tokens ++ .comma :: tokensOfElements (w :: rest) := rfl

/-- Members with a comma between the first and the others. -/
theorem tokensOfMembers_cons_cons (name : String) (v : Value) (m : String × Value)
    (rest : List (String × Value)) :
    tokensOfMembers ((name, v) :: m :: rest) =
      .string name :: .colon :: (v.tokens ++ .comma :: tokensOfMembers (m :: rest)) := rfl

/-- Elements can be written in front of what may follow a value, if each of them can. By induction
on the elements. -/
theorem spelled_tokensOfElements {vs : List Value}
    (hvs : ∀ v ∈ vs, ∀ after, Follows after → Spelled (v.tokens ++ after)) {after : List Token}
    (hafter : Follows after) : Spelled (tokensOfElements vs ++ after) := by
  induction vs with
  | nil => exact hafter.1
  | cons v rest ih =>
    have hrest := ih fun w hw => hvs w (List.mem_cons_of_mem v hw)
    cases rest with
    | nil => exact hvs v List.mem_cons_self _ hafter
    | cons w rest =>
      rw [tokensOfElements_cons_cons, List.append_assoc, List.cons_append]
      exact hvs v List.mem_cons_self _ (hrest.follows_cons rfl rfl)

/-- Members can be written in front of what may follow a value, if each of their values can. By
induction on the members. -/
theorem spelled_tokensOfMembers {ms : List (String × Value)}
    (hms : ∀ m ∈ ms, ∀ after, Follows after → Spelled (m.2.tokens ++ after)) {after : List Token}
    (hafter : Follows after) : Spelled (tokensOfMembers ms ++ after) := by
  have hnamed : ∀ name ts, Spelled ts → Spelled (.string name :: .colon :: ts) :=
    fun name ts h => ((h.follows_cons (t := .colon) rfl rfl).1.follows_cons rfl rfl).1
  induction ms with
  | nil => exact hafter.1
  | cons m rest ih =>
    obtain ⟨name, v⟩ := m
    have hrest := ih fun w hw => hms w (List.mem_cons_of_mem _ hw)
    have hfirst := hms (name, v) List.mem_cons_self
    cases rest with
    | nil => exact hnamed name _ (hfirst _ hafter)
    | cons m rest =>
      rw [tokensOfMembers_cons_cons, List.cons_append, List.cons_append, List.append_assoc,
        List.cons_append]
      exact hnamed name _ (hfirst _ (hrest.follows_cons rfl rfl))

/-- A value that can be read back can be written in front of what may follow it. By induction on
the value. -/
theorem Value.Plain.spelled {v : Value} (h : v.Plain) :
    ∀ after, Follows after → Spelled (v.tokens ++ after) := by
  induction h with
  | array _ ih =>
    intro after hafter
    have hclose : Follows (.rightBracket :: after) := hafter.1.follows_cons rfl rfl
    rw [tokens, List.cons_append, List.cons_append, List.append_assoc, List.singleton_append]
    exact ((spelled_tokensOfElements ih hclose).follows_cons rfl rfl).1
  | object _ ih =>
    intro after hafter
    have hclose : Follows (.rightBrace :: after) := hafter.1.follows_cons rfl rfl
    rw [tokens, List.cons_append, List.cons_append, List.append_assoc, List.singleton_append]
    exact ((spelled_tokensOfMembers ih hclose).follows_cons rfl rfl).1
  | string s => exact fun after hafter => (hafter.1.follows_cons (t := .string s) rfl rfl).1
  | _ => exact fun after hafter => ⟨rfl, fun _ => hafter.2, hafter.1⟩

/-! ### Reading tokens -/

/-- A value is read at the front of any tokens, with two calls for each of its own. -/
def Value.ReadBack (v : Value) : Prop :=
  ∀ fuel after, 2 * v.tokens.length ≤ fuel → value? fuel (v.tokens ++ after) = some (v, after)

/-- Elements are read up to the closing bracket, if each is read. By induction on the elements. -/
theorem elements?_tokensOfElements {v : Value} {vs : List Value}
    (hvs : ∀ w ∈ v :: vs, w.ReadBack) (after : List Token) {fuel : Nat}
    (hfuel : 2 * (tokensOfElements (v :: vs)).length ≤ fuel) :
    elements? (fuel + 1) (tokensOfElements (v :: vs) ++ .rightBracket :: after) =
      some (v :: vs, after) := by
  induction vs generalizing v fuel with
  | nil =>
    have hfirst := hvs v List.mem_cons_self fuel (.rightBracket :: after) hfuel
    rw [tokensOfElements, elements?, hfirst]
  | cons w rest ih =>
    rw [tokensOfElements_cons_cons] at hfuel ⊢
    simp only [List.length_append, List.length_cons] at hfuel
    have hfirst := hvs v List.mem_cons_self fuel
      (.comma :: (tokensOfElements (w :: rest) ++ .rightBracket :: after)) (by omega)
    obtain ⟨fuel, rfl⟩ : ∃ k, fuel = k + 1 := ⟨fuel - 1, by omega⟩
    have hrest := ih (fun u hu => hvs u (List.mem_cons_of_mem v hu))
      (show 2 * (tokensOfElements (w :: rest)).length ≤ fuel by omega)
    rw [List.append_assoc, List.cons_append, elements?, hfirst]
    simp only [hrest, Option.map_some]

/-- Members are read up to the closing brace, if each of their values is read. By induction on the
members. -/
theorem members?_tokensOfMembers {m : String × Value} {ms : List (String × Value)}
    (hms : ∀ n ∈ m :: ms, n.2.ReadBack) (after : List Token) {fuel : Nat}
    (hfuel : 2 * (tokensOfMembers (m :: ms)).length ≤ fuel) :
    members? (fuel + 1) (tokensOfMembers (m :: ms) ++ .rightBrace :: after) =
      some ((m :: ms).map fun n => (some n.1, n.2), after) := by
  induction ms generalizing m fuel with
  | nil =>
    obtain ⟨name, v⟩ := m
    simp only [tokensOfMembers, List.length_cons] at hfuel
    have hfirst := hms (name, v) List.mem_cons_self fuel (.rightBrace :: after)
      (by show 2 * v.tokens.length ≤ fuel; omega)
    rw [tokensOfMembers, List.cons_append, List.cons_append, members?, hfirst]
    rfl
  | cons n rest ih =>
    obtain ⟨name, v⟩ := m
    rw [tokensOfMembers_cons_cons] at hfuel ⊢
    simp only [List.length_append, List.length_cons] at hfuel
    have hfirst := hms (name, v) List.mem_cons_self fuel
      (.comma :: (tokensOfMembers (n :: rest) ++ .rightBrace :: after))
      (by show 2 * v.tokens.length ≤ fuel; omega)
    obtain ⟨fuel, rfl⟩ : ∃ k, fuel = k + 1 := ⟨fuel - 1, by omega⟩
    have hrest := ih (fun u hu => hms u (List.mem_cons_of_mem _ hu))
      (show 2 * (tokensOfMembers (n :: rest)).length ≤ fuel by omega)
    rw [List.cons_append, List.cons_append, List.append_assoc, List.cons_append, members?, hfirst]
    simp only [name?, hrest, Option.map_some, List.map_cons]

/-- No elements start with a closing bracket. -/
theorem head?_tokensOfElements (v : Value) (vs : List Value) (after : List Token) :
    (tokensOfElements (v :: vs) ++ after).head? ≠ some .rightBracket := by
  cases vs <;> cases v <;> simp [tokensOfElements, Value.tokens]

/-- Behind an opening bracket that is not closed at once, elements are read. -/
theorem value?_leftBracket {ts : List Token} (h : ts.head? ≠ some .rightBracket) (fuel : Nat) :
    value? (fuel + 1) (.leftBracket :: ts) =
      (elements? fuel ts).map fun (vs, after) => (.array vs, after) := by
  rw [value?]
  rintro rest rfl
  exact h rfl

/-- Behind an opening brace that is not closed at once, members are read. -/
theorem value?_leftBrace {ts : List Token} (h : ts.head? ≠ some .rightBrace) (fuel : Nat) :
    value? (fuel + 1) (.leftBrace :: ts) =
      (members? fuel ts).map fun (ms, after) => (objectOf ms, after) := by
  rw [value?]
  rintro rest rfl
  exact h rfl

/-- A list whose elements are each read as what they were written for is read as it. By induction
on the list. -/
theorem mapM_map {α β : Type} {write : α → β} {read : β → Option α} {xs : List α}
    (h : ∀ x ∈ xs, read (write x) = some x) : (xs.map write).mapM read = some xs := by
  induction xs with
  | nil => rfl
  | cons x xs ih =>
    have hx := h x List.mem_cons_self
    have hxs := ih fun y hy => h y (List.mem_cons_of_mem x hy)
    simp [hx, hxs]

/-- Members that all have a name make an object. -/
theorem objectOf_some (ms : List (String × Value)) :
    objectOf (ms.map fun m => (some m.1, m.2)) = .object ms := by
  unfold objectOf
  split
  · next named hnamed =>
    have hread := hnamed.symm.trans (mapM_map fun _ _ => rfl)
    rw [Option.some.inj hread]
  · next hnone =>
    have hread := hnone.symm.trans (mapM_map fun _ _ => rfl)
    cases hread

/-- A value that can be read back is read at the front of any tokens. By induction on the value. -/
theorem Value.Plain.readBack {v : Value} (h : v.Plain) : v.ReadBack := by
  induction h with
  | @array vs _ ih =>
    intro fuel after hfuel
    simp only [tokens, List.length_append, List.length_cons] at hfuel
    obtain ⟨fuel, rfl⟩ : ∃ k, fuel = k + 2 := ⟨fuel - 2, by omega⟩
    cases vs with
    | nil => rfl
    | cons v vs =>
      have hread := elements?_tokensOfElements ih after
        (show 2 * (tokensOfElements (v :: vs)).length ≤ fuel by omega)
      rw [tokens, List.cons_append, List.cons_append, List.append_assoc, List.singleton_append,
        value?_leftBracket (head?_tokensOfElements v vs _), hread, Option.map_some]
  | @object ms _ ih =>
    intro fuel after hfuel
    simp only [tokens, List.length_append, List.length_cons] at hfuel
    obtain ⟨fuel, rfl⟩ : ∃ k, fuel = k + 2 := ⟨fuel - 2, by omega⟩
    cases ms with
    | nil => rfl
    | cons m ms =>
      have hread := members?_tokensOfMembers ih after
        (show 2 * (tokensOfMembers (m :: ms)).length ≤ fuel by omega)
      have hopen :
          (tokensOfMembers (m :: ms) ++ .rightBrace :: after).head? ≠ some .rightBrace := by
        cases ms <;> simp [tokensOfMembers]
      rw [tokens, List.cons_append, List.cons_append, List.append_assoc, List.singleton_append,
        value?_leftBrace hopen, hread, Option.map_some]
      simp only [objectOf_some]
  | _ =>
    intro fuel after hfuel
    obtain ⟨fuel, rfl⟩ : ∃ k, fuel = k + 1 := ⟨fuel - 1, by simp [tokens] at hfuel; omega⟩
    rfl

/-- The text of a value that can be read back is read as it. -/
theorem parse?_compact {v : Value} (h : v.Plain) : parse? (v.compact.map some) = some v := by
  have hspelled : Spelled v.tokens := by
    have hend := h.spelled [] ⟨trivial, by simp⟩
    rwa [List.append_nil] at hend
  have hread := h.readBack (2 * v.tokens.length + 2) [] (by omega)
  rw [List.append_nil] at hread
  rw [parse?, Value.compact, hspelled.lex?]
  simp only [hread]

end CompileLog.Json
