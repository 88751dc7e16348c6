import CompileLog.Proofs.KeyMap

/-!
# Gathering under keys

Things are gathered in a map one after the other: each is added to the value of its key, and the
first with a key starts the value. What is found under a key then depends on the things with that
key alone, in the order in which they came, and there is one value for each key that they have.
-/

namespace CompileLog.KeyMap

variable {κ α β : Type} [LE κ] [LT κ] [DecidableEq κ] [DecidableLT κ] [Std.IsLinearOrder κ]
  [Std.LawfulOrderLT κ] (key : β → κ) (start : β → α) (add : α → β → α)

/-- The map with something added to the value of its key, which is started if there is none. -/
def gather (m : KeyMap κ α) (x : β) : KeyMap κ α :=
  m.insert (key x) (add ((m.get? (key x)).getD (start x)) x)

/-- What things with one key give: the first starts the value that all are added to. -/
def gathered : List β → Option α
  | [] => none
  | x :: rest => some (rest.foldl add (add (start x) x))

omit [LE κ] [LT κ] [DecidableLT κ] [Std.IsLinearOrder κ] [Std.LawfulOrderLT κ] in
/-- What is gathered under a key is started by the first thing that has it. -/
theorem exists_first_of_gathered {xs : List β} {k : κ} {value : α}
    (h : gathered start add (xs.filter fun x => key x = k) = some value) :
    ∃ x rest, (xs.filter fun x => key x = k) = x :: rest ∧ x ∈ xs ∧ key x = k ∧
      rest.foldl add (add (start x) x) = value := by
  cases hsame : xs.filter fun x => key x = k with
  | nil =>
    rw [hsame] at h
    cases h
  | cons x rest =>
    rw [hsame] at h
    obtain ⟨hx, hkey⟩ := List.mem_filter.mp (hsame.symm ▸ List.mem_cons_self)
    exact ⟨x, rest, rfl, hx, of_decide_eq_true hkey, Option.some.inj h⟩

/-- Under a key stands what the things with that key give, on top of what stood there before. By
induction on the things. -/
theorem get?_foldl_gather (xs : List β) (m : KeyMap κ α) (k : κ) :
    (xs.foldl (gather key start add) m).get? k =
      (m.get? k).elim (gathered start add (xs.filter fun x => key x = k)) fun value =>
        some ((xs.filter fun x => key x = k).foldl add value) := by
  induction xs generalizing m with
  | nil =>
    rw [List.foldl_nil]
    cases m.get? k <;> rfl
  | cons x rest ih =>
    rw [List.foldl_cons, ih]
    unfold gather
    rw [get?_insert]
    by_cases hkey : key x = k
    · rw [if_pos hkey, List.filter_cons_of_pos (by simpa using hkey), hkey]
      cases m.get? k <;> rfl
    · rw [if_neg hkey, List.filter_cons_of_neg (by simpa using hkey)]

/-- The values are what the things with each key give. -/
theorem mem_values_gather {xs : List β} {value : α} :
    value ∈ (xs.foldl (gather key start add) ∅).values ↔
      ∃ k, gathered start add (xs.filter fun x => key x = k) = some value := by
  have hfound (k : κ) : (xs.foldl (gather key start add) ∅).get? k =
      gathered start add (xs.filter fun x => key x = k) := get?_foldl_gather key start add xs ∅ k
  constructor
  · intro h
    obtain ⟨e, he, rfl⟩ := List.mem_map.mp h
    exact ⟨e.1, (hfound e.1).symm.trans (get?_of_mem_entries he)⟩
  · rintro ⟨k, hk⟩
    exact mem_values_of_get? ((hfound k).trans hk)

omit [LE κ] [LT κ] [DecidableLT κ] [Std.IsLinearOrder κ] [Std.LawfulOrderLT κ] in
/-- There is a value for each key that something has. -/
theorem exists_gathered {xs : List β} {x : β} (hx : x ∈ xs) :
    ∃ value, gathered start add (xs.filter fun y => key y = key x) = some value := by
  cases hsame : xs.filter fun y => key y = key x with
  | nil =>
    have hnot := List.filter_eq_nil_iff.mp hsame x hx
    simp at hnot
  | cons y rest => exact ⟨_, rfl⟩

omit [DecidableLT κ] [Std.IsLinearOrder κ] in
/-- Where each value tells its key, the values are in the order of what they tell. -/
theorem pairwise_values {m : KeyMap κ α} {f : α → κ}
    (h : ∀ k value, m.get? k = some value → f value = k) :
    m.values.Pairwise fun a b => f a < f b := by
  refine List.pairwise_map.mpr (m.ordered.imp_of_mem fun {a b} ha hb hlt => ?_)
  rwa [h a.1 a.2 (get?_of_mem_entries ha), h b.1 b.2 (get?_of_mem_entries hb)]

end CompileLog.KeyMap
