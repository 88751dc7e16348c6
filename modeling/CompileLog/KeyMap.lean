/-!
# Finite maps in key order

A map from keys to values, kept as a list of entries whose keys increase strictly. So
each key has one entry, the entries come out in key order, and two maps that answer
every look-up alike are equal.
-/

namespace CompileLog

/-- Entries with strictly increasing keys. -/
structure KeyMap (κ α : Type) [LT κ] where
  entries : List (κ × α)
  ordered : entries.Pairwise fun a b => a.1 < b.1

namespace KeyMap

variable {κ α : Type} [LE κ] [LT κ] [DecidableEq κ] [DecidableLT κ] [Std.IsLinearOrder κ]
  [Std.LawfulOrderLT κ]

/-- The map without entries. -/
def empty : KeyMap κ α := ⟨[], .nil⟩

instance : EmptyCollection (KeyMap κ α) := ⟨empty⟩
instance : Inhabited (KeyMap κ α) := ⟨empty⟩

instance [DecidableEq α] : DecidableEq (KeyMap κ α) := fun a b =>
  if h : a.entries = b.entries then
    isTrue (by cases a; cases b; simp_all)
  else isFalse (fun e => h (e ▸ rfl))

/-- The value of a key. -/
def get? (m : KeyMap κ α) (key : κ) : Option α :=
  (m.entries.find? fun e => decide (e.1 = key)).map Prod.snd

/-- Number of keys. -/
def size (m : KeyMap κ α) : Nat := m.entries.length

/-- The keys in order. -/
def keys (m : KeyMap κ α) : List κ := m.entries.map Prod.fst

/-- Entries with one key set: in place if the key is there, else at its position. -/
def place (key : κ) (value : α) : List (κ × α) → List (κ × α)
  | [] => [(key, value)]
  | e :: rest =>
    if key < e.1 then (key, value) :: e :: rest
    else if key = e.1 then (key, value) :: rest
    else e :: place key value rest

omit [LE κ] [Std.IsLinearOrder κ] [Std.LawfulOrderLT κ] in
/-- Placing a key adds no other key. -/
theorem key_of_mem_place {key : κ} {value : α} {entries : List (κ × α)} {e : κ × α}
    (h : e ∈ place key value entries) : e.1 = key ∨ e ∈ entries := by
  induction entries with
  | nil => simp [place] at h; exact .inl (h ▸ rfl)
  | cons head rest ih =>
    unfold place at h
    split at h
    · rcases List.mem_cons.1 h with h | h
      · exact .inl (h ▸ rfl)
      · exact .inr h
    · split at h
      · rcases List.mem_cons.1 h with h | h
        · exact .inl (h ▸ rfl)
        · exact .inr (List.mem_cons_of_mem _ h)
      · rcases List.mem_cons.1 h with h | h
        · exact .inr (h ▸ List.mem_cons_self)
        · exact (ih h).imp id (List.mem_cons_of_mem _)

/-- Placing a key keeps the keys strictly increasing. -/
theorem ordered_place (key : κ) (value : α) {entries : List (κ × α)}
    (h : entries.Pairwise fun a b => a.1 < b.1) :
    (place key value entries).Pairwise fun a b => a.1 < b.1 := by
  induction entries with
  | nil => simp [place]
  | cons head rest ih =>
    obtain ⟨hhead, hrest⟩ := List.pairwise_cons.1 h
    unfold place
    split
    · next hlt =>
      refine List.pairwise_cons.2 ⟨fun e he => ?_, h⟩
      rcases List.mem_cons.1 he with he | he
      · exact he ▸ hlt
      · exact Std.lt_trans hlt (hhead e he)
    · next hlt =>
      split
      · next heq => exact List.pairwise_cons.2 ⟨fun e he => heq ▸ hhead e he, hrest⟩
      · next hne =>
        refine List.pairwise_cons.2 ⟨fun e he => ?_, ih hrest⟩
        rcases key_of_mem_place he with he | he
        · exact he ▸ Std.lt_of_le_of_ne (Std.not_lt.1 hlt) (Ne.symm hne)
        · exact hhead e he

/-- The map with one key set. -/
def insert (m : KeyMap κ α) (key : κ) (value : α) : KeyMap κ α :=
  ⟨place key value m.entries, ordered_place key value m.ordered⟩

/-- The map without one key. -/
def erase (m : KeyMap κ α) (key : κ) : KeyMap κ α :=
  ⟨m.entries.filter fun e => decide (e.1 ≠ key), m.ordered.filter _⟩

/-- A map of the given entries; of two with one key the later counts. -/
def ofList (entries : List (κ × α)) : KeyMap κ α :=
  entries.foldl (fun m e => m.insert e.1 e.2) empty

omit [LE κ] [DecidableEq κ] [DecidableLT κ] [Std.IsLinearOrder κ] [Std.LawfulOrderLT κ] in
theorem ordered_map {β : Type} (f : κ → α → β) {entries : List (κ × α)}
    (h : entries.Pairwise fun a b => a.1 < b.1) :
    (entries.map fun e => (e.1, f e.1 e.2)).Pairwise fun a b => a.1 < b.1 :=
  List.pairwise_map.2 h

/-- Changes every value, key by key. -/
def map {β : Type} (f : κ → α → β) (m : KeyMap κ α) : KeyMap κ β :=
  ⟨m.entries.map fun e => (e.1, f e.1 e.2), ordered_map f m.ordered⟩

/-- A set key is found with its new value, every other key as before. -/
theorem get?_insert (m : KeyMap κ α) (key : κ) (value : α) (k : κ) :
    (m.insert key value).get? k = if key = k then some value else m.get? k := by
  obtain ⟨entries, h⟩ := m
  unfold insert get?
  induction entries with
  | nil => by_cases hk : key = k <;> simp [place, hk]
  | cons head rest ih =>
    obtain ⟨hhead, hrest⟩ := List.pairwise_cons.1 h
    have ih := ih hrest
    simp only [place] at ih ⊢
    by_cases hlt : key < head.1
    · rw [if_pos hlt]
      by_cases hk : key = k <;> simp [hk]
    · rw [if_neg hlt]
      by_cases heq : key = head.1
      · rw [if_pos heq]
        by_cases hk : key = k
        · simp [hk]
        · have : ¬ head.1 = k := heq ▸ hk
          simp [hk, this]
      · rw [if_neg heq]
        by_cases hh : head.1 = k
        · have : ¬ key = k := fun e => heq (e.trans hh.symm)
          simp [hh, this]
        · simpa [hh] using ih

end KeyMap

end CompileLog
