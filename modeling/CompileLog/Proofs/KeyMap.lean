import CompileLog.KeyMap
import Mathlib.Data.List.Perm.Basic

/-!
# Entries of finite maps

A look-up finds the only entry of its key. Setting a key leaves the entries of all others, so
what is gathered over the values changes by the old and the new value of the key alone.
-/

namespace CompileLog.KeyMap

section

variable {κ α : Type} [LT κ]

/-- The values in the order of their keys. -/
def values (m : KeyMap κ α) : List α := m.entries.map Prod.snd

/-- The map without entries has no values. -/
@[simp] theorem values_empty : (∅ : KeyMap κ α).values = [] := rfl

variable [DecidableEq κ]

/-- The map without entries finds nothing. -/
@[simp] theorem get?_empty (key : κ) : (∅ : KeyMap κ α).get? key = none := rfl

/-- What a look-up finds is an entry. -/
theorem mem_entries_of_get? {m : KeyMap κ α} {key : κ} {value : α}
    (h : m.get? key = some value) : (key, value) ∈ m.entries := by
  obtain ⟨e, he, rfl⟩ := Option.map_eq_some_iff.mp h
  have hkey : e.1 = key := by simpa using List.find?_some he
  rw [← hkey]
  exact List.mem_of_find?_eq_some he

/-- What a look-up finds is a value. -/
theorem mem_values_of_get? {m : KeyMap κ α} {key : κ} {value : α}
    (h : m.get? key = some value) : value ∈ m.values :=
  List.mem_map_of_mem (f := Prod.snd) (mem_entries_of_get? h)

end

variable {κ α : Type} [LE κ] [LT κ] [DecidableEq κ] [DecidableLT κ] [Std.IsLinearOrder κ]
  [Std.LawfulOrderLT κ]

omit [LE κ] [DecidableLT κ] [Std.IsLinearOrder κ] [Std.LawfulOrderLT κ] in
/-- A key that was taken out is not found, every other key as before. -/
theorem get?_erase (m : KeyMap κ α) (key k : κ) :
    (m.erase key).get? k = if key = k then none else m.get? k := by
  unfold erase get?
  rw [List.find?_filter]
  by_cases hk : key = k
  · subst hk
    rw [if_pos rfl, Option.map_eq_none_iff, List.find?_eq_none]
    intro e _
    simp
  · rw [if_neg hk]
    congr 2
    funext e
    by_cases he : e.1 = k
    · have hne : k ≠ key := fun h => hk h.symm
      simp [he, hne]
    · simp [he]

omit [DecidableLT κ] [Std.IsLinearOrder κ] in
/-- Taking out the first key leaves the other entries. -/
theorem erase_first {first : κ × α} {rest : List (κ × α)}
    (h : (first :: rest).Pairwise fun a b => a.1 < b.1) :
    (KeyMap.mk (first :: rest) h).erase first.1 = ⟨rest, (List.pairwise_cons.mp h).2⟩ := by
  obtain ⟨hfirst, _⟩ := List.pairwise_cons.mp h
  unfold erase
  congr 1
  rw [List.filter_cons_of_neg (by simp)]
  refine List.filter_eq_self.mpr fun e he => decide_eq_true ?_
  exact (Std.ne_of_lt (hfirst e he)).symm

/-- Once a key is set, a key is still found with something known of its value, if that is known of
the new value where it was of the old one. -/
theorem exists_get?_insert {P : α → Prop} {m : KeyMap κ α} {key k : κ} {value : α}
    (hfound : ∃ v, m.get? k = some v ∧ P v)
    (hnew : ∀ old, m.get? key = some old → P old → P value) :
    ∃ v, (m.insert key value).get? k = some v ∧ P v := by
  obtain ⟨old, hold, hP⟩ := hfound
  rw [get?_insert]
  by_cases hkey : key = k
  · rw [if_pos hkey]
    subst hkey
    exact ⟨value, rfl, hnew old hold hP⟩
  · rw [if_neg hkey]
    exact ⟨old, hold, hP⟩

/-- A value after setting a key is the new one or was there before. -/
theorem mem_values_insert {m : KeyMap κ α} {key : κ} {value v : α}
    (h : v ∈ (m.insert key value).values) : v = value ∨ v ∈ m.values := by
  obtain ⟨entries, hordered⟩ := m
  simp only [insert, values] at h ⊢
  clear hordered
  induction entries with
  | nil => exact .inl (List.mem_singleton.mp h)
  | cons head rest ih =>
    unfold place at h
    split_ifs at h with hlt heq
    · exact List.mem_cons.mp h
    · exact (List.mem_cons.mp h).imp_right (List.mem_cons_of_mem _)
    · rcases List.mem_cons.mp h with rfl | h
      · exact .inr List.mem_cons_self
      · exact (ih h).imp_right (List.mem_cons_of_mem _)

/-- Setting a key exchanges what its old value gave for what the new one gives. -/
theorem flatMap_values_insert {β : Type} (m : KeyMap κ α) (key : κ) (value : α)
    (f : α → List β) :
    ((m.get? key).elim [] f ++ (m.insert key value).values.flatMap f).Perm
      (f value ++ m.values.flatMap f) := by
  obtain ⟨entries, hordered⟩ := m
  simp only [insert, values, get?]
  induction entries with
  | nil => rfl
  | cons head rest ih =>
    obtain ⟨hfirst, hrest⟩ := List.pairwise_cons.mp hordered
    unfold place
    by_cases hlt : key < head.1
    · -- The entries are in order, so a key before the first one has no value yet.
      have hnone : ((head :: rest).find? fun e => decide (e.1 = key)) = none := by
        rw [List.find?_eq_none]
        intro e he heq
        have hkey : e.1 = key := by simpa using heq
        have hbehind : key < e.1 := by
          rcases List.mem_cons.mp he with rfl | he
          · exact hlt
          · exact Std.lt_trans hlt (hfirst e he)
        rw [hkey] at hbehind
        exact Std.lt_irrefl hbehind
      rw [if_pos hlt, hnone]
      rfl
    · rw [if_neg hlt]
      by_cases heq : key = head.1
      · rw [if_pos heq]
        simp only [heq, List.find?_cons, decide_true, Option.map_some, Option.elim_some,
          List.map_cons, List.flatMap_cons]
        exact List.perm_append_comm_assoc _ _ _
      · rw [if_neg heq]
        have hne : ¬ head.1 = key := fun h => heq h.symm
        simp only [List.find?_cons, hne, decide_false, List.map_cons, List.flatMap_cons]
        have hswap := List.perm_append_comm_assoc
          (((rest.find? fun e => decide (e.1 = key)).map Prod.snd).elim [] f) (f head.2)
          (((place key value rest).map Prod.snd).flatMap f)
        refine hswap.trans (((ih hrest).append_left (f head.2)).trans ?_)
        exact List.perm_append_comm_assoc _ _ _

/-- Setting a key exchanges what is counted in its old value for what is counted in the new one. -/
theorem countP_values_insert {β : Type} (m : KeyMap κ α) (key : κ) (value : α) (f : α → List β)
    (p : β → Bool) :
    ((m.get? key).elim [] f).countP p + ((m.insert key value).values.flatMap f).countP p =
      (f value).countP p + (m.values.flatMap f).countP p := by
  rw [← List.countP_append, ← List.countP_append]
  exact (flatMap_values_insert m key value f).countP_eq p

/-- Where the new value of a key gives something more than its old one, what is gathered over the
values grows by that. -/
theorem flatMap_values_insert_perm {β : Type} [DecidableEq β] {m : KeyMap κ α} {key : κ} {value : α}
    {f : α → List β} {brought : List β} (h : (f value).Perm (brought ++ (m.get? key).elim [] f)) :
    ((m.insert key value).values.flatMap f).Perm (brought ++ m.values.flatMap f) := by
  refine List.perm_iff_count.mpr fun b => ?_
  have hcount := List.perm_iff_count.mp (flatMap_values_insert m key value f) b
  have hcount' := List.perm_iff_count.mp h b
  simp only [List.count_append] at hcount hcount' ⊢
  omega

omit [DecidableLT κ] [Std.IsLinearOrder κ] in
/-- An entry is found under its key. -/
theorem get?_of_mem_entries {m : KeyMap κ α} {key : κ} {value : α}
    (h : (key, value) ∈ m.entries) : m.get? key = some value := by
  obtain ⟨entries, hordered⟩ := m
  unfold get?
  simp only at h ⊢
  induction entries with
  | nil => cases h
  | cons head rest ih =>
    obtain ⟨hfirst, hrest⟩ := List.pairwise_cons.mp hordered
    rw [List.find?_cons]
    rcases List.mem_cons.mp h with rfl | h
    · simp
    · have hne : head.1 ≠ key := Std.ne_of_lt (hfirst _ h)
      simp only [hne, decide_false]
      exact ih hrest h

omit [DecidableLT κ] [Std.IsLinearOrder κ] in
/-- Each key has one entry, so an entry is what is found under its key. -/
theorem mem_entries_iff {m : KeyMap κ α} {e : κ × α} : e ∈ m.entries ↔ m.get? e.1 = some e.2 :=
  ⟨get?_of_mem_entries, mem_entries_of_get?⟩

omit [DecidableLT κ] in
/-- Two maps that answer every look-up alike are equal. -/
theorem ext_get? {m m' : KeyMap κ α} (h : ∀ key, m.get? key = m'.get? key) : m = m' := by
  have hnodup : ∀ m : KeyMap κ α, m.entries.Nodup := by
    intro m
    refine m.ordered.imp ?_
    rintro a b hlt rfl
    exact Std.lt_irrefl hlt
  have hperm : m.entries.Perm m'.entries := by
    refine (List.perm_ext_iff_of_nodup (hnodup m) (hnodup m')).mpr fun e => ?_
    rw [mem_entries_iff, mem_entries_iff, h]
  have hasymm : ∀ a b : κ × α, a.1 < b.1 → b.1 < a.1 → a = b := fun a b hab hba =>
    absurd (Std.lt_trans hab hba) Std.lt_irrefl
  have hentries : m.entries = m'.entries :=
    hperm.eq_of_pairwise (fun a b _ _ => hasymm a b) m.ordered m'.ordered
  cases m
  cases m'
  subst hentries
  rfl

omit [DecidableLT κ] [Std.IsLinearOrder κ] in
/-- Where each value tells its key, the values of one key are what is found under it. -/
theorem filter_values {m : KeyMap κ α} {f : α → κ}
    (h : ∀ key value, m.get? key = some value → f value = key) (key : κ) :
    m.values.filter (fun v => decide (f v = key)) = (m.get? key).toList := by
  have hkeys : ∀ e ∈ m.entries, f e.2 = e.1 := fun e he => h e.1 e.2 (get?_of_mem_entries he)
  clear h
  obtain ⟨entries, hordered⟩ := m
  unfold values get?
  simp only at hkeys ⊢
  induction entries with
  | nil => rfl
  | cons head rest ih =>
    obtain ⟨hfirst, hrest⟩ := List.pairwise_cons.mp hordered
    have hrestKeys : ∀ e ∈ rest, f e.2 = e.1 := fun e he => hkeys e (List.mem_cons_of_mem _ he)
    rw [List.map_cons, List.filter_cons, List.find?_cons, hkeys head List.mem_cons_self]
    by_cases heq : head.1 = key
    · have hnone : (rest.map Prod.snd).filter (fun v => decide (f v = key)) = [] := by
        rw [List.filter_eq_nil_iff]
        intro v hv
        obtain ⟨e, he, rfl⟩ := List.mem_map.mp hv
        have hbehind : key < e.1 := heq ▸ hfirst e he
        rw [decide_eq_true_eq, hrestKeys e he]
        exact (Std.ne_of_lt hbehind).symm
      simp [heq, hnone]
    · simp only [heq, decide_false, Bool.false_eq_true, if_false]
      exact ih hrest hrestKeys

/-- A key behind all others is placed at the end. By induction on the entries. -/
theorem place_of_forall_lt {key : κ} {value : α} {entries : List (κ × α)}
    (h : ∀ e ∈ entries, e.1 < key) : place key value entries = entries ++ [(key, value)] := by
  induction entries with
  | nil => rfl
  | cons head rest ih =>
    have hhead : head.1 < key := h head List.mem_cons_self
    have hafter : ¬ key < head.1 := fun hlt => Std.lt_irrefl (Std.lt_trans hhead hlt)
    have hne : key ≠ head.1 := (Std.ne_of_lt hhead).symm
    rw [place, if_neg hafter, if_neg hne, ih fun e he => h e (List.mem_cons_of_mem head he),
      List.cons_append]

/-- Setting the entries of a map one after the other, in a map that holds only lesser keys, puts
them behind it. By induction on the entries. -/
theorem entries_foldl_insert {entries : List (κ × α)} (h : entries.Pairwise fun a b => a.1 < b.1)
    {m : KeyMap κ α} (hm : ∀ a ∈ m.entries, ∀ b ∈ entries, a.1 < b.1) :
    (entries.foldl (fun m e => m.insert e.1 e.2) m).entries = m.entries ++ entries := by
  induction entries generalizing m with
  | nil => exact (List.append_nil _).symm
  | cons e rest ih =>
    obtain ⟨hfirst, hrest⟩ := List.pairwise_cons.mp h
    have hplaced : (m.insert e.1 e.2).entries = m.entries ++ [e] :=
      place_of_forall_lt fun a ha => hm a ha e List.mem_cons_self
    rw [List.foldl_cons, ih hrest, hplaced, List.append_assoc, List.singleton_append]
    intro a ha b hb
    rw [hplaced, List.mem_append, List.mem_singleton] at ha
    rcases ha with ha | rfl
    · exact hm a ha b (List.mem_cons_of_mem e hb)
    · exact hfirst b hb

/-- A map is what setting its entries gives. -/
theorem foldl_insert_entries (m : KeyMap κ α) :
    m.entries.foldl (fun (built : KeyMap κ α) e => built.insert e.1 e.2) ∅ = m := by
  have hentries := entries_foldl_insert m.ordered (m := ∅) (by intro a ha; cases ha)
  generalize m.entries.foldl (fun (built : KeyMap κ α) e => built.insert e.1 e.2) ∅ = built
    at hentries
  cases m
  cases built
  subst hentries
  rfl

/-! ### Entry by entry -/

omit [LE κ] [DecidableLT κ] [Std.IsLinearOrder κ] [Std.LawfulOrderLT κ] in
/-- A look-up finds the value of the first entry or looks among the others. -/
theorem get?_cons {first : κ × α} {rest : List (κ × α)}
    (h : (first :: rest).Pairwise fun a b => a.1 < b.1) (key : κ) :
    (KeyMap.mk (first :: rest) h).get? key =
      if first.1 = key then some first.2
      else (KeyMap.mk rest (List.pairwise_cons.mp h).2).get? key := by
  unfold get?
  by_cases hkey : first.1 = key <;> simp [hkey]

omit [DecidableLT κ] [Std.IsLinearOrder κ] in
/-- The key of the first entry is not found among the others. -/
theorem get?_rest_first {first : κ × α} {rest : List (κ × α)}
    (h : (first :: rest).Pairwise fun a b => a.1 < b.1) :
    (KeyMap.mk rest (List.pairwise_cons.mp h).2).get? first.1 = none := by
  unfold get?
  rw [Option.map_eq_none_iff, List.find?_eq_none]
  intro e he
  simpa using (Std.ne_of_lt ((List.pairwise_cons.mp h).1 e he)).symm

/-- Once the entries of a map are set in another one, a look-up finds what the first map has, else
what the other had. By induction on the entries. -/
theorem get?_foldl_insert (added m : KeyMap κ α) (key : κ) :
    (added.entries.foldl (fun m e => m.insert e.1 e.2) m).get? key =
      (added.get? key).or (m.get? key) := by
  obtain ⟨entries, hordered⟩ := added
  simp only
  induction entries generalizing m with
  | nil => rfl
  | cons first rest ih =>
    rw [List.foldl_cons, ih _ (List.pairwise_cons.mp hordered).2, get?_insert, get?_cons]
    by_cases hkey : first.1 = key
    · subst hkey
      rw [if_pos rfl, if_pos rfl, get?_rest_first hordered]
      rfl
    · rw [if_neg hkey, if_neg hkey]

/-- What is found in a map of given entries is one of them. By induction on the entries, for those
that are set in any map. -/
theorem mem_of_get?_ofList {given : List (κ × α)} {key : κ} {value : α}
    (h : (ofList given).get? key = some value) : (key, value) ∈ given := by
  have hset : ∀ m : KeyMap κ α,
      (given.foldl (fun m e => m.insert e.1 e.2) m).get? key = some value →
        (key, value) ∈ given ∨ m.get? key = some value := by
    clear h
    induction given with
    | nil => exact fun m h => .inr h
    | cons e rest ih =>
      intro m h
      rcases ih _ h with hrest | hfound
      · exact .inl (List.mem_cons_of_mem e hrest)
      · rw [get?_insert] at hfound
        split at hfound
        · next hkey =>
          cases hfound
          exact .inl (hkey ▸ List.mem_cons_self)
        · exact .inr hfound
  exact (hset empty h).resolve_right (by simp [get?, empty])

/-! ### Changing every value -/

section

variable {β : Type} (f : κ → α → β) (m : KeyMap κ α)

omit [LE κ] [DecidableLT κ] [Std.IsLinearOrder κ] [Std.LawfulOrderLT κ] in
/-- Once every value is changed, a look-up finds the changed value. -/
theorem get?_map (key : κ) : (m.map f).get? key = (m.get? key).map (f key) := by
  obtain ⟨entries, hordered⟩ := m
  unfold get? map
  simp only
  clear hordered
  induction entries with
  | nil => rfl
  | cons head rest ih =>
    simp only [List.map_cons, List.find?_cons]
    by_cases hkey : head.1 = key
    · simp [hkey]
    · simp only [hkey, decide_false]
      exact ih

/-- Setting a key and changing every value. By induction on the entries. -/
theorem map_insert (key : κ) (value : α) :
    (m.insert key value).map f = (m.map f).insert key (f key value) := by
  obtain ⟨entries, hordered⟩ := m
  unfold insert map
  congr 1
  simp only
  clear hordered
  induction entries with
  | nil => rfl
  | cons head rest ih =>
    simp only [place, List.map_cons]
    split_ifs
    · rfl
    · rfl
    · rw [List.map_cons, ih]

omit [LE κ] [DecidableLT κ] [Std.IsLinearOrder κ] [Std.LawfulOrderLT κ] in
/-- Taking out a key and changing every value. -/
theorem map_erase (key : κ) : (m.erase key).map f = (m.map f).erase key := by
  unfold erase map
  congr 1
  simp only [List.filter_map]
  rfl

omit [LE κ] [DecidableEq κ] [DecidableLT κ] [Std.IsLinearOrder κ] [Std.LawfulOrderLT κ] in
/-- The values once every value is changed alike. -/
theorem values_map (f : α → β) : (m.map fun _ => f).values = m.values.map f := by
  unfold map values
  rw [List.map_map, List.map_map]
  rfl

end

end CompileLog.KeyMap
