import CompileLog.Proofs.Collect.Transcript

/-!
# What was heard and what was told

While a task is under way the log goes on, and of what is heard the task is told what is about it.
So whatever is gathered from the events in turn, and only from those that are about a task, is the
same for all that was heard since the task began and for what the task was told.
-/

namespace CompileLog.Collect

/-- What was heard of the task under way once an event came, told by what the event is to it. -/
theorem hear_eq (heard : Option (List Event)) (e : Event) :
    hear heard e =
      match bearing e with
      | .begins => some []
      | .ends => none
      | _ => heard.map (· ++ [e]) := by
  cases e with
  | close of => cases of <;> rfl
  | uncommonTrap id bci reason action stamp => cases id <;> rfl
  | deoptimized id reason pc stamp => cases id <;> rfl
  | madeNotEntrant id compiler level stamp => cases id <;> rfl
  | _ => rfl

section Gathering

variable {σ : Type} {gather : σ → Event → σ} {start : σ}

/-- What is gathered from what a task was told and from what was heard of it. -/
def GatheredAlike (gather : σ → Event → σ) (start : σ) (told : Option (List LogEvent))
    (heard : Option (List Event)) : Prop :=
  told.map (fun told => told.foldl (fun s e => gather s e.event) start) =
    heard.map fun heard => heard.foldl gather start

/-- One more event is told and heard. -/
theorem GatheredAlike.append {told : Option (List LogEvent)} {heard : Option (List Event)}
    (h : GatheredAlike gather start told heard) (e : LogEvent) :
    GatheredAlike gather start (told.map (· ++ [e])) (heard.map (· ++ [e.event])) := by
  have hnext := congrArg (Option.map fun s => gather s e.event) h
  unfold GatheredAlike
  simp only [Option.map_map] at hnext ⊢
  simpa only [Function.comp_def, List.foldl_append, List.foldl_cons, List.foldl_nil] using hnext

/-- An event that adds nothing is heard and not told. -/
theorem GatheredAlike.pass {told : Option (List LogEvent)} {heard : Option (List Event)}
    (h : GatheredAlike gather start told heard) {e : Event} (he : ∀ s, gather s e = s) :
    GatheredAlike gather start told (heard.map (· ++ [e])) := by
  unfold GatheredAlike at h ⊢
  rw [h, Option.map_map]
  simp only [Function.comp_def, List.foldl_append, List.foldl_cons, List.foldl_nil, he]

/-- After the next event what is gathered is alike still. -/
theorem GatheredAlike.hear (hgather : ∀ s e, bearing e ≠ .tells → gather s e = s)
    {s : Transcript} {heard : Option (List Event)} (h : GatheredAlike gather start s.told heard)
    (e : LogEvent) : GatheredAlike gather start (s.hear e).told (hear heard e.event) := by
  have hpasses : bearing e.event ≠ .tells → ∀ s, gather s e.event = s := fun he s => hgather s _ he
  rw [hear_eq]
  unfold Transcript.hear
  cases hbearing : bearing e.event with
  | begins => simp [GatheredAlike, hpasses (by simp [hbearing])]
  | ends => rfl
  | frames =>
    simp only
    split
    · exact h.pass (hpasses (by simp [hbearing]))
    · exact h.append e
  | tells => exact h.append e
  | passes => exact h.pass (hpasses (by simp [hbearing]))

/-- What goes back to what is gathered from what a task was told goes back to what is gathered from
what was heard of it. -/
theorem GatheredAlike.rel {told : Option (List LogEvent)} {heard : Option (List Event)}
    (h : GatheredAlike gather start told heard) {α : Type} {R : List LogEvent → α → Prop}
    {P : σ → α → Prop}
    (hgathered : ∀ told a, R told a → P (told.foldl (fun s e => gather s e.event) start) a)
    {mine : Option α} (hmine : Option.Rel R told mine) :
    Option.Rel (fun heard a => P (heard.foldl gather start) a) heard mine := by
  unfold GatheredAlike at h
  cases hmine with
  | none =>
    rw [Option.map_none] at h
    rw [Option.map_eq_none_iff.mp h.symm]
    exact .none
  | @some told a htold =>
    rw [Option.map_some] at h
    obtain ⟨heard', rfl, hsame⟩ := Option.map_eq_some_iff.mp h.symm
    refine .some ?_
    rw [hsame]
    exact hgathered told a htold

/-- Whatever a collector is given, what is gathered from what the task under way was told is gathered
from what was heard since it began. By induction on what is given. -/
theorem gathered_alike (hgather : ∀ s e, bearing e ≠ .tells → gather s e = s)
    (inputs : List Input) :
    GatheredAlike gather start (transcript inputs).told (underway inputs) := by
  have hrun : ∀ (s : Transcript) (heard : Option (List Event)),
      GatheredAlike gather start s.told heard →
      GatheredAlike gather start (inputs.foldl Transcript.attend s).told
        (inputs.foldl attend heard) := by
    induction inputs with
    | nil => exact fun _ _ h => h
    | cons input rest ih =>
      intro s heard h
      apply ih
      cases input with
      | event e => exact h.hear hgather e
      | ending => rfl
  exact hrun .empty none rfl

end Gathering

end CompileLog.Collect
