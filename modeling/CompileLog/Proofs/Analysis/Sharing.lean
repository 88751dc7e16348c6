import CompileLog.Analysis.Lookup
import CompileLog.History.Index

/-!
# Correlating many tasks at once

What is asked of many tasks is first prepared task by task. Only what could be prepared is cut into
pieces for the workers, and the finished correlations go back to their tasks in the order in which
they were given out. This file proves that none is missing there and none goes to another task: all
together give what each task gives by itself, however many workers there are.
-/

namespace CompileLog

/-! ### Sharing out -/

/-- The pieces of a list put together again are the list. By induction on the pieces cut off. -/
theorem flatten_inPieces {α : Type} (length : Nat) (xs : List α) :
    (inPieces length xs).flatten = xs := by
  fun_induction inPieces length xs with
  | case1 xs _ ih => rw [List.flatten_cons, ih, List.take_append_drop]
  | case2 xs _ hnone => rw [List.flatten_nil, List.isEmpty_iff.mp hnone]
  | case3 xs _ _ => exact List.append_nil xs

/-- Sharing out changes neither the results nor their order. -/
theorem correlateAll_eq_map (workers : Nat)
    (jobs : List (List NativeInstruction × List Anchor)) :
    correlateAll workers jobs = jobs.map fun job => correlate job.1 job.2 := by
  unfold correlateAll
  rw [List.flatMap_def, ← List.map_flatten, flatten_inPieces]

/-! ### Giving back -/

/-- What a worker is given of a task, if it could be prepared. -/
def jobOf? : Except LookupError (List NativeInstruction × Task × NativeCode) →
    Option (List NativeInstruction × List Anchor)
  | .ok (instructions, _, n) => some (instructions, n.anchors)
  | .error _ => none

/-- The correlation of a task that was prepared. -/
def Tools.finish (tools : Tools) :
    Except LookupError (List NativeInstruction × Task × NativeCode) →
      Except LookupError Correlation :=
  Except.map fun (instructions, t, n) => tools.addLines t n (correlate instructions n.anchors)

/-- A correlation that is finished for each task that could be prepared goes back to that task. By
induction on what was prepared. -/
theorem distribute_map (tools : Tools)
    (prepared : List (Except LookupError (List NativeInstruction × Task × NativeCode))) :
    Archive.distribute tools prepared
        ((prepared.filterMap jobOf?).map fun job => correlate job.1 job.2) =
      prepared.map tools.finish := by
  induction prepared with
  | nil => rfl
  | cons first rest ih =>
    cases first with
    | error e => exact congrArg (List.cons (.error e)) ih
    | ok found =>
      obtain ⟨instructions, t, n⟩ := found
      exact congrArg (List.cons (tools.finish (.ok (instructions, t, n)))) ih

namespace Archive

variable (a : Archive) (tools : Tools)

/-- The correlation of a task is the one of what is prepared for it. -/
theorem correlation_eq (id : UInt64) : a.correlation tools id = tools.finish (a.prepare tools id) :=
  rfl

/-- All correlations together are those of the tasks one by one. -/
theorem correlations_eq_map (workers : Nat) (ids : List UInt64) :
    a.correlations tools workers ids = ids.map (a.correlation tools) := by
  have hjobs : a.correlations tools workers ids =
      distribute tools (ids.map (a.prepare tools))
        (correlateAll workers ((ids.map (a.prepare tools)).filterMap jobOf?)) := rfl
  rw [hjobs, correlateAll_eq_map, distribute_map, List.map_map]
  rfl

end Archive

/-- Asking for many correlations at once gives as many results as numbers were asked for, each the
one that its number gives by itself, whatever the workers, the disassembler and the source lines. A
result is an error only where its task could not be prepared, and then it is that error: no finished
correlation is ever missing for a task that was prepared. -/
theorem correlations_agree_with_single (a : Archive) (tools : Tools) (workers : Nat)
    (ids : List UInt64) :
    (a.correlations tools workers ids).length = ids.length ∧
      (∀ i : Nat, (a.correlations tools workers ids)[i]? = ids[i]?.map (a.correlation tools)) ∧
      ∀ (i : Nat) (e : LookupError), (a.correlations tools workers ids)[i]? = some (.error e) →
        ∃ id, ids[i]? = some id ∧ a.prepare tools id = .error e := by
  have hall := a.correlations_eq_map tools workers ids
  have hat : ∀ i : Nat,
      (a.correlations tools workers ids)[i]? = ids[i]?.map (a.correlation tools) := fun i => by
    rw [hall, List.getElem?_map]
  refine ⟨by rw [hall, List.length_map], hat, fun i e he => ?_⟩
  rw [hat] at he
  obtain ⟨id, hid, hresult⟩ := Option.map_eq_some_iff.mp he
  refine ⟨id, hid, ?_⟩
  rw [a.correlation_eq] at hresult
  cases hprepared : a.prepare tools id with
  | error e' =>
    rw [hprepared] at hresult
    obtain rfl := Except.error.inj hresult
    rfl
  | ok found =>
    rw [hprepared] at hresult
    cases hresult

/-- Two tasks with bytes of code. -/
def twoWithBytes : Archive :=
  let withBytes (id : UInt64) (code : List UInt8) : Task :=
    { Task.new id ⟨"A", "a", "()V"⟩ with native := some { NativeCode.unknown with code } }
  (((Index.empty 4).recordTask (withBytes 1 [0x90])).recordTask (withBytes 2 [0x90, 0x90])).freeze

/-- A disassembler that finds one instruction, as long as the code. -/
def oneInstruction : Tools where
  disassembler := some fun code _ => .ok [⟨0, UInt64.ofNat code.length, "nop", ""⟩]
  sourceLines := none

/-- A number without a task stands between these: its error keeps its place, and the tasks around it
get their own correlations. -/
theorem correlations_agree_with_single_unknownBetween :
    let results := twoWithBytes.correlations oneInstruction 3 [1, 7, 2, 1]
    results.length = 4 ∧ results[1]? = some (.error (.unknownTask 7)) ∧
      results[2]? = some (twoWithBytes.correlation oneInstruction 2) ∧
      ∃ id, ([1, 7, 2, 1] : List UInt64)[1]? = some id ∧
        twoWithBytes.prepare oneInstruction id = .error (.unknownTask 7) := by
  intro results
  obtain ⟨hlength, hat, herror⟩ :=
    correlations_agree_with_single twoWithBytes oneInstruction 3 [1, 7, 2, 1]
  have hunknown : results[1]? = some (.error (.unknownTask 7)) := (hat 1).trans rfl
  exact ⟨hlength, hunknown, hat 2, herror 1 _ hunknown⟩

end CompileLog
