import CompileLog.Proofs.Snapshot.Task
import CompileLog.Proofs.Text.Utf8
import CompileLog.Snapshot.Archive

/-!
# Stored archives are kept

A snapshot is read back from the bytes that are written for it, if its numbers fit the stored form.
-/

namespace CompileLog

/-- The numbers of a history fit the stored form. -/
structure MethodHistory.Fits (h : MethodHistory) : Prop where
  tasks : ∀ t ∈ h.tasks, t.Fits
  current : ∀ i ∈ h.current, i < UInt64.size

/-- The numbers of a snapshot fit the stored form. -/
structure Snapshot.Fits (s : Snapshot) : Prop where
  histories : ∀ h ∈ s.histories, h.Fits
  dropped : s.dropped < UInt64.size

namespace Snapshot

open Json

/-! ### Values -/

instance : Lossless HistoryFlag where
  kept f := by
    cases f with
    | outOfOrder earlier later =>
      exact .of_caseFields rfl (fun _ => rfl) rfl (by decide) (by simp) (by simp [Fields.need])
    | duplicate id => exact .of_holding rfl fun _ => rfl

/-- A history whose numbers fit is kept. -/
theorem kept_history {h : MethodHistory} (hfits : h.Fits) : Kept h := by
  have htasks : Kept h.tasks := .list fun t ht => kept_task (hfits.tasks t ht)
  have hcurrent : ∀ rest, Fields.maybeAs ⟨("current", .optional .natural h.current) :: rest, false⟩
      "current" (natBelow? UInt64.size) = some h.current :=
    fun rest => Fields.maybeAs_cons_natural hfits.current
  refine .of_fields rfl (fun _ => rfl) rfl (by decide) (by simp [htasks.plain]) ?_
  simp [Fields.need, htasks.read?_write, hcurrent]

/-- A snapshot whose numbers fit is kept. -/
theorem kept_snapshot {s : Snapshot} (hfits : s.Fits) : Kept s := by
  have hhistories : Kept s.histories := .list fun h hh => kept_history (hfits.histories h hh)
  have hdropped := natBelow?_natural hfits.dropped
  refine .of_fields rfl (fun _ => rfl) rfl (by decide) (by simp [hhistories.plain]) ?_
  simp [Fields.need, Fields.orElse, hhistories.read?_write, hdropped]

/-! ### Bytes -/

/-- The bytes of a snapshot. -/
def bytes (s : Snapshot) : List UInt8 := Text.Utf8.encode (String.ofList s.print)

/-- A snapshot of the version that is read, whose numbers fit, is read back from its bytes. -/
theorem read_bytes {s : Snapshot} (hversion : s.version = currentVersion) (hfits : s.Fits) :
    read s.bytes = .ok s := by
  have hkept := kept_snapshot hfits
  have hparse : parse? (Text.Utf8.characters s.bytes) = some (write s) := by
    rw [bytes, Text.Utf8.characters_encode, String.toList_ofList]
    exact parse?_compact hkept.plain
  rw [Snapshot.read, hparse, Option.bind_some, hkept.read?_write]
  exact if_pos hversion

end Snapshot

end CompileLog
