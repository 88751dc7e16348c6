import CompileLog.Proofs.Json.Stored
import CompileLog.Snapshot.Code

/-!
# Stored code is kept

Methods, stamps, listings and installed code are read back from what is written for them.
-/

namespace CompileLog.Snapshot

open Json

instance : Lossless Stamp where
  kept s := ⟨plain_write s.micros, Value.noConfusion, by
    show (read? (write s.micros)).map Stamp.mk = some s
    rw [read?_write, Option.map_some]⟩

instance : Lossless Method where
  kept m := .of_fields rfl (fun _ => rfl) rfl (by decide) (by simp) (by simp [Fields.need])

instance : Lossless Anchor where
  kept a := .of_fields rfl (fun _ => rfl) rfl (by decide) (by simp) (by simp [Fields.need])

instance : Lossless Listing.Line where
  kept l := .of_fields rfl (fun _ => rfl) rfl (by decide) (by simp) (by simp [Fields.need])

instance : Lossless Listing.Block where
  kept b := .of_fields rfl (fun _ => rfl) rfl (by decide) (by simp) (by simp [Fields.need])

instance : Lossless Listing where
  kept l := .of_fields rfl (fun _ => rfl) rfl (by decide) (by simp) (by simp [Fields.need])

instance : Lossless NativeCode where
  kept n := .of_fields rfl (fun _ => rfl) rfl (by decide) (by simp) (by simp [Fields.need])

end CompileLog.Snapshot
