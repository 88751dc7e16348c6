import CompileLog.Json.Stored
import CompileLog.Task.Native
import CompileLog.Method

/-!
# Stored machine code

How methods, stamps, listings and installed code are written in a snapshot.
-/

namespace CompileLog.Snapshot

open Json

instance : Stored Stamp where
  write s := write s.micros
  read? v := (read? v).map Stamp.mk

instance : Stored Method where
  write m := .object [("class_name", write m.className), ("method_name", write m.name),
    ("descriptor", write m.descriptor)]
  read? v := do
    let f ← Fields.find? ["class_name", "method_name", "descriptor"] v
    return ⟨← f.need "class_name", ← f.need "method_name", ← f.need "descriptor"⟩

instance : Stored Anchor where
  write a := .object [("bci", write a.bci), ("native_offset", write a.offset),
    ("line", write a.line)]
  read? v := do
    let f ← Fields.find? ["bci", "native_offset", "line"] v
    return ⟨← f.need "bci", ← f.need "native_offset", ← f.maybe "line"⟩

instance : Stored Listing.Line where
  write l := .object [("address", write l.address), ("mnemonic", write l.mnemonic),
    ("operands", write l.operands), ("bytes", write l.bytes), ("comments", write l.comments)]
  read? v := do
    let f ← Fields.find? ["address", "mnemonic", "operands", "bytes", "comments"] v
    return ⟨← f.need "address", ← f.need "mnemonic", ← f.need "operands", ← f.need "bytes",
      ← f.need "comments"⟩

instance : Stored Listing.Block where
  write b := .object [("title", write b.title), ("instructions", write b.lines)]
  read? v := do
    let f ← Fields.find? ["title", "instructions"] v
    return ⟨← f.need "title", ← f.need "instructions"⟩

instance : Stored Listing where
  write l := .object [("compile_id", write l.compileId), ("compiler", write l.compiler),
    ("level", write l.level), ("stamp_ms", write l.stampMillis),
    ("nmethod_address", write l.codeAddress), ("header", write l.header),
    ("signature", write l.signature), ("disassembled", write l.disassembled),
    ("blocks", write l.blocks)]
  read? v := do
    let f ← Fields.find? ["compile_id", "compiler", "level", "stamp_ms", "nmethod_address",
      "header", "signature", "disassembled", "blocks"] v
    return ⟨← f.maybe "compile_id", ← f.maybe "compiler", ← f.maybe "level",
      ← f.maybe "stamp_ms", ← f.maybe "nmethod_address", ← f.need "header",
      ← f.maybe "signature", ← f.need "disassembled", ← f.need "blocks"⟩

instance : Stored NativeCode where
  write n := .object [("compiler", write n.compiler), ("emitted_at", write n.emittedAt),
    ("address", write n.address), ("entry", write n.entry), ("size", write n.size),
    ("insts_offset", write n.instsOffset), ("base_address", write n.base),
    ("code", write n.code), ("anchors", write n.anchors), ("assembly", write n.listing)]
  read? v := do
    let f ← Fields.find? ["compiler", "emitted_at", "address", "entry", "size", "insts_offset",
      "base_address", "code", "anchors", "assembly"] v
    return ⟨← f.maybe "compiler", ← f.maybe "emitted_at", ← f.maybe "address",
      ← f.maybe "entry", ← f.maybe "size", ← f.maybe "insts_offset", ← f.need "base_address",
      ← f.need "code", ← f.need "anchors", ← f.maybe "assembly"⟩

end CompileLog.Snapshot
