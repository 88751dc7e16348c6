import CompileLog.Listing.Anchors
import CompileLog.Stamp

/-!
# Installed machine code

What is known of the machine code of one compilation comes from two places: the event of
its installation, and a printed listing. Either may come first.
-/

namespace CompileLog

/-- The machine code of one compilation. -/
structure NativeCode where
  /-- Name of the compiler. -/
  compiler : Option String
  /-- When it was installed. -/
  emittedAt : Option Stamp
  /-- Its address. -/
  address : Option UInt64
  /-- Address of its entry. -/
  entry : Option UInt64
  /-- Its size in bytes. -/
  size : Option UInt64
  /-- Offset of its instructions. -/
  instsOffset : Option UInt64
  /-- The address that native offsets count from. -/
  base : UInt64
  /-- Its bytes, where the log prints them. -/
  code : List UInt8
  /-- Its anchors. -/
  anchors : List Anchor
  /-- Its listing, where the log prints one. -/
  listing : Option Listing
  deriving DecidableEq, Inhabited

namespace NativeCode

/-- Code of which nothing is known. -/
def unknown : NativeCode := ⟨none, none, none, none, none, none, 0, [], [], none⟩

/-- The greatest number of bytes that a listing of this code may span. -/
def spanLimit (n : NativeCode) : Nat :=
  match n.size with
  | some size => if 0 < size then min size.toNat maxCodeSpan else maxCodeSpan
  | none => maxCodeSpan

/-- Adds a printed listing. Bytes and anchors that are known already stay; a listing that
spans too many bytes is refused. -/
def attachListing (n : NativeCode) (l : Listing) : Except SpanError NativeCode :=
  match l.code n.spanLimit with
  | .error e => .error e
  | .ok code =>
    .ok { n with
      base := l.base?.getD n.base
      code := if n.code.isEmpty then code else n.code
      anchors := if n.anchors.isEmpty then l.anchors else n.anchors
      listing := some l }

/-- Takes over what an earlier record of the same code holds and this one does not: bytes
with their base, anchors and listing. -/
def inherit (n before : NativeCode) : NativeCode :=
  let keepCode := n.code.isEmpty && !before.code.isEmpty
  { n with
    code := if keepCode then before.code else n.code
    base := if keepCode then before.base else n.base
    anchors := if n.anchors.isEmpty then before.anchors else n.anchors
    listing := n.listing.or before.listing }

end NativeCode

end CompileLog
