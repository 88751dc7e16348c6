import CompileLog.Collect.Collector
import CompileLog.Proofs.Listing.Anchors
import CompileLog.Proofs.Listing.Code

/-!
# Installed code and its listing

The log tells of the code of a task by the event of its installation and by a printed listing, and
either may come first. What is known in the end does not depend on it, with two exceptions: a size
that is told later refuses no listing, and where the listing prints no bytes the base is that of the
later record.

Of several listings the last one is kept, but the anchors are those of the first that has any. They
lie at lines of that one, so nothing ties them to the listing that is kept unless it is the same.
-/

namespace CompileLog

open Collect

/-! ### What a record adds -/

/-- Code with a listing and the bytes read from it. -/
def NativeCode.withListing (n : NativeCode) (l : Listing) (bytes : List UInt8) : NativeCode :=
  { n with
    base := l.base?.getD n.base
    code := if n.code.isEmpty then bytes else n.code
    anchors := if n.anchors.isEmpty then l.anchors else n.anchors
    listing := some l }

/-- What is known of the code of a task. -/
def Task.knownCode (t : Task) : NativeCode := t.native.getD .unknown

/-- No code sets a wider limit than code of which nothing is known. -/
theorem NativeCode.spanLimit_le (n : NativeCode) : n.spanLimit ≤ maxCodeSpan := by
  unfold spanLimit
  split
  · split
    · exact Nat.min_le_right _ _
    · exact Nat.le_refl _
  · exact Nat.le_refl _

/-- From code of which nothing is known there is nothing to take over. -/
theorem NativeCode.inherit_unknown (n : NativeCode) : n.inherit .unknown = n := by
  obtain ⟨compiler, emittedAt, address, entry, size, instsOffset, base, code, anchors, listing⟩ := n
  cases anchors <;> simp [inherit, unknown]

namespace Task

variable {t : Task} {l : Listing}

/-- Installed code takes over what is known. -/
theorem attachNative_eq (t : Task) (n : NativeCode) :
    t.attachNative n =
      { t with
        nativeSize := t.nativeSize.or n.size
        native := some (n.inherit t.knownCode) } := by
  unfold attachNative knownCode
  cases t.native with
  | some before => rfl
  | none => rw [Option.getD_none, n.inherit_unknown]

/-- Of code that was never told of nothing is known. -/
theorem knownCode_of_eq_none (ht : t.native = none) : t.knownCode = .unknown := by
  unfold knownCode
  rw [ht]
  rfl

/-- What is known once code is installed. -/
theorem knownCode_attachNative (t : Task) (n : NativeCode) :
    (t.attachNative n).knownCode = n.inherit t.knownCode := by
  rw [attachNative_eq]
  rfl

/-- Where code is installed of which nothing was known, the event of its installation tells all. -/
theorem knownCode_attachNative_of_eq_none (ht : t.native = none) (n : NativeCode) :
    (t.attachNative n).knownCode = n := by
  rw [knownCode_attachNative, knownCode_of_eq_none ht, n.inherit_unknown]

/-- A listing within the limit is added, with its bytes. -/
theorem attachListing_of_code {bytes : List UInt8}
    (h : l.code t.knownCode.spanLimit = .ok bytes) :
    t.attachListing l = { t with native := some (t.knownCode.withListing l bytes) } := by
  unfold attachListing NativeCode.attachListing
  rw [show t.native.getD .unknown = t.knownCode from rfl, h]
  rfl

/-- A listing beyond the limit leaves a flag. -/
theorem attachListing_of_lt (h : t.knownCode.spanLimit < l.codeSpan) :
    t.attachListing l = t.flag (.oversizedListing (UInt64.ofNat l.codeSpan)) := by
  unfold attachListing NativeCode.attachListing
  rw [show t.native.getD .unknown = t.knownCode from rfl, Listing.code_of_lt h]

/-- A flag tells nothing of the code. -/
@[simp] theorem knownCode_flag (t : Task) (f : TaskFlag) : (t.flag f).knownCode = t.knownCode := by
  unfold flag
  split <;> rfl

/-- Nor of the size of the code. -/
@[simp] theorem nativeSize_flag (t : Task) (f : TaskFlag) :
    (t.flag f).nativeSize = t.nativeSize := by
  unfold flag
  split <;> rfl

/-- A flag and installed code may be told in either order. -/
theorem flag_attachNative (t : Task) (f : TaskFlag) (n : NativeCode) :
    (t.flag f).attachNative n = (t.attachNative n).flag f := by
  have hflags : (t.attachNative n).flags = t.flags := rfl
  unfold flag
  rw [hflags]
  split <;> rfl

/-! ### Installed first or printed first -/

/-- The task with another base of its code. -/
def rebase (t : Task) (base : UInt64) : Task :=
  { t with native := t.native.map fun n => { n with base } }

/-- The base that the code has already is no other one. -/
theorem rebase_self {n : NativeCode} (h : t.native = some n) : t.rebase n.base = t := by
  unfold rebase
  rw [h, Option.map_some, ← h]

/-- The task with code that was installed and a listing of it, with its bytes. -/
def withPrintedCode (t : Task) (facts : NativeFacts) (l : Listing) (bytes : List UInt8) : Task :=
  { t with
    nativeSize := t.nativeSize.or facts.size
    native := some ((Collector.nativeOf facts).withListing l bytes) }

/-- A listing within the limit is added to code that is installed before. -/
theorem attachListing_attachNative (ht : t.native = none) {facts : NativeFacts}
    {bytes : List UInt8} (h : l.code (Collector.nativeOf facts).spanLimit = .ok bytes) :
    (t.attachNative (Collector.nativeOf facts)).attachListing l =
      t.withPrintedCode facts l bytes := by
  have hinstalled := knownCode_attachNative_of_eq_none ht (Collector.nativeOf facts)
  rw [attachListing_of_code (by rwa [hinstalled]), hinstalled]
  rfl

/-- Code that is installed takes over the listing that was printed before, with its bytes and
anchors, but its base only with bytes. -/
theorem attachNative_attachListing (ht : t.native = none) (facts : NativeFacts)
    {bytes : List UInt8} (h : l.code maxCodeSpan = .ok bytes) :
    (t.attachListing l).attachNative (Collector.nativeOf facts) =
      (t.withPrintedCode facts l bytes).rebase
        (if bytes = [] then (Collector.nativeOf facts).base else l.base?.getD 0) := by
  have hunknown := knownCode_of_eq_none ht
  have hlimit : l.code t.knownCode.spanLimit = .ok bytes := by rwa [hunknown]
  rw [attachListing_of_code hlimit, hunknown, attachNative_eq]
  cases bytes <;> rfl

/-- Where a listing prints bytes, or its own base is that of the installed code, the base in the end
is that of the listing, if it has one. -/
theorem printedBase_eq {bytes : List UInt8} (hlength : bytes.length = l.codeSpan) {base : UInt64}
    (h : (∃ line ∈ l.lines, line.bytes ≠ []) ∨ l.base?.getD base = base) :
    (if bytes = [] then base else l.base?.getD 0) = l.base?.getD base := by
  split
  · next hnone =>
    rcases h with ⟨line, hline, hbytes⟩ | hsame
    · have hpos := Listing.codeSpan_pos hline hbytes
      rw [← hlength, hnone] at hpos
      exact absurd hpos (Nat.lt_irrefl 0)
    · exact hsame.symm
  · next hsome =>
    have hpos : 0 < l.codeSpan := hlength ▸ List.length_pos_iff.mpr hsome
    obtain ⟨lowest, hlowest⟩ := Option.isSome_iff_exists.mp (l.base?_isSome_of_codeSpan_pos hpos)
    rw [hlowest]
    rfl

/-- It does not matter whether the code of a task is installed first or printed first. A listing
that spans more than any code may is refused in either order. One that stays within the limit that
the installed code sets is added in either order; the tasks then differ in no more than the base of
the code, and in nothing if the listing prints bytes, or if its own base is that of the installed
code. Between the two limits the listing is refused by code that is installed before it, and is kept
whole where the size is told only later. -/
theorem installed_or_printed_first (ht : t.native = none) (facts : NativeFacts) (l : Listing) :
    let code := Collector.nativeOf facts
    let installedFirst := (t.attachNative code).attachListing l
    let printedFirst := (t.attachListing l).attachNative code
    (maxCodeSpan < l.codeSpan → printedFirst = installedFirst) ∧
      (l.codeSpan ≤ code.spanLimit →
        (∃ base, printedFirst = installedFirst.rebase base) ∧
          ((∃ line ∈ l.lines, line.bytes ≠ []) ∨ l.base?.getD code.base = code.base →
            printedFirst = installedFirst)) ∧
      (code.spanLimit < l.codeSpan → l.codeSpan ≤ maxCodeSpan →
        installedFirst =
            (t.attachNative code).flag (.oversizedListing (UInt64.ofNat l.codeSpan)) ∧
          printedFirst.nativeSize = installedFirst.nativeSize ∧ printedFirst.flags = t.flags ∧
          printedFirst.knownCode.listing = some l ∧
          printedFirst.knownCode.anchors = l.anchors ∧
          l.code maxCodeSpan = .ok printedFirst.knownCode.code) := by
  intro code installedFirst printedFirst
  have hlimit : code.spanLimit ≤ maxCodeSpan := code.spanLimit_le
  have hrefused (hover : code.spanLimit < l.codeSpan) : installedFirst =
      (t.attachNative code).flag (.oversizedListing (UInt64.ofNat l.codeSpan)) := by
    refine attachListing_of_lt ?_
    rwa [knownCode_attachNative_of_eq_none ht]
  obtain ⟨bytes, hlength, hcode⟩ := l.exists_code
  have hprinted (hspan : l.codeSpan ≤ maxCodeSpan) : printedFirst =
      (t.withPrintedCode facts l bytes).rebase
        (if bytes = [] then code.base else l.base?.getD 0) :=
    attachNative_attachListing ht facts (hcode maxCodeSpan hspan)
  refine ⟨fun hspan => ?_, fun hspan => ?_, fun hover hspan => ?_⟩
  · have hflagged : t.attachListing l = t.flag (.oversizedListing (UInt64.ofNat l.codeSpan)) := by
      refine attachListing_of_lt (Nat.lt_of_le_of_lt ?_ hspan)
      exact t.knownCode.spanLimit_le
    rw [hrefused (Nat.lt_of_le_of_lt hlimit hspan), ← flag_attachNative, ← hflagged]
  · have hfirst : installedFirst = t.withPrintedCode facts l bytes :=
      attachListing_attachNative ht (hcode _ hspan)
    rw [hfirst, hprinted (Nat.le_trans hspan hlimit)]
    refine ⟨⟨_, rfl⟩, fun hsame => ?_⟩
    have hkept : (t.withPrintedCode facts l bytes).native = some (code.withListing l bytes) := rfl
    rw [printedBase_eq hlength hsame]
    exact rebase_self hkept
  · rw [hrefused hover, hprinted hspan]
    refine ⟨rfl, ?_, rfl, rfl, rfl, hcode maxCodeSpan hspan⟩
    rw [nativeSize_flag]
    rfl

/-- A line of raw bytes, and the task whose code it is. -/
theorem installed_or_printed_first_rawBytes :
    let l := Listing.parse "Compiled method (c1) 2 7 1 A::a (1 bytes)\n 0x10: 44".toList
    let facts : NativeFacts := { (default : NativeFacts) with address := some 32, size := some 1 }
    let t := Task.new 7 .unresolved
    t.native = none ∧ (l.codeSpan ≤ (Collector.nativeOf facts).spanLimit) ∧
      (∃ line ∈ l.lines, line.bytes ≠ []) ∧
      (t.attachListing l).attachNative (Collector.nativeOf facts) =
        (t.attachNative (Collector.nativeOf facts)).attachListing l := by
  intro l facts t
  have hspan : l.codeSpan ≤ (Collector.nativeOf facts).spanLimit := by decide +kernel
  have hbytes : ∃ line ∈ l.lines, line.bytes ≠ [] := by decide +kernel
  exact ⟨rfl, hspan, hbytes,
    ((installed_or_printed_first rfl facts l).2.1 hspan).2 (.inl hbytes)⟩

/-- Two bytes are kept as the code of a task of which it is told later that it has one byte; told
before, that size refuses them. -/
theorem size_told_later_refuses_nothing :
    let l := Listing.parse "Compiled method (c1) 2 7 1 A::a (1 bytes)\n 0x10: 4445".toList
    let code := Collector.nativeOf { (default : NativeFacts) with size := some 1 }
    let t := Task.new 7 .unresolved
    let installedFirst := (t.attachNative code).attachListing l
    let printedFirst := (t.attachListing l).attachNative code
    t.native = none ∧ installedFirst.native ≠ printedFirst.native ∧
      installedFirst.flags ≠ printedFirst.flags := by
  decide +kernel

end Task

/-! ### One record after another -/

/-- What is told of the code of a task. -/
inductive CodeRecord where
  /-- It is installed. -/
  | installed (facts : NativeFacts)
  /-- It is printed. -/
  | printed (l : Listing)

/-- The listings among some records that are not refused. What was told last of the installed code
limits what a listing may span. -/
def CodeRecord.accepted (limit : Nat) : List CodeRecord → List Listing
  | [] => []
  | .installed facts :: rest => accepted (Collector.nativeOf facts).spanLimit rest
  | .printed l :: rest =>
    if l.codeSpan ≤ limit then l :: accepted limit rest else accepted limit rest

/-- Whether a listing has anchors. -/
def Listing.isAnnotated (l : Listing) : Bool := !l.anchors.isEmpty

namespace Task

/-- Adds a record to what is known of the code. -/
def addCode (t : Task) : CodeRecord → Task
  | .installed facts => t.attachNative (Collector.nativeOf facts)
  | .printed l => t.attachListing l

/-- Adds one record after another. -/
def addCodes (t : Task) (records : List CodeRecord) : Task := records.foldl addCode t

/-- A record leaves the listing and the anchors, and is no listing that is accepted; or it is one,
which is then the listing, and gives the anchors if none are known. -/
theorem addCode_cases (t : Task) (r : CodeRecord) (rest : List CodeRecord) :
    ((t.addCode r).knownCode.listing = t.knownCode.listing ∧
        (t.addCode r).knownCode.anchors = t.knownCode.anchors ∧
        CodeRecord.accepted t.knownCode.spanLimit (r :: rest) =
          CodeRecord.accepted (t.addCode r).knownCode.spanLimit rest) ∨
      ∃ l, (t.addCode r).knownCode.listing = some l ∧
        (t.addCode r).knownCode.anchors =
          (if t.knownCode.anchors.isEmpty then l.anchors else t.knownCode.anchors) ∧
        CodeRecord.accepted t.knownCode.spanLimit (r :: rest) =
          l :: CodeRecord.accepted (t.addCode r).knownCode.spanLimit rest := by
  cases r with
  | installed facts =>
    have hknown : (t.addCode (.installed facts)).knownCode =
        (Collector.nativeOf facts).inherit t.knownCode := knownCode_attachNative t _
    rw [hknown]
    exact .inl ⟨rfl, rfl, rfl⟩
  | printed l =>
    by_cases hspan : l.codeSpan ≤ t.knownCode.spanLimit
    · obtain ⟨bytes, _, hcode⟩ := l.exists_code
      have hknown : (t.addCode (.printed l)).knownCode = t.knownCode.withListing l bytes :=
        congrArg knownCode (attachListing_of_code (hcode _ hspan))
      rw [hknown]
      exact .inr ⟨l, rfl, rfl, if_pos hspan⟩
    · have hknown : (t.addCode (.printed l)).knownCode = t.knownCode :=
        (congrArg knownCode (attachListing_of_lt (Nat.lt_of_not_le hspan))).trans
          (t.knownCode_flag _)
      rw [hknown]
      exact .inl ⟨rfl, rfl, if_neg hspan⟩

/-- The last listing that is accepted is the one that is kept. By induction on the records. -/
theorem listing_addCodes (t : Task) (records : List CodeRecord) :
    (t.addCodes records).knownCode.listing =
      (CodeRecord.accepted t.knownCode.spanLimit records).getLast?.or t.knownCode.listing := by
  induction records generalizing t with
  | nil => rfl
  | cons r rest ih =>
    refine (ih (t.addCode r)).trans ?_
    rcases t.addCode_cases r rest with ⟨hlisting, _, haccepted⟩ | ⟨l, hlisting, _, haccepted⟩
    · rw [haccepted, hlisting]
    · rw [haccepted, hlisting, List.getLast?_cons]
      cases (CodeRecord.accepted (t.addCode r).knownCode.spanLimit rest).getLast? <;> rfl

/-- Anchors that are known stay; else they are those of the first accepted listing that has any. By
induction on the records. -/
theorem anchors_addCodes (t : Task) (records : List CodeRecord) :
    (t.addCodes records).knownCode.anchors =
      if t.knownCode.anchors.isEmpty then
        (((CodeRecord.accepted t.knownCode.spanLimit records).find? Listing.isAnnotated).map
          Listing.anchors).getD []
      else t.knownCode.anchors := by
  induction records generalizing t with
  | nil =>
    show t.knownCode.anchors = _
    split
    · next hnone => exact List.isEmpty_iff.mp hnone
    · rfl
  | cons r rest ih =>
    refine (ih (t.addCode r)).trans ?_
    rcases t.addCode_cases r rest with ⟨_, hanchors, haccepted⟩ | ⟨l, _, hanchors, haccepted⟩
    · rw [haccepted, hanchors]
    · rw [haccepted, hanchors, List.find?_cons]
      unfold Listing.isAnnotated
      cases hknown : t.knownCode.anchors.isEmpty with
      | false => simp [hknown]
      | true => cases hl : l.anchors.isEmpty <;> simp [hl]

/-- Anchors belong to the first listing that has any. Whatever is told of the code of a new task, in
whatever order, the listing that is kept is the last one that is accepted, and the anchors are those
of the first one that has any. They lie at lines of that one; so they lie at lines of the listing
that is kept if no other was accepted after it. -/
theorem anchors_lie_in_first_annotated (id : UInt64) (method : Method)
    (records : List CodeRecord) :
    let code := ((Task.new id method).addCodes records).knownCode
    let accepted := CodeRecord.accepted maxCodeSpan records
    code.listing = accepted.getLast? ∧
      code.anchors = ((accepted.find? Listing.isAnnotated).map Listing.anchors).getD [] ∧
      (∀ a ∈ code.anchors, ∃ l, accepted.find? Listing.isAnnotated = some l ∧ a.LiesIn l) ∧
      ((∀ l, accepted.find? Listing.isAnnotated = some l → accepted.getLast? = some l) →
        ∀ l, code.listing = some l → ∀ a ∈ code.anchors, a.LiesIn l) := by
  intro code accepted
  have hlisting : code.listing = accepted.getLast? :=
    ((Task.new id method).listing_addCodes records).trans (Option.or_none ..)
  have hanchors : code.anchors =
      ((accepted.find? Listing.isAnnotated).map Listing.anchors).getD [] :=
    (Task.new id method).anchors_addCodes records
  have hfirst : ∀ a ∈ code.anchors,
      ∃ l, accepted.find? Listing.isAnnotated = some l ∧ a.LiesIn l := by
    intro a ha
    rw [hanchors] at ha
    cases hfound : accepted.find? Listing.isAnnotated with
    | none =>
      rw [hfound] at ha
      exact absurd ha List.not_mem_nil
    | some l =>
      rw [hfound] at ha
      exact ⟨l, rfl, Listing.liesIn_of_mem_anchors ha⟩
  refine ⟨hlisting, hanchors, hfirst, fun hlast l hl a ha => ?_⟩
  obtain ⟨first, hfound, hlies⟩ := hfirst a ha
  have hsame : some l = some first := hl.symm.trans (hlisting.trans (hlast first hfound))
  rwa [Option.some.inj hsame]

/-- The second listing of a task takes the place of the first, whose anchor lies eight bytes behind
the base. The second prints nothing there. -/
theorem anchor_outlives_its_listing :
    let first := Listing.parse
      "0x1000: push rbp\n0x1008: ret ; - A::a@4".toList
    let second := Listing.parse "0x2000: ret".toList
    let code := ((Task.new 7 .unresolved).addCodes [.printed first, .printed second]).knownCode
    code.listing = some second ∧ second.lines ≠ [] ∧ ∃ a ∈ code.anchors, ¬ a.LiesIn second := by
  decide +kernel

end Task

end CompileLog
