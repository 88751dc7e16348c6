import CompileLog.History.Index
import CompileLog.Proofs.Collect.Waiting
import CompileLog.Proofs.Task.Native
import Mathlib.Data.List.Nodup

/-!
# Listings that span too much

A listing is added to its task whole or not at all. One that spans more than the code may leaves
a flag that tells of the span, and nothing else. So whatever is told of a task, and in whatever
order, no more bytes of code are kept than any code may span, and each flag is noted once.
-/

namespace CompileLog

open Collect

/-! ### One listing -/

/-- A span is told in 64 bits. -/
theorem Listing.codeSpan_lt (l : Listing) : l.codeSpan < UInt64.size := by
  have hwidth : 0 < UInt64.size := by decide
  unfold codeSpan
  cases l.base? with
  | none => exact hwidth
  | some base =>
    refine List.foldlRecOn (motive := fun span => span < UInt64.size) _ _ hwidth ?_
    intro span hspan line _
    exact Nat.max_lt.mpr ⟨hspan, by omega⟩

/-- The flag of a listing tells its span. -/
theorem Listing.toNat_codeSpan (l : Listing) : (UInt64.ofNat l.codeSpan).toNat = l.codeSpan :=
  UInt64.toNat_ofNat_of_lt l.codeSpan_lt

/-- The flags of a task are noted once each, and its code is no longer than any code may be. -/
structure Task.Bounded (t : Task) : Prop where
  /-- No flag is there twice. -/
  flags_nodup : t.flags.Nodup
  /-- The code is not too long. -/
  code_le : ∀ n, t.native = some n → n.code.length ≤ maxCodeSpan

namespace Task

variable {t t' : Task}

/-- A flag is noted once. -/
theorem nodup_flags_flag (h : t.flags.Nodup) (f : TaskFlag) : (t.flag f).flags.Nodup := by
  unfold flag
  split
  · exact h
  · next hnew =>
    rw [← List.concat_eq_append]
    exact h.concat hnew

/-- Noting a flag that is there leaves it as often as it is, and else it is there once. -/
theorem count_flags_flag (t : Task) (f : TaskFlag) :
    (t.flag f).flags.count f = max 1 (t.flags.count f) := by
  unfold flag
  split
  · next hnoted => exact (Nat.max_eq_right (List.count_pos_iff.mpr hnoted)).symm
  · next hnew =>
    show (t.flags ++ [f]).count f = _
    rw [List.count_append, List.count_eq_zero_of_not_mem hnew, List.count_singleton_self]
    rfl

namespace Bounded

/-- Of a new task nothing is noted, and it has no code. -/
theorem new (id : UInt64) (method : Method) : (Task.new id method).Bounded :=
  ⟨List.nodup_nil, fun _ h => nomatch h⟩

/-- What leaves the flags and the code alone. -/
theorem of_eq (h : t.Bounded) (hflags : t'.flags = t.flags) (hnative : t'.native = t.native) :
    t'.Bounded :=
  ⟨hflags ▸ h.flags_nodup, fun n hn => h.code_le n (hnative ▸ hn)⟩

/-- A flag. -/
theorem flag (h : t.Bounded) (f : TaskFlag) : (t.flag f).Bounded := by
  refine ⟨nodup_flags_flag h.flags_nodup f, ?_⟩
  obtain ⟨flags, heq, _⟩ := t.flag_eq f
  rw [heq]
  exact h.code_le

/-- What is known of the code. -/
theorem knownCode_le (h : t.Bounded) : t.knownCode.code.length ≤ maxCodeSpan := by
  cases hn : t.native with
  | none =>
    rw [t.knownCode_of_eq_none hn]
    exact Nat.zero_le _
  | some n =>
    unfold knownCode
    rw [hn]
    exact h.code_le n hn

/-- Installed code, unless it is too long itself. -/
theorem attachNative (h : t.Bounded) {n : NativeCode} (hn : n.code.length ≤ maxCodeSpan) :
    (t.attachNative n).Bounded := by
  refine ⟨h.flags_nodup, fun n' hn' => ?_⟩
  rw [attachNative_eq] at hn'
  obtain rfl := Option.some.inj hn'
  unfold NativeCode.inherit
  simp only
  split
  · exact h.knownCode_le
  · exact hn

/-- A listing. -/
theorem attachListing (h : t.Bounded) (l : Listing) : (t.attachListing l).Bounded := by
  rcases Nat.lt_or_ge t.knownCode.spanLimit l.codeSpan with hover | hspan
  · rw [attachListing_of_lt hover]
    exact h.flag _
  · obtain ⟨bytes, hlength, hcode⟩ := l.exists_code
    rw [attachListing_of_code (hcode _ hspan)]
    refine ⟨h.flags_nodup, fun n hn => ?_⟩
    obtain rfl := Option.some.inj hn
    unfold NativeCode.withListing
    simp only
    split
    · rw [hlength]
      exact Nat.le_trans hspan t.knownCode.spanLimit_le
    · exact h.knownCode_le

/-- Whatever is remarked on the task, unless it is installed code that is too long itself. By
induction on the remarks. -/
theorem foldl_addRemark (h : t.Bounded) {remarks : List Remark}
    (hcode : ∀ n, .native n ∈ remarks → n.code.length ≤ maxCodeSpan) :
    (remarks.foldl Task.addRemark t).Bounded := by
  refine List.foldlRecOn (motive := Bounded) remarks _ h fun t ht r hr => ?_
  cases r with
  | deopt d => exact ht.of_eq rfl rfl
  | native n => exact ht.attachNative (hcode n hr)
  | listing l => exact ht.attachListing l

end Bounded

end Task

/-! ### A whole log -/

namespace Task.Bounded

variable {t : Task}

/-- Flags. -/
theorem withFlags (h : t.Bounded) (flags : List TaskFlag) :
    (Collector.withFlags flags t).Bounded :=
  List.foldlRecOn (motive := Bounded) flags _ h fun _ ht f _ => ht.flag f

/-- The flags of call sites that lie outside their callers. -/
theorem flagMisplaced (h : t.Bounded) : (Collector.flagMisplaced t).Bounded := by
  rw [Collector.flagMisplaced_eq_withFlags]
  exact h.withFlags _

/-- The flag of a task whose method is not known. -/
theorem flagUnresolved (h : t.Bounded) : (Collector.flagUnresolved t).Bounded := by
  unfold Collector.flagUnresolved
  split
  · exact h.flag _
  · exact h

/-- That it is cut short. -/
theorem cutShort (h : t.Bounded) : (Collector.cutShort t).Bounded := by
  have hended : { t with state := TaskState.abandoned : Task }.Bounded := h.of_eq rfl rfl
  exact hended.flag _

/-- The event of an installation tells no bytes. -/
theorem install (h : t.Bounded) (facts : NativeFacts) (flags : List TaskFlag) :
    (Collector.install facts flags t).Bounded := by
  unfold Collector.install
  refine (attachNative ?_ (Nat.zero_le _)).withFlags flags
  split <;> exact h.of_eq rfl rfl

/-- A listing that may not be kept. -/
theorem addListing (h : t.Bounded) (retain : Bool) (l : Listing) :
    (Collector.addListing retain l t).Bounded := by
  have hadded := h.attachListing l
  unfold Collector.addListing
  simp only
  split
  · exact hadded
  · refine ⟨hadded.flags_nodup, fun n hn => ?_⟩
    obtain ⟨before, hbefore, rfl⟩ := Option.map_eq_some_iff.mp hn
    exact hadded.code_le before hbefore

/-- Whatever more is told before it begins. -/
theorem told (h : t.Bounded) {f : Task → Task} (hf : Told f) : (f t).Bounded := by
  cases hf with
  | queued facts =>
    unfold Collector.noteQueued
    refine withFlags ?_ _
    exact h.of_eq rfl rfl
  | installed facts => exact h.install facts _
  | printed retain l => exact h.addListing retain l

/-- What is said where it begins. -/
theorem beginTask (h : t.Bounded) (facts : TaskFacts) (thread : Option String)
    (flags : List TaskFlag) : (Collector.beginTask facts thread flags t).Bounded := by
  unfold Collector.beginTask
  simp only
  generalize hnamed : Collector.flagUnresolved _ = named
  have hbefore : named.Bounded := by
    rw [← hnamed]
    refine flagUnresolved ?_
    exact h.of_eq rfl rfl
  have hrooted : { named with
      tree := named.tree.withRoot named.method named.bytecodeSize : Task }.Bounded :=
    hbefore.of_eq rfl rfl
  exact hrooted.withFlags flags

end Task.Bounded

namespace Collect

namespace Compiling

variable {c : Compiling} (h : c.task.Bounded)
include h

/-- That something was said. -/
theorem bounded_touch : c.touch.task.Bounded := by
  unfold touch onTask
  simp only
  split
  · exact h.of_eq rfl rfl
  · exact h

/-- The end of a removed operation. -/
theorem bounded_closeRecord : c.closeRecord.task.Bounded := by
  unfold closeRecord
  split
  · exact h.of_eq rfl rfl
  · exact h.of_eq rfl rfl
  · exact h

/-- Its begin. -/
theorem bounded_openRecord (record : OpenRecord) (shape : Shape) :
    (c.openRecord record shape).task.Bounded := by
  have hclosed := bounded_closeRecord (bounded_touch h)
  unfold openRecord
  simp only
  split
  · exact hclosed
  · exact bounded_closeRecord hclosed

/-- The begin of a method body. -/
theorem bounded_openBody (method : Option UInt64) : (c.openBody method).task.Bounded := by
  have htouched := bounded_touch h
  unfold openBody
  simp only
  split
  · cases c.touch.names.known? method with
    | none => exact htouched
    | some known => exact htouched.of_eq rfl rfl
  · split <;> exact htouched

/-- The end of a method body. -/
theorem bounded_closeBody : c.closeBody.task.Bounded := by
  unfold closeBody
  split
  · exact h.flag _
  · exact h

/-- The end of a phase. -/
theorem bounded_closePhase (facts : PhaseFacts) : (c.closePhase facts).task.Bounded := by
  unfold closePhase
  split
  · exact h
  · exact h.of_eq rfl rfl

/-- Whatever an event says about the task under way. -/
theorem bounded_take (shape : Shape) (e : Event) : (c.take shape e).task.Bounded := by
  have htouched := bounded_touch h
  cases e with
  | typeDef id name => cases id <;> cases name <;> exact h
  | klassDef id name => cases id <;> cases name <;> exact h
  | methodDef id => cases id <;> exact h
  | parseOpen method => exact bounded_openBody h method
  | inlineSuccess | inlineFail | intrinsic => exact htouched.of_eq rfl rfl
  | uncommonTrap id =>
    cases id with
    | none => exact htouched.of_eq rfl rfl
    | some id => exact h
  | eliminateAllocation | eliminateLock => exact bounded_openRecord h _ _
  | hotThrow | phase | failure => exact htouched.of_eq rfl rfl
  | phaseDone facts => exact bounded_closePhase h facts
  | close of =>
    cases of with
    | parseOpen => exact bounded_closeBody h
    | eliminateAllocation | eliminateLock => exact bounded_closeRecord h
    | _ => exact h
  | _ => exact h

/-- The end of the task. -/
theorem bounded_finished (success : Option Bool) (nativeSize inlinedBytes : Option UInt64)
    (stamp : Option Stamp) (flags : List TaskFlag) :
    (c.finished success nativeSize inlinedBytes stamp flags).Bounded := by
  have hnoted := h.withFlags flags
  unfold finished
  simp only
  split
  · exact hnoted.of_eq rfl rfl
  · refine Task.Bounded.flag ?_ _
    exact hnoted.of_eq rfl rfl

end Compiling

/-- A task that is taken to begin. Forgetting a flag repeats none. -/
theorem Taken.bounded {id : UInt64} {t : Task} (h : Taken (fun _ => Task.Bounded) id t) :
    t.Bounded := by
  cases h with
  | waiting ht => exact ⟨ht.flags_nodup.filter _, ht.code_le⟩
  | new => exact .new id .unresolved
  | again => exact (Task.Bounded.new id .unresolved).flag _

/-- A bridge to native code. -/
theorem bounded_wrapperTask (id : UInt64) (facts : NativeFacts) (flags : List TaskFlag) :
    (Collector.wrapperTask id facts flags).Bounded := by
  unfold Collector.wrapperTask
  refine (Task.Bounded.flagUnresolved ⟨List.nodup_nil, fun n hn => ?_⟩).withFlags flags
  obtain rfl := Option.some.inj hn
  exact Nat.zero_le _

/-- Every task is so from the first word on. -/
theorem custody_bounded :
    Custody (fun _ => Task.Bounded) (fun c => c.task.Bounded) Task.Bounded where
  met _ _ := ⟨List.nodup_singleton _, fun _ h => nomatch h⟩
  told_waiting hf h := h.told hf
  told_active hf h := h.told hf
  begun facts thread _ h := h.bounded.beginTask facts thread _
  heard shape e _ h := Compiling.bounded_take (h.withFlags _) shape e
  framed _ _ _ h := h
  finished _ _ _ _ _ h := (Compiling.bounded_finished h _ _ _ _ _).flagMisplaced
  cut h := h.cutShort.flagMisplaced
  forgotten h := h.cutShort.flagMisplaced
  bridged id facts _ := (bounded_wrapperTask id facts _).flagMisplaced

end Collect

/-- A task that a log tells of. -/
inductive Task.Collected : Task → Prop where
  /-- It is new. -/
  | new (id : UInt64) (method : Method) : Collected (.new id method)
  /-- It is under way, or waits for its start. -/
  | kept {retain : Bool} {events : List LogEvent} {id : UInt64} {t : Task}
      (h : ((Collector.start retain).acceptAll events).1.openTask? id = some t) : Collected t
  /-- It is handed over. -/
  | handedOver {retain : Bool} {events : List LogEvent} {t : Task}
      (h : t ∈ tasksOf (Collector.collect retain events).2) : Collected t

/-- Whatever a log says, its tasks have each flag once and no more code than any code may have. -/
theorem Task.Collected.bounded {t : Task} (h : t.Collected) : t.Bounded := by
  cases h with
  | new id method => exact .new id method
  | @kept retain events id t hopen =>
    have hstart : (Collector.start retain).Holds (fun _ => Task.Bounded) fun c => c.task.Bounded :=
      ⟨fun id t hfound => by simp [Collector.start] at hfound, fun _ ha => nomatch ha⟩
    have hholds := (custody_bounded.keeps_acceptAll (Collector.start retain) events hstart).1
    generalize ((Collector.start retain).acceptAll events).1 = c at hopen hholds
    unfold Collector.openTask? Collector.activeWith? at hopen
    rcases Option.or_eq_some_iff.mp hopen with hactive | ⟨_, hwaiting⟩
    · obtain ⟨a, ha, rfl⟩ := Option.map_eq_some_iff.mp hactive
      exact hholds.active a (Option.eq_some_of_filter_eq_some ha)
    · exact hholds.waiting id t hwaiting
  | handedOver hhanded => exact custody_bounded.collect _ _ t hhanded

/-- A listing that spans too much leaves a flag and changes nothing else. It is added to the code of
its task, whatever the flags are, unless it spans more than the code may; then all that changes is
that a flag with the span is noted, once where it is not there yet. Whatever is remarked on a task
of a log, the code is never longer than any code may be, unless code comes in that is, and no flag
is there twice. -/
theorem oversized_listing_leaves_flag (t : Task) :
    (∀ l : Listing,
      let noted := TaskFlag.oversizedListing (UInt64.ofNat l.codeSpan)
      (UInt64.ofNat l.codeSpan).toNat = l.codeSpan ∧
      (l.codeSpan ≤ t.knownCode.spanLimit → ∃ bytes, l.code t.knownCode.spanLimit = .ok bytes ∧
        t.attachListing l = { t with native := some (t.knownCode.withListing l bytes) }) ∧
      (t.knownCode.spanLimit < l.codeSpan →
        t.attachListing l =
          { t with flags := if noted ∈ t.flags then t.flags else t.flags ++ [noted] } ∧
        (t.attachListing l).flags.count noted = max 1 (t.flags.count noted))) ∧
    (t.Collected → ∀ remarks : List Remark,
      (∀ n, .native n ∈ remarks → n.code.length ≤ maxCodeSpan) →
      let told := remarks.foldl Task.addRemark t
      (∀ n, told.native = some n → n.code.length ≤ maxCodeSpan) ∧
        ∀ f ∈ told.flags, told.flags.count f = 1) := by
  refine ⟨fun l => ⟨l.toNat_codeSpan, fun hspan => ?_, fun hover => ?_⟩, fun h remarks hcode => ?_⟩
  · obtain ⟨bytes, _, hbytes⟩ := l.exists_code
    exact ⟨bytes, hbytes _ hspan, Task.attachListing_of_code (hbytes _ hspan)⟩
  · rw [Task.attachListing_of_lt hover]
    refine ⟨?_, t.count_flags_flag _⟩
    unfold Task.flag
    split <;> rfl
  · have hbounded := h.bounded.foldl_addRemark hcode
    exact ⟨hbounded.code_le, fun f => List.count_eq_one_of_mem hbounded.flags_nodup⟩

/-- Two bytes are printed twice as the code of a task that was installed with one byte. -/
theorem oversized_listing_leaves_flag_once :
    let l := Listing.parse "Compiled method (c1) 2 7 1 A::a (1 bytes)\n 0x10: 4445".toList
    let noted := TaskFlag.oversizedListing 2
    let installed := Remark.native { NativeCode.unknown with size := some 1 }
    let told := [installed, .listing l].foldl Task.addRemark (.new 7 .unresolved)
    told.knownCode.spanLimit < l.codeSpan ∧ noted ∈ told.flags ∧
      told.attachListing l = told ∧ told.flags.count noted = 1 := by
  intro l noted installed told
  have hover : told.knownCode.spanLimit < l.codeSpan := by decide +kernel
  have hnoted : noted ∈ told.flags := by decide +kernel
  have hspan : TaskFlag.oversizedListing (UInt64.ofNat l.codeSpan) = noted := by decide +kernel
  have hagain := (((oversized_listing_leaves_flag told).1 l).2.2 hover).1
  simp only [hspan, if_pos hnoted] at hagain
  have honce := ((oversized_listing_leaves_flag (.new 7 .unresolved)).2 (.new 7 .unresolved)
    [installed, .listing l] (by simp [installed, NativeCode.unknown])).2 noted hnoted
  exact ⟨hover, hnoted, hagain, honce⟩

/-- A task that has the flag of a listing twice keeps it twice when the listing is printed again,
and code that is too long when it comes in stays so. -/
theorem flag_that_is_there_twice_stays :
    let l := Listing.parse "Compiled method (c1) 2 7 1 A::a (1 bytes)\n 0x10: 4445".toList
    let noted := TaskFlag.oversizedListing 2
    let t : Task := { Task.new 7 .unresolved with
      native := some { NativeCode.unknown with size := some 1 }
      flags := [noted, noted] }
    let long : NativeCode := { NativeCode.unknown with code := .replicate (maxCodeSpan + 1) 0 }
    t.knownCode.spanLimit < l.codeSpan ∧ UInt64.ofNat l.codeSpan = 2 ∧
      (t.attachListing l).flags.count noted = 2 ∧
      ((Task.new 7 .unresolved).attachNative long).native = some long ∧
      maxCodeSpan < long.code.length := by
  intro l noted t long
  refine ⟨by decide +kernel, by decide +kernel, by decide +kernel, rfl, ?_⟩
  show maxCodeSpan < (List.replicate (maxCodeSpan + 1) (0 : UInt8)).length
  rw [List.length_replicate]
  exact Nat.lt_succ_self _

end CompileLog
