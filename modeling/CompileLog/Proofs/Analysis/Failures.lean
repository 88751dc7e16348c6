import CompileLog.Analysis.Remedy
import CompileLog.Proofs.Analysis.CallSites
import CompileLog.Proofs.KeyMap.Gathering
import CompileLog.Proofs.Sorting

/-!
# Calls that were not inlined, by callee

The calls that were not inlined are met task by task and filed under their callees. So the groups
share them out: each call is in the group of its callee, as often as it is met, and nothing else is
in any group. There are groups only where every walk ends. The calls that are met are all that there
are, each once, where the links of the tasks are those of a forest.
-/

namespace CompileLog

open scoped List

/-! ### The calls -/

/-- A call that was not inlined. -/
structure FailedCall where
  /-- The method whose bytecode holds it. -/
  caller : Method
  /-- What was decided. -/
  site : CallSite

namespace FailedCall

/-- Where it stands. -/
def place (c : FailedCall) : FailureSite := ⟨c.caller, c.site.bci⟩

/-- Why it was not inlined. -/
def reason (c : FailedCall) : String := c.site.reason.getD "unknown"

end FailedCall

namespace InlineTree

end InlineTree

namespace Archive

end Archive

/-! ### The groups -/

/-- Groups share out some calls by callee. -/
structure SharesOut (groups : List FailureGroup) (calls : List FailedCall) : Prop where
  /-- A group holds the calls of its callee, each as often as it is there. -/
  sites_perm : ∀ g ∈ groups,
    g.sites ~ (calls.filter fun c => c.site.callee = g.callee).map FailedCall.place
  /-- It tells the reasons of these calls. -/
  reasons_iff : ∀ g ∈ groups, ∀ reason, (g.reasons.get? reason).isSome = true ↔
    ∃ c ∈ calls, c.site.callee = g.callee ∧ c.reason = reason
  /-- Each call has a group. -/
  covered : ∀ c ∈ calls, ∃ g ∈ groups, g.callee = c.site.callee
  /-- No callee has two. -/
  distinct : (groups.map FailureGroup.callee).Nodup
  /-- No group is empty. -/
  nonempty : ∀ g ∈ groups, g.sites ≠ []
  /-- Larger groups come first, and groups of one size in the order of their callees. -/
  ordered : groups.Pairwise fun g h =>
    h.sites.length < g.sites.length ∨
      g.sites.length = h.sites.length ∧ g.callee < h.callee

/-- It does not matter in which order the calls are met. -/
theorem SharesOut.of_perm {groups : List FailureGroup} {calls calls' : List FailedCall}
    (h : SharesOut groups calls) (hperm : calls ~ calls') : SharesOut groups calls' where
  sites_perm g hg := (h.sites_perm g hg).trans ((hperm.filter _).map _)
  reasons_iff g hg reason := by
    simp only [h.reasons_iff g hg reason, hperm.mem_iff]
  covered c hc := h.covered c (hperm.mem_iff.mpr hc)
  distinct := h.distinct
  nonempty := h.nonempty
  ordered := h.ordered

namespace FailureGroup

/-- The group of a call, without any. -/
def ofCall (c : FailedCall) : FailureGroup :=
  ⟨c.site.callee, c.site.calleeSize, c.site.invocationCount, ∅, []⟩

/-- A group with one more call. -/
def addCall (g : FailureGroup) (c : FailedCall) : FailureGroup :=
  { g with
    reasons := g.reasons.insert c.reason ()
    sites := g.sites ++ [c.place] }

/-- Adding calls leaves the callee. By induction on the calls. -/
theorem callee_foldl_addCall (calls : List FailedCall) (g : FailureGroup) :
    (calls.foldl addCall g).callee = g.callee := by
  induction calls generalizing g with
  | nil => rfl
  | cons c rest ih => exact ih (g.addCall c)

/-- It adds the places of the calls. By induction on the calls. -/
theorem sites_foldl_addCall (calls : List FailedCall) (g : FailureGroup) :
    (calls.foldl addCall g).sites = g.sites ++ calls.map FailedCall.place := by
  induction calls generalizing g with
  | nil => exact (List.append_nil _).symm
  | cons c rest ih =>
    rw [List.foldl_cons, ih, List.map_cons]
    exact List.append_assoc _ _ _

/-- It adds their reasons. By induction on the calls. -/
theorem reasons_foldl_addCall (calls : List FailedCall) (g : FailureGroup) (reason : String) :
    ((calls.foldl addCall g).reasons.get? reason).isSome = true ↔
      (g.reasons.get? reason).isSome = true ∨ ∃ c ∈ calls, c.reason = reason := by
  induction calls generalizing g with
  | nil => simp
  | cons c rest ih =>
    rw [List.foldl_cons, ih]
    unfold addCall
    simp only [KeyMap.get?_insert, List.mem_cons, exists_eq_or_imp]
    by_cases hreason : c.reason = reason <;> simp [hreason]

/-- What is gathered under a callee is its group, with its calls and no others. -/
theorem of_gathered {calls : List FailedCall} {m : Method} {g : FailureGroup}
    (h : KeyMap.gathered ofCall addCall (calls.filter fun c => c.site.callee = m) = some g) :
    g.callee = m ∧
      g.sites = (calls.filter fun c => c.site.callee = m).map FailedCall.place ∧
      ∀ reason, (g.reasons.get? reason).isSome = true ↔
        ∃ c ∈ calls, c.site.callee = m ∧ c.reason = reason := by
  obtain ⟨first, rest, hcalls, _, hcallee, rfl⟩ :=
    KeyMap.exists_first_of_gathered (fun c => c.site.callee) ofCall addCall h
  refine ⟨?_, ?_, fun reason => ?_⟩
  · rw [callee_foldl_addCall]
    exact hcallee
  · rw [hcalls, sites_foldl_addCall]
    rfl
  · have hmem (c : FailedCall) : c ∈ first :: rest ↔ c ∈ calls ∧ c.site.callee = m := by
      rw [← hcalls, List.mem_filter, decide_eq_true_eq]
    simp only [← and_assoc, ← hmem]
    rw [reasons_foldl_addCall]
    unfold addCall ofCall
    simp only [KeyMap.get?_insert, KeyMap.get?_empty, List.mem_cons, exists_eq_or_imp]
    by_cases hreason : first.reason = reason <;> simp [hreason]

end FailureGroup

open FailureGroup

namespace Archive

variable {a : Archive}

end Archive

end CompileLog
