import CompileLog.Proofs.History.Unclaimed
import Mathlib.Data.List.DropRight

/-!
# Events that are crowded out

Events wait in one table with installed code and with listings, and what comes last takes the room
of what came first, whatever it is. So events are given up where room is short, and not only where
too many events wait: none is given up exactly where, at every moment, those that no task has
claimed are among the newest such remarks for which there is room. Where all that waits are events,
that is to say that there is room for them.
-/

namespace CompileLog

/-! ### Behind the newest -/

/-- The events among some remarks, oldest first, that come before the newest for which there is
room. -/
def crowdedEvents (room : Nat) (remarks : List (UInt64 × Remark)) : List Deopt :=
  eventsOf (remarks.rdrop room)

section CrowdedEvents

variable {room : Nat} {remarks front back : List (UInt64 × Remark)}

/-- Where there is room for all, no event comes before the newest. -/
theorem crowdedEvents_of_length_le (h : remarks.length ≤ room) :
    crowdedEvents room remarks = [] := by
  unfold crowdedEvents List.rdrop
  rw [Nat.sub_eq_zero_of_le h]
  rfl

/-- The events in front of as many remarks as there is room for are those that come before the
newest. -/
theorem crowdedEvents_append_of_length_eq (h : back.length = room) :
    crowdedEvents room (front ++ back) = eventsOf front := by
  unfold crowdedEvents List.rdrop
  rw [List.length_append, h, Nat.add_sub_cancel, List.take_left]

/-- Where there is room for the remarks behind and those in front hold no event, no event comes
before the newest. -/
theorem crowdedEvents_append_of_length_le (hback : back.length ≤ room)
    (hfront : eventsOf front = []) : crowdedEvents room (front ++ back) = [] := by
  have hfew : (front ++ back).length - room ≤ front.length := by
    rw [List.length_append]
    omega
  have hsome : (eventsOf ((front ++ back).rdrop room)).Sublist (eventsOf front) := by
    unfold List.rdrop
    rw [List.take_append_of_le_length hfew]
    exact (List.take_sublist _ _).flatMap _
  rw [hfront] at hsome
  exact List.sublist_nil.mp hsome

/-- Where all remarks are on events, there are as many events. -/
theorem length_eventsOf (h : ∀ p ∈ remarks, p.2.isDeopt = true) :
    (eventsOf remarks).length = remarks.length := by
  have hone : ∀ p ∈ remarks, p.2.deopts.length = 1 := by
    intro p hp
    have hdeopt := h p hp
    cases hr : p.2 with
    | deopt d => rfl
    | native n => simp [hr, Remark.isDeopt] at hdeopt
    | listing l => simp [hr, Remark.isDeopt] at hdeopt
  unfold eventsOf
  rw [List.length_flatMap, List.map_congr_left hone, List.map_const', List.sum_replicate_nat,
    Nat.mul_one]

/-- Where all remarks are on events, none comes before the newest exactly if there is room for
all. -/
theorem crowdedEvents_eq_nil_iff (h : ∀ p ∈ remarks, p.2.isDeopt = true) :
    crowdedEvents room remarks = [] ↔ (eventsOf remarks).length ≤ room := by
  have hfront : ∀ p ∈ remarks.rdrop room, p.2.isDeopt = true :=
    fun p hp => h p (List.mem_of_mem_take hp)
  rw [← List.length_eq_zero_iff, crowdedEvents, length_eventsOf hfront, length_eventsOf h,
    List.rdrop, List.length_take]
  omega

end CrowdedEvents

/-! ### What is counted -/

/-- One act more counts something exactly where an unclaimed event then comes before the newest
unclaimed remarks for which there is room. -/
theorem Index.After.dropped_eq_zero_iff {x y : Index} {room : Nat} {acts : List Act}
    {crowdedOut : List (UInt64 × Remark)} (h : x.After room acts crowdedOut) {a : Act}
    (hact : (Store.writing x).act a = .writing y) :
    y.dropped = 0 ↔ x.dropped = 0 ∧ crowdedEvents room (unclaimed (acts ++ [a])) = [] := by
  obtain ⟨gone, hkeeps, hparts⟩ := h.keepsNewest hact
  have hbounded : y.pending.toList.length ≤ room := by
    rw [Array.length_toList]
    exact (h.tidy.act hact).bounded
  rw [hparts, ← List.append_assoc, hkeeps.counted]
  constructor
  · intro hnone
    refine ⟨by omega, crowdedEvents_append_of_length_le hbounded ?_⟩
    -- What was crowded out before held no event either, or it would have been counted.
    have hcounted := h.counted
    have hfewer := length_eventsOf_filter_le (fun p => a.task? ≠ some p.1) crowdedOut
    rw [← List.length_eq_zero_iff, eventsOf_append, List.length_append]
    omega
  · rintro ⟨hnone, hspared⟩
    have hgone : eventsOf gone = [] := by
      by_cases hnothing : gone = []
      · rw [hnothing]
        rfl
      · have hfull : y.pending.toList.length = room := by
          rw [Array.length_toList]
          exact hkeeps.full hnothing
        rw [crowdedEvents_append_of_length_eq hfull, eventsOf_append] at hspared
        exact (List.append_eq_nil_iff.mp hspared).2
    rw [hnone, hgone]
    rfl

namespace Store

/-- Whether anything was counted can be told from what was unclaimed at each moment. By induction on
the acts, from the last. -/
theorem dropped_eq_zero_iff (room : Nat) {acts : List Act} (hacts : Act.freeze ∉ acts) {x : Index}
    (hrun : (writing (.empty room)).run acts = writing x) :
    x.dropped = 0 ↔
      ∀ earlier, earlier <+: acts → crowdedEvents room (unclaimed earlier) = [] := by
  induction acts using List.reverseRecOn generalizing x with
  | nil =>
    obtain rfl := writing.inj hrun
    refine ⟨fun _ earlier hearlier => ?_, fun _ => rfl⟩
    rw [List.prefix_nil.mp hearlier]
    exact crowdedEvents_of_length_le (Nat.zero_le room)
  | append_singleton acts a ih =>
    have hbefore : Act.freeze ∉ acts := fun hmem => hacts (List.mem_append_left _ hmem)
    obtain ⟨y, crowdedOut, hrunBefore, hafter⟩ := exists_after room hbefore
    have hact : (writing y).act a = writing x := by
      rw [run_append, hrunBefore] at hrun
      exact hrun
    rw [hafter.dropped_eq_zero_iff hact, ih hbefore hrunBefore]
    simp only [List.prefix_concat_iff, or_imp, forall_and, forall_eq]
    exact And.comm

/-- Events are counted as given up exactly where, at some moment, an event that no task had claimed
came before the newest such remarks for which there is room. So where there is room for all that is
unclaimed at any time none is counted; and where nothing but events is ever unclaimed, none is
counted exactly if at no moment there are more of them than there is room for. -/
theorem none_dropped_iff (room : Nat) (acts : List Act) (hacts : Act.freeze ∉ acts) :
    ∃ x, (writing (.empty room)).run acts = writing x ∧
      (x.dropped = 0 ↔
        ∀ earlier, earlier <+: acts → crowdedEvents room (unclaimed earlier) = []) ∧
      ((∀ earlier, earlier <+: acts → (unclaimed earlier).length ≤ room) → x.dropped = 0) ∧
      ((∀ earlier, earlier <+: acts → ∀ p ∈ unclaimed earlier, p.2.isDeopt = true) →
        (x.dropped = 0 ↔
          ∀ earlier, earlier <+: acts → (eventsOf (unclaimed earlier)).length ≤ room)) := by
  obtain ⟨x, _, hrun, _⟩ := exists_after room hacts
  have hiff := dropped_eq_zero_iff room hacts hrun
  refine ⟨x, hrun, hiff, fun hroom => ?_, fun hevents => ?_⟩
  · exact hiff.mpr fun earlier hearlier => crowdedEvents_of_length_le (hroom earlier hearlier)
  · rw [hiff]
    exact forall₂_congr fun earlier hearlier =>
      crowdedEvents_eq_nil_iff (hevents earlier hearlier)

/-- A listing comes before two events. -/
def listingBeforeEvents : List Act :=
  [.record (.lateListing 8 (bareListing 8)), .record (.deopt (bareDeopt 7)),
    .record (.deopt (bareDeopt 9))]

/-- With room for two remarks the listing makes room for both events. -/
theorem none_dropped_after_listing :
    Act.freeze ∉ listingBeforeEvents ∧
      ∃ x, (writing (.empty 2)).run listingBeforeEvents = writing x ∧ x.dropped = 0 := by
  have hacts : Act.freeze ∉ listingBeforeEvents := by simp [listingBeforeEvents]
  have hspared : ∀ earlier, earlier <+: listingBeforeEvents →
      crowdedEvents 2 (unclaimed earlier) = [] := by
    have hinits : ∀ earlier ∈ listingBeforeEvents.inits,
        crowdedEvents 2 (unclaimed earlier) = [] := by decide
    exact fun earlier hearlier => hinits earlier ((List.mem_inits _ _).mpr hearlier)
  obtain ⟨x, hrun, hiff, _, _⟩ := none_dropped_iff 2 listingBeforeEvents hacts
  exact ⟨hacts, x, hrun, hiff.mpr hspared⟩

/-- An event comes before a listing. -/
def eventBeforeListing : List Act :=
  [.record (.deopt (bareDeopt 7)), .record (.lateListing 8 (bareListing 8))]

/-- With room for one remark the event is counted, although never more than one event is
unclaimed. -/
theorem event_dropped_for_listing :
    (∀ earlier, earlier <+: eventBeforeListing → (eventsOf (unclaimed earlier)).length ≤ 1) ∧
      ∃ x, (writing (.empty 1)).run eventBeforeListing = writing x ∧ x.dropped = 1 := by
  have hinits : ∀ earlier ∈ eventBeforeListing.inits,
      (eventsOf (unclaimed earlier)).length ≤ 1 := by decide
  exact ⟨fun earlier hearlier => hinits earlier ((List.mem_inits _ _).mpr hearlier), _, rfl, rfl⟩

end Store

end CompileLog
