import Mathlib.Data.List.Destutter
import Mathlib.Data.List.Sort
import BlockDiagram.Proofs.History
import BlockDiagram.Proofs.Purge

namespace BlockDiagram
open Relation

namespace Cache

def inTurn (needs : List Ticket) : List Nat :=
  ((needs.map Ticket.index).mergeSort (· ≤ ·)).destutter (· ≠ ·)

def link (ticket : Ticket) (lines : List Line) (need : Nat) : Except Fault (List Line) :=
  match lines[need]? with
  | none => .error (.indexOutOfBounds lines.length need)
  | some line => .ok (lines.set need { line with dependents := line.dependents ++ [ticket] })

def issueInTurn (cache : Cache) (needs : List Ticket) : Outcome Cache Ticket :=
  match (inTurn needs).find? (cache.size ≤ ·) with
  | some unknown => .aborted (.unknownPrerequisite cache.size unknown)
  | none =>
    match (inTurn needs).foldlM (link ⟨cache.size⟩) cache.lines with
    | .error fault => .aborted fault
    | .ok lines => .done ⟨cache.size⟩ ⟨lines ++ [⟨none, []⟩]⟩

theorem sorted_needs (needs : List Ticket) : ((needs.map Ticket.index).mergeSort (· ≤ ·)).Pairwise (· ≤ ·) :=
  List.sortedLE_mergeSort.pairwise

theorem inTurn_eq (needs : List Ticket) : inTurn needs = ((needs.map Ticket.index).mergeSort (· ≤ ·)).dedup :=
  (sorted_needs needs).destutter_eq_dedup

theorem mem_numbers {needs : List Ticket} {index : Nat} : index ∈ needs.map Ticket.index ↔ ⟨index⟩ ∈ needs := by
  rw [List.mem_map]
  constructor
  · rintro ⟨ticket, member, rfl⟩
    exact member
  · intro member
    exact ⟨⟨index⟩, member, rfl⟩

theorem mem_inTurn {needs : List Ticket} {index : Nat} : index ∈ inTurn needs ↔ ⟨index⟩ ∈ needs := by
  rw [inTurn_eq, List.mem_dedup, List.mem_mergeSort, mem_numbers]

theorem nodup_inTurn (needs : List Ticket) : (inTurn needs).Nodup := inTurn_eq needs ▸ List.nodup_dedup _

theorem ascending_inTurn (needs : List Ticket) : (inTurn needs).SortedLT := by
  have ordered : (inTurn needs).Pairwise (· ≤ ·) := (sorted_needs needs).sublist (List.destutter_sublist _ _)
  exact (List.Pairwise.sortedLE ordered).sortedLT_of_nodup (nodup_inTurn needs)

theorem inTurn_congr {needs others : List Ticket} (same : ∀ ticket, ticket ∈ needs ↔ ticket ∈ others) :
    inTurn needs = inTurn others := by
  refine (ascending_inTurn needs).eq_of_mem_iff (ascending_inTurn others) (fun index => ?_)
  rw [mem_inTurn, mem_inTurn, same]

theorem find?_inTurn (needs : List Ticket) (size : Nat) :
    (inTurn needs).find? (size ≤ ·) = ((needs.map Ticket.index).filter (size ≤ ·)).min? := by
  have ordered : ((inTurn needs).filter (size ≤ ·)).Pairwise (fun lower higher => min lower higher = lower) :=
    ((ascending_inTurn needs).pairwise.filter _).imp (fun less => Nat.min_eq_left (Nat.le_of_lt less))
  calc (inTurn needs).find? (size ≤ ·)
    _ = ((inTurn needs).filter (size ≤ ·)).head? := List.head?_filter.symm
    _ = ((inTurn needs).filter (size ≤ ·)).min? := (List.min?_eq_head? ordered).symm
    _ = ((needs.map Ticket.index).filter (size ≤ ·)).min? := by
      refine Option.ext (fun lowest => ?_)
      simp only [List.min?_eq_some_iff, List.mem_filter, mem_inTurn, mem_numbers]

theorem linked_needs {ticket : Ticket} {lines : List Line} {needs : List Nat} (bound : ∀ need ∈ needs, need < lines.length)
    (once : needs.Nodup) : needs.foldlM (link ticket) lines = .ok (lines.mapIdx (fun index line =>
      if index ∈ needs then { line with dependents := line.dependents ++ [ticket] } else line)) := by
  induction needs generalizing lines with
  | nil =>
    refine congrArg Except.ok (List.ext_getElem (by simp) (fun index here there => ?_))
    simp
  | cons need rest ih =>
    obtain ⟨absent, once⟩ := List.nodup_cons.mp once
    have inside : need < lines.length := bound need List.mem_cons_self
    have others : ∀ other ∈ rest, other < lines.length := fun other member => bound other (List.mem_cons_of_mem _ member)
    have first : link ticket lines need =
        .ok (lines.set need { lines[need] with dependents := lines[need].dependents ++ [ticket] }) := by
      rw [link, List.getElem?_eq_getElem inside]
    rw [List.foldlM_cons, first]
    refine (ih (by simpa using others) once).trans (congrArg Except.ok ?_)
    refine List.ext_getElem (by simp) (fun index here there => ?_)
    simp only [List.getElem_mapIdx, List.mem_cons]
    by_cases same : need = index
    · subst same
      simp [absent]
    · have apart : ¬ index = need := fun one => same one.symm
      simp [same, apart]

theorem issueInTurn_eq (cache : Cache) (needs : List Ticket) : cache.issueInTurn needs = cache.issue needs := by
  unfold issueInTurn issue
  rw [find?_inTurn]
  cases unknown : ((needs.map Ticket.index).filter (cache.size ≤ ·)).min? with
  | some lowest => rfl
  | none =>
    have bound : ∀ need ∈ inTurn needs, need < cache.lines.length := by
      intro need member
      have known := List.filter_eq_nil_iff.mp (List.min?_eq_none_iff.mp unknown) need (mem_numbers.mpr (mem_inTurn.mp member))
      exact Nat.lt_of_not_le (fun outside => known (decide_eq_true outside))
    simp only [linked_needs bound (nodup_inTurn needs), mem_inTurn]
    rfl

theorem issue_congr (cache : Cache) {needs others : List Ticket} (same : ∀ ticket, ticket ∈ needs ↔ ticket ∈ others) :
    cache.issue needs = cache.issue others := by
  rw [← issueInTurn_eq, ← issueInTurn_eq, issueInTurn, issueInTurn, inTurn_congr same]

-- A ticket is listed by lines that were there before it, and by each of them in the
-- order of issue.
structure Ranked (cache : Cache) : Prop where
  ascending : ∀ need, (cache.dependents need).Pairwise (·.index < ·.index)
  after : ∀ need, ∀ ticket ∈ cache.dependents need, need.index < ticket.index
  closed : cache.Closed

namespace Ranked
variable {cache later : Cache}

theorem blank (count : Nat) : (blank count).Ranked where
  ascending := by simp [dependents_blank]
  after := by simp [dependents_blank]
  closed := closed_blank count

theorem carry (ranked : cache.Ranked) (size : later.size = cache.size)
    (same : ∀ ticket, later.dependents ticket = cache.dependents ticket) : later.Ranked where
  ascending := fun need => same need ▸ ranked.ascending need
  after := fun need => same need ▸ ranked.after need
  closed := closed_of_dependents ranked.closed size same

theorem extend (ranked : cache.Ranked) (needs : List Ticket) : (cache.extend needs).Ranked where
  ascending := by
    intro need
    rw [dependents_extend]
    refine List.pairwise_append.mpr ⟨ranked.ascending need, by split <;> simp, ?_⟩
    intro ticket member newest added
    split at added
    · rw [List.mem_singleton.mp added]
      exact ranked.closed need ticket member
    · cases added
  after := by
    intro need ticket member
    rcases mem_dependents_extend.mp member with old | ⟨rfl, _, bound⟩
    · exact ranked.after need ticket old
    · exact bound
  closed := closed_extend ranked.closed needs

theorem acyclic (ranked : cache.Ranked) (ticket : Ticket) :
    ¬ TransGen (fun earlier later => later ∈ cache.dependents earlier) ticket ticket := by
  have rises : ∀ {last}, TransGen (fun earlier later => later ∈ cache.dependents earlier) ticket last →
      ticket.index < last.index := by
    intro last path
    induction path with
    | single listed => exact ranked.after _ _ listed
    | tail _ listed ih => exact ih.trans (ranked.after _ _ listed)
  exact fun loop => Nat.lt_irrefl _ (rises loop)

end Ranked

theorem links_kept {call : Call} {cache later : Cache} (silent : call.needs? = none)
    (left : (call.perform cache).left? = some later) :
    later.size = cache.size ∧ ∀ ticket, later.dependents ticket = cache.dependents ticket := by
  rcases Call.perform_left left with ⟨needs, rfl, _, _⟩ | ⟨ticket, value, _, _, rfl⟩ | ⟨root, _, _, rfl⟩
  · cases silent
  · exact ⟨size_write _ _ _, fun other => dependents_write _ _ other _⟩
  · exact ⟨size_clear _ _, dependents_clear _ _⟩

theorem Ranked.handedOn : HandedOn (fun recorded => recorded.cache.Ranked) := by
  intro recorded call later ranked left
  rcases Call.perform_left left with ⟨needs, _, _, rfl⟩ | ⟨ticket, value, _, _, rfl⟩ | ⟨root, _, _, rfl⟩
  · exact ranked.extend needs
  · exact ranked.carry (size_write _ _ _) (fun other => dependents_write _ _ other _)
  · exact ranked.carry (size_clear _ _) (dependents_clear _ _)

-- How the lines of a cache are linked, told by the calls that issued its tickets, and
-- what the calls do about it. A session comes to an end only over a ticket that was
-- never issued here. Step by step, with every look-up at its risk, the calls come to the
-- same as at once, and no ticket is put twice on the list of those to be taken up.
structure Lineage (cache : Cache) (history : List Call) : Prop where
  ascending : ∀ need, (cache.dependents need).Pairwise (·.index < ·.index)
  within : ∀ need, ∀ ticket ∈ cache.dependents need, need.index < ticket.index ∧ Issued history ticket
  needed : ∀ need ticket, ticket ∈ cache.dependents need ↔ Needs history ticket need
  acyclic : ∀ ticket, ¬ TransGen (fun earlier later => later ∈ cache.dependents earlier) ticket ticket
  granted : ∀ call : Call, (call.perform cache).left?.isSome ↔ ∀ ticket ∈ call.tickets, Issued history ticket
  numbered : ∀ needs ticket later, cache.issue needs = .done ticket later → ticket = ⟨(issues history).length⟩
  inTurn : ∀ needs, cache.issueInTurn needs = cache.issue needs
  ofSet : ∀ needs others : List Ticket, (∀ ticket, ticket ∈ needs ↔ ticket ∈ others) → cache.issue needs = cache.issue others
  kept : ∀ (call : Call) (later : Cache), call.needs? = none → (call.perform cache).left? = some later →
    ∀ ticket, later.dependents ticket = cache.dependents ticket
  byRounds : ∀ root, (cache.invalidateByRounds root).answering () = cache.invalidate root
  once : ∀ root, Issued history root → ∃ entered, cache.invalidateByRounds root = .done entered (cache.clear root) ∧
    entered.Nodup ∧ (∀ ticket ∈ entered, Issued history ticket) ∧ ∀ ticket, ticket ∈ entered ↔ cache.DependsOn ticket root

theorem linked_in_order {steps : List Step} {caches : List Recorded} (played : play steps = some caches)
    {recorded : Recorded} (member : recorded ∈ caches) : Lineage recorded.cache recorded.history := by
  have agrees := Agrees.handedOn.play .empty played member
  have ranked := Ranked.handedOn.play (.blank 0) played member
  exact {
    ascending := ranked.ascending
    within := by
      intro need ticket listed
      exact ⟨ranked.after need ticket listed, agrees.issued.mpr (ranked.closed need ticket listed)⟩
    needed := fun need ticket => agrees.linked ticket need
    acyclic := ranked.acyclic
    granted := by
      intro call
      simp only [Call.perform_granted, agrees.issued]
    numbered := by
      intro needs ticket later done
      have known := (issue_left (congrArg Outcome.left? done)).1
      rw [issue_known known] at done
      cases done
      rw [agrees.size]
    inTurn := issueInTurn_eq recorded.cache
    ofSet := fun needs others same => issue_congr recorded.cache same
    kept := fun call later silent left => (links_kept silent left).2
    byRounds := invalidateByRounds_eq ranked.closed
    once := by
      intro root issued
      have bound := agrees.issued.mp issued
      obtain ⟨entered, done, once, depends⟩ := invalidateByRounds_done ranked.closed bound
      refine ⟨entered, done, once, fun ticket member => ?_, depends⟩
      exact agrees.issued.mpr (issued_of_dependsOn ranked.closed bound ((depends ticket).mp member)) }

-- Two lines and a third one that needs both, named in disorder and more than once. The
-- copy issues a ticket of its own before the original issues the next one.
def branched : List Step :=
  [.call 0 (.issue []), .call 0 (.issue []), .call 0 (.issue [⟨1⟩, ⟨0⟩, ⟨1⟩]), .copy 0,
    .call 1 (.issue [⟨2⟩, ⟨0⟩, ⟨2⟩]), .call 0 (.set ⟨2⟩ (.size 1)), .call 0 (.invalidate ⟨1⟩), .call 0 (.issue [⟨1⟩])]

theorem linked_in_order_branched : ∃ caches, play branched = some caches ∧
    caches.map (fun recorded => recorded.cache.tickets.map recorded.cache.dependents) =
      [[[⟨2⟩], [⟨2⟩, ⟨3⟩], [], []], [[⟨2⟩, ⟨3⟩], [⟨2⟩], [⟨3⟩], []]] ∧
    ∀ recorded ∈ caches, Lineage recorded.cache recorded.history := by
  have ended : (play branched).map (·.map fun recorded => recorded.cache.tickets.map recorded.cache.dependents) =
      some [[[⟨2⟩], [⟨2⟩, ⟨3⟩], [], []], [[⟨2⟩, ⟨3⟩], [⟨2⟩], [⟨3⟩], []]] := by decide
  obtain ⟨caches, played, links⟩ := Option.map_eq_some_iff.mp ended
  exact ⟨caches, played, links, fun recorded member => linked_in_order played member⟩

end Cache
end BlockDiagram
