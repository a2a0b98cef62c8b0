import Mathlib.Data.List.Nodup
import BlockDiagram.Proofs.Search

namespace BlockDiagram

theorem Ticket.index_inj {ticket other : Ticket} : ticket.index = other.index ↔ ticket = other := by
  cases ticket
  cases other
  simp

structure Purge where
  lines : List Line
  marked : List Bool
  waiting : List Ticket
  -- Whatever was put on the list, the latest first.
  entered : List Ticket

namespace Purge

def setOut (cache : Cache) : Purge := ⟨cache.lines, List.replicate cache.size false, [], []⟩

def enter (purge : Purge) (ticket : Ticket) : Purge :=
  ⟨purge.lines, purge.marked.set ticket.index true, ticket :: purge.waiting, ticket :: purge.entered⟩

def meet (purge : Purge) (ticket : Ticket) : Except Fault Purge :=
  match purge.marked[ticket.index]? with
  | none => .error (.indexOutOfBounds purge.marked.length ticket.index)
  | some true => .ok purge
  | some false => .ok (purge.enter ticket)

def outstanding (purge : Purge) : Nat := purge.marked.count false + purge.waiting.length

theorem outstanding_enter {purge : Purge} {ticket : Ticket} (unmarked : purge.marked[ticket.index]? = some false) :
    (purge.enter ticket).outstanding = purge.outstanding := by
  obtain ⟨bound, plain⟩ := List.getElem?_eq_some_iff.mp unmarked
  have some : 0 < purge.marked.count false := List.count_pos_iff.mpr (plain ▸ List.getElem_mem bound)
  have fewer : (purge.marked.set ticket.index true).count false = purge.marked.count false - 1 := by
    simp [List.count_set bound, plain]
  simp only [outstanding, enter, fewer, List.length_cons]
  omega

theorem outstanding_meet {purge later : Purge} {ticket : Ticket} (met : purge.meet ticket = .ok later) :
    later.outstanding = purge.outstanding := by
  unfold meet at met
  split at met
  · cases met
  · cases met
    rfl
  · rename_i unmarked
    cases met
    exact outstanding_enter unmarked

theorem outstanding_meetAll {purge later : Purge} {tickets : List Ticket} (met : tickets.foldlM meet purge = .ok later) :
    later.outstanding = purge.outstanding := by
  induction tickets generalizing purge with
  | nil =>
    cases met
    rfl
  | cons ticket rest ih =>
    rw [List.foldlM_cons] at met
    cases first : purge.meet ticket with
    | error fault =>
      rw [first] at met
      cases met
    | ok middle =>
      rw [first] at met
      exact (ih met).trans (outstanding_meet first)

-- No ticket is put on the list twice, so that the rounds come to an end.
def run : Purge → Except Fault Purge
  | ⟨lines, marked, [], entered⟩ => .ok ⟨lines, marked, [], entered⟩
  | ⟨lines, marked, ticket :: waiting, entered⟩ =>
    match lines[ticket.index]? with
    | none => .error (.indexOutOfBounds lines.length ticket.index)
    | some line =>
      match _met : line.dependents.foldlM meet
          ⟨lines.set ticket.index { line with value := none }, marked, waiting, entered⟩ with
      | .error fault => .error fault
      | .ok later => later.run
termination_by purge => purge.outstanding
decreasing_by
  rw [outstanding_meetAll _met]
  simp only [outstanding, List.length_cons]
  omega

theorem run_round {lines : List Line} {marked : List Bool} {ticket : Ticket} {waiting entered : List Ticket} {line : Line}
    {later : Purge} (held : lines[ticket.index]? = some line)
    (met : line.dependents.foldlM meet
      ⟨lines.set ticket.index { line with value := none }, marked, waiting, entered⟩ = .ok later) :
    run ⟨lines, marked, ticket :: waiting, entered⟩ = later.run := by
  rw [run]
  simp only [held]
  split
  · rename_i fault failed
    rw [met] at failed
    cases failed
  · rename_i reached passed
    rw [met] at passed
    cases passed
    rfl

-- The lines as they are once the given tickets have been taken up.
def emptied (lines : List Line) (tickets : List Ticket) : List Line :=
  lines.mapIdx (fun index line => if ⟨index⟩ ∈ tickets then { line with value := none } else line)

theorem emptied_nil (lines : List Line) : emptied lines [] = lines :=
  List.ext_getElem (by simp [emptied]) (by simp [emptied])

theorem emptied_cons {lines : List Line} {ticket : Ticket} {line : Line} (held : lines[ticket.index]? = some line)
    (tickets : List Ticket) :
    emptied (lines.set ticket.index { line with value := none }) tickets = emptied lines (ticket :: tickets) := by
  obtain ⟨bound, same⟩ := List.getElem?_eq_some_iff.mp held
  refine List.ext_getElem (by simp [emptied]) (fun index here there => ?_)
  simp only [emptied, List.getElem_mapIdx, List.mem_cons]
  by_cases first : ticket.index = index
  · subst first
    simp [same]
  · have apart : (⟨index⟩ : Ticket) ≠ ticket := fun one => first (one ▸ rfl)
    simp [first, apart]

-- What the rounds have in common with an exhaustive search for the dependents: the
-- tickets without a mark are those it has not met yet.
structure Follows (cache : Cache) (frontier : Frontier Ticket) (purge : Purge) : Prop where
  linked : ∀ ticket, ticket.index < cache.size →
    ∃ line, purge.lines[ticket.index]? = some line ∧ line.dependents = cache.dependents ticket
  marks : purge.marked.length = cache.size
  unmet : ∀ ticket, ticket ∈ frontier.unmet ↔ purge.marked[ticket.index]? = some false
  single : frontier.unmet.Nodup
  waiting : purge.waiting = frontier.waiting
  pending : ∀ ticket ∈ purge.waiting, ticket ∈ purge.entered
  marked : ∀ ticket, ticket ∈ purge.entered ↔ purge.marked[ticket.index]? = some true
  once : purge.entered.Nodup

namespace Follows
variable {cache : Cache} {frontier : Frontier Ticket} {purge : Purge} {ticket : Ticket}

theorem issued (follows : purge.Follows cache frontier) (member : ticket ∈ purge.waiting) : ticket.index < cache.size := by
  obtain ⟨bound, _⟩ := List.getElem?_eq_some_iff.mp ((follows.marked ticket).mp (follows.pending ticket member))
  exact follows.marks ▸ bound

theorem met (follows : purge.Follows cache frontier) (bound : ticket.index < cache.size) (seen : ticket ∉ frontier.unmet) :
    ticket ∈ purge.entered := by
  have inside : ticket.index < purge.marked.length := follows.marks ▸ bound
  rw [follows.unmet, List.getElem?_eq_getElem inside] at seen
  rw [follows.marked, List.getElem?_eq_getElem inside]
  cases mark : purge.marked[ticket.index] with
  | true => rfl
  | false => exact absurd (congrArg some mark) seen

theorem enter (follows : purge.Follows cache frontier) (unmarked : purge.marked[ticket.index]? = some false) :
    (purge.enter ticket).Follows cache (frontier.meet ticket) := by
  have member : ticket ∈ frontier.unmet := (follows.unmet ticket).mpr unmarked
  have bound : ticket.index < purge.marked.length := (List.getElem?_eq_some_iff.mp unmarked).1
  have marking : ∀ other : Ticket, (purge.marked.set ticket.index true)[other.index]? =
      if other = ticket then some true else purge.marked[other.index]? := by
    intro other
    rw [List.getElem?_set, if_pos bound]
    simp only [Ticket.index_inj, eq_comm]
  rw [Frontier.meet, if_pos member]
  constructor
  · exact follows.linked
  · exact (List.length_set ..).trans follows.marks
  · intro other
    show other ∈ frontier.unmet.erase ticket ↔ (purge.marked.set ticket.index true)[other.index]? = some false
    rw [follows.single.mem_erase_iff, follows.unmet, marking]
    by_cases same : other = ticket <;> simp [same]
  · exact follows.single.erase ticket
  · exact congrArg (ticket :: ·) follows.waiting
  · intro other listed
    rcases List.mem_cons.mp listed with rfl | old
    · exact List.mem_cons_self
    · exact List.mem_cons_of_mem _ (follows.pending other old)
  · intro other
    show other ∈ ticket :: purge.entered ↔ (purge.marked.set ticket.index true)[other.index]? = some true
    rw [List.mem_cons, follows.marked, marking]
    by_cases same : other = ticket <;> simp [same]
  · have absent : ticket ∉ purge.entered := by
      intro again
      have mark := (follows.marked ticket).mp again
      rw [unmarked] at mark
      cases mark
    exact List.nodup_cons.mpr ⟨absent, follows.once⟩

theorem meet (follows : purge.Follows cache frontier) (bound : ticket.index < cache.size) :
    ∃ later, purge.meet ticket = .ok later ∧ later.Follows cache (frontier.meet ticket) ∧
      later.lines = purge.lines ∧
      ∀ other, other ∈ later.entered ↔ other ∈ purge.entered ∨ other = ticket := by
  have inside : ticket.index < purge.marked.length := follows.marks ▸ bound
  unfold Purge.meet
  cases mark : purge.marked[ticket.index]? with
  | none => exact absurd (List.getElem?_eq_none_iff.mp mark) (Nat.not_le_of_lt inside)
  | some bearing =>
    cases bearing with
    | true =>
      have known : ticket ∈ purge.entered := (follows.marked ticket).mpr mark
      have passed : frontier.meet ticket = frontier := by
        rw [Frontier.meet, if_neg]
        intro unmet
        rw [(follows.unmet ticket).mp unmet] at mark
        cases mark
      refine ⟨purge, rfl, ?_, rfl, fun other => ?_⟩
      · rw [passed]
        exact follows
      · exact ⟨.inl, fun either => either.elim id (fun same => same ▸ known)⟩
    | false =>
      refine ⟨purge.enter ticket, rfl, follows.enter mark, rfl, fun other => ?_⟩
      exact List.mem_cons.trans or_comm

theorem meetAll {tickets : List Ticket} (follows : purge.Follows cache frontier)
    (bound : ∀ ticket ∈ tickets, ticket.index < cache.size) :
    ∃ later, tickets.foldlM Purge.meet purge = .ok later ∧ later.Follows cache (tickets.foldl Frontier.meet frontier) ∧
      later.lines = purge.lines ∧
      ∀ other, other ∈ later.entered ↔ other ∈ purge.entered ∨ other ∈ tickets := by
  induction tickets generalizing purge frontier with
  | nil => exact ⟨purge, rfl, follows, rfl, by simp⟩
  | cons ticket rest ih =>
    obtain ⟨middle, met, keeps, lines, entered⟩ := follows.meet (bound ticket List.mem_cons_self)
    obtain ⟨later, ended, keeps, kept, others⟩ := ih keeps (fun other member => bound other (List.mem_cons_of_mem _ member))
    refine ⟨later, ?_, keeps, kept.trans lines, fun other => ?_⟩
    · rw [List.foldlM_cons, met]
      exact ended
    · rw [others, entered, List.mem_cons, or_assoc]

-- A ticket that is taken up leaves the list, and its line no longer holds a value.
theorem take {unmet waiting : List Ticket} (follows : purge.Follows cache ⟨unmet, ticket :: waiting⟩) :
    ∃ line, purge.lines[ticket.index]? = some line ∧ line.dependents = cache.dependents ticket ∧
      Follows cache ⟨unmet, waiting⟩
        ⟨purge.lines.set ticket.index { line with value := none }, purge.marked, waiting, purge.entered⟩ := by
  have listed : ticket ∈ purge.waiting := follows.waiting ▸ List.mem_cons_self
  obtain ⟨line, held, links⟩ := follows.linked ticket (follows.issued listed)
  refine ⟨line, held, links, { follows with linked := fun other bound => ?_, waiting := rfl, pending := ?_ }⟩
  · have inside : ticket.index < purge.lines.length := (List.getElem?_eq_some_iff.mp held).1
    rw [List.getElem?_set, if_pos inside]
    by_cases same : ticket.index = other.index
    · rw [if_pos same]
      exact ⟨_, rfl, Ticket.index_inj.mp same ▸ links⟩
    · rw [if_neg same]
      exact follows.linked other bound
  · intro other member
    exact follows.pending other (follows.waiting ▸ List.mem_cons_of_mem _ member)

theorem run (follows : purge.Follows cache frontier) (closed : cache.Closed) :
    ∃ last, purge.run = .ok last ∧ last.lines = emptied purge.lines (frontier.explore cache.dependents) ∧
      last.entered.Nodup ∧
      ∀ other, other ∈ last.entered ↔ other ∈ purge.entered ∨ other ∈ frontier.explore cache.dependents := by
  fun_induction Frontier.explore cache.dependents frontier generalizing purge with
  | case1 unmet =>
    obtain ⟨lines, marked, waiting, entered⟩ := purge
    obtain rfl : waiting = [] := follows.waiting
    exact ⟨⟨lines, marked, [], entered⟩, by rw [Purge.run], (emptied_nil lines).symm, follows.once, by simp⟩
  | case2 unmet ticket waiting ih =>
    obtain ⟨line, held, links, taken⟩ := follows.take
    obtain ⟨later, met, keeps, lines, entered⟩ := taken.meetAll (closed ticket)
    obtain ⟨last, ended, cleared, once, reached⟩ := ih keeps
    have listed : ticket ∈ purge.entered := follows.pending ticket (follows.waiting ▸ List.mem_cons_self)
    refine ⟨last, ?_, ?_, once, fun other => ?_⟩
    · obtain ⟨_, marked, pending, known⟩ := purge
      obtain rfl : pending = ticket :: waiting := follows.waiting
      rw [← links] at met
      exact (run_round held met).trans ended
    · rw [cleared, lines, emptied_cons held]
    · -- A dependent that bears a mark was put on the list before, any other one is explored from here.
      have met : ∀ next ∈ cache.dependents ticket, next ∈ purge.entered ∨
          next ∈ ((cache.dependents ticket).foldl Frontier.meet ⟨unmet, waiting⟩).explore cache.dependents := by
        intro next depends
        by_cases unseen : next ∈ unmet
        · refine .inr (Frontier.reached_explored ?_ .refl)
          exact Frontier.meetAll_waiting.mpr (.inr ⟨depends, unseen⟩)
        · exact .inl (follows.met (closed ticket next depends) unseen)
      rw [reached, entered, List.mem_cons]
      constructor
      · rintro ((old | depends) | found)
        · exact .inl old
        · exact (met other depends).imp_right .inr
        · exact .inr (.inr found)
      · rintro (old | rfl | found)
        · exact .inl (.inl old)
        · exact .inl (.inl listed)
        · exact .inr found

end Follows

theorem follows_setOut (cache : Cache) : (setOut cache).Follows cache ⟨cache.tickets, []⟩ where
  linked := by
    intro ticket bound
    obtain ⟨line, held, _, _, links⟩ := Cache.line_issued bound
    exact ⟨line, held, links⟩
  marks := List.length_replicate
  unmet := by
    intro ticket
    rw [Cache.mem_tickets]
    simp [setOut, List.getElem?_replicate]
  single := List.nodup_range.map (fun _ _ same => congrArg Ticket.index same)
  waiting := rfl
  pending := nofun
  marked := by
    intro ticket
    simp [setOut, List.getElem?_replicate]
  once := .nil

end Purge

namespace Cache

-- The call with all its rounds. It answers the tickets that were put on the list.
def invalidateByRounds (cache : Cache) (root : Ticket) : Outcome Cache (List Ticket) :=
  match cache.line root with
  | .error fault => .aborted fault
  | .ok _ =>
    match (Purge.setOut cache).meet root with
    | .error fault => .aborted fault
    | .ok begun =>
      match begun.run with
      | .error fault => .aborted fault
      | .ok last => .done last.entered ⟨last.lines⟩

variable {cache : Cache} {root : Ticket}

theorem affected_meet (issued : root.index < cache.size) :
    (Frontier.meet ⟨cache.tickets, []⟩ root).explore cache.dependents = cache.affected root := by
  have member : root ∈ cache.tickets := mem_tickets.mpr issued
  have apart : cache.tickets.Nodup := (Purge.follows_setOut cache).single
  have same : cache.tickets.erase root = cache.tickets.filter (· ∉ [root]) := by
    rw [apart.erase_eq_filter]
    exact List.filter_congr (fun ticket _ => by simp [bne, beq_eq_decide])
  rw [Frontier.meet, if_pos member, same]
  rfl

theorem issued_of_dependsOn {ticket : Ticket} (closed : cache.Closed) (issued : root.index < cache.size)
    (depends : cache.DependsOn ticket root) : ticket.index < cache.size := by
  induction depends with
  | refl => exact issued
  | tail _ listed _ => exact closed _ _ listed

-- No round looks beyond the last line, and the rounds take up exactly what depends on
-- the ticket.
theorem invalidateByRounds_done (closed : cache.Closed) (issued : root.index < cache.size) :
    ∃ entered, cache.invalidateByRounds root = .done entered (cache.clear root) ∧ entered.Nodup ∧
      ∀ ticket, ticket ∈ entered ↔ cache.DependsOn ticket root := by
  obtain ⟨line, _, found, _⟩ := line_issued issued
  obtain ⟨begun, met, follows, lines, entered⟩ := (Purge.follows_setOut cache).meet issued
  obtain ⟨last, ended, emptied, once, reached⟩ := follows.run closed
  rw [affected_meet issued] at emptied reached
  refine ⟨last.entered, ?_, once, fun ticket => ?_⟩
  · have left : last.lines = (cache.clear root).lines := by
      rw [emptied, lines]
      rfl
    simp only [invalidateByRounds, found, met, ended, left]
  · rw [reached, entered, mem_affected closed]
    constructor
    · rintro ((none | rfl) | depends)
      · cases none
      · exact .refl
      · exact depends
    · exact .inr

theorem invalidateByRounds_eq (closed : cache.Closed) (root : Ticket) :
    (cache.invalidateByRounds root).answering () = cache.invalidate root := by
  rcases Nat.lt_or_ge root.index cache.size with issued | unissued
  · obtain ⟨line, _, found, _⟩ := line_issued issued
    obtain ⟨entered, done, _⟩ := invalidateByRounds_done closed issued
    rw [done, invalidate, found]
    rfl
  · rw [invalidateByRounds, invalidate, line_unissued unissued]
    rfl

end Cache
end BlockDiagram
