import Mathlib.Logic.Relation
import BlockDiagram.Frame

namespace BlockDiagram
open Relation

namespace Frontier
variable {α : Type} [DecidableEq α]

theorem meet_waiting {frontier : Frontier α} {node other : α} :
    other ∈ (frontier.meet node).waiting ↔
      other ∈ frontier.waiting ∨ (other = node ∧ node ∈ frontier.unmet) := by
  unfold meet
  split
  · rename_i member
    simp only [List.mem_cons, member, and_true]
    exact or_comm
  · rename_i absent
    simp [absent]

theorem meet_unmet {frontier : Frontier α} {node other : α}
    (member : other ∈ (frontier.meet node).unmet) : other ∈ frontier.unmet := by
  unfold meet at member
  split at member
  · exact List.mem_of_mem_erase member
  · exact member

theorem unmet_or_waiting {frontier : Frontier α} {other : α} (node : α) (member : other ∈ frontier.unmet) :
    other ∈ (frontier.meet node).unmet ∨ other ∈ (frontier.meet node).waiting := by
  by_cases same : other = node
  · exact .inr (meet_waiting.mpr (.inr ⟨same, same ▸ member⟩))
  · refine .inl ?_
    unfold meet
    split
    · exact (List.mem_erase_of_ne same).mpr member
    · exact member

theorem meetAll_waiting {frontier : Frontier α} {nodes : List α} {other : α} :
    other ∈ (nodes.foldl meet frontier).waiting ↔
      other ∈ frontier.waiting ∨ (other ∈ nodes ∧ other ∈ frontier.unmet) := by
  induction nodes generalizing frontier with
  | nil => simp
  | cons node rest ih =>
    rw [List.foldl_cons, ih, meet_waiting]
    constructor
    · rintro ((old | ⟨rfl, unmet⟩) | ⟨later, unmet⟩)
      · exact .inl old
      · exact .inr ⟨List.mem_cons_self, unmet⟩
      · exact .inr ⟨List.mem_cons_of_mem _ later, meet_unmet unmet⟩
    · rintro (old | ⟨member, unmet⟩)
      · exact .inl (.inl old)
      · rcases List.mem_cons.mp member with rfl | later
        · exact .inl (.inr ⟨rfl, unmet⟩)
        · rcases unmet_or_waiting node unmet with still | waiting
          · exact .inr ⟨later, still⟩
          · rcases meet_waiting.mp waiting with old | ⟨same, free⟩
            · exact .inl (.inl old)
            · exact .inl (.inr ⟨same, free⟩)

theorem meetAll_unmet {frontier : Frontier α} {nodes : List α} {other : α}
    (member : other ∈ (nodes.foldl meet frontier).unmet) : other ∈ frontier.unmet := by
  induction nodes generalizing frontier with
  | nil => exact member
  | cons node rest ih => exact meet_unmet (ih member)

theorem unmet_or_waiting_meetAll {frontier : Frontier α} {other : α} (nodes : List α)
    (member : other ∈ frontier.unmet) :
    other ∈ (nodes.foldl meet frontier).unmet ∨ other ∈ (nodes.foldl meet frontier).waiting := by
  induction nodes generalizing frontier with
  | nil => exact .inl member
  | cons node rest ih =>
    rcases unmet_or_waiting node member with still | waiting
    · exact ih still
    · rw [List.foldl_cons]
      exact .inr (meetAll_waiting.mpr (.inl waiting))

def Fresh (next : α → List α) (unmet : List α) (node other : α) : Prop :=
  other ∈ next node ∧ other ∈ unmet

theorem explored_reached {next : α → List α} {frontier : Frontier α} {node : α}
    (found : node ∈ frontier.explore next) :
    ∃ origin ∈ frontier.waiting, ReflTransGen (Fresh next frontier.unmet) origin node := by
  fun_induction explore next frontier with
  | case1 => cases found
  | case2 unmet first waiting ih =>
    rcases List.mem_cons.mp found with rfl | later
    · exact ⟨_, List.mem_cons_self, .refl⟩
    · obtain ⟨origin, member, path⟩ := ih later
      have path : ReflTransGen (Fresh next unmet) origin node :=
        ReflTransGen.mono (fun _ _ step => ⟨step.1, meetAll_unmet step.2⟩) _ _ path
      rcases meetAll_waiting.mp member with old | ⟨entered, free⟩
      · exact ⟨origin, List.mem_cons_of_mem _ old, path⟩
      · exact ⟨first, List.mem_cons_self, .head ⟨entered, free⟩ path⟩

-- A chain that leads to a node is followed from the last place at which it
-- entered a node that is waiting already.
theorem reached_explored {next : α → List α} {frontier : Frontier α} {origin node : α}
    (member : origin ∈ frontier.waiting) (path : ReflTransGen (Fresh next frontier.unmet) origin node) :
    node ∈ frontier.explore next := by
  fun_induction explore next frontier generalizing origin node with
  | case1 => cases member
  | case2 unmet first waiting ih =>
    have resumed : node = first ∨ ∃ entry ∈ ((next first).foldl meet ⟨unmet, waiting⟩).waiting,
        ReflTransGen (Fresh next ((next first).foldl meet ⟨unmet, waiting⟩).unmet) entry node := by
      induction path with
      | refl =>
        rcases List.mem_cons.mp member with same | old
        · exact .inl same
        · exact .inr ⟨origin, meetAll_waiting.mpr (.inl old), .refl⟩
      | @tail middle node _ step before =>
        rcases before with rfl | ⟨entry, waits, path⟩
        · exact .inr ⟨node, meetAll_waiting.mpr (.inr ⟨step.1, step.2⟩), .refl⟩
        · have kept := unmet_or_waiting_meetAll (next first) (show node ∈ (⟨unmet, waiting⟩ : Frontier α).unmet from step.2)
          rcases kept with still | waits'
          · exact .inr ⟨entry, waits, path.tail ⟨step.1, still⟩⟩
          · exact .inr ⟨node, waits', .refl⟩
    rcases resumed with rfl | ⟨entry, waits, path⟩
    · exact List.mem_cons_self
    · exact List.mem_cons_of_mem _ (ih waits path)

theorem explored_of_path {next : α → List α} {reachable start : List α} {origin node : α} (member : origin ∈ start)
    (path : ReflTransGen (fun before after => after ∈ next before ∧ after ∈ reachable) origin node) :
    node ∈ (starting reachable start).explore next := by
  have resumed : ∃ entry ∈ start, ReflTransGen (Fresh next (starting reachable start).unmet) entry node := by
    induction path with
    | refl => exact ⟨origin, member, .refl⟩
    | @tail middle node _ step before =>
      obtain ⟨entry, waits, path⟩ := before
      by_cases again : node ∈ start
      · exact ⟨node, again, .refl⟩
      · refine ⟨entry, waits, path.tail ⟨step.1, ?_⟩⟩
        exact List.mem_filter.mpr ⟨step.2, by simpa using again⟩
  obtain ⟨entry, waits, path⟩ := resumed
  exact reached_explored (List.mem_reverse.mpr waits) path

theorem path_of_explored {next : α → List α} {reachable start : List α} {node : α}
    (found : node ∈ (starting reachable start).explore next) :
    ∃ origin ∈ start, ReflTransGen (fun before after => after ∈ next before) origin node := by
  obtain ⟨origin, member, path⟩ := explored_reached found
  exact ⟨origin, List.mem_reverse.mp member, ReflTransGen.mono (fun _ _ step => step.1) _ _ path⟩

theorem mem_explore_starting {next : α → List α} {reachable start : List α} {node : α}
    (closed : ∀ origin other, other ∈ next origin → other ∈ reachable) :
    node ∈ (starting reachable start).explore next ↔
      ∃ origin ∈ start, ReflTransGen (fun before after => after ∈ next before) origin node := by
  refine ⟨path_of_explored, fun reached => ?_⟩
  obtain ⟨origin, member, path⟩ := reached
  exact explored_of_path member (ReflTransGen.mono (fun before after step => ⟨step, closed before after step⟩) _ _ path)

end Frontier

namespace Cache

def Closed (cache : Cache) : Prop :=
  ∀ ticket, ∀ dependent ∈ cache.dependents ticket, dependent.index < cache.size

-- The ticket itself depends on it too, as do tickets that depend on one that does.
def DependsOn (cache : Cache) (ticket root : Ticket) : Prop :=
  ReflTransGen (fun earlier later => later ∈ cache.dependents earlier) root ticket

theorem mem_tickets {cache : Cache} {ticket : Ticket} :
    ticket ∈ cache.tickets ↔ ticket.index < cache.size := by
  simp only [tickets, List.mem_map, List.mem_range]
  constructor
  · intro listed
    obtain ⟨index, bound, rfl⟩ := listed
    exact bound
  · intro bound; exact ⟨ticket.index, bound, rfl⟩

theorem line_issued {cache : Cache} {ticket : Ticket} (issued : ticket.index < cache.size) :
    ∃ line, cache.line? ticket = some line ∧ cache.line ticket = .ok line ∧
      line.value = cache.value? ticket ∧ line.dependents = cache.dependents ticket := by
  have found : cache.line? ticket = some cache.lines[ticket.index] := List.getElem?_eq_getElem issued
  refine ⟨_, found, ?_, ?_, ?_⟩
  · rw [line, found]
  · rw [value?, found]
    rfl
  · rw [dependents, found]
    rfl

theorem line_unissued {cache : Cache} {ticket : Ticket} (outside : cache.size ≤ ticket.index) :
    cache.line ticket = .error (.unknownTicket ticket.index) := by
  have missing : cache.line? ticket = none := List.getElem?_eq_none outside
  rw [line, missing]

theorem issued_of_line {cache : Cache} {ticket : Ticket} {line : Line} (found : cache.line ticket = .ok line) :
    ticket.index < cache.size := by
  refine Nat.lt_of_not_le (fun outside => ?_)
  rw [line_unissued outside] at found
  cases found

theorem mem_affected {cache : Cache} (closed : cache.Closed) {ticket root : Ticket} :
    ticket ∈ cache.affected root ↔ cache.DependsOn ticket root := by
  unfold affected DependsOn
  rw [Frontier.mem_explore_starting (fun origin other member => mem_tickets.mpr (closed origin other member))]
  simp

theorem issued_of_dependents {cache : Cache} {ticket dependent : Ticket}
    (member : dependent ∈ cache.dependents ticket) : ticket.index < cache.size := by
  refine Nat.lt_of_not_le (fun outside => ?_)
  rw [dependents, line?, List.getElem?_eq_none outside] at member
  cases member

theorem value?_issued {cache : Cache} {ticket : Ticket} {value : Value} (held : cache.value? ticket = some value) :
    ticket.index < cache.size := by
  refine Nat.lt_of_not_le (fun outside => ?_)
  rw [value?, line?, List.getElem?_eq_none outside] at held
  cases held

theorem dependsOn_congr {cache later : Cache} (same : ∀ ticket, later.dependents ticket = cache.dependents ticket)
    {ticket root : Ticket} : later.DependsOn ticket root ↔ cache.DependsOn ticket root := by
  unfold DependsOn
  rw [funext same]

-- Whatever else is on record, an issued ticket is found by way of issued ones.
theorem mem_affected_issued {cache : Cache} {ticket root : Ticket} (issued : ticket.index < cache.size) :
    ticket ∈ cache.affected root ↔ cache.DependsOn ticket root := by
  constructor
  · intro found
    obtain ⟨origin, member, path⟩ := Frontier.path_of_explored found
    rw [List.mem_singleton.mp member] at path
    exact path
  · intro depends
    refine Frontier.explored_of_path (List.mem_singleton.mpr rfl) ?_
    induction depends with
    | refl => exact .refl
    | tail _ step ih => exact (ih (issued_of_dependents step)).tail ⟨step, mem_tickets.mpr issued⟩

end Cache

namespace Layout

theorem mem_declaredBy {layout : Layout} {system : Nat} {terminal : Terminal} :
    terminal ∈ layout.declaredBy system ↔
      ∃ outline, layout.outline? system = some outline ∧ terminal.system = system ∧
        terminal.index < outline.outputs := by
  unfold declaredBy
  cases layout.outline? system with
  | none => simp
  | some outline => simp [mem_terminalsOf]

theorem outline?_bound {layout : Layout} {system : Nat} {outline : Outline}
    (found : layout.outline? system = some outline) : system < layout.length := by
  refine Nat.lt_of_not_le (fun outside => ?_)
  rw [outline?, List.getElem?_eq_none outside] at found
  cases found

theorem mem_declared {layout : Layout} {terminal : Terminal} :
    terminal ∈ layout.declared ↔ terminal ∈ layout.declaredBy terminal.system := by
  simp only [declared, List.mem_flatMap, List.mem_range]
  constructor
  · intro member
    obtain ⟨system, _, member⟩ := member
    obtain ⟨_, _, same, _⟩ := mem_declaredBy.mp member
    exact same ▸ member
  · intro member
    obtain ⟨outline, found, _⟩ := mem_declaredBy.mp member
    exact ⟨terminal.system, outline?_bound found, member⟩

end Layout

namespace Frame

theorem mem_fedBy {frame : Frame} {layout : Layout} {output fed : Terminal} :
    fed ∈ frame.fedBy layout output ↔
      ∃ input ∈ frame.wiring.inputsOf output, fed ∈ layout.declaredBy input.system := by
  simp [fedBy, List.mem_flatMap]

-- An output is downstream of another if it is that output or an output of a
-- subsystem that one downstream of it feeds.
theorem mem_downstream {frame : Frame} {layout : Layout} {start : List Terminal} {output : Terminal} :
    output ∈ frame.downstream layout start ↔
      ∃ origin ∈ start, ReflTransGen (fun before after => after ∈ frame.fedBy layout before) origin output := by
  refine Frontier.mem_explore_starting (fun origin other member => ?_)
  obtain ⟨input, _, declared⟩ := mem_fedBy.mp member
  obtain ⟨_, _, same, _⟩ := Layout.mem_declaredBy.mp declared
  exact Layout.mem_declared.mpr (same ▸ declared)

theorem start_downstream {frame : Frame} {layout : Layout} {start : List Terminal} {output : Terminal}
    (member : output ∈ start) : output ∈ frame.downstream layout start :=
  mem_downstream.mpr ⟨output, member, .refl⟩

theorem fed_downstream {frame : Frame} {layout : Layout} {start : List Terminal} {output fed : Terminal}
    (reached : output ∈ frame.downstream layout start) (member : fed ∈ frame.fedBy layout output) :
    fed ∈ frame.downstream layout start := by
  obtain ⟨origin, starts, path⟩ := mem_downstream.mp reached
  exact mem_downstream.mpr ⟨origin, starts, path.tail member⟩

end Frame

namespace Wiring

theorem mem_successors {wiring : Wiring} {system other : Nat} :
    other ∈ wiring.successors system ↔
      ∃ entry ∈ wiring.fed.entries, entry.1.system = system ∧ ∃ input ∈ entry.2, input.system = other := by
  simp only [successors, List.mem_flatMap, List.mem_filter, decide_eq_true_eq, List.mem_map, and_assoc]

theorem mem_consumers_of_successors {wiring : Wiring} {system other : Nat}
    (member : other ∈ wiring.successors system) : other ∈ wiring.consumers := by
  obtain ⟨entry, listed, _, input, fed, same⟩ := mem_successors.mp member
  exact List.mem_flatMap.mpr ⟨entry, listed, List.mem_map.mpr ⟨input, fed, same⟩⟩

theorem reaches_iff {wiring : Wiring} {origin target : Nat} :
    wiring.reaches origin target = true ↔
      TransGen (fun before after => after ∈ wiring.successors before) origin target := by
  unfold reaches
  simp only [List.any_eq_true, decide_eq_true_eq]
  have found : ∀ system, system ∈ (Frontier.starting wiring.consumers.eraseDups [origin]).explore
      wiring.successors ↔ ReflTransGen (fun before after => after ∈ wiring.successors before) origin system := by
    intro system
    rw [Frontier.mem_explore_starting]
    · simp
    · intro before after member
      exact List.mem_eraseDups.mpr (mem_consumers_of_successors member)
  constructor
  · intro found
    obtain ⟨system, explored, fed⟩ := found
    exact TransGen.tail' ((found system).mp explored) fed
  · intro path
    obtain ⟨system, before, fed⟩ := TransGen.tail'_iff.mp path
    exact ⟨system, (found system).mpr before, fed⟩

end Wiring
end BlockDiagram
