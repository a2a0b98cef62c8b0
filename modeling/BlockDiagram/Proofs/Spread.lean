import Mathlib.Data.List.Nodup
import Mathlib.Data.List.Perm.Subperm
import BlockDiagram.Proofs.Sending

namespace BlockDiagram

namespace Frontier
variable {α : Type} [DecidableEq α]

def nodes (frontier : Frontier α) : List α := frontier.unmet ++ frontier.waiting

theorem nodes_meet (frontier : Frontier α) (node : α) : (frontier.meet node).nodes.Perm frontier.nodes := by
  unfold meet
  split
  · rename_i member
    exact List.perm_middle.trans ((List.perm_cons_erase member).symm.append_right _)
  · exact .refl _

theorem nodes_meetAll (frontier : Frontier α) (nodes : List α) :
    (nodes.foldl meet frontier).nodes.Perm frontier.nodes := by
  induction nodes generalizing frontier with
  | nil => exact .refl _
  | cons node rest ih => exact (ih (frontier.meet node)).trans (nodes_meet frontier node)

theorem explore_subperm (next : α → List α) (frontier : Frontier α) :
    (frontier.explore next).Subperm frontier.nodes := by
  fun_induction explore next frontier with
  | case1 => exact List.nil_subperm
  | case2 unmet node waiting ih =>
    have rest : (((next node).foldl meet ⟨unmet, waiting⟩).explore next).Subperm (unmet ++ waiting) :=
      ih.trans (nodes_meetAll ⟨unmet, waiting⟩ (next node)).subperm
    exact ((List.subperm_cons node).mpr rest).trans List.perm_middle.symm.subperm

theorem explore_nodup (next : α → List α) {reachable start : List α} (apart : reachable.Nodup) (once : start.Nodup) :
    ((starting reachable start).explore next).Nodup := by
  have nodes : (starting reachable start).nodes.Nodup := by
    refine List.nodup_append'.mpr ⟨apart.filter _, List.nodup_reverse.mpr once, fun node unmet waiting => ?_⟩
    have absent := (List.mem_filter.mp unmet).2
    simp only [decide_not, Bool.not_eq_eq_eq_not, Bool.not_true, decide_eq_false_iff_not] at absent
    exact absent (List.mem_reverse.mp waiting)
  obtain ⟨chosen, same, sublist⟩ := explore_subperm next (starting reachable start)
  exact same.nodup_iff.mp (nodes.sublist sublist)

end Frontier

theorem nodup_terminalsOf (system count : Nat) : (terminalsOf system count).Nodup := by
  refine List.nodup_range.map (fun index other same => ?_)
  exact (Terminal.mk.injEq _ _ _ _ ▸ same).2

theorem Layout.nodup_declaredBy (layout : Layout) (system : Nat) : (layout.declaredBy system).Nodup := by
  unfold declaredBy
  cases layout.outline? system with
  | none => exact .nil
  | some outline => exact nodup_terminalsOf system outline.outputs

theorem Layout.nodup_declared (layout : Layout) : layout.declared.Nodup := by
  refine List.nodup_flatMap.mpr ⟨fun system _ => layout.nodup_declaredBy system, ?_⟩
  refine List.nodup_range.imp (fun apart output one two => apart ?_)
  obtain ⟨_, _, first, _⟩ := mem_declaredBy.mp one
  obtain ⟨_, _, second, _⟩ := mem_declaredBy.mp two
  exact first.symm.trans second

namespace Frame
variable {frame : Frame} {layout : Layout} {start : List Terminal}

theorem downstream_nodup (once : start.Nodup) : (frame.downstream layout start).Nodup :=
  Frontier.explore_nodup _ layout.nodup_declared once

theorem addressed_injective (change : Nat → Change) (apart : change.Injective) {one two : Terminal}
    (same : (one.system, change one.index) = (two.system, change two.index)) : one = two := by
  obtain ⟨system, index⟩ := Prod.mk.inj same
  exact (Terminal.mk.injEq ..).mpr ⟨system, apart index⟩

theorem spread_nodup (coherent : frame.wiring.Coherent) (output : Terminal) :
    (staleness layout output ++ frame.invalidations layout output).Nodup := by
  refine List.nodup_append'.mpr ⟨?_, ?_, fun item stale invalid => ?_⟩
  · unfold staleness
    split
    · exact List.nodup_singleton _
    · exact .nil
  · exact ((coherent.once output).filter _).map (fun _ _ => addressed_injective .invalidateInput (fun _ _ => Change.invalidateInput.inj))
  · obtain ⟨_, rfl⟩ := mem_staleness.mp stale
    obtain ⟨_, _, _, same⟩ := mem_invalidations.mp invalid
    exact nomatch (Prod.mk.inj same).2

-- An input has one source, so it is invalidated on behalf of one output only.
theorem spread_apart (coherent : frame.wiring.Coherent) {item : Nat × Change} {left right : Terminal}
    (one : item ∈ staleness layout left ++ frame.invalidations layout left)
    (two : item ∈ staleness layout right ++ frame.invalidations layout right) : left = right := by
  rcases List.mem_append.mp one with stale | invalid
  · obtain ⟨_, rfl⟩ := mem_staleness.mp stale
    rcases List.mem_append.mp two with stale | invalid
    · exact addressed_injective (.mark · false) (fun _ _ same => (Change.mark.inj same).1) (mem_staleness.mp stale).2
    · obtain ⟨_, _, _, same⟩ := mem_invalidations.mp invalid
      exact nomatch (Prod.mk.inj same).2
  · obtain ⟨input, fed, _, rfl⟩ := mem_invalidations.mp invalid
    rcases List.mem_append.mp two with stale | invalid
    · exact nomatch (Prod.mk.inj (mem_staleness.mp stale).2).2
    · obtain ⟨other, wired, _, same⟩ := mem_invalidations.mp invalid
      obtain rfl := addressed_injective .invalidateInput (fun _ _ => Change.invalidateInput.inj) same
      exact Option.some.inj (((coherent.both _ _).mp fed).symm.trans ((coherent.both _ _).mp wired))

theorem ripple_nodup (coherent : frame.wiring.Coherent) (once : start.Nodup) : (frame.ripple layout start).Nodup := by
  refine List.nodup_flatMap.mpr ⟨fun output _ => spread_nodup coherent output, ?_⟩
  exact (downstream_nodup once).imp (fun apart _ one two => apart (spread_apart coherent one two))

end Frame

-- The outputs downstream of some outputs of a subsystem: these themselves, and with
-- an output every output that the contexts it feeds declare.
inductive Diagram.Reached (diagram : Diagram) (system : Nat) (indices : List Nat) : Terminal → Prop where
  | given {index : Nat} (member : index ∈ indices) : Reached diagram system indices ⟨system, index⟩
  | fed {output input : Terminal} {child : Context} {index : Nat} (reached : Reached diagram system indices output)
    (wired : input ∈ diagram.frame.wiring.inputsOf output)
    (present : diagram.subsystems.context? input.system = some child) (declared : index < child.outputCount) :
    Reached diagram system indices ⟨input.system, index⟩

namespace Diagram
variable {diagram after : Diagram} {system : Nat} {indices : List Nat} {buffer : OutputBuffer}

def Hit (diagram : Diagram) (system : Nat) (indices : List Nat) (input : Terminal) : Prop :=
  ∃ output, diagram.Reached system indices output ∧ input ∈ diagram.frame.wiring.inputsOf output

-- Each input that is hit is invalidated and each output reached is marked stale,
-- if its context declares it, and nothing is done twice. The order is left open.
structure Due (diagram : Diagram) (system : Nat) (indices : List Nat) (mail : Mail) : Prop where
  once : mail.Nodup
  due : ∀ item, item ∈ mail ↔
    (∃ input, diagram.Hit system indices input ∧ item = (input.system, .invalidateInput input.index)) ∨
      ∃ output child, diagram.Reached system indices output ∧
        diagram.subsystems.context? output.system = some child ∧ output.index < child.outputCount ∧
        item = (output.system, .mark output.index false)

structure SpreadsTo (diagram : Diagram) (system : Nat) (indices changed : List Nat) (after : Diagram) : Prop where
  frame : after.frame = diagram.frame
  buffers : ∀ place, after.subsystems.buffer? place = diagram.subsystems.buffer? place
  elsewhere : ∀ place, (∀ output, diagram.Reached system indices output → output.system ≠ place) →
    (∀ input, diagram.Hit system indices input → input.system ≠ place) →
      after.subsystems.context? place = diagram.subsystems.context? place
  inside : diagram.context.Along Context.Unmoved after.context
  ascending : changed.Pairwise (· < ·)
  answered : ∀ index, index ∈ changed ↔
    ∃ output, diagram.frame.outputs[index]? = some output ∧ diagram.Reached system indices output

theorem mem_downstream_iff (bound : ∀ index ∈ indices, index < buffer.count) {output : Terminal} :
    output ∈ diagram.frame.downstream diagram.layout (startsOf buffer system indices) ↔
      diagram.Reached system indices output := by
  constructor
  · intro found
    obtain ⟨origin, start, path⟩ := Frame.mem_downstream.mp found
    -- By induction along the way the search has come.
    clear found
    induction path with
    | refl =>
      obtain ⟨rfl, member⟩ := (mem_startsOf bound).mp start
      exact .given member
    | @tail _ fed _ step ih =>
      obtain ⟨input, wired, declared⟩ := Frame.mem_fedBy.mp step
      obtain ⟨_, _, same, _⟩ := Layout.mem_declaredBy.mp declared
      obtain ⟨child, present, within⟩ := Subsystems.declared_child (same ▸ declared)
      have next := ih.fed wired (same ▸ present) within
      rwa [← same] at next
  · intro reached
    induction reached with
    | given member => exact Frame.start_downstream ((mem_startsOf bound).mpr ⟨rfl, member⟩)
    | fed _ wired present declared ih =>
      refine Frame.fed_downstream ih (Frame.mem_fedBy.mpr ⟨_, wired, ?_⟩)
      exact (Subsystems.mem_declaredBy present).mpr ⟨rfl, declared⟩

theorem ripple_due (sound : diagram.frame.Sound diagram.subsystems) (bound : ∀ index ∈ indices, index < buffer.count) :
    diagram.Due system indices (diagram.frame.ripple diagram.layout (startsOf buffer system indices)) := by
  refine ⟨Frame.ripple_nodup sound.coherent ((nodup_terminalsOf _ _).filter _), fun item => ?_⟩
  rw [Frame.mem_ripple]
  constructor
  · intro sent
    obtain ⟨output, found, stale | invalid⟩ := sent
    · obtain ⟨declared, rfl⟩ := Frame.mem_staleness.mp stale
      obtain ⟨child, present, within⟩ := Subsystems.declared_child declared
      exact .inr ⟨output, child, (mem_downstream_iff bound).mp found, present, within, rfl⟩
    · obtain ⟨input, wired, _, rfl⟩ := Frame.mem_invalidations.mp invalid
      exact .inl ⟨input, ⟨output, (mem_downstream_iff bound).mp found, wired⟩, rfl⟩
  · rintro (⟨input, ⟨output, reached, wired⟩, rfl⟩ | ⟨output, child, reached, present, within, rfl⟩)
    · obtain ⟨child, present, _⟩ := (sound.wired output input ((sound.coherent.both output input).mp wired)).2
      refine ⟨output, (mem_downstream_iff bound).mpr reached, .inr (Frame.mem_invalidations.mpr ⟨input, wired, ?_, rfl⟩)⟩
      exact Layout.mem_present.mp (Subsystems.mem_present.mpr ⟨child, present⟩)
    · refine ⟨output, (mem_downstream_iff bound).mpr reached, .inl (Frame.mem_staleness.mpr ⟨?_, rfl⟩)⟩
      exact (Subsystems.mem_declaredBy present).mpr ⟨rfl, within⟩

theorem Due.members {mail told : Mail} (due : diagram.Due system indices mail) (other : diagram.Due system indices told)
    (item : Nat × Change) : item ∈ mail ↔ item ∈ told := (due.due item).trans (other.due item).symm

theorem Due.perm {mail told : Mail} (due : diagram.Due system indices mail) (same : mail.Perm told) :
    diagram.Due system indices told :=
  ⟨same.nodup_iff.mp due.once, fun item => same.mem_iff.symm.trans (due.due item)⟩

theorem reachedOutputs_iff (bound : ∀ index ∈ indices, index < buffer.count) {index : Nat} :
    index ∈ diagram.frame.reachedOutputs diagram.layout (startsOf buffer system indices) ↔
      ∃ output, diagram.frame.outputs[index]? = some output ∧ diagram.Reached system indices output := by
  rw [Frame.reachedOutputs, List.mem_filter, List.mem_range, Option.any_eq_true]
  simp only [decide_eq_true_eq, mem_downstream_iff bound]
  refine ⟨fun listed => listed.2, fun listed => ⟨?_, listed⟩⟩
  obtain ⟨output, exported, _⟩ := listed
  exact (List.getElem?_eq_some_iff.mp exported).1

theorem spreadsTo_of_delivered {changed : List Nat} (sound : diagram.context.WellFormed)
    (bound : ∀ index ∈ indices, index < buffer.count)
    (done : diagram.propagateFrom (startsOf buffer system indices) = .done changed after) :
    diagram.SpreadsTo system indices changed after := by
  obtain ⟨delivered, framed, rfl⟩ := propagateFrom_done_iff.mp done
  obtain ⟨frame, subsystems⟩ := after
  obtain rfl : frame = diagram.frame := framed
  have quiet : ∀ item ∈ diagram.frame.ripple diagram.layout (startsOf buffer system indices), item.2.Quiet :=
    fun _ => Frame.ripple_quiet
  obtain ⟨_, rfl⟩ := (Subsystems.deliver_done (fun _ _ => sound.child) quiet).mp delivered
  refine ⟨rfl, fun place => Subsystems.buffer?_receive _ _ _, fun place outputs inputs => ?_,
    Context.along_delivered quiet, List.pairwise_lt_range.filter _, fun _ => reachedOutputs_iff bound⟩
  have nothing : Mail.addressed (diagram.frame.ripple diagram.layout (startsOf buffer system indices)) place = [] := by
    refine List.eq_nil_iff_forall_not_mem.mpr (fun change addressed => ?_)
    rcases ((ripple_due sound.frame bound).due _).mp (Mail.mem_addressed.mp addressed) with
      ⟨input, hit, same⟩ | ⟨output, _, reached, _, _, same⟩
    · exact inputs input hit (Prod.mk.inj same).1.symm
    · exact outputs output reached (Prod.mk.inj same).1.symm
  rw [Subsystems.context?_receive, nothing]
  simp only [Context.receive_nil, Option.map_id']

end Diagram

namespace Built
open Context
variable {rules : Rules} {tree : Context} {path : List Nat} {diagram : Diagram} {system : Nat} {buffer : OutputBuffer}
  {indices : List Nat}

-- Propagation from outputs of a subsystem is carried out exactly if what is due can
-- be sent one after the other, in any order, and leaves what that leaves.
theorem propagation_closure (built : Built rules tree) (located : tree.locate path = .ok diagram.context)
    (closed : diagram.frame.phase = .sealed) (held : diagram.subsystems.buffer? system = some buffer)
    (bound : ∀ index ∈ indices, index < buffer.count) (named : SealedOnly) :
    (∃ mail, diagram.Due system indices mail) ∧
      (∀ mail, diagram.Due system indices mail → ∀ after,
        (∃ changed, Diagram.propagateAs named diagram system indices = .done changed after) ↔
          diagram.subsystems.sendAll mail = .done () after.subsystems ∧ after.frame = diagram.frame) ∧
      (∀ changed after, Diagram.propagateAs named diagram system indices = .done changed after →
        diagram.SpreadsTo system indices changed after) ∧
      ∀ refusal after, Diagram.propagateAs named diagram system indices ≠ .refused refusal after := by
  obtain ⟨sound, frame⟩ := built.frame_sound located
  rw [Diagram.propagateAs_eq named closed held bound]
  have due : diagram.Due system indices _ := Diagram.ripple_due frame bound
  refine ⟨⟨_, due⟩, fun mail other after => ?_, fun changed after => Diagram.spreadsTo_of_delivered sound bound,
    fun _ _ => Diagram.propagateFrom_not_refused⟩
  have present : ∀ item ∈ diagram.frame.ripple diagram.layout (Diagram.startsOf buffer system indices),
      ∃ child, diagram.subsystems.context? item.1 = some child := by
    intro item sent
    obtain ⟨child, there, _⟩ := Frame.ripple_fits frame sent
    exact ⟨child, there⟩
  rw [← Subsystems.deliver_sendAll (fun _ _ => sound.child) (fun _ => Frame.ripple_quiet) present (due.members other)]
  simp only [Diagram.propagateFrom_done_iff, exists_and_left, exists_eq, and_true]

-- What is due, sent the other way round.
theorem propagation_closure_running :
    ∃ mail changed after, Diagram.running.Due 0 [0] mail ∧ Diagram.running.propagate 0 0 = .done changed after ∧
      Diagram.running.subsystems.sendAll mail.reverse = .done () after.subsystems ∧
      Diagram.running.SpreadsTo 0 [0] changed after := by
  have built := Diagram.running_built
  have closed : Diagram.running.frame.phase = .sealed := by decide
  have held : Diagram.running.subsystems.buffer? 0 = some ⟨[none]⟩ := by decide
  have bound : ∀ index ∈ [0], index < (⟨[none]⟩ : OutputBuffer).count := by decide
  have done := (Diagram.propagateAs_eq .propagateOutput closed held bound).trans
    (Diagram.propagateFrom_eq built.wellFormed Diagram.running_matched _)
  obtain ⟨⟨mail, due⟩, sent, spreads, _⟩ := propagation_closure built (locate_nil _) closed held bound .propagateOutput
  have reversed := (sent mail.reverse (due.perm mail.reverse_perm.symm) _).mp ⟨_, done⟩
  exact ⟨mail, _, _, due, done, reversed.1, spreads _ _ done⟩

end Built
end BlockDiagram
