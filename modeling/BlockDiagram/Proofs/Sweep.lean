import Mathlib.Data.Finset.Card
import BlockDiagram.Proofs.Downstream
import BlockDiagram.Proofs.Occupancy

namespace BlockDiagram
open Relation

theorem Frame.mail_unbound {frame : Frame} {layout : Layout} {cause : Change} {item : Nat × Change}
    (sent : item ∈ frame.mail layout cause) (unbound : cause.bound? = none) : item.2.bound? = none := by
  rcases mem_mail.mp sent with passed | spread
  · cases passed with
    | bind | rebind => cases unbound
    | _ => rfl
  · exact (ripple_quiet spread).unbound

namespace Context

theorem isFresh_mark {context : Context} {index other : Nat} {home place : Endpoint} (fresh : Bool)
    (found : context.home? .outputs index = some home) (there : context.home? .outputs other = some place) :
    (context.receive [.mark index fresh]).isFresh other = if place = home then .ok fresh else context.isFresh other := by
  induction context using Context.induct generalizing index other home place with
  | leaf own =>
    obtain ⟨_, rfl⟩ := home?_leaf.mp found
    obtain ⟨bound, rfl⟩ := home?_leaf.mp there
    have bound : other < own.fresh.length := bound
    by_cases same : other = index
    · subst same
      simp [receive, isFresh, Leaf.isFresh, Leaf.receive, bound]
    · have apart : index ≠ other := fun equal => same equal.symm
      simp [receive, isFresh, Leaf.isFresh, Leaf.receive, same, apart]
  | diagram frame subsystems ih =>
    obtain ⟨target, marked, below⟩ := home?_diagram.mp found
    obtain ⟨terminal, shown, inside⟩ := home?_diagram.mp there
    obtain ⟨child, inner, present, deeper, rfl⟩ := Subsystems.terminalHome?_eq_some.mp below
    obtain ⟨host, within, held, further, rfl⟩ := Subsystems.terminalHome?_eq_some.mp inside
    have told : [Change.mark index fresh].flatMap (frame.mail subsystems.layout) =
        [(target.system, .mark target.index fresh)] := by
      simp [Frame.mail, Frame.output_eq_ok.mpr marked]
    have kept : ([Change.mark index fresh].foldl Frame.receive frame).outputs[other]? = some terminal := shown
    rw [receive, told, isFresh_diagram kept (Subsystems.context?_received held _), isFresh_diagram shown held,
      Mail.addressed_single]
    by_cases here : target.system = terminal.system
    · rw [here] at present
      cases present.symm.trans held
      rw [if_pos here, ih _ _ present deeper further]
      cases inner
      cases within
      simp [Endpoint.under, here]
    · have apart : ¬ terminal.system = target.system := fun equal => here equal.symm
      simp [here, Endpoint.under, apart, receive_nil]

theorem output_home {context : Context} (sound : context.WellFormed) (matched : context.Matched) {index : Nat}
    (bound : index < context.outputCount) : ∃ home, context.home? .outputs index = some home := by
  have fits : Change.Fits context (.mark index true) := bound
  exact home_of_mark (verdict_fits sound matched fits)

theorem isFresh_elsewhere {context : Context} {changes : List Change} {index other : Nat} {home place : Endpoint}
    (stale : ∀ change ∈ changes, change = .mark index false) (found : context.home? .outputs index = some home)
    (there : context.home? .outputs other = some place) (apart : place ≠ home) :
    (context.receive changes).isFresh other = context.isFresh other := by
  induction changes generalizing context with
  | nil => rw [receive_nil]
  | cons change rest ih =>
    obtain rfl := stale change List.mem_cons_self
    have along := along_receive grows_receive context [.mark index false]
    rw [← List.singleton_append, receive_append,
      ih (fun other member => stale other (List.mem_cons_of_mem _ member))
        (home?_along Numbering.lasting_outputs along found) (home?_along Numbering.lasting_outputs along there),
      isFresh_mark false found there, if_neg apart]

-- An output declared stale on the way is up to date again in the end.
theorem isFresh_renewed {context : Context} {changes : List Change} {index other : Nat} {home place : Endpoint}
    (stale : ∀ change ∈ changes, change = .mark index false) (found : context.home? .outputs index = some home)
    (there : context.home? .outputs other = some place) (fresh : other = index ∨ context.isFresh other = .ok true) :
    (context.receive (changes ++ [.mark index true])).isFresh other = .ok true := by
  have along := along_receive grows_receive context changes
  rw [receive_append, isFresh_mark true (home?_along Numbering.lasting_outputs along found)
    (home?_along Numbering.lasting_outputs along there)]
  split
  · rfl
  · rename_i apart
    rw [isFresh_elsewhere stale found there apart]
    apply fresh.resolve_left
    rintro rfl
    exact apart (Option.some.inj (there.symm.trans found))

theorem allFresh_eq {context : Context} (fresh : ∀ index < context.outputCount, context.isFresh index = .ok true) :
    context.allFresh = .ok true := by
  have all : ∀ index ∈ List.range context.outputCount, context.isFresh index = .ok true :=
    fun index member => fresh index (List.mem_range.mp member)
  unfold allFresh
  generalize List.range context.outputCount = indices at all
  induction indices with
  | nil => rfl
  | cons index rest ih =>
    rw [List.foldr_cons, all index List.mem_cons_self]
    exact ih (fun other member => all other (List.mem_cons_of_mem _ member))

-- A handle is handed outwards by every diagram that does not own it.
theorem resolve_bound {context : Context} {index : Nat} {handle : Handle}
    (bound : context.input index = .ok (some (.dependent handle)))
    (foreign : ∀ path found, context.locate path = .ok found → found.id ≠ handle.owner) :
    context.resolve index = .ok (.pending handle) := by
  induction context using Context.induct generalizing index with
  | leaf own =>
    have held : own.input index = .ok (some (.dependent handle)) := bound
    rw [resolve, held]
    rfl
  | diagram frame subsystems ih =>
    simp only [input] at bound
    split at bound
    · rename_i exposed found
      rw [Subsystems.inputAt_eq] at bound
      cases present : subsystems.context? exposed.terminal.system with
      | none => simp [present] at bound
      | some child =>
        rw [present] at bound
        have inner := ih _ _ present bound (fun path found located =>
          foreign (exposed.terminal.system :: path) found (locate_cons.mpr ⟨child, present, located⟩))
        have apart : ¬ handle.owner = frame.id := fun same => foreign [] _ (locate_nil _) same.symm
        simp [resolve, found, Subsystems.resolveAt_eq, present, inner, Except.map, Reading.settledBy, apart]
    · cases bound

theorem input_unbound {context : Context} {changes : List Change} (unbound : ∀ change ∈ changes, change.bound? = none)
    (index : Nat) : (context.receive changes).input index = context.input index := by
  induction context using Context.induct generalizing changes index with
  | leaf own => simp only [receive, input, Leaf.input, Leaf.inputs_unbound unbound]
  | diagram frame subsystems ih =>
    have inner : ∀ system child, subsystems.context? system = some child → ∀ place,
        (child.receive (Mail.addressed (changes.flatMap (frame.mail subsystems.layout)) system)).input place =
          child.input place := by
      intro system child present
      apply ih _ _ present
      intro change sent
      obtain ⟨cause, given, passed⟩ := mem_addressed_mail.mp sent
      exact Frame.mail_unbound passed (unbound cause given)
    simp only [receive, input, Frame.input, (Frame.Steady.receiveAll frame changes).inputs, Subsystems.inputAt_eq, Subsystems.context?_receive]
    cases frame.inputs[index]? with
    | none => rfl
    | some exposed =>
      cases present : subsystems.context? exposed.terminal.system with
      | none => simp [present, Subsystems.absence, Subsystems.size_receive]
      | some child => simp [present, inner _ _ present]

end Context

theorem Subsystems.input_receive {subsystems : Subsystems} {mail : Mail} (unbound : ∀ item ∈ mail, item.2.bound? = none)
    (system : Nat) :
    ((subsystems.receive mail).context? system).map Context.input = (subsystems.context? system).map Context.input := by
  rw [context?_receive, Option.map_map]
  congr 1
  funext child index
  exact Context.input_unbound (fun change sent => unbound _ (Mail.mem_addressed.mp sent)) index

namespace Frame
variable {frame : Frame} {subsystems : Subsystems} {output : Terminal}

theorem downstream_onward (sound : frame.Sound subsystems) {reached : Terminal}
    (member : reached ∈ frame.downstream subsystems.layout [output]) :
    reached = output ∨ TransGen frame.wiring.Feeds output.system reached.system := by
  obtain ⟨start, first, path⟩ := mem_downstream.mp member
  obtain rfl := List.mem_singleton.mp first
  clear member
  induction path with
  | refl => exact .inl rfl
  | tail _ step ih =>
    obtain ⟨input, fed, declared⟩ := mem_fedBy.mp step
    obtain ⟨_, _, same, _⟩ := Layout.mem_declaredBy.mp declared
    have wired := (sound.coherent.both _ _).mp fed
    right
    rcases ih with rfl | before
    · exact .single ⟨_, input, wired, rfl, same.symm⟩
    · exact before.tail ⟨_, input, wired, rfl, same.symm⟩

-- An output passes on to nothing but itself and what lies further along the wires.
theorem ripple_onward (sound : frame.Sound subsystems) {item : Nat × Change}
    (sent : item ∈ frame.ripple subsystems.layout [output]) :
    item = (output.system, .mark output.index false) ∨ TransGen frame.wiring.Feeds output.system item.1 := by
  obtain ⟨reached, member, stale | invalid⟩ := mem_ripple.mp sent
  · obtain ⟨_, rfl⟩ := mem_staleness.mp stale
    rcases downstream_onward sound member with rfl | path
    · exact .inl rfl
    · exact .inr path
  · obtain ⟨input, fed, _, rfl⟩ := mem_invalidations.mp invalid
    have feeds : frame.wiring.Feeds reached.system input.system :=
      ⟨reached, input, (sound.coherent.both _ _).mp fed, rfl, rfl⟩
    rcases downstream_onward sound member with rfl | path
    · exact .inr (.single feeds)
    · exact .inr (path.tail feeds)

theorem addressed_own (sound : frame.Sound subsystems) {change : Change}
    (sent : change ∈ Mail.addressed (frame.ripple subsystems.layout [output]) output.system) :
    change = .mark output.index false := by
  rcases ripple_onward sound (Mail.mem_addressed.mp sent) with same | path
  · exact (Prod.mk.inj same).2
  · exact absurd path (sound.acyclic output.system)

theorem addressed_apart (sound : frame.Sound subsystems) {system : Nat} (other : system ≠ output.system)
    (apart : ¬ TransGen frame.wiring.Feeds output.system system) :
    Mail.addressed (frame.ripple subsystems.layout [output]) system = [] := by
  apply List.eq_nil_iff_forall_not_mem.mpr
  intro change sent
  rcases ripple_onward sound (Mail.mem_addressed.mp sent) with same | path
  · exact other (Prod.mk.inj same).1
  · exact apart path

end Frame

theorem Frame.Sound.feeds_bound {frame : Frame} {subsystems : Subsystems} (sound : frame.Sound subsystems)
    {before after : Nat} (feeds : frame.wiring.Feeds before after) : before < subsystems.size := by
  obtain ⟨output, input, wired, rfl, _⟩ := feeds
  obtain ⟨buffer, held, _⟩ := (sound.wired output input wired).1
  obtain ⟨child, present⟩ := Subsystems.context?_of_buffer? held
  exact Subsystems.present_bound present

def Wiring.depth (wiring : Wiring) (places system : Nat) : Nat :=
  ((Finset.range places).filter (fun before => wiring.reaches before system)).card

theorem Wiring.depth_lt {wiring : Wiring} (coherent : wiring.Coherent) (acyclic : wiring.Acyclic) {places before after : Nat}
    (bound : before < places) (feeds : wiring.Feeds before after) : wiring.depth places before < wiring.depth places after := by
  apply Finset.card_lt_card
  rw [Finset.ssubset_iff_of_subset]
  · refine ⟨before, ?_, ?_⟩
    · simp [bound, (reaches_feeds coherent).mpr (.single feeds)]
    · simp [reaches_feeds coherent, acyclic before]
  · intro system member
    obtain ⟨inside, reaches⟩ := Finset.mem_filter.mp member
    apply Finset.mem_filter.mpr
    exact ⟨inside, (reaches_feeds coherent).mpr (((reaches_feeds coherent).mp reaches).tail feeds)⟩

theorem Subsystems.mem_buffered {subsystems : Subsystems} {output : Terminal} :
    output ∈ subsystems.layout.buffered ↔ subsystems.HasOutput output := by
  simp only [Layout.buffered, List.mem_flatMap, List.mem_range, length_layout]
  constructor
  · intro listed
    obtain ⟨system, _, member⟩ := listed
    obtain rfl := Layout.system_of_bufferedFor member
    cases held : subsystems.buffer? output.system with
    | none => simp [Layout.bufferedFor, outline?_layout, held] at member
    | some buffer => exact ⟨buffer, held, ((mem_bufferedFor held).mp member).2⟩
  · intro has
    obtain ⟨buffer, held, bound⟩ := has
    obtain ⟨child, present⟩ := context?_of_buffer? held
    refine ⟨output.system, present_bound present, (mem_bufferedFor held).mpr ⟨rfl, bound⟩⟩

namespace Diagram

-- Every output once, and none before an output of a subsystem that feeds its own.
structure Ordered (diagram : Diagram) (order : List Terminal) : Prop where
  once : order.Nodup
  all : ∀ output, output ∈ order ↔ diagram.subsystems.HasOutput output
  after : order.Pairwise (fun earlier later => ¬ diagram.frame.wiring.Feeds later.system earlier.system)

def noDeeper (diagram : Diagram) (earlier later : Terminal) : Bool :=
  diagram.frame.wiring.depth diagram.subsystems.size earlier.system ≤
    diagram.frame.wiring.depth diagram.subsystems.size later.system

def byDepth (diagram : Diagram) : List Terminal := diagram.layout.buffered.mergeSort diagram.noDeeper

def sweep (values : Terminal → Value) (diagram : Diagram) : List Terminal → Outcome Diagram Unit
  | [] => .done () diagram
  | output :: rest =>
    match diagram.setOutput output (values output) with
    | .done _ after => after.sweep values rest
    | .refused refusal left => .refused refusal left
    | .aborted fault => .aborted fault

variable {diagram : Diagram} {values : Terminal → Value}

theorem ordered_byDepth (sound : diagram.frame.Sound diagram.subsystems) : diagram.Ordered diagram.byDepth where
  once := by
    apply (List.mergeSort_perm _ _).nodup_iff.mpr
    apply List.nodup_flatMap.mpr
    constructor
    · intro system _
      unfold Layout.bufferedFor
      cases diagram.layout.outline? system with
      | none => exact List.nodup_nil
      | some outline => exact List.nodup_range.map (fun _ _ same => (Terminal.mk.inj same).2)
    · apply List.nodup_range.imp
      intro system other apart output here there
      exact apart ((Layout.system_of_bufferedFor here).symm.trans (Layout.system_of_bufferedFor there))
  all := fun output => (List.mergeSort_perm _ _).mem_iff.trans Subsystems.mem_buffered
  after := by
    have sorted : diagram.byDepth.Pairwise (fun earlier later => diagram.noDeeper earlier later) := by
      apply List.pairwise_mergeSort <;> simp only [noDeeper, decide_eq_true_eq, Bool.or_eq_true] <;> omega
    apply sorted.imp
    intro earlier later ordered feeds
    have deeper := Wiring.depth_lt sound.coherent sound.acyclic (sound.feeds_bound feeds) feeds
    have shallower := of_decide_eq_true ordered
    omega

-- No chain of wires leads from an output back to one that comes before it.
theorem Ordered.unreached {front rest : List Terminal} {output earlier : Terminal}
    (ordered : diagram.Ordered (front ++ output :: rest)) (sound : diagram.frame.Sound diagram.subsystems)
    (before : earlier ∈ front) : ¬ TransGen diagram.frame.wiring.Feeds output.system earlier.system := by
  obtain ⟨_, _, across⟩ := List.pairwise_append.mp ordered.after
  intro path
  generalize same : earlier.system = system at path
  induction path generalizing earlier with
  | single feeds => exact across earlier before output List.mem_cons_self (same ▸ feeds)
  | tail _ feeds ih =>
    obtain ⟨source, target, wired, rfl, enters⟩ := feeds
    have listed := (ordered.all source).mpr (sound.wired source target wired).1
    rcases List.mem_append.mp listed with first | later
    · exact ih first rfl
    · exact across earlier before source later ⟨source, target, wired, rfl, enters.trans same.symm⟩

end Diagram

namespace Subsystems
variable {frame : Frame} {subsystems others : Subsystems} {output earlier : Terminal}

def UpToDate (subsystems : Subsystems) (output : Terminal) : Prop :=
  ∃ child, subsystems.context? output.system = some child ∧ output.index < child.outputCount ∧
    child.isFresh output.index = .ok true

-- A store leaves the output up to date, and whatever no chain of wires leads to as it was.
theorem upToDate_stored (sound : (Context.diagram frame subsystems).WellFormed)
    (matched : (Context.diagram frame subsystems).Matched)
    (same : ∀ system, others.context? system = subsystems.context? system) {own : Context}
    (present : subsystems.context? output.system = some own) (bound : output.index < own.outputCount)
    (unreached : ¬ TransGen frame.wiring.Feeds output.system earlier.system)
    (fresh : earlier = output ∨ subsystems.UpToDate earlier) :
    (others.receive (frame.ripple subsystems.layout [output] ++ [(output.system, .mark output.index true)])).UpToDate
      earlier := by
  obtain ⟨child, there, inside, before⟩ : ∃ child, subsystems.context? earlier.system = some child ∧
      earlier.index < child.outputCount ∧ (earlier = output ∨ child.isFresh earlier.index = .ok true) := by
    rcases fresh with rfl | ⟨child, there, inside, fresh⟩
    · exact ⟨own, present, bound, .inl rfl⟩
    · exact ⟨child, there, inside, .inr fresh⟩
  refine ⟨_, context?_received ((same _).trans there) _, ?_, ?_⟩
  · rw [Context.outputCount_receive]
    exact inside
  · rw [Mail.addressed_append, Mail.addressed_single]
    by_cases here : output.system = earlier.system
    · rw [← here] at there ⊢
      cases present.symm.trans there
      obtain ⟨home, found⟩ := Context.output_home (sound.child present) (matched.child present) bound
      obtain ⟨place, shown⟩ := Context.output_home (sound.child present) (matched.child present) inside
      rw [if_pos rfl]
      apply Context.isFresh_renewed (fun change sent => Frame.addressed_own sound.frame sent) found shown
      exact before.imp_left (congrArg Terminal.index)
    · rw [Frame.addressed_apart sound.frame (fun equal => here equal.symm) unreached, if_neg here, List.nil_append,
        Context.receive_nil]
      apply before.resolve_left
      rintro rfl
      exact here rfl

end Subsystems

namespace Diagram
variable {start diagram : Diagram} {values : Terminal → Value} {visited : List Terminal} {output : Terminal}

-- What holds of a diagram on the way: what has been stored is there to be read and
-- up to date, and nothing has been wired or bound in another way.
structure Swept (start : Diagram) (values : Terminal → Value) (visited : List Terminal) (diagram : Diagram) : Prop where
  frame : diagram.frame = start.frame
  layout : diagram.layout = start.layout
  sound : diagram.context.WellFormed
  matched : diagram.context.Matched
  unique : diagram.context.Unambiguous
  inputs : ∀ system, (diagram.subsystems.context? system).map Context.input =
    (start.subsystems.context? system).map Context.input
  fresh : ∀ output ∈ visited, diagram.subsystems.UpToDate output
  stored : ∀ output ∈ visited, diagram.output? output = some (values output)

theorem Swept.hasOutput (swept : Swept start values visited diagram) :
    diagram.subsystems.HasOutput output ↔ start.subsystems.HasOutput output := by
  have layout : diagram.subsystems.layout = start.subsystems.layout := swept.layout
  rw [← Subsystems.mem_buffered, ← Subsystems.mem_buffered, layout]

theorem Swept.present (swept : Swept start values visited diagram) {system : Nat} {child : Context}
    (present : start.subsystems.context? system = some child) :
    ∃ later, diagram.subsystems.context? system = some later ∧ later.input = child.input := by
  have same := swept.inputs system
  rw [present] at same
  exact Option.map_eq_some_iff.mp same

theorem Swept.store (swept : Swept start values visited diagram) (closed : start.frame.phase = .sealed)
    (has : start.subsystems.HasOutput output)
    (unreached : ∀ earlier ∈ visited ++ [output], ¬ TransGen start.frame.wiring.Feeds output.system earlier.system) :
    ∃ changed after, diagram.setOutput output (values output) = .done changed after ∧
      Swept start values (visited ++ [output]) after := by
  obtain ⟨buffer, held, within⟩ := swept.hasOutput.mpr has
  obtain ⟨own, present⟩ := Subsystems.context?_of_buffer? held
  have count : buffer.count = own.outputCount := (Context.everywhere_diagram.mp swept.matched).1 _ _ _ present held
  have done := setOutput_eq swept.sound swept.matched (swept.frame ▸ closed) (values output) held within
  have effect := setOutput_left swept.sound (congrArg Outcome.left? done)
  have same := Subsystems.context?_putBuffer diagram.subsystems output.system (buffer.write output.index (some (values output)))
  refine ⟨_, _, done, swept.frame, ?_, swept.sound.effect effect, ?_, ?_, ?_, ?_, ?_⟩
  · refine (Subsystems.layout_receive _ _).trans (Eq.trans ?_ swept.layout)
    exact layout_store (values output) held
  · apply Context.matched_delivery
    exact Context.matched_putBuffer swept.matched held (buffer.count_write _ _)
  · exact swept.unique.along effect.grows effect.covers
  · intro system
    rw [← swept.inputs system, ← same]
    apply Subsystems.input_receive
    intro item sent
    rcases List.mem_append.mp sent with spread | mark
    · exact (Frame.ripple_quiet spread).unbound
    · rw [List.mem_singleton.mp mark]
      rfl
  · intro earlier listed
    apply Subsystems.upToDate_stored swept.sound swept.matched same present (count ▸ within)
    · rw [swept.frame]
      exact unreached earlier listed
    · rcases List.mem_append.mp listed with before | last
      · exact .inr (swept.fresh earlier before)
      · exact .inl (List.mem_singleton.mp last)
  · intro earlier listed
    show Subsystems.output? _ _ = _
    rw [Subsystems.output?_receive, Subsystems.output?_write _ held within]
    split
    · rename_i here
      rw [here]
    · rename_i apart
      apply swept.stored earlier
      exact (List.mem_append.mp listed).resolve_right (fun last => apart (List.mem_singleton.mp last))

theorem Swept.sweep {front rest : List Terminal} (swept : Swept start values front diagram)
    (ordered : start.Ordered (front ++ rest)) (closed : start.frame.phase = .sealed)
    (sound : start.frame.Sound start.subsystems) :
    ∃ after, diagram.sweep values rest = .done () after ∧ Swept start values (front ++ rest) after := by
  induction rest generalizing front diagram with
  | nil => exact ⟨diagram, rfl, by simpa using swept⟩
  | cons output rest ih =>
    have has := (ordered.all output).mp (List.mem_append_right _ List.mem_cons_self)
    have unreached : ∀ earlier ∈ front ++ [output], ¬ TransGen start.frame.wiring.Feeds output.system earlier.system := by
      intro earlier listed
      rcases List.mem_append.mp listed with before | last
      · exact ordered.unreached sound before
      · rw [List.mem_singleton.mp last]
        exact sound.acyclic output.system
    obtain ⟨changed, after, done, onward⟩ := swept.store closed has unreached
    rw [List.append_cons] at ordered ⊢
    obtain ⟨last, swept, reached⟩ := ih onward ordered
    exact ⟨last, by rw [Diagram.sweep, done]; exact swept, reached⟩

def Intact (diagram : Diagram) (output input : Terminal) : Prop :=
  diagram.frame.wiring.source? input = some output ∧ ∃ child, diagram.subsystems.context? input.system = some child ∧
    child.input input.index = .ok (some (diagram.bindingTo output))

theorem evaluateInput_bound {input : Terminal} {child : Context} {value : Value} (closed : diagram.frame.phase = .sealed)
    (unique : diagram.context.Unambiguous) (present : diagram.subsystems.context? input.system = some child)
    (bound : child.input input.index = .ok (some (diagram.bindingTo output)))
    (held : diagram.output? output = some value) (outer : Resolver) :
    diagram.evaluateInput input outer = .ok (some value) := by
  have resolved : child.resolve input.index = .ok (.pending ⟨diagram.frame.id, output⟩) := by
    apply Context.resolve_bound bound
    intro path found located same
    have there : diagram.context.locate (input.system :: path) = .ok found :=
      Context.locate_cons.mpr ⟨child, present, located⟩
    cases unique _ _ _ _ there (Context.locate_nil _) same
  simp [evaluateInput, closed, Subsystems.context_eq_ok.mpr present, resolved, Except.map, Reading.settledBy, held,
    Reading.value?]

theorem isEvaluated_eq {system : Nat} {child : Context} (present : diagram.subsystems.context? system = some child)
    (fresh : ∀ index < child.outputCount, child.isFresh index = .ok true) : diagram.isEvaluated system = .ok true := by
  rw [isEvaluated, subsystem, Subsystems.context_eq_ok.mpr present]
  exact Context.allFresh_eq fresh

theorem Swept.initial (sound : diagram.context.WellFormed) (matched : diagram.context.Matched)
    (unique : diagram.context.Unambiguous) : Swept diagram values [] diagram where
  frame := rfl
  layout := rfl
  sound := sound
  matched := matched
  unique := unique
  inputs := fun _ => rfl
  fresh := nofun
  stored := nofun

theorem Swept.isEvaluated {order : List Terminal} (swept : Swept start values order diagram) (ordered : start.Ordered order)
    {system : Nat} {child : Context} (present : start.subsystems.context? system = some child) :
    diagram.isEvaluated system = .ok true := by
  obtain ⟨later, arrived, _⟩ := swept.present present
  apply isEvaluated_eq arrived
  intro index inside
  obtain ⟨buffer, held⟩ := Subsystems.buffer?_of_context? arrived
  have count : buffer.count = later.outputCount := (Context.everywhere_diagram.mp swept.matched).1 _ _ _ arrived held
  have has : diagram.subsystems.HasOutput ⟨system, index⟩ := ⟨buffer, held, count ▸ inside⟩
  obtain ⟨other, there, _, fresh⟩ := swept.fresh _ ((ordered.all _).mpr (swept.hasOutput.mp has))
  cases arrived.symm.trans there
  exact fresh

theorem Swept.intact_iff (swept : Swept start values visited diagram) {input : Terminal} :
    diagram.Intact output input ↔ start.Intact output input := by
  have reads : ∀ (other : Diagram) (binding : Binding), (∃ child, other.subsystems.context? input.system = some child ∧
      child.input input.index = .ok (some binding)) ↔
        ((other.subsystems.context? input.system).map Context.input).map (· input.index) = some (.ok (some binding)) := by
    intro other binding
    simp
  unfold Intact bindingTo
  rw [reads, reads, swept.inputs, swept.frame]

theorem Swept.evaluateInput {order : List Terminal} (swept : Swept start values order diagram)
    (ordered : start.Ordered order) (closed : start.frame.phase = .sealed) (sound : start.frame.Sound start.subsystems)
    {input : Terminal} (intact : start.Intact output input) (outer : Resolver) :
    diagram.evaluateInput input outer = .ok (some (values output)) := by
  obtain ⟨wired, child, present, bound⟩ := intact
  obtain ⟨later, arrived, inputs⟩ := swept.present present
  have listed := (ordered.all output).mpr (sound.wired output input wired).1
  apply evaluateInput_bound (swept.frame ▸ closed) swept.unique arrived _ (swept.stored output listed)
  rw [inputs, bound, bindingTo, bindingTo, swept.frame]

end Diagram

namespace Built
open Context
variable {rules : Rules} {tree : Context} {path : List Nat} {diagram : Diagram}

theorem sweep_freshens (built : Built rules tree) (located : tree.locate path = .ok diagram.context)
    (closed : diagram.frame.phase = .sealed) (matched : diagram.context.Matched) :
    (∃ order, diagram.Ordered order) ∧ ∀ order, diagram.Ordered order → ∀ values,
      ∃ after, diagram.sweep values order = .done () after ∧
        (∀ system < diagram.subsystems.size, after.isEvaluated system = .ok true) ∧
        ∀ output input, (after.Intact output input ↔ diagram.Intact output input) ∧
          (diagram.Intact output input → ∀ outer, after.evaluateInput input outer = .ok (some (values output))) := by
  obtain ⟨sound, frame⟩ := built.frame_sound located
  have occupied := built.occupied located closed
  refine ⟨⟨_, Diagram.ordered_byDepth frame⟩, fun order ordered values => ?_⟩
  have start : Diagram.Swept diagram values [] diagram := .initial sound matched (built.unambiguous.below located)
  obtain ⟨after, done, swept⟩ := start.sweep ordered closed frame
  refine ⟨after, done, fun system bound => ?_, fun output input => ⟨swept.intact_iff, fun intact outer => ?_⟩⟩
  · obtain ⟨child, present⟩ := occupied system bound
    exact swept.isEvaluated ordered present
  · exact swept.evaluateInput ordered closed frame intact outer

theorem sweep_freshens_running :
    ∃ after, Diagram.running.sweep (fun output => .int32 (.ofNat output.system)) [⟨0, 0⟩, ⟨1, 0⟩, ⟨2, 0⟩] = .done () after ∧
      after.isEvaluated 2 = .ok true ∧ after.evaluateInput ⟨2, 0⟩ .nowhere = .ok (some (.int32 1)) := by
  have built := Diagram.running_built
  have coherent := (built.frame_sound (locate_nil _)).2.coherent
  have ordered : Diagram.running.Ordered [⟨0, 0⟩, ⟨1, 0⟩, ⟨2, 0⟩] := by
    refine ⟨by decide, fun output => ?_, ?_⟩
    · have listed : Diagram.running.subsystems.layout.buffered = [⟨0, 0⟩, ⟨1, 0⟩, ⟨2, 0⟩] := by decide
      rw [← Subsystems.mem_buffered, listed]
    · simp only [← Wiring.mem_successors_iff coherent]
      decide
  obtain ⟨_, all⟩ := sweep_freshens built (locate_nil _) (by decide) Diagram.running_matched
  obtain ⟨after, done, evaluated, wires⟩ := all _ ordered (fun output => .int32 (.ofNat output.system))
  refine ⟨after, done, evaluated 2 (by decide), ?_⟩
  exact (wires ⟨1, 0⟩ ⟨2, 0⟩).2 ⟨by decide, _, rfl, by decide⟩ .nowhere

end Built
end BlockDiagram
