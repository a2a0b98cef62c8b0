import BlockDiagram.Proofs.Anchoring
import BlockDiagram.Proofs.Freshness
import BlockDiagram.Proofs.Spread

namespace BlockDiagram
open Relation

inductive Change.Opens (partition : Partition) (index : Nat) : Change → Prop where
  | openEntry : Opens partition index (.openEntry partition index)
  | storeEntry {entry : partition.Entry} : Opens partition index (.storeEntry partition index entry)
  | mark {output : Nat} : Opens partition index (.mark output false)

namespace Diagram
variable {diagram : Diagram} {system : Nat} {output input : Terminal} {indices : List Nat}

def bufferedBy (diagram : Diagram) (system : Nat) : List Nat :=
  List.range ((diagram.subsystems.buffer? system).elim 0 OutputBuffer.count)

theorem mem_downstream_buffered :
    output ∈ diagram.frame.downstream diagram.layout (diagram.layout.bufferedFor system) ↔
      diagram.Reached system (diagram.bufferedBy system) output := by
  cases held : diagram.subsystems.buffer? system with
  | none =>
    have start : diagram.layout.bufferedFor system = [] := by
      simp [Layout.bufferedFor, Diagram.layout, Subsystems.outline?_layout, held]
    have indices : diagram.bufferedBy system = [] := by simp [bufferedBy, held]
    rw [start, indices, Frame.downstream_nil]
    refine ⟨fun none => absurd none List.not_mem_nil, fun reached => ?_⟩
    induction reached with
    | given none => cases none
    | fed _ _ _ _ ih => cases ih
  | some buffer =>
    have indices : diagram.bufferedBy system = List.range buffer.count := by simp [bufferedBy, held]
    rw [indices, ← startsOf_range held]
    exact mem_downstream_iff (fun index => List.mem_range.mp)

theorem Reached.feeds (coherent : diagram.frame.wiring.Coherent) (reached : diagram.Reached system indices output) :
    ReflTransGen diagram.frame.wiring.Feeds system output.system := by
  induction reached with
  | given => exact .refl
  | fed _ wired _ _ ih => exact ih.tail ⟨_, _, (coherent.both _ _).mp wired, rfl, rfl⟩

-- No wire leads back to the subsystem it all started from.
theorem Hit.beyond (sound : diagram.frame.Sound diagram.subsystems) (hit : diagram.Hit system indices input) :
    input.system ≠ system := by
  obtain ⟨output, reached, wired⟩ := hit
  intro back
  have source := (sound.coherent.both output input).mp wired
  exact sound.acyclic system (TransGen.tail' (reached.feeds sound.coherent) ⟨output, input, source, rfl, back⟩)

theorem Reached.hit (reached : diagram.Reached system indices output) (beyond : output.system ≠ system) :
    ∃ input, diagram.Hit system indices input ∧ input.system = output.system := by
  cases reached with
  | given => exact absurd rfl beyond
  | fed reached wired => exact ⟨_, ⟨_, reached, wired⟩, rfl⟩

end Diagram

namespace Leaf
variable {own : Leaf} {changes : List Change} {index : Nat}

theorem fresh_marked (marks : ∀ change ∈ changes, ∃ other, change = .mark other false) :
    (.mark index false ∈ changes → index < own.fresh.length →
        (changes.foldl receive own).fresh[index]? = some false) ∧
      (.mark index false ∉ changes → (changes.foldl receive own).fresh[index]? = own.fresh[index]?) := by
  have unmarked : ∀ other, .mark other true ∉ changes := by
    intro other member
    obtain ⟨_, same⟩ := marks _ member
    cases same
  have fresh := @fresh_receiveAll own changes index unmarked
  have length := own.outputs_receiveAll changes
  refine ⟨fun member bound => ?_, fun absent => ?_⟩
  · rw [← length] at bound
    rw [List.getElem?_eq_getElem bound] at fresh ⊢
    refine congrArg some (eq_false_of_ne_true (fun up => ?_))
    exact ((fresh.mp (congrArg some up)).2 _ member).2 rfl
  · have calm : ∀ change ∈ changes, own.root? change = none ∧ change ≠ .mark index false := by
      intro change member
      obtain ⟨_, rfl⟩ := marks change member
      exact ⟨rfl, fun same => absent (same ▸ member)⟩
    by_cases bound : index < own.fresh.length
    · rw [List.getElem?_eq_getElem bound, List.getElem?_eq_getElem (length ▸ bound)] at fresh ⊢
      simp only [Option.some.injEq] at fresh
      exact congrArg some (Bool.eq_iff_iff.mpr (fresh.trans (and_iff_left calm)))
    · rw [List.getElem?_eq_none (Nat.le_of_not_lt bound), List.getElem?_eq_none (length ▸ Nat.le_of_not_lt bound)]

end Leaf

namespace Frame
variable {frame : Frame} {subsystems : Subsystems} {partition : Partition} {index : Nat} {terminal : Terminal}
  {cause : Change} {item : Nat × Change}

theorem disturbed_entered (entered : (Numbering.entries partition).target? frame index = some terminal) (layout : Layout) :
    frame.disturbed layout (.openEntry partition index) = layout.bufferedFor terminal.system := by
  obtain ⟨slot, held, rfl⟩ := target?_entries.mp entered
  simp only [disturbed, held]

-- What a diagram on the way asks of its subsystems: the same of the one the entry is
-- in, marks of what it exports, and what follows from the outputs of that subsystem.
theorem mem_mail_opens (opens : cause.Opens partition index)
    (entered : (Numbering.entries partition).target? frame index = some terminal)
    (sent : item ∈ frame.mail subsystems.layout cause) :
    (item.1 = terminal.system ∧ item.2.Opens partition terminal.index) ∨
      (∃ exported output, cause = .mark exported false ∧ frame.outputs[exported]? = some output ∧
        item = (output.system, .mark output.index false)) ∨
      item ∈ frame.ripple subsystems.layout (subsystems.layout.bufferedFor terminal.system) := by
  rcases mem_mail.mp sent with passed | spread
  · cases opens with
    | openEntry =>
      cases passed with
      | openEntry other =>
        obtain rfl := Option.some.inj (entered.symm.trans other)
        exact .inl ⟨rfl, .openEntry⟩
    | storeEntry =>
      cases passed with
      | storeEntry other =>
        obtain rfl := Option.some.inj (entered.symm.trans other)
        exact .inl ⟨rfl, .storeEntry⟩
    | mark =>
      cases passed with
      | mark exported => exact .inr (.inl ⟨_, _, rfl, exported, rfl⟩)
  · cases opens with
    | openEntry =>
      rw [disturbed_entered entered] at spread
      exact .inr (.inr spread)
    | storeEntry | mark =>
      simp only [disturbed, ripple_nil, List.not_mem_nil] at spread

theorem opens_onward (sound : frame.Sound subsystems) (opens : cause.Opens partition index)
    (entered : (Numbering.entries partition).target? frame index = some terminal) {change : Change}
    (sent : (terminal.system, change) ∈ frame.mail subsystems.layout cause) : change.Opens partition terminal.index := by
  rcases mem_mail_opens opens entered sent with ⟨_, onward⟩ | ⟨_, output, _, _, same⟩ | spread
  · exact onward
  · cases (Prod.mk.inj same).2
    exact .mark
  · obtain ⟨output, reached, stale | invalid⟩ := mem_ripple.mp spread
    · cases (Prod.mk.inj (mem_staleness.mp stale).2).2
      exact .mark
    · obtain ⟨input, wired, _, same⟩ := mem_invalidations.mp invalid
      have downstream := (@Diagram.mem_downstream_buffered ⟨frame, subsystems⟩ _ _).mp reached
      have hit : Diagram.Hit ⟨frame, subsystems⟩ terminal.system _ input := ⟨output, downstream, wired⟩
      exact absurd (Prod.mk.inj same).1.symm (hit.beyond sound)

theorem opens_aside (opens : cause.Opens partition index)
    (entered : (Numbering.entries partition).target? frame index = some terminal) {place : Nat} {change : Change}
    (apart : place ≠ terminal.system)
    (spared : ∀ input, Diagram.Hit ⟨frame, subsystems⟩ terminal.system (Diagram.bufferedBy ⟨frame, subsystems⟩ terminal.system)
      input → input.system ≠ place)
    (sent : (place, change) ∈ frame.mail subsystems.layout cause) :
    ∃ exported output, cause = .mark exported false ∧ frame.outputs[exported]? = some ⟨place, output⟩ ∧
      change = .mark output false := by
  rcases mem_mail_opens opens entered sent with ⟨here, _⟩ | ⟨exported, output, marked, held, same⟩ | spread
  · exact absurd here apart
  · obtain ⟨rfl, rfl⟩ := Prod.mk.inj same
    exact ⟨exported, output.index, marked, held, rfl⟩
  · obtain ⟨output, reached, stale | invalid⟩ := mem_ripple.mp spread
    · have downstream := (@Diagram.mem_downstream_buffered ⟨frame, subsystems⟩ _ _).mp reached
      obtain ⟨rfl, _⟩ := Prod.mk.inj (mem_staleness.mp stale).2
      obtain ⟨input, hit, same⟩ := downstream.hit apart
      exact absurd same (spared input hit)
    · obtain ⟨input, wired, _, same⟩ := mem_invalidations.mp invalid
      have downstream := (@Diagram.mem_downstream_buffered ⟨frame, subsystems⟩ _ _).mp reached
      exact absurd (Prod.mk.inj same).1.symm (spared input ⟨output, downstream, wired⟩)

end Frame

namespace Context
variable {tree found context : Context} {changes : List Change} {partition : Partition} {index : Nat} {path front : List Nat}
  {place : Endpoint} {diagram : Diagram}

theorem opens_mailTo (sound : tree.WellFormed) (routed : tree.Routes (.entries partition) index place)
    (given : ∀ change ∈ changes, change.Opens partition index) :
    ∀ change ∈ tree.mailTo changes place.path, change.Opens partition place.index := by
  induction routed generalizing changes with
  | here =>
    rw [mailTo_nil]
    exact given
  | into entered present _ ih =>
    rw [Endpoint.under, mailTo_cons present]
    refine ih (sound.child present) (fun change addressed => ?_)
    obtain ⟨cause, told, sent⟩ := mem_addressed_mail.mp addressed
    exact Frame.opens_onward sound.frame (given cause told) entered sent

theorem openEntry_arrives (routed : tree.Routes (.entries partition) index place)
    (opened : .openEntry partition index ∈ changes) :
    .openEntry partition place.index ∈ tree.mailTo changes place.path :=
  (mem_mailTo (Numbering.hands_openEntry partition)).mpr (.inl ⟨index, opened, routed⟩)

theorem outputs_marked (matched : tree.Matched) (routed : tree.Routes (.entries partition) index place)
    (opened : .openEntry partition index ∈ changes) (located : tree.locate place.path = .ok found)
    (inside : place.path ≠ []) {output : Nat} (bound : output < found.outputCount) :
    .mark output false ∈ tree.mailTo changes place.path := by
  induction routed generalizing changes with
  | here => exact absurd rfl inside
  | @into frame subsystems _ terminal child inner entered present onward ih =>
    obtain ⟨other, there, below⟩ := locate_cons.mp located
    cases present.symm.trans there
    rw [Endpoint.under, mailTo_cons present]
    by_cases top : inner.path = []
    · rw [top, mailTo_nil]
      rw [top, locate_nil] at below
      cases below
      have declared : ⟨terminal.system, output⟩ ∈ subsystems.layout.declaredBy terminal.system :=
        (Subsystems.mem_declaredBy present).mpr ⟨rfl, bound⟩
      have starts := (Frame.declaredBy_matched (everywhere_diagram.mp matched).1 terminal.system) ▸ declared
      refine mem_addressed_mail.mpr ⟨_, opened, Frame.mem_mail.mpr (.inr ?_)⟩
      rw [Frame.disturbed_entered entered]
      exact Frame.mem_ripple.mpr ⟨_, Frame.start_downstream starts, .inl (Frame.mem_staleness.mpr ⟨declared, rfl⟩)⟩
    · refine ih (matched.child present) (mem_addressed_mail.mpr ⟨_, opened, ?_⟩) below top
      exact Frame.mem_mail.mpr (.inl (.openEntry entered))

theorem unmarked_mailTo (unmarked : ∀ output, .mark output true ∉ changes) :
    ∀ output, .mark output true ∉ tree.mailTo changes path := by
  intro output member
  refine @mailTo_forall (fun change => ∀ output, change ≠ .mark output true) ?_ ?_ _ _ _ ?_ _ member output rfl
  · intro _ _ _ _ passed other output same
    cases passed <;> cases same
    exact other _ rfl
  · rintro _ quiet output rfl
    cases quiet
  · rintro _ given output rfl
    exact unmarked output given

-- Marks are handed on to what they are marks of, and nothing follows from them.
theorem marks_mailTo (marks : ∀ change ∈ changes, ∃ output, change = .mark output false) :
    ∀ change ∈ tree.mailTo changes path, ∃ output, change = .mark output false := by
  have quiet : ∀ change ∈ changes, change.Quiet := by
    intro change member
    obtain ⟨_, rfl⟩ := marks change member
    rfl
  intro change arrived
  have calm := mailTo_quiet quiet change arrived
  cases change with
  | invalidateInput =>
    obtain ⟨outer, given⟩ := invalidated_of_mailTo quiet arrived
    obtain ⟨_, same⟩ := marks _ given
    cases same
  | mark output fresh =>
    obtain rfl : fresh = false := calm
    exact ⟨output, rfl⟩
  | _ => exact calm.elim

theorem mark_arrives (marks : ∀ change ∈ changes, ∃ output, change = .mark output false) :
    .mark index false ∈ tree.mailTo changes path ↔
      ∃ outer, .mark outer false ∈ changes ∧ tree.Routes .outputs outer ⟨path, index⟩ := by
  rw [mem_mailTo (Numbering.hands_mark false), or_iff_left]
  rintro ⟨front, frame, subsystems, _, cause, told, _, _, spread, _⟩
  obtain ⟨_, rfl⟩ := marks_mailTo marks cause told
  simp only [Frame.disturbed, Frame.ripple_nil, List.not_mem_nil] at spread

theorem isFresh_marked (sound : context.WellFormed) (matched : context.Matched) (bound : index < context.outputCount)
    (told : .mark index false ∈ changes) (unmarked : ∀ output, .mark output true ∉ changes) :
    (context.receive changes).isFresh index = .ok false := by
  have accepted : context.verdict (.mark index false) = .accepted := verdict_fits sound matched bound
  obtain ⟨home, found⟩ := home_of_mark accepted
  obtain ⟨routed, own, located, inside⟩ := home?_iff.mp found
  have arrived := locate_receive changes located
  have still : (context.receive changes).home? .outputs index = some home :=
    home?_along Numbering.lasting_outputs (along_receive grows_receive context changes) found
  have marked : .mark home.index false ∈ context.mailTo changes home.path :=
    (mem_mailTo (Numbering.hands_mark false)).mpr (.inl ⟨index, told, routed⟩)
  have length := own.outputs_receiveAll (context.mailTo changes home.path)
  have inside : home.index < ((context.mailTo changes home.path).foldl Leaf.receive own).fresh.length :=
    length.symm ▸ inside
  have stale : ((context.mailTo changes home.path).foldl Leaf.receive own).fresh[home.index] ≠ true := by
    intro up
    have fresh := (Leaf.fresh_receiveAll (unmarked_mailTo unmarked)).mp (List.getElem?_eq_some_iff.mpr ⟨inside, up⟩)
    exact (fresh.2 _ marked).2 rfl
  rw [isFresh_home still arrived, Leaf.isFresh, List.getElem?_eq_getElem inside, eq_false_of_ne_true stale]

end Context

structure Leaf.Dimmed (own : Leaf) (stale : Nat → Prop) (later : Leaf) : Prop where
  dimmed : ∀ output, stale output → later.fresh[output]? = some false
  kept : ∀ output, ¬ stale output → later.fresh[output]? = own.fresh[output]?

namespace Context

-- Nothing has happened to a context but that some outputs of it are stale, if it is a leaf.
structure Spared (found : Context) (stale : Nat → Prop) (now : Context) : Prop where
  unmoved : found.Unmoved now
  cache : now.cache = found.cache
  outputs : ∀ own, found = .leaf own → ∃ later, now = .leaf later ∧ own.Dimmed stale later

theorem spared_marked {found : Context} {changes : List Change} {stale : Nat → Prop}
    (marks : ∀ change ∈ changes, ∃ output, change = .mark output false)
    (stales : ∀ own output, found = .leaf own → (stale output ↔ .mark output false ∈ changes ∧ output < own.fresh.length)) :
    found.Spared stale (found.receive changes) := by
  refine ⟨unmoved_receive found (fun change told => ?_), (cache_receive found changes).unchanged (fun root => ?_), ?_⟩
  · obtain ⟨_, rfl⟩ := marks change told
    rfl
  · rintro ⟨change, told, concerned⟩
    obtain ⟨_, rfl⟩ := marks change told
    cases found <;> cases concerned
  · rintro own rfl
    refine ⟨_, rfl, fun output marked => ?_, fun output unmarked => ?_⟩
    · obtain ⟨told, bound⟩ := (stales own output rfl).mp marked
      exact (Leaf.fresh_marked marks).1 told bound
    · by_cases bound : output < own.fresh.length
      · exact (Leaf.fresh_marked marks).2 (fun told => unmarked ((stales own output rfl).mpr ⟨told, bound⟩))
      · have length := own.outputs_receiveAll changes
        rw [List.getElem?_eq_none (Nat.le_of_not_lt bound), List.getElem?_eq_none (length ▸ Nat.le_of_not_lt bound)]

structure Reopened (own : Leaf) (now : Context) : Prop where
  cache : own.cache.ClearedOf (· = stateTicket) now.cache
  stale : ∃ later, now = .leaf later ∧ later.fresh = List.replicate own.fresh.length false

-- What has become of a diagram through which an entry of one of its subsystems has
-- been opened, and of all that is in its other subsystems.
structure OpenedThrough (front : List Nat) (diagram : Diagram) (system : Nat) (after : Context) : Prop where
  here : ∃ now, after.locate front = .ok now ∧ diagram.context.Unmoved now ∧
    diagram.frame.cache.ClearedOf (· = stateTicket) now.cache
  hit : ∀ input inner found, diagram.Hit system (diagram.bufferedBy system) input →
    diagram.subsystems.Routes .inputs input inner → diagram.context.locate inner.path = .ok found →
    ∃ now, after.locate (front ++ inner.path) = .ok now ∧ now.Flushed inner.index ∧
      ∀ own, now = .leaf own → ∀ fresh ∈ own.fresh, fresh = false
  reached : ∀ output, diagram.Reached system (diagram.bufferedBy system) output →
    ∃ now, after.locate (front ++ [output.system]) = .ok now ∧ now.isFresh output.index = .ok false
  -- Only inside another diagram are its own outputs marked.
  aside : ∀ place rest found, place ≠ system →
    (∀ input, diagram.Hit system (diagram.bufferedBy system) input → input.system ≠ place) →
    diagram.context.locate (place :: rest) = .ok found →
    ∃ now, after.locate (front ++ place :: rest) = .ok now ∧ found.Spared (fun output => front ≠ [] ∧
      ∃ exported, diagram.context.home? .outputs exported = some ⟨place :: rest, output⟩) now

section
variable {tree : Context} {changes : List Change} {partition : Partition} {index : Nat} {place : Endpoint}
  {diagram : Diagram} {slot : Slot}

theorem entered_slot (held : diagram.frame.composite.slot? partition index = some slot) :
    (Numbering.entries partition).target? diagram.frame index = some ⟨slot.system, slot.index⟩ :=
  Frame.target?_entries.mpr ⟨slot, held, rfl⟩

theorem propagated {numbering : Numbering} {change : Nat → Change} (hands : numbering.Hands change)
    (routed : tree.Routes (.entries partition) index place) (opened : .openEntry partition index ∈ changes)
    (located : tree.locate place.path = .ok diagram.context)
    (held : diagram.frame.composite.slot? partition place.index = some slot) {terminal : Terminal} {inner : Endpoint}
    (sent : (terminal.system, change terminal.index) ∈
      diagram.frame.ripple diagram.layout (diagram.layout.bufferedFor slot.system))
    (onward : diagram.subsystems.Routes numbering terminal inner) :
    change inner.index ∈ tree.mailTo changes (place.path ++ inner.path) := by
  refine (mem_mailTo hands).mpr (.inr ⟨place.path, _, _, located, _, openEntry_arrives routed opened, terminal, inner, ?_, onward, rfl⟩)
  rw [Frame.disturbed_entered (entered_slot held)]
  exact sent

theorem opened_here (sound : tree.WellFormed) (routed : tree.Routes (.entries partition) index place)
    (given : ∀ change ∈ changes, change.Opens partition index) (opened : .openEntry partition index ∈ changes)
    (located : tree.locate place.path = .ok diagram.context)
    (held : diagram.frame.composite.slot? partition place.index = some slot) :
    ∃ now, (tree.receive changes).locate place.path = .ok now ∧ diagram.context.Unmoved now ∧
      diagram.frame.cache.ClearedOf (· = stateTicket) now.cache := by
  have told := opens_mailTo sound routed given
  refine ⟨_, locate_receive changes located, ?_, (cache_receive diagram.context _).congr (fun root => ?_)⟩
  · refine unmoved_diagram (@time_receive diagram.context _ _ (fun moment arrived => ?_) (.inl rfl))
    cases told _ arrived
  · constructor
    · rintro ⟨change, arrived, concerned⟩
      cases told change arrived with
      | openEntry =>
        obtain ⟨_, _, same⟩ := Option.map_eq_some_iff.mp concerned
        exact same.symm
      | storeEntry | mark => cases concerned
    · rintro rfl
      exact ⟨_, openEntry_arrives routed opened, Option.map_eq_some_iff.mpr ⟨slot, held, rfl⟩⟩

theorem opened_hit (sound : tree.WellFormed) (routed : tree.Routes (.entries partition) index place)
    (unmarked : ∀ output, .mark output true ∉ changes) (opened : .openEntry partition index ∈ changes)
    (located : tree.locate place.path = .ok diagram.context)
    (held : diagram.frame.composite.slot? partition place.index = some slot) {input : Terminal} {inner : Endpoint}
    {found : Context} (hit : diagram.Hit slot.system (diagram.bufferedBy slot.system) input)
    (onward : diagram.subsystems.Routes .inputs input inner) (inside : diagram.context.locate inner.path = .ok found) :
    ∃ now, (tree.receive changes).locate (place.path ++ inner.path) = .ok now ∧ now.Flushed inner.index ∧
      ∀ own, now = .leaf own → ∀ fresh ∈ own.fresh, fresh = false := by
  have below : diagram.context.WellFormed := Everywhere.below sound located
  have frame : diagram.frame.Sound diagram.subsystems := below.frame
  obtain ⟨output, reached, fed⟩ := hit
  have wired := (frame.coherent.both _ _).mp fed
  have sent := Frame.invalidated_of_downstream frame (Diagram.mem_downstream_buffered.mpr reached) wired
  have arrived := propagated Numbering.hands_invalidateInput routed opened located held sent onward
  have bound : inner.index < found.inputCount := by
    obtain ⟨child, last, present, way, rfl⟩ := onward
    obtain ⟨_, other, there, bound⟩ := frame.wired output input wired
    cases present.symm.trans there
    obtain ⟨same, again, deeper⟩ := locate_cons.mp inside
    cases present.symm.trans again
    show last.index < found.inputCount
    exact way.input_bound (below.child present) bound deeper
  refine ⟨_, locate_receive changes ((locate_append located).mpr inside),
    flushed_receive bound arrived, fun own same => ?_⟩
  cases found with
  | diagram => cases same
  | leaf leaf =>
    cases same
    exact Leaf.stale_told (unmarked_mailTo unmarked) arrived rfl

theorem opened_reached (sound : tree.WellFormed) (matched : tree.Matched)
    (routed : tree.Routes (.entries partition) index place) (unmarked : ∀ output, .mark output true ∉ changes)
    (opened : .openEntry partition index ∈ changes) (located : tree.locate place.path = .ok diagram.context)
    (held : diagram.frame.composite.slot? partition place.index = some slot) {output : Terminal}
    (reached : diagram.Reached slot.system (diagram.bufferedBy slot.system) output) :
    ∃ now, (tree.receive changes).locate (place.path ++ [output.system]) = .ok now ∧
      now.isFresh output.index = .ok false := by
  have below : diagram.context.WellFormed := Everywhere.below sound located
  have fits : diagram.context.Matched := Everywhere.below matched located
  have downstream := Diagram.mem_downstream_buffered.mpr reached
  have declared : output ∈ diagram.layout.declaredBy output.system := by
    rcases Frame.downstream_declared downstream with start | declared
    · have declared := Frame.declaredBy_matched (everywhere_diagram.mp fits).1 slot.system
      rw [Layout.system_of_bufferedFor start]
      exact declared.symm ▸ start
    · exact declared
  obtain ⟨child, present, bound⟩ := Subsystems.declared_child declared
  have sent : (output.system, .mark output.index false) ∈
      diagram.frame.ripple diagram.layout (diagram.layout.bufferedFor slot.system) :=
    Frame.mem_ripple.mpr ⟨output, downstream, .inl (Frame.mem_staleness.mpr ⟨declared, rfl⟩)⟩
  have arrived := propagated (Numbering.hands_mark false) routed opened located held sent ⟨child, _, present, .here, rfl⟩
  have inside : diagram.context.locate [output.system] = .ok child := locate_cons.mpr ⟨child, present, locate_nil _⟩
  exact ⟨_, locate_receive changes ((locate_append located).mpr inside),
    isFresh_marked (below.child present) (fits.child present) bound arrived (unmarked_mailTo unmarked)⟩

-- What the diagram has a subsystem aside told are marks of what it exports from there.
theorem told_aside (sound : tree.WellFormed) (routed : tree.Routes (.entries partition) index place)
    (given : ∀ change ∈ changes, change.Opens partition index)
    (held : diagram.frame.composite.slot? partition place.index = some slot) {system : Nat} (apart : system ≠ slot.system)
    (spared : ∀ input, diagram.Hit slot.system (diagram.bufferedBy slot.system) input → input.system ≠ system) :
    ∀ change ∈ Mail.addressed ((tree.mailTo changes place.path).flatMap (diagram.frame.mail diagram.layout)) system,
      ∃ exported output, .mark exported false ∈ tree.mailTo changes place.path ∧
        diagram.frame.outputs[exported]? = some ⟨system, output⟩ ∧ change = .mark output false := by
  intro change addressed
  obtain ⟨cause, arrived, sent⟩ := mem_addressed_mail.mp addressed
  have opens := opens_mailTo sound routed given cause arrived
  obtain ⟨exported, output, rfl, named, same⟩ := Frame.opens_aside opens (entered_slot held) apart spared sent
  exact ⟨exported, output, arrived, named, same⟩

theorem opened_aside (sound : tree.WellFormed) (matched : tree.Matched)
    (routed : tree.Routes (.entries partition) index place) (given : ∀ change ∈ changes, change.Opens partition index)
    (loud : ∀ output, .mark output false ∉ changes) (opened : .openEntry partition index ∈ changes)
    (located : tree.locate place.path = .ok diagram.context)
    (held : diagram.frame.composite.slot? partition place.index = some slot) {system : Nat} {rest : List Nat}
    {found : Context} (apart : system ≠ slot.system)
    (spared : ∀ input, diagram.Hit slot.system (diagram.bufferedBy slot.system) input → input.system ≠ system)
    (inside : diagram.context.locate (system :: rest) = .ok found) :
    ∃ now, (tree.receive changes).locate (place.path ++ system :: rest) = .ok now ∧
      found.Spared (fun output => place.path ≠ [] ∧
        ∃ exported, diagram.context.home? .outputs exported = some ⟨system :: rest, output⟩) now := by
  obtain ⟨child, present, deeper⟩ := locate_cons.mp inside
  have told := told_aside sound routed given held apart spared
  have marks : ∀ change ∈ Mail.addressed ((tree.mailTo changes place.path).flatMap
      (diagram.frame.mail diagram.layout)) system, ∃ output, change = .mark output false := by
    intro change addressed
    obtain ⟨_, output, _, _, same⟩ := told change addressed
    exact ⟨output, same⟩
  have mail : tree.mailTo changes (place.path ++ system :: rest) = child.mailTo (Mail.addressed
      ((tree.mailTo changes place.path).flatMap (diagram.frame.mail diagram.layout)) system) rest := by
    rw [mailTo_from located]
    exact mailTo_cons present _ _
  have onward := @marks_mailTo child _ rest marks
  refine ⟨_, locate_receive changes ((locate_append located).mpr inside), ?_⟩
  rw [mail]
  refine spared_marked onward (fun own output leaf => ?_)
  subst leaf
  rw [mark_arrives marks]
  constructor
  · rintro ⟨nested, exported, home⟩
    obtain ⟨way, leaf, there, bound⟩ := home?_iff.mp home
    cases inside.symm.trans there
    obtain ⟨outer, other, named, held, way⟩ := routes_under.mp way
    cases present.symm.trans held
    have marked := outputs_marked matched routed opened located nested (List.getElem?_eq_some_iff.mp named).1
    exact ⟨⟨outer, mem_addressed_mail.mpr ⟨_, marked, Frame.mem_mail.mpr (.inl (.mark named))⟩, way⟩, bound⟩
  · rintro ⟨⟨outer, addressed, way⟩, bound⟩
    obtain ⟨exported, _, marked, named, same⟩ := told _ addressed
    cases same
    have home := home?_iff.mpr ⟨routes_under.mpr ⟨outer, child, named, present, way⟩, own, inside, bound⟩
    refine ⟨fun top => ?_, exported, home⟩
    rw [top, mailTo_nil] at marked
    exact loud _ marked

theorem reopened (sound : tree.WellFormed) (routed : tree.Routes (.entries partition) index place)
    (given : ∀ change ∈ changes, change.Opens partition index) (unmarked : ∀ output, .mark output true ∉ changes)
    (opened : .openEntry partition index ∈ changes) {own : Leaf} (located : tree.locate place.path = .ok (.leaf own))
    (bound : place.index < own.state.count partition) :
    ∃ now, (tree.receive changes).locate place.path = .ok now ∧ Reopened own now := by
  have told := opens_mailTo sound routed given
  have arrives := openEntry_arrives routed opened
  have concerned : own.root? (.openEntry partition place.index) = some stateTicket := if_pos bound
  refine ⟨_, locate_receive changes located, (cache_receive (.leaf own) _).congr (fun root => ?_), _, rfl,
    List.eq_replicate_iff.mpr ⟨Leaf.outputs_receiveAll _ _, Leaf.stale_told (unmarked_mailTo unmarked) arrives concerned⟩⟩
  constructor
  · rintro ⟨change, arrived, same⟩
    cases told change arrived with
    | openEntry => exact Option.some.inj (same.symm.trans concerned)
    | storeEntry | mark => cases same
  · rintro rfl
    exact ⟨_, arrives, concerned⟩

theorem Routes.told (routed : tree.Routes (.entries partition) index place) (changes : List Change) :
    (tree.receive changes).Routes (.entries partition) index place := by
  induction routed generalizing changes with
  | here => exact .here
  | @into frame subsystems _ _ _ _ entered present _ ih =>
    obtain ⟨slot, held, same⟩ := Frame.target?_entries.mp entered
    refine .into (Frame.target?_entries.mpr ⟨slot, ?_, same⟩) (Subsystems.context?_received present _) (ih _)
    rw [(Frame.Steady.receiveAll frame changes).composite]
    exact held

theorem read_opened {home : Endpoint} (found : tree.home? (.entries partition) index = some home)
    (unwritten : ∀ change ∈ changes, ¬ change.Writes) :
    ∃ entry, (tree.receive changes).read? partition index = some entry := by
  obtain ⟨routed, own, located, bound⟩ := home?_iff.mp found
  have counted : home.index < ((tree.mailTo changes home.path).foldl Leaf.receive own).state.count partition := by
    rw [Leaf.count_receiveAll]
    exact bound
  have still : (tree.receive changes).home? (.entries partition) index = some home :=
    home?_iff.mpr ⟨routed.told changes, _, locate_receive changes located, counted⟩
  have entry : tree.entryAt? partition home = some (own.state.entries partition)[home.index] := by
    rw [entryAt?, located]
    exact List.getElem?_eq_getElem bound
  exact ⟨_, by rw [read?_home, still, Option.bind_some, entryAt?_unwritten unwritten, entry]⟩

end

end Context

namespace Built
open Context
variable {rules : Rules} {tree : Context}

-- Writing access to an entry: what a caller goes on to store there makes no difference
-- to what is invalidated. Each number in range leads to a leaf, and the access is
-- granted if the leaf has the entry; a number out of range is answered without a trace.
theorem edit_exact (built : Built rules tree) (matched : tree.Matched) (partition : Partition) (index : Nat)
    (revise : partition.Entry → Outcome Unit partition.Entry) :
    (tree.entryCount partition ≤ index → tree.edit partition index revise = .done false tree) ∧
      (index < tree.entryCount partition → ∃ place own, tree.Routes (.entries partition) index place ∧
        tree.locate place.path = .ok (.leaf own)) ∧
      (∀ home, tree.home? (.entries partition) index = some home → (∀ entry, ∃ written, revise entry = .done written ()) →
        ∃ after, tree.edit partition index revise = .done true after) ∧
      ∀ after, (tree.edit partition index revise).left? = some after →
        ∀ place, tree.Routes (.entries partition) index place →
          (∀ own, tree.locate place.path = .ok (.leaf own) → place.index < own.state.count partition →
            ∃ now, after.locate place.path = .ok now ∧ Reopened own now) ∧
          ∀ diagram slot, tree.locate place.path = .ok (Diagram.context diagram) →
            diagram.frame.composite.slot? partition place.index = some slot →
            OpenedThrough place.path diagram slot.system after := by
  have sound := built.wellFormed
  refine ⟨fun beyond => edit_beyond beyond revise, fun bound => ?_, fun home found total => ?_, fun after left place routed => ?_⟩
  · exact Anchored.leads built.anchored (offers_iff.mpr (.inl bound))
  · obtain ⟨entry, held⟩ := @read_opened _ [.openEntry partition index] _ _ _ found (by simp [Change.Writes])
    obtain ⟨written, revised⟩ := total entry
    have furnished := matched.furnished sound
    exact ⟨_, edit_within (verdict_openEntry sound (fun _ _ _ inside => furnished _ _ inside)) held revised⟩
  · obtain ⟨changes, opened, given, unmarked, loud, rfl⟩ : ∃ changes, .openEntry partition index ∈ changes ∧
        (∀ change ∈ changes, change.Opens partition index) ∧ (∀ output, .mark output true ∉ changes) ∧
        (∀ output, .mark output false ∉ changes) ∧ after = tree.receive changes := by
      rcases edit_left sound left with rfl | ⟨entry, rfl⟩
      · exact ⟨_, List.mem_cons_self, by simp [Change.Opens.openEntry], by simp, by simp, rfl⟩
      · exact ⟨_, List.mem_cons_self, by simp [Change.Opens.openEntry, Change.Opens.storeEntry], by simp, by simp, rfl⟩
    refine ⟨fun own located bound => reopened sound routed given unmarked opened located bound, ?_⟩
    intro diagram slot located held
    exact ⟨opened_here sound routed given opened located held,
      fun _ _ _ hit onward inside => opened_hit sound routed unmarked opened located held hit onward inside,
      fun _ reached => opened_reached sound matched routed unmarked opened located held reached,
      fun _ _ _ apart spared inside => opened_aside sound matched routed given loud opened located held apart spared inside⟩

-- The entry of the leaf inside the inner diagram, on the way to which are both
-- diagrams, and no other entry is there.
theorem edit_exact_cascade :
    ∃ after, cascade.edit .modal 0 (fun _ => .done (.int32 7) ()) = .done true after ∧
      cascade.edit .modal 1 (fun _ => .done (.int32 7) ()) = .done false cascade ∧
      (∃ place own, cascade.Routes (.entries .modal) 0 place ∧ cascade.locate place.path = .ok (.leaf own)) ∧
      (∃ own now, cascade.locate [1, 0] = .ok (.leaf own) ∧ after.locate [1, 0] = .ok now ∧ Reopened own now) ∧
      (∃ outer, cascade = Diagram.context outer ∧ OpenedThrough [] outer 1 after) ∧
      ∃ inner, cascade.locate [1] = .ok (Diagram.context inner) ∧ OpenedThrough [1] inner 0 after := by
  obtain ⟨_, leads, willing, effects⟩ :=
    edit_exact cascade_built cascade_matched .modal 0 (fun _ => .done (.int32 7) ())
  have home : cascade.home? (.entries .modal) 0 = some ⟨[1, 0], 0⟩ := by decide
  obtain ⟨after, done⟩ := willing _ home (fun _ => ⟨_, rfl⟩)
  have effect := effects after (congrArg Outcome.left? done)
  have inward : cascade.Routes (.entries .modal) 0 ⟨[1], 0⟩ := @Routes.into _ _ _ _ ⟨1, 0⟩ _ _ rfl rfl .here
  obtain ⟨routed, own, located, bound⟩ := home?_iff.mp home
  refine ⟨after, done, ?_, leads (by decide), ⟨own, ?_⟩, ⟨⟨_, _⟩, rfl, ?_⟩, ⟨_, _⟩, rfl, ?_⟩
  · exact (edit_exact cascade_built cascade_matched .modal 1 _).1 (by decide)
  · obtain ⟨now, there, reopened⟩ := (effect _ routed).1 own located bound
    exact ⟨now, located, there, reopened⟩
  · exact (effect ⟨[], 0⟩ .here).2 _ ⟨1, 0⟩ rfl rfl
  · exact (effect ⟨[1], 0⟩ inward).2 _ ⟨0, 0⟩ rfl rfl

end Built
end BlockDiagram
