import BlockDiagram.Proofs.Clearing
import BlockDiagram.Proofs.Loops

namespace BlockDiagram
open Relation

namespace Context

def Flushed (context : Context) (index : Nat) : Prop :=
  ∃ root, context.inputTicket? index = some root ∧
    ∀ ticket, context.cache.DependsOn ticket root → context.cache.value? ticket = none

def Stale (context : Context) : Prop := ∀ index < context.outputCount, context.isFresh index = .ok false

theorem flushed_told {context : Context} {changes : List Change} {change : Change} {index : Nat}
    (bound : index < context.inputCount) (member : change ∈ changes)
    (concerned : context.root? change = context.inputTicket? index) : (context.receive changes).Flushed index := by
  obtain ⟨root, ticket⟩ := inputTicket?_bound bound
  have cleared := context.cache_receive changes
  refine ⟨root, (context.inputTicket?_receive changes).trans ticket, fun line depends => ?_⟩
  exact cleared.cleared root line ⟨change, member, concerned.trans ticket⟩ (cleared.dependsOn.mp depends)

theorem flushed_receive {context : Context} {changes : List Change} {index : Nat} (bound : index < context.inputCount)
    (member : .invalidateInput index ∈ changes) : (context.receive changes).Flushed index :=
  flushed_told bound member (inputTicket?_of_root bound)

theorem isFresh_diagram {frame : Frame} {subsystems : Subsystems} {index : Nat} {terminal : Terminal} {child : Context}
    (entered : frame.outputs[index]? = some terminal) (present : subsystems.context? terminal.system = some child) :
    (Context.diagram frame subsystems).isFresh index = child.isFresh terminal.index := by
  simp only [isFresh, Frame.output_eq_ok.mpr entered, Subsystems.isFreshAt_eq, present, Option.map_some, Option.getD_some]

theorem isFresh_home {context : Context} {index : Nat} {home : Endpoint} {own : Leaf}
    (found : context.home? .outputs index = some home) (located : context.locate home.path = .ok (.leaf own)) :
    context.isFresh index = own.isFresh home.index := by
  induction context using Context.induct generalizing index home with
  | leaf leaf =>
    obtain ⟨_, rfl⟩ := home?_leaf.mp found
    cases located
    rfl
  | diagram frame subsystems ih =>
    obtain ⟨terminal, entered, below⟩ := home?_diagram.mp found
    obtain ⟨child, inner, present, inside, rfl⟩ := Subsystems.terminalHome?_eq_some.mp below
    obtain ⟨other, there, deeper⟩ := locate_cons.mp located
    cases present.symm.trans there
    have below := ih _ _ present inside deeper
    rw [isFresh_diagram entered present]
    exact below

theorem verdict_mark {frame : Frame} {subsystems : Subsystems} {index : Nat} {terminal : Terminal}
    (exported : frame.outputs[index]? = some terminal) (fresh : Bool) :
    (Context.diagram frame subsystems).verdict (.mark index fresh) =
      subsystems.verdict terminal.system (.mark terminal.index fresh) := by
  have entered := Frame.output_eq_ok.mpr exported
  have own : frame.verdict (.mark index fresh) = .accepted := by simp only [Frame.verdict, entered]
  have told : frame.mail subsystems.layout (.mark index fresh) = [(terminal.system, .mark terminal.index fresh)] := by
    simp only [Frame.mail, entered]
  rw [verdict_diagram _ _ _ own, told, List.map_singleton]
  cases subsystems.verdict terminal.system (.mark terminal.index fresh) <;> rfl

theorem home_of_mark {context : Context} {index : Nat} {fresh : Bool}
    (accepted : context.verdict (.mark index fresh) = .accepted) : ∃ home, context.home? .outputs index = some home := by
  induction context using Context.induct generalizing index with
  | leaf own =>
    simp only [verdict, Leaf.verdict] at accepted
    split at accepted
    · exact ⟨_, home?_leaf.mpr ⟨‹_›, rfl⟩⟩
    · cases accepted
  | diagram frame subsystems ih =>
    cases held : frame.output index with
    | error fault => simp [verdict, Frame.verdict, held] at accepted
    | ok terminal =>
      have below : subsystems.verdict terminal.system (.mark terminal.index fresh) = .accepted :=
        (verdict_mark (Frame.output_eq_ok.mp held) fresh).symm.trans accepted
      cases present : subsystems.context? terminal.system with
      | none =>
        rw [Subsystems.verdict_absent present] at below
        cases below
      | some child =>
        rw [Subsystems.verdict_present present] at below
        obtain ⟨inner, inside⟩ := ih _ _ present below
        refine ⟨inner.under terminal.system, home?_diagram.mpr ⟨terminal, Frame.output_eq_ok.mp held, ?_⟩⟩
        exact Subsystems.terminalHome?_eq_some.mpr ⟨child, inner, present, inside, rfl⟩

end Context

theorem Leaf.marked_receiveAll {own : Leaf} {changes : List Change} {index : Nat} (bound : index < own.fresh.length)
    (quiet : ∀ change ∈ changes, change.Quiet)
    (stale : own.fresh[index]? = some false ∨ .mark index false ∈ changes) :
    (changes.foldl receive own).fresh[index]? = some false := by
  induction changes generalizing own with
  | nil => exact stale.resolve_right (fun member => nomatch member)
  | cons change rest ih =>
    rw [List.foldl_cons]
    have length := (own.receive_counts change).2
    apply ih (length ▸ bound) (fun other member => quiet other (List.mem_cons_of_mem _ member))
    have here := quiet change List.mem_cons_self
    cases change with
    | invalidateInput place =>
      refine .inl ?_
      simp only [receive, disturb, List.getElem?_map, List.getElem?_eq_getElem bound, Option.map_some]
    | mark place flag =>
      have down : flag = false := here
      subst down
      by_cases same : place = index
      · subst same
        exact .inl (by simp [receive, bound])
      · rcases stale with stale | member
        · exact .inl (by simpa [receive, same] using stale)
        · rcases List.mem_cons.mp member with equal | later
          · cases equal
            exact absurd rfl same
          · exact .inr later
    | _ => exact here.elim

theorem Context.stale_receive {context : Context} {changes : List Change}
    (quiet : ∀ change ∈ changes, change.Quiet)
    (marked : ∀ index < context.outputCount, .mark index false ∈ changes ∧
      ∃ home, context.home? .outputs index = some home) : (context.receive changes).Stale := by
  intro index bound
  rw [outputCount_receive] at bound
  obtain ⟨member, home, found⟩ := marked index bound
  obtain ⟨own, located, inside⟩ := locate_home found
  have arrived := locate_receive changes located
  have told : .mark home.index false ∈ context.mailTo changes home.path :=
    @mailTo_home .outputs (.mark · false) (fun _ _ _ _ entered => .mark entered) _ _ _ _ member found
  have still : (context.receive changes).home? .outputs index = some home :=
    home?_along Numbering.lasting_outputs (along_receive grows_receive context changes) found
  rw [isFresh_home still arrived, Leaf.isFresh, Leaf.marked_receiveAll inside (mailTo_quiet quiet) (.inr told)]

theorem Layout.system_of_bufferedFor {layout : Layout} {system : Nat} {output : Terminal}
    (member : output ∈ layout.bufferedFor system) : output.system = system := by
  unfold bufferedFor at member
  cases found : layout.outline? system with
  | none => simp [found] at member
  | some outline =>
    rw [found] at member
    exact (mem_terminalsOf.mp member).1

namespace Frame
variable {frame : Frame} {subsystems : Subsystems} {origin : Nat}

-- Every wire that leaves a subsystem the origin leads to starts at an output that
-- subsystem's context declares.
def Declares (frame : Frame) (layout : Layout) (origin : Nat) : Prop :=
  ∀ wire ∈ frame.wiring.wires, frame.wiring.reaches origin wire.1.system = true →
    wire.1 ∈ layout.declaredBy wire.1.system

instance (layout : Layout) : Decidable (frame.Declares layout origin) :=
  inferInstanceAs (Decidable (∀ wire ∈ frame.wiring.wires, frame.wiring.reaches origin wire.1.system = true →
    wire.1 ∈ layout.declaredBy wire.1.system))

def Onward (frame : Frame) (origin : Nat) (wire : Terminal × Terminal) : Prop :=
  wire.1.system = origin ∨ frame.wiring.reaches origin wire.1.system = true

def Tells (frame : Frame) (layout : Layout) (origin : Nat) : Prop :=
  ∀ wire ∈ frame.wiring.wires, frame.Onward origin wire →
    (wire.2.system, .invalidateInput wire.2.index) ∈ frame.ripple layout (layout.bufferedFor origin)

theorem downstream_declared {layout : Layout} {output : Terminal}
    (reached : output ∈ frame.downstream layout (layout.bufferedFor origin)) :
    output ∈ layout.bufferedFor origin ∨ output ∈ layout.declaredBy output.system := by
  obtain ⟨start, member, path⟩ := mem_downstream.mp reached
  cases path with
  | refl => exact .inl member
  | tail _ step =>
    obtain ⟨input, _, declared⟩ := mem_fedBy.mp step
    obtain ⟨_, _, same, _⟩ := Layout.mem_declaredBy.mp declared
    exact .inr (same ▸ declared)

theorem start_bufferedFor (sound : frame.Sound subsystems) {output input : Terminal}
    (wired : frame.wiring.source? input = some output) :
    output ∈ frame.downstream subsystems.layout (subsystems.layout.bufferedFor output.system) := by
  obtain ⟨⟨buffer, held, bound⟩, _⟩ := sound.wired _ _ wired
  exact start_downstream ((Subsystems.mem_bufferedFor held).mpr ⟨rfl, bound⟩)

theorem onward_downstream (sound : frame.Sound subsystems) (declares : frame.Declares subsystems.layout origin)
    {target : Nat} (path : TransGen frame.wiring.Feeds origin target) {output input : Terminal}
    (wired : frame.wiring.source? input = some output) (leaves : output.system = target) :
    output ∈ frame.downstream subsystems.layout (subsystems.layout.bufferedFor origin) := by
  have onward : ∀ {before entered output input : Terminal},
      before ∈ frame.downstream subsystems.layout (subsystems.layout.bufferedFor origin) →
      frame.wiring.source? entered = some before → frame.wiring.source? input = some output →
      output.system = entered.system → TransGen frame.wiring.Feeds origin output.system →
      output ∈ frame.downstream subsystems.layout (subsystems.layout.bufferedFor origin) := by
    intro before entered output input reached fed wired meets path
    have declared := declares (output, input) ((Wiring.mem_wires sound.coherent).mpr wired)
      ((Wiring.reaches_feeds sound.coherent).mpr path)
    exact downstream_of_wired sound reached fed (meets ▸ declared)
  -- The wire before the last ends in the subsystem this one starts from.
  induction path generalizing output input with
  | single edge =>
    obtain ⟨before, entered, fed, rfl, rfl⟩ := edge
    exact onward (start_bufferedFor sound fed) fed wired leaves
      (leaves ▸ .single ⟨before, entered, fed, rfl, rfl⟩)
  | tail path edge ih =>
    obtain ⟨before, entered, fed, rfl, rfl⟩ := edge
    exact onward (ih fed rfl) fed wired leaves (leaves ▸ path.tail ⟨before, entered, fed, rfl, rfl⟩)

theorem onward_reached (sound : frame.Sound subsystems) (declares : frame.Declares subsystems.layout origin)
    {wire : Terminal × Terminal} (listed : wire ∈ frame.wiring.wires) (onward : frame.Onward origin wire) :
    wire.1 ∈ frame.downstream subsystems.layout (subsystems.layout.bufferedFor origin) := by
  obtain ⟨output, input⟩ := wire
  have wired := (Wiring.mem_wires sound.coherent).mp listed
  rcases onward with rfl | reaches
  · exact start_bufferedFor sound wired
  · exact onward_downstream sound declares ((Wiring.reaches_feeds sound.coherent).mp reaches) wired rfl

-- No wire that is followed is missed exactly if all of them start where
-- invalidation goes on.
theorem declares_iff_tells (sound : frame.Sound subsystems) :
    frame.Declares subsystems.layout origin ↔ frame.Tells subsystems.layout origin := by
  constructor
  · intro declares wire listed onward
    have wired := (Wiring.mem_wires sound.coherent).mp listed
    exact invalidated_of_downstream sound (onward_reached sound declares listed onward) wired
  · intro tells wire listed reaches
    have wired := (Wiring.mem_wires sound.coherent).mp listed
    obtain ⟨output, reached, stale | invalid⟩ := mem_ripple.mp (tells wire listed (.inr reaches))
    · cases (Prod.mk.inj (mem_staleness.mp stale).2).2
    · obtain ⟨input, fed, _, same⟩ := mem_invalidations.mp invalid
      have ends : input = wire.2 := by
        obtain ⟨system, index⟩ := input
        have both := Prod.mk.inj same
        exact (congrArg₂ Terminal.mk both.1 (Change.invalidateInput.inj both.2)).symm
      have source : output = wire.1 := by
        have named := (sound.coherent.both _ _).mp fed
        rw [ends, wired] at named
        exact (Option.some.inj named).symm
      rw [← source]
      -- The wire starts beyond the origin, since no chain leads back there.
      refine (downstream_declared reached).resolve_left (fun start => ?_)
      have home := Layout.system_of_bufferedFor start
      have path := (Wiring.reaches_feeds sound.coherent).mp reaches
      rw [← source, home] at path
      exact sound.acyclic origin path

end Frame

namespace Subsystems

theorem deliver_accepted {subsystems after : Subsystems} {mail : Mail}
    (sound : ∀ system child, subsystems.context? system = some child → child.WellFormed)
    (quiet : ∀ item ∈ mail, item.2.Quiet) (delivered : subsystems.deliver mail = .ok after) :
    after = subsystems.receive mail ∧ ∀ item ∈ mail, subsystems.verdict item.1 item.2 = .accepted := by
  unfold deliver at delivered
  cases all : Verdict.all (mail.map (fun item => subsystems.verdict item.1 item.2)) with
  | accepted =>
    rw [all] at delivered
    refine ⟨(Except.ok.inj delivered).symm, fun item member => ?_⟩
    exact Verdict.all_accepted.mp all _ (List.mem_map_of_mem member)
  | aborted => rw [all] at delivered; cases delivered
  | refused refusal =>
    obtain ⟨item, member, objection⟩ := List.mem_map.mp (Verdict.all_refused all)
    cases present : subsystems.context? item.1 with
    | some child =>
      rw [verdict_present present] at objection
      refine absurd objection (Context.verdict_not_refused (sound _ _ present) (fun index binds => ?_) refusal)
      rw [(quiet item member).unbound] at binds
      cases binds
    | none =>
      rw [verdict_absent present] at objection
      exact absurd objection ((quiet item member).not_refused _ _)

end Subsystems

theorem terminalsOf_all (system count : Nat) :
    (terminalsOf system count).filter (fun output => output.index ∈ List.range count) = terminalsOf system count := by
  refine List.filter_eq_self.mpr (fun output member => ?_)
  have bound := (mem_terminalsOf.mp member).2
  simpa using bound

namespace Diagram
variable {diagram after : Diagram} {system : Nat} {buffer : OutputBuffer} {changed : List Nat}

theorem startsOf_range (held : diagram.subsystems.buffer? system = some buffer) :
    startsOf buffer system (List.range buffer.count) = diagram.layout.bufferedFor system := by
  obtain ⟨child, present⟩ := Subsystems.context?_of_buffer? held
  rw [startsOf, terminalsOf_all]
  simp [Layout.bufferedFor, Diagram.layout, Subsystems.outline?_layout, present, held]

theorem propagateMany_done (sound : diagram.context.WellFormed)
    (held : diagram.subsystems.buffer? system = some buffer)
    (done : diagram.propagateMany system (List.range buffer.count) = .done changed after) :
    after = diagram.withSubsystems (diagram.subsystems.receive
        (diagram.frame.ripple diagram.layout (diagram.layout.bufferedFor system))) ∧
      ∀ item ∈ diagram.frame.ripple diagram.layout (diagram.layout.bufferedFor system),
        diagram.subsystems.verdict item.1 item.2 = .accepted := by
  have closed : diagram.frame.phase = .sealed := by
    cases phase : diagram.frame.phase with
    | sealed => rfl
    | building =>
      simp only [propagateMany, propagateAs, phase] at done
      cases done
  rw [propagateMany, propagateAs_eq _ closed held (fun index => List.mem_range.mp), startsOf_range held,
    propagateFrom_done_iff] at done
  obtain ⟨frame, subsystems⟩ := after
  obtain ⟨delivered, rfl, _⟩ := done
  obtain ⟨rfl, accepted⟩ := Subsystems.deliver_accepted (fun _ _ present => sound.child present)
    (fun item member => Frame.ripple_quiet member) delivered
  exact ⟨rfl, accepted⟩

theorem propagateMany_reaches (sound : diagram.context.WellFormed)
    (declares : diagram.frame.Declares diagram.layout system) (held : diagram.subsystems.buffer? system = some buffer)
    (done : diagram.propagateMany system (List.range buffer.count) = .done changed after) {target : Nat}
    (reaches : diagram.frame.wiring.reaches system target = true) :
    ∃ child, after.subsystems.context? target = some child ∧ child.Stale ∧
      ∀ wire ∈ diagram.frame.wiring.wires, wire.2.system = target → diagram.frame.Onward system wire →
        child.Flushed wire.2.index := by
  obtain ⟨rfl, accepted⟩ := propagateMany_done sound held done
  have frame : diagram.frame.Sound diagram.subsystems := sound.frame
  have tells := (Frame.declares_iff_tells frame).mp declares
  obtain ⟨middle, before, last⟩ := TransGen.tail'_iff.mp ((Wiring.reaches_feeds frame.coherent).mp reaches)
  obtain ⟨output, input, wired, rfl, rfl⟩ := last
  have listed := (Wiring.mem_wires frame.coherent).mpr wired
  have onward : diagram.frame.Onward system (output, input) := by
    rcases reflTransGen_iff_eq_or_transGen.mp before with same | path
    · exact .inl same
    · exact .inr ((Wiring.reaches_feeds frame.coherent).mpr path)
  obtain ⟨child, present, _⟩ := (frame.wired _ _ wired).2
  refine ⟨_, Subsystems.context?_received present _, ?_, ?_⟩
  · refine Context.stale_receive (fun change member => Frame.ripple_quiet (Mail.mem_addressed.mp member)) ?_
    intro index bound
    have declared : (⟨input.system, index⟩ : Terminal) ∈ diagram.layout.declaredBy input.system :=
      (Subsystems.mem_declaredBy present).mpr ⟨rfl, bound⟩
    have marked : (input.system, .mark index false) ∈
        diagram.frame.ripple diagram.layout (diagram.layout.bufferedFor system) := by
      refine Frame.mem_ripple.mpr ⟨⟨input.system, index⟩, ?_, .inl (Frame.mem_staleness.mpr ⟨declared, rfl⟩)⟩
      exact Frame.downstream_of_wired frame (Frame.onward_reached frame declares listed onward) wired declared
    have verdict := accepted _ marked
    rw [Subsystems.verdict_present present] at verdict
    exact ⟨Mail.mem_addressed.mpr marked, Context.home_of_mark verdict⟩
  · intro wire member enters onward
    obtain ⟨_, host, there, bound⟩ := frame.wired _ _ ((Wiring.mem_wires frame.coherent).mp member)
    rw [enters] at there
    cases present.symm.trans there
    have told := tells wire member onward
    rw [enters] at told
    exact Context.flushed_receive bound (Mail.mem_addressed.mpr told)

end Diagram

def Context.running : Context := chained.actAll [([], .finishBuilding), ([2], .change (.mark 0 true))]

theorem Context.running_built : Built .any running := chained_built.actAll _ (fun _ _ => trivial)

def Diagram.running : Diagram := Context.running.diagram?.get (by decide)

theorem Diagram.context_running : Diagram.running.context = Context.running := Context.context_get _

theorem Diagram.running_built : Built .any Diagram.running.context := Diagram.context_running ▸ Context.running_built

theorem Diagram.running_matched : Diagram.running.context.Matched := by
  rw [Diagram.context_running]
  decide

namespace Built
open Context
variable {rules : Rules} {tree : Context} {path : List Nat} {diagram : Diagram} {origin : Nat} {buffer : OutputBuffer}

-- Invalidation that starts from all outputs of a subsystem follows every wire the
-- search for loops follows exactly if those beyond the subsystem start at declared
-- outputs; and then it leaves nothing behind that was derived from them.
theorem propagation_reaches (built : Built rules tree) (located : tree.locate path = .ok diagram.context)
    (held : diagram.subsystems.buffer? origin = some buffer) :
    (diagram.frame.Declares diagram.layout origin ↔ diagram.frame.Tells diagram.layout origin) ∧
      (diagram.frame.Declares diagram.layout origin → ∀ changed after,
        diagram.propagateMany origin (List.range buffer.count) = .done changed after →
        ∀ target, diagram.frame.wiring.reaches origin target = true →
          ∃ child, after.subsystems.context? target = some child ∧ child.Stale ∧
            ∀ wire ∈ diagram.frame.wiring.wires, wire.2.system = target → diagram.frame.Onward origin wire →
              child.Flushed wire.2.index) := by
  obtain ⟨sound, frame⟩ := built.frame_sound located
  refine ⟨Frame.declares_iff_tells frame, fun declares changed after done target reaches => ?_⟩
  exact Diagram.propagateMany_reaches sound declares held done reaches

theorem propagation_reaches_running :
    ∃ diagram changed after, Built .any (Diagram.context diagram) ∧
      diagram.subsystems.buffer? 0 = some ⟨[none]⟩ ∧ diagram.frame.Declares diagram.layout 0 ∧
      diagram.propagateMany 0 (List.range 1) = .done changed after ∧ diagram.frame.wiring.reaches 0 2 = true ∧
      ∃ child, after.subsystems.context? 2 = some child ∧ child.Stale := by
  have reaches : Diagram.running.frame.wiring.reaches 0 2 = true := by decide
  have held : Diagram.running.subsystems.buffer? 0 = some ⟨[none]⟩ := by decide
  have declares : Diagram.running.frame.Declares Diagram.running.layout 0 := by decide
  have built := Diagram.running_built
  obtain ⟨start, _, done⟩ := Diagram.propagateMany_eq built.wellFormed Diagram.running_matched (by decide) held
    (fun index member => List.mem_range.mp member)
  obtain ⟨child, present, stale, _⟩ :=
    (propagation_reaches built (locate_nil _) held).2 declares _ _ done 2 reaches
  exact ⟨_, _, _, built, held, declares, done, reaches, child, present, stale⟩

end Built

-- The subsystem in the middle declares no output, but a buffer is kept for one,
-- from which the last subsystem is wired.
def Context.muted : Context :=
  ((((Diagram.create ⟨3⟩ 3 .sequential).context.joined [] 0 (.leaf (.create ⟨0⟩ ⟨0, 1, 0, []⟩ [])) ⟨[none]⟩).joined [] 1
    (.leaf (.create ⟨1⟩ ⟨1, 0, 0, []⟩ [])) ⟨[none]⟩).joined [] 2 (.leaf (.create ⟨2⟩ ⟨1, 1, 0, []⟩ [])) ⟨[none]⟩).actAll
    [([], .connect ⟨0, 0⟩ ⟨1, 0⟩), ([], .connect ⟨1, 0⟩ ⟨2, 0⟩), ([], .finishBuilding), ([2], .change (.mark 0 true))]

theorem Context.muted_built : Built .any muted :=
  (((Built.diagram.joined .leaf (by decide) [] 0 ⟨[none]⟩).joined .leaf (by decide) [] 1 ⟨[none]⟩).joined
    .leaf (by decide) [] 2 ⟨[none]⟩).actAll _ (fun _ _ => trivial)

def Diagram.muted : Diagram := Context.muted.diagram?.get (by decide)

namespace Built
open Context

theorem propagation_stops :
    ∃ tree path diagram origin target buffer changed after,
      Built .any tree ∧ tree.locate path = .ok (Diagram.context diagram) ∧ diagram.frame.phase = .sealed ∧
        diagram.frame.wiring.reaches origin target = true ∧ diagram.subsystems.buffer? origin = some buffer ∧
        diagram.propagateMany origin (List.range buffer.count) = .done changed after ∧
        ∃ child, after.subsystems.context? target = some child ∧ ¬ child.Stale := by
  have located : Context.muted.locate [] = .ok Diagram.muted.context := by
    rw [Diagram.muted, context_get, locate_nil]
  have reads : (Diagram.muted.propagateMany 0 (List.range 1)).done?.bind (fun told =>
      (told.2.subsystems.context? 2).map (fun child => (child.outputCount, (child.isFresh 0).toOption))) =
        some (1, some true) := by decide
  obtain ⟨⟨changed, after⟩, ended, seen⟩ := Option.bind_eq_some_iff.mp reads
  obtain ⟨child, present, answers⟩ := Option.map_eq_some_iff.mp seen
  obtain ⟨outputs, fresh⟩ := Prod.mk.inj answers
  refine ⟨_, [], Diagram.muted, 0, 2, ⟨[none]⟩, changed, after, muted_built, located, by decide, by decide,
    by decide, Outcome.done?_eq_some.mp ended, child, present, fun stale => ?_⟩
  rw [stale 0 (by omega)] at fresh
  cases fresh

end Built
end BlockDiagram
