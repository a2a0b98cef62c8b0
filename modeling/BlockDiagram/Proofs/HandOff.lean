import BlockDiagram.Proofs.Inventory

namespace BlockDiagram
open Relation

namespace Context

inductive FlatWire : Context → Endpoint → Endpoint → Prop where
  | here {frame : Frame} {subsystems : Subsystems} {output input : Terminal} {source target : Endpoint}
    (wired : frame.wiring.source? input = some output)
    (leaves : subsystems.terminalHome? .outputs output = some source)
    (enters : subsystems.terminalHome? .inputs input = some target) :
    FlatWire (.diagram frame subsystems) source target
  | inside {frame : Frame} {subsystems : Subsystems} {system : Nat} {child : Context} {source target : Endpoint}
    (present : subsystems.context? system = some child) (wire : child.FlatWire source target) :
    FlatWire (.diagram frame subsystems) (source.under system) (target.under system)

-- The inputs that depend on an output. Each input of a leaf feeds all outputs
-- of that leaf.
inductive FlatReaches (tree : Context) (origin : Endpoint) : Endpoint → Prop where
  | first {input : Endpoint} (wire : tree.FlatWire origin input) : FlatReaches tree origin input
  | onward {input next : Endpoint} {output : Nat} (reached : FlatReaches tree origin input)
    (wire : tree.FlatWire ⟨input.path, output⟩ next) : FlatReaches tree origin next

def Cleared (tree : Context) (input : Endpoint) : Prop :=
  ∃ own, tree.locate input.path = .ok (.leaf own) ∧ own.Cleared input.index

-- A new value for an output of the diagram a path leads to. The outputs this
-- makes invalid are handed to the diagram around it, and so on outwards.
def handOff (context : Context) : List Nat → Terminal → Value → Outcome Context Answer
  | [], output, value => context.perform (.setOutput output value)
  | system :: path, output, value =>
    match context with
    | .leaf _ => .done .notOffered context
    | .diagram frame subsystems =>
      match subsystems.context system with
      | .error missing => .aborted (.access .subsystemForWriting missing)
      | .ok child =>
        match child.handOff path output value with
        | .done (.indices indices) changed =>
          (Context.diagram frame (subsystems.putContext system changed)).perform (.propagateMany system indices)
        | ending => ending.within (fun changed => .diagram frame (subsystems.putContext system changed))

theorem flatWire_leaf {own : Leaf} {source target : Endpoint} : ¬ (Context.leaf own).FlatWire source target := nofun

theorem not_flatReaches_leaf {own : Leaf} {origin input : Endpoint} : ¬ (Context.leaf own).FlatReaches origin input := by
  intro reached
  cases reached with
  | first wire => exact flatWire_leaf wire
  | onward _ wire => exact flatWire_leaf wire

end Context

theorem Frame.downstream_of_mail {frame : Frame} {subsystems : Subsystems} (sound : frame.Sound subsystems)
    {cause : Change} {output : Terminal} {index : Nat}
    (sent : (output.system, .invalidateInput index) ∈ frame.mail subsystems.layout cause)
    (has : subsystems.HasOutput output) (declared : output ∈ subsystems.layout.declaredBy output.system) :
    output ∈ frame.downstream subsystems.layout (frame.disturbed subsystems.layout cause) := by
  generalize place : output.system = system at sent
  rcases Frame.mem_mail.mp sent with passed | spread
  · cases passed with
    | invalidateInput entered =>
      obtain ⟨exposed, found, rfl⟩ := Frame.target?_inputs.mp entered
      obtain ⟨buffer, held, bound⟩ := has
      refine start_downstream ?_
      simp only [disturbed, found]
      exact (Subsystems.mem_bufferedFor (place ▸ held)).mpr ⟨place, bound⟩
  · obtain ⟨before, downstream, stale | invalid⟩ := Frame.mem_ripple.mp spread
    · cases (Frame.mem_staleness.mp stale).2
    · obtain ⟨fed, member, _, same⟩ := Frame.mem_invalidations.mp invalid
      cases same
      refine downstream_of_wired sound downstream ((sound.coherent.both before fed).mp member) ?_
      exact place ▸ declared

namespace Subsystems

theorem declared_of_home {subsystems : Subsystems} {output : Terminal} {home : Endpoint}
    (found : subsystems.terminalHome? .outputs output = some home) :
    output ∈ subsystems.layout.declaredBy output.system := by
  obtain ⟨child, inner, present, inside, _⟩ := terminalHome?_eq_some.mp found
  exact (mem_declaredBy present).mpr ⟨rfl, Context.output_bound_of_home inside⟩

end Subsystems

namespace Context

-- Inside a context that is told of an invalid input, the invalidity spreads
-- along the wires of all diagrams.
theorem spread_of_mailTo {context : Context} {changes : List Change} (sound : context.WellFormed)
    (quiet : ∀ change ∈ changes, change.Quiet) {path : List Nat} {index output : Nat} {next : Endpoint}
    (arrived : .invalidateInput index ∈ context.mailTo changes path)
    (wire : context.FlatWire ⟨path, output⟩ next) :
    .invalidateInput next.index ∈ context.mailTo changes next.path := by
  induction context using Context.induct generalizing changes path index output next with
  | leaf own => exact absurd wire flatWire_leaf
  | diagram frame subsystems ih =>
    generalize origin : (⟨path, output⟩ : Endpoint) = source at wire
    cases wire with
    | @inside _ _ system child source target present wire =>
      cases origin
      rw [mailTo_cons present] at arrived
      show _ ∈ (Context.diagram frame subsystems).mailTo changes (system :: target.path)
      rw [mailTo_cons present]
      refine ih _ _ present (sound.child present) ?_ arrived wire
      have hop := @mailTo_quiet (.diagram frame subsystems) changes [system] quiet
      rwa [mailTo_cons present, mailTo_nil] at hop
    | @here _ _ terminal input source target wired leaves enters =>
      -- The input came to be invalid by mail of this diagram, so the diagram takes
      -- all outputs of that subsystem for invalid, the source of the wire included.
      subst origin
      obtain ⟨child, inner, present, inside, same⟩ := Subsystems.terminalHome?_eq_some.mp leaves
      cases same
      rw [mailTo_cons present] at arrived
      have told : ∀ change ∈ Mail.addressed (changes.flatMap (frame.mail subsystems.layout)) terminal.system,
          change.Quiet := by
        have hop := @mailTo_quiet (.diagram frame subsystems) changes [terminal.system] quiet
        rwa [mailTo_cons present, mailTo_nil] at hop
      obtain ⟨outer, addressed⟩ := invalidated_of_mailTo told arrived
      obtain ⟨cause, given, sent⟩ := mem_addressed_mail.mp addressed
      have reached := Frame.downstream_of_mail sound.frame sent (sound.frame.wired _ _ wired).1
        (Subsystems.declared_of_home leaves)
      obtain ⟨other, deeper, there, home, rfl⟩ := Subsystems.terminalHome?_eq_some.mp enters
      show _ ∈ (Context.diagram frame subsystems).mailTo changes (input.system :: deeper.path)
      rw [mailTo_cons there]
      refine mailTo_invalidateInput (mem_addressed_mail.mpr ⟨cause, given, ?_⟩) home
      exact Frame.mem_mail.mpr (.inr (Frame.invalidated_of_downstream sound.frame reached wired))

theorem flatWire_located {context : Context} {source target : Endpoint} (wire : context.FlatWire source target) :
    ∃ own, context.locate target.path = .ok (.leaf own) := by
  induction wire with
  | here _ _ enters =>
    obtain ⟨child, inner, present, home, rfl⟩ := Subsystems.terminalHome?_eq_some.mp enters
    obtain ⟨own, located, _⟩ := locate_home home
    exact ⟨own, locate_cons.mpr ⟨child, present, located⟩⟩
  | inside present _ ih =>
    obtain ⟨own, located⟩ := ih
    exact ⟨own, locate_cons.mpr ⟨_, present, located⟩⟩

theorem flatReaches_located {context : Context} {origin input : Endpoint} (reached : context.FlatReaches origin input) :
    ∃ own, context.locate input.path = .ok (.leaf own) := by
  cases reached with
  | first wire => exact flatWire_located wire
  | onward _ wire => exact flatWire_located wire

end Context

def Frame.Overruns (frame : Frame) (subsystems : Subsystems) (system : Nat) (start : List Terminal)
    (input : Endpoint) : Prop :=
  ∃ place child rest, input.path = place :: rest ∧ subsystems.context? place = some child ∧
    TransGen frame.wiring.Feeds system place ∧
    (∀ output ∈ subsystems.layout.declaredBy place, output ∈ frame.downstream subsystems.layout start) ∧
    .invalidateInput input.index ∈ child.mailTo (Mail.addressed (frame.ripple subsystems.layout start) place) rest

namespace Frame.Overruns
variable {frame : Frame} {subsystems : Subsystems} {system : Nat} {start : List Terminal}

theorem of_wired (sound : frame.Sound subsystems) {output terminal : Terminal} {input : Endpoint}
    (reached : output ∈ frame.downstream subsystems.layout start)
    (path : ReflTransGen frame.wiring.Feeds system output.system)
    (wired : frame.wiring.source? terminal = some output)
    (enters : subsystems.terminalHome? .inputs terminal = some input) :
    frame.Overruns subsystems system start input := by
  obtain ⟨child, inner, present, home, rfl⟩ := Subsystems.terminalHome?_eq_some.mp enters
  refine ⟨terminal.system, child, inner.path, rfl, present, ?_, ?_, ?_⟩
  · exact TransGen.tail' path ⟨output, terminal, wired, rfl, rfl⟩
  · exact fun other declared => Frame.downstream_of_wired sound reached wired declared
  · refine Context.mailTo_invalidateInput (Mail.mem_addressed.mpr ?_) home
    exact Frame.invalidated_of_downstream sound reached wired

theorem onward (sound : (Context.diagram frame subsystems).WellFormed) {input next : Endpoint} {output : Nat}
    (overruns : frame.Overruns subsystems system start input)
    (wire : (Context.diagram frame subsystems).FlatWire ⟨input.path, output⟩ next) :
    frame.Overruns subsystems system start next := by
  obtain ⟨place, child, rest, path, present, behind, downstream, told⟩ := overruns
  rw [path] at wire
  generalize origin : (⟨place :: rest, output⟩ : Endpoint) = source at wire
  cases wire with
  | @here _ _ terminal entered _ _ wired leaves enters =>
    subst origin
    have declared := Subsystems.declared_of_home leaves
    obtain ⟨other, inner, there, home, same⟩ := Subsystems.terminalHome?_eq_some.mp leaves
    cases same
    exact of_wired sound.frame (downstream _ declared) behind.to_reflTransGen wired enters
  | @inside _ _ _ other source target there wire =>
    cases origin
    cases present.symm.trans there
    refine ⟨place, child, target.path, rfl, present, behind, downstream, ?_⟩
    refine Context.spread_of_mailTo (sound.child present) (fun change member => ?_) told wire
    exact Frame.ripple_quiet (Mail.mem_addressed.mp member)

end Frame.Overruns

namespace Context

def Concerns (context : Context) (origin : Endpoint) (index : Nat) : Prop :=
  ∃ home, context.home? .outputs index = some home ∧
    (home = origin ∨ ∃ input, context.FlatReaches origin input ∧ input.path = home.path)

-- Whatever a value reaches is in the subsystem it is stored in, or is told of it
-- by the diagram.
theorem reaches_around {frame : Frame} {subsystems : Subsystems} {system : Nat} {child : Context} {origin : Endpoint}
    {start : List Terminal} (sound : (Context.diagram frame subsystems).WellFormed)
    (present : subsystems.context? system = some child)
    (starts : ∀ index, child.Concerns origin index → ⟨system, index⟩ ∈ start) {input : Endpoint}
    (reached : (Context.diagram frame subsystems).FlatReaches (origin.under system) input) :
    (∃ inner, input = inner.under system ∧ child.FlatReaches origin inner) ∨
      frame.Overruns subsystems system start input := by
  have leaving : ∀ {output terminal : Terminal} {source target : Endpoint},
      frame.wiring.source? terminal = some output →
      subsystems.terminalHome? .outputs output = some (source.under system) →
      subsystems.terminalHome? .inputs terminal = some target →
      (source = origin ∨ ∃ input, child.FlatReaches origin input ∧ input.path = source.path) →
      frame.Overruns subsystems system start target := by
    intro output terminal source target wired leaves enters concerned
    obtain ⟨other, inner, there, home, same⟩ := Subsystems.terminalHome?_eq_some.mp leaves
    obtain ⟨place, index⟩ := output
    cases source
    cases inner
    cases same
    cases present.symm.trans there
    exact .of_wired sound.frame (Frame.start_downstream (starts index ⟨_, home, concerned⟩)) .refl wired enters
  induction reached with
  | @first input wire =>
    generalize begins : origin.under system = source at wire
    cases wire with
    | here wired leaves enters => exact .inr (leaving wired (begins ▸ leaves) enters (.inl rfl))
    | @inside _ _ place other source target there wire =>
      obtain ⟨path, index⟩ := origin
      obtain ⟨rest, last⟩ := source
      cases begins
      cases present.symm.trans there
      exact .inl ⟨target, rfl, .first wire⟩
  | @onward input next output _ wire ih =>
    rcases ih with ⟨inner, rfl, reached⟩ | overruns
    · generalize begins : (⟨(inner.under system).path, output⟩ : Endpoint) = source at wire
      cases wire with
      | @here _ _ _ _ source target wired leaves enters =>
        have leaves : subsystems.terminalHome? .outputs _ = some (Endpoint.under system ⟨inner.path, output⟩) :=
          begins ▸ leaves
        exact .inr (leaving wired leaves enters (.inr ⟨inner, reached, rfl⟩))
      | @inside _ _ place other source target there wire =>
        cases source
        cases begins
        cases present.symm.trans there
        exact .inl ⟨target, rfl, .onward reached wire⟩
    · -- Once outside, the chain is followed by the mail of this diagram alone.
      exact .inr (overruns.onward sound wire)

theorem Cleared.receive {tree : Context} {input : Endpoint} (sound : tree.WellFormed) (cleared : tree.Cleared input)
    {changes : List Change} (quiet : ∀ change ∈ changes, change.Quiet) : (tree.receive changes).Cleared input := by
  obtain ⟨own, located, cleared⟩ := cleared
  exact ⟨_, locate_receive changes located, cleared.receiveAll (leaf_closed sound located) (mailTo_quiet quiet)⟩

theorem cleared_of_overruns {frame later : Frame} {subsystems others : Subsystems} {system : Nat}
    {start : List Terminal} {mail : Mail} {input : Endpoint}
    (sound : (Context.diagram frame subsystems).WellFormed)
    (located : ∃ own, (Context.diagram frame subsystems).locate input.path = .ok (.leaf own))
    (elsewhere : ∀ place, place ≠ system → others.context? place = subsystems.context? place ∧
      mail.addressed place = Mail.addressed (frame.ripple subsystems.layout start) place)
    (overruns : frame.Overruns subsystems system start input) :
    (Context.diagram later (others.receive mail)).Cleared input := by
  obtain ⟨place, child, rest, path, present, behind, _, told⟩ := overruns
  have apart : place ≠ system := fun same => sound.frame.acyclic system (same ▸ behind)
  obtain ⟨own, there⟩ := located
  rw [path] at there
  obtain ⟨other, held, inside⟩ := locate_cons.mp there
  cases present.symm.trans held
  refine ⟨_, ?_, Leaf.cleared_receiveAll (leaf_closed (sound.child present) inside) ?_ told⟩
  · rw [path, locate_cons, Subsystems.context?_receive, (elsewhere place apart).1, present]
    refine ⟨_, rfl, ?_⟩
    rw [(elsewhere place apart).2]
    exact locate_receive _ inside
  · exact mailTo_quiet (fun change member => Frame.ripple_quiet (Mail.mem_addressed.mp member))

end Context

theorem Frame.mem_reachedOutputs {frame : Frame} {layout : Layout} {start : List Terminal} {index : Nat} :
    index ∈ frame.reachedOutputs layout start ↔
      ∃ output, frame.outputs[index]? = some output ∧ output ∈ frame.downstream layout start := by
  simp only [reachedOutputs, List.mem_filter, List.mem_range]
  constructor
  · intro listed
    obtain ⟨_, found⟩ := listed
    cases held : frame.outputs[index]? with
    | none => rw [held] at found; cases found
    | some output =>
      rw [held] at found
      exact ⟨output, rfl, of_decide_eq_true found⟩
  · intro exported
    obtain ⟨output, held, reached⟩ := exported
    obtain ⟨inside, _⟩ := List.getElem?_eq_some_iff.mp held
    rw [held]
    exact ⟨inside, decide_eq_true reached⟩

theorem Frame.reachedOutputs_bound {frame : Frame} {layout : Layout} {start : List Terminal} {index : Nat}
    (member : index ∈ frame.reachedOutputs layout start) : index < frame.outputs.length := by
  obtain ⟨output, held, _⟩ := mem_reachedOutputs.mp member
  exact (List.getElem?_eq_some_iff.mp held).1

namespace Context

theorem concerns_around {frame : Frame} {subsystems : Subsystems} {system : Nat} {child : Context} {origin : Endpoint}
    {start : List Terminal} (sound : (Context.diagram frame subsystems).WellFormed)
    (present : subsystems.context? system = some child)
    (starts : ∀ index, child.Concerns origin index → ⟨system, index⟩ ∈ start) {index : Nat}
    (concerned : (Context.diagram frame subsystems).Concerns (origin.under system) index) :
    index ∈ frame.reachedOutputs subsystems.layout start := by
  obtain ⟨home, found, reached⟩ := concerned
  obtain ⟨output, exported, traced⟩ := home?_diagram.mp found
  refine Frame.mem_reachedOutputs.mpr ⟨output, exported, ?_⟩
  have declared := Subsystems.declared_of_home traced
  obtain ⟨other, inner, there, home, rfl⟩ := Subsystems.terminalHome?_eq_some.mp traced
  obtain ⟨place, number⟩ := output
  have inside : place = system → (inner = origin ∨ ∃ input, child.FlatReaches origin input ∧ input.path = inner.path) →
      (⟨place, number⟩ : Terminal) ∈ frame.downstream subsystems.layout start := by
    rintro rfl concerned
    cases present.symm.trans there
    exact Frame.start_downstream (starts number ⟨inner, home, concerned⟩)
  rcases reached with same | ⟨input, reached, path⟩
  · obtain ⟨front, last⟩ := origin
    obtain ⟨rest, final⟩ := inner
    cases same
    exact inside rfl (.inl rfl)
  · rcases reaches_around sound present starts reached with ⟨deeper, rfl, arrived⟩ | overruns
    · obtain ⟨here, below⟩ := List.cons.inj path
      exact inside here.symm (.inr ⟨deeper, arrived, below⟩)
    · obtain ⟨_, _, _, front, _, _, downstream, _⟩ := overruns
      rw [front] at path
      obtain ⟨rfl, _⟩ := List.cons.inj path
      exact downstream _ declared

structure HandedOn (context : Context) (origin : Endpoint) (indices : List Nat) (after : Context) : Prop where
  sound : after.WellFormed
  matched : after.Matched
  grows : context.Grows after
  count : after.outputCount = context.outputCount
  bound : ∀ index ∈ indices, index < context.outputCount
  concerned : ∀ index, context.Concerns origin index → index ∈ indices
  cleared : ∀ input, context.FlatReaches origin input → after.Cleared input

theorem handOff_here {frame : Frame} {subsystems : Subsystems} {output : Terminal} {own : Leaf} (value : Value)
    (sound : (Context.diagram frame subsystems).WellFormed) (matched : (Context.diagram frame subsystems).Matched)
    (closed : (Context.diagram frame subsystems).Sealed)
    (present : subsystems.context? output.system = some (.leaf own)) (bound : output.index < own.fresh.length) :
    ∃ indices after, (Context.diagram frame subsystems).handOff [] output value = .done (.indices indices) after ∧
      (Context.diagram frame subsystems).HandedOn ⟨[output.system], output.index⟩ indices after := by
  obtain ⟨buffer, held⟩ := Subsystems.buffer?_of_context? present
  have count : buffer.count = own.fresh.length := (everywhere_diagram.mp matched).1 _ _ _ present held
  have inside : output.index < buffer.count := count ▸ bound
  have stored := @Diagram.setOutput_eq ⟨frame, subsystems⟩ sound matched closed.frame output buffer value held inside
  have origin : (⟨[output.system], output.index⟩ : Endpoint) = Endpoint.under output.system ⟨[], output.index⟩ := rfl
  have starts : ∀ index, (Context.leaf own).Concerns ⟨[], output.index⟩ index →
      (⟨output.system, index⟩ : Terminal) ∈ [output] := by
    rintro index ⟨home, found, same | ⟨_, reached, _⟩⟩
    · obtain ⟨_, here⟩ := home?_leaf.mp found
      cases here.symm.trans same
      exact List.mem_singleton.mpr rfl
    · exact absurd reached not_flatReaches_leaf
  have kept := wellFormed_putBuffer sound held (buffer.count_write output.index (some value))
  have fits := matched_putBuffer matched held (buffer.count_write output.index (some value))
  refine ⟨_, _, by simp only [handOff, perform, onDiagram, stored, Outcome.map, Outcome.within]; rfl, ?_⟩
  refine ⟨?_, ?_, ?_, rfl, ?_, ?_, ?_⟩
  · exact wellFormed_delivery sound (Subsystems.context?_putBuffer _ _ _) (kept.frame.receive _)
  · exact matched_delivery _ fits
  · exact (Effect.grows (.stored held inside)).here
  · exact fun index member => Frame.reachedOutputs_bound member
  · exact fun index concerned => concerns_around sound present starts concerned
  · intro input reached
    rcases reaches_around sound present starts reached with ⟨_, _, inner⟩ | overruns
    · exact absurd inner not_flatReaches_leaf
    · refine cleared_of_overruns sound (flatReaches_located reached) (fun place apart => ⟨?_, ?_⟩) overruns
      · exact Subsystems.context?_putBuffer _ _ _ _
      · have other : ¬ output.system = place := fun same => apart same.symm
        rw [Mail.addressed_append]
        simp [Mail.addressed, other, Diagram.layout]

theorem handOff_around {frame : Frame} {subsystems : Subsystems} {system : Nat} {child changed : Context}
    {path : List Nat} {output : Terminal} {value : Value} {origin : Endpoint} {indices : List Nat}
    (sound : (Context.diagram frame subsystems).WellFormed) (matched : (Context.diagram frame subsystems).Matched)
    (closed : (Context.diagram frame subsystems).Sealed) (present : subsystems.context? system = some child)
    (inner : child.handOff path output value = .done (.indices indices) changed)
    (handed : child.HandedOn origin indices changed) :
    ∃ indices after,
      (Context.diagram frame subsystems).handOff (system :: path) output value = .done (.indices indices) after ∧
      (Context.diagram frame subsystems).HandedOn (origin.under system) indices after := by
  have layout : (subsystems.putContext system changed).layout = subsystems.layout := by
    refine Subsystems.layout_putContext (fun old there => ?_)
    cases present.symm.trans there
    exact handed.count
  have there : (subsystems.putContext system changed).context? system = some changed := by
    rw [Subsystems.context?_putContext, if_pos rfl, present]
    rfl
  obtain ⟨buffer, held⟩ := Subsystems.buffer?_of_context? present
  have count : buffer.count = child.outputCount := (everywhere_diagram.mp matched).1 _ _ _ present held
  have kept : (Context.diagram frame (subsystems.putContext system changed)).WellFormed := by
    have located : (Context.diagram frame subsystems).locate [system] = .ok child :=
      locate_cons.mpr ⟨child, present, locate_nil _⟩
    have grafted := sound.graft located handed.sound handed.grows
    rwa [graft_cons [] changed present, graft_nil] at grafted
  have fits := matched_putContext matched present handed.matched handed.count
  obtain ⟨start, starts, propagated⟩ := @Diagram.propagateMany_eq ⟨frame, subsystems.putContext system changed⟩
    kept fits closed.frame system buffer (by rw [Subsystems.buffer?_putContext]; exact held) indices
    (fun index member => count ▸ handed.bound index member)
  have starts : ∀ index, child.Concerns origin index → (⟨system, index⟩ : Terminal) ∈ start :=
    fun index concerned => starts index (handed.concerned index concerned)
  simp only [Diagram.layout, layout] at propagated
  have performed : (Context.diagram frame subsystems).handOff (system :: path) output value =
      .done (.indices (frame.reachedOutputs subsystems.layout start))
        (.diagram frame ((subsystems.putContext system changed).receive (frame.ripple subsystems.layout start))) := by
    simp only [handOff, Subsystems.context_eq_ok.mpr present, inner, perform, onDiagram, propagated, Outcome.map,
      Outcome.within]
    rfl
  refine ⟨_, _, performed, ?_, matched_delivery _ fits, ?_, rfl, ?_, ?_, ?_⟩
  · exact wellFormed_delivery kept (fun _ => rfl) (kept.frame.receive _)
  · refine ⟨.refl frame, fun place old there => ⟨old, ?_, rfl⟩⟩
    rw [Subsystems.buffer?_receive, Subsystems.buffer?_putContext]
    exact there
  · exact fun index member => Frame.reachedOutputs_bound member
  · exact fun index concerned => concerns_around sound present starts concerned
  · intro input reached
    -- Inside the subsystem the input is cleared already, and propagation sets nothing.
    rcases reaches_around sound present starts reached with ⟨deeper, rfl, arrived⟩ | overruns
    · have quiet : ∀ change ∈ Mail.addressed (frame.ripple subsystems.layout start) system, change.Quiet :=
        fun change member => Frame.ripple_quiet (Mail.mem_addressed.mp member)
      obtain ⟨own, located, cleared⟩ := (handed.cleared deeper arrived).receive handed.sound quiet
      refine ⟨own, locate_cons.mpr ⟨_, ?_, located⟩, cleared⟩
      show ((subsystems.putContext system changed).receive _).context? system = _
      rw [Subsystems.context?_receive, there]
      rfl
    · refine cleared_of_overruns sound (flatReaches_located reached) (fun place apart => ⟨?_, rfl⟩) overruns
      show (subsystems.putContext system changed).context? place = _
      rw [Subsystems.context?_putContext, if_neg apart]

theorem handOff_covers {tree : Context} {path : List Nat} {frame : Frame} {subsystems : Subsystems} {own : Leaf}
    {output : Terminal} (value : Value) (sound : tree.WellFormed) (matched : tree.Matched) (closed : tree.Sealed)
    (located : tree.locate path = .ok (.diagram frame subsystems))
    (present : subsystems.context? output.system = some (.leaf own)) (bound : output.index < own.fresh.length) :
    ∃ indices after, tree.handOff path output value = .done (.indices indices) after ∧
      tree.HandedOn ⟨path ++ [output.system], output.index⟩ indices after := by
  induction path generalizing tree with
  | nil =>
    rw [locate_nil] at located
    cases located
    exact handOff_here value sound matched closed present bound
  | cons system path ih =>
    cases tree with
    | leaf => cases located
    | diagram outer others =>
      obtain ⟨child, there, below⟩ := locate_cons.mp located
      obtain ⟨indices, changed, inner, handed⟩ := ih (sound.child there) (matched.child there) (closed.child there) below
      exact handOff_around sound matched closed there inner handed

end Context

-- A new value for an output of any leaf of a built tree, handed on up to the
-- root: every leaf input that can be reached from it along the wires of all
-- diagrams has lost what depends on it, and no output of such a leaf is fresh.
theorem Built.handOff_clears {tree : Context} {path : List Nat} {frame : Frame} {subsystems : Subsystems}
    {output : Terminal} {own : Leaf} (value : Value) (built : Built .any tree) (closed : tree.Sealed)
    (matched : tree.Matched) (located : tree.locate path = .ok (.diagram frame subsystems))
    (present : subsystems.context? output.system = some (.leaf own)) (bound : output.index < own.fresh.length) :
    ∃ indices after, tree.handOff path output value = .done (.indices indices) after ∧
      ∀ input, tree.FlatReaches ⟨path ++ [output.system], output.index⟩ input → after.Cleared input := by
  obtain ⟨indices, after, done, handed⟩ := Context.handOff_covers value built.wellFormed matched closed located present bound
  exact ⟨indices, after, done, handed.cleared⟩

theorem Built.handOff_clears_nested :
    ∃ (tree after : Context) (indices : List Nat), Built .any tree ∧
      tree.handOff [0] ⟨0, 0⟩ (.int32 7) = .done (.indices indices) after ∧
      after.Cleared ⟨[1], 0⟩ := by
  have leaf : ∀ serial, Built .any (.leaf (.create ⟨serial⟩ ⟨1, 1, 0, []⟩ [])) := fun serial => .leaf
  have nested := (((@Built.diagram .any ⟨2⟩ 2 .sequential).joined (leaf 0) (by decide) [] 0 ⟨[none]⟩).joined
    (leaf 1) (by decide) [] 1 ⟨[none]⟩).actAll
    [([], .connect ⟨0, 0⟩ ⟨1, 0⟩), ([], .exposeOutput ⟨1, 0⟩), ([], .finishBuilding)] (fun _ _ => trivial)
  have built := (((@Built.diagram .any ⟨4⟩ 2 .sequential).joined nested (by decide) [] 0 ⟨[none]⟩).joined
    (leaf 3) (by decide) [] 1 ⟨[none]⟩).actAll
    [([], .connect ⟨0, 0⟩ ⟨1, 0⟩), ([], .finishBuilding)] (fun _ _ => trivial)
  obtain ⟨indices, after, done, cleared⟩ := @Built.handOff_clears _ [0] _ _ ⟨0, 0⟩ _ (.int32 7) built
    (by decide) (by decide) rfl rfl (by decide)
  refine ⟨_, after, indices, built, done, cleared ⟨[1], 0⟩ (@Context.FlatReaches.onward _ _ ⟨[0, 1], 0⟩ _ 0 ?_ ?_)⟩
  · exact .first (@Context.FlatWire.inside _ _ 0 _ ⟨[0], 0⟩ ⟨[1], 0⟩ rfl
      (@Context.FlatWire.here _ _ ⟨0, 0⟩ ⟨1, 0⟩ _ _ (by decide) (by decide) (by decide)))
  · exact @Context.FlatWire.here _ _ ⟨0, 0⟩ ⟨1, 0⟩ ⟨[0, 1], 0⟩ ⟨[1], 0⟩ (by decide) (by decide)
      (by decide)

end BlockDiagram
