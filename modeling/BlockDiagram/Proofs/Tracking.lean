import BlockDiagram.Proofs.Anchoring
import BlockDiagram.Proofs.Freshness
import BlockDiagram.Proofs.Installing
import BlockDiagram.Proofs.Ledger
import BlockDiagram.Proofs.Nesting

namespace BlockDiagram

-- The ways around an input: to put down a binding that is said to stand for the same
-- value, to bind the port behind the input through another input that stands
-- for it, and to store on the output that the port names.
inductive Operation.Sidesteps (diagram : Diagram) (index : Nat) : Operation → Prop where
  | rebound {other : Nat} {binding : Option Binding} : Sidesteps diagram index (.change (.rebind other binding))
  | shared {other : Nat} {binding : Option Binding} {home : Endpoint} (apart : other ≠ index)
    (here : diagram.context.home? .inputs index = some home)
    (there : diagram.context.home? .inputs other = some home) :
    Sidesteps diagram index (.change (.bind other binding))
  | stored {output : Terminal} {value : Value} {home : Endpoint} (here : diagram.context.home? .inputs index = some home)
    (bound : diagram.context.installed? home = some (some (.dependent ⟨diagram.frame.id, output⟩))) :
    Sidesteps diagram index (.setOutput output value)

def Operation.Names (diagram : Diagram) (operation : Operation) (root : Ticket) : Prop :=
  ∃ other binding, operation = .change (.bind other binding) ∧ diagram.context.inputTicket? other = some root

theorem Operation.bind_direct {diagram : Diagram} {index : Nat} {binding : Option Binding} :
    ¬ (Operation.change (.bind index binding)).Sidesteps diagram index := by
  intro sidesteps
  cases sidesteps with
  | shared apart => exact apart rfl

namespace Context
variable {context : Context} {index : Nat} {home : Endpoint}

theorem home?_exposed {frame : Frame} {subsystems : Subsystems} :
    (Context.diagram frame subsystems).home? .inputs index = some home ↔ ∃ exposed child inner,
      frame.inputs[index]? = some exposed ∧ subsystems.context? exposed.terminal.system = some child ∧
        child.home? .inputs exposed.terminal.index = some inner ∧ home = inner.under exposed.terminal.system := by
  rw [home?_diagram]
  constructor
  · rintro ⟨terminal, entered, below⟩
    obtain ⟨exposed, held, rfl⟩ := Frame.target?_inputs.mp entered
    obtain ⟨child, inner, present, inside, same⟩ := Subsystems.terminalHome?_eq_some.mp below
    exact ⟨exposed, child, inner, Frame.input_eq_ok.mp held, present, inside, same⟩
  · rintro ⟨exposed, child, inner, held, present, inside, rfl⟩
    exact ⟨_, Frame.target?_inputs.mpr ⟨exposed, Frame.input_eq_ok.mpr held, rfl⟩,
      Subsystems.terminalHome?_eq_some.mpr ⟨child, inner, present, inside, rfl⟩⟩

theorem installed?_within {frame : Frame} {subsystems : Subsystems} {system : Nat} {child : Context} {inner : Endpoint}
    (present : subsystems.context? system = some child) :
    (Context.diagram frame subsystems).installed? (inner.under system) = child.installed? inner := by
  rw [Endpoint.under, installed?_below, present]
  rfl

theorem resolve_within {frame : Frame} {subsystems : Subsystems} {exposed : ExposedInput} {child : Context}
    (held : frame.inputs[index]? = some exposed) (present : subsystems.context? exposed.terminal.system = some child) :
    (Context.diagram frame subsystems).resolve index =
      (child.resolve exposed.terminal.index).map (Reading.settledBy frame.id subsystems.output?) := by
  refine (@Diagram.resolve_exposed ⟨frame, subsystems⟩ _ _ held).trans ?_
  rw [Subsystems.context_eq_ok.mpr present]
  rfl

theorem resolve_within_congr {frame later : Frame} {subsystems others : Subsystems} {exposed : ExposedInput}
    {child other : Context} (held : frame.inputs[index]? = some exposed)
    (present : subsystems.context? exposed.terminal.system = some child) (inputs : later.inputs = frame.inputs)
    (id : later.id = frame.id) (there : others.context? exposed.terminal.system = some other)
    (same : other.resolve exposed.terminal.index = child.resolve exposed.terminal.index)
    (outputs : ∀ source, child.resolve exposed.terminal.index = .ok (.pending ⟨frame.id, source⟩) →
      others.output? source = subsystems.output? source) :
    (Context.diagram later others).resolve index = (Context.diagram frame subsystems).resolve index := by
  rw [resolve_within (inputs ▸ held) there, resolve_within held present, same, id]
  cases resolved : child.resolve exposed.terminal.index with
  | error => rfl
  | ok reading =>
    refine congrArg Except.ok ?_
    cases reading with
    | pending handle =>
      obtain ⟨owner, source⟩ := handle
      simp only [Reading.settledBy]
      split
      · rename_i owned
        subst owned
        rw [outputs source resolved]
      · rfl
    | _ => rfl

theorem installed?_of_pending {handle : Handle} (found : context.home? .inputs index = some home)
    (pending : context.resolve index = .ok (.pending handle)) :
    context.installed? home = some (some (.dependent handle)) := by
  induction context using Context.induct generalizing index home with
  | leaf own =>
    obtain ⟨bound, rfl⟩ := home?_leaf.mp found
    have bound : index < own.inputs.length := bound
    simp only [resolve, Leaf.input, List.getElem?_eq_getElem bound, Except.map] at pending
    have reading := Except.ok.inj pending
    show own.inputs[index]? = _
    rw [List.getElem?_eq_getElem bound]
    cases held : own.inputs[index] with
    | none => rw [held] at reading; cases reading
    | some binding =>
      rw [held] at reading
      cases binding <;> cases reading
      rfl
  | diagram frame subsystems ih =>
    obtain ⟨exposed, child, inner, held, present, inside, rfl⟩ := home?_exposed.mp found
    rw [resolve_within held present] at pending
    rw [installed?_within present]
    cases resolved : child.resolve exposed.terminal.index with
    | error => rw [resolved] at pending; cases pending
    | ok reading =>
      rw [resolved] at pending
      have settled := Except.ok.inj pending
      obtain rfl : reading = .pending handle := by
        cases reading with
        | pending other =>
          simp only [Reading.settledBy] at settled
          split at settled
          · split at settled <;> cases settled
          · exact settled
        | _ => cases settled
      exact ih _ _ present inside resolved

theorem resolve_receive (changes : List Change) (found : context.home? .inputs index = some home)
    (kept : (context.receive changes).installed? home = context.installed? home) :
    (context.receive changes).resolve index = context.resolve index := by
  induction context using Context.induct generalizing changes index home with
  | leaf own =>
    obtain ⟨bound, rfl⟩ := home?_leaf.mp found
    have same : (changes.foldl Leaf.receive own).inputs[index]? = own.inputs[index]? := kept
    simp only [receive, resolve, Leaf.input, same, Leaf.inputs_length_receiveAll]
  | diagram frame subsystems ih =>
    obtain ⟨exposed, child, inner, held, present, inside, rfl⟩ := home?_exposed.mp found
    have told := Subsystems.context?_received present (changes.flatMap (frame.mail subsystems.layout))
    have kept := (installed?_within told).symm.trans (kept.trans (installed?_within present))
    exact resolve_within_congr held present (Frame.Steady.receiveAll frame changes).inputs (Frame.Extends.receiveAll frame changes).id
      told (ih _ _ present _ inside kept) (fun _ _ => by rw [Subsystems.output?_receive])

end Context

namespace Diagram
variable {diagram after : Diagram} {index : Nat} {home : Endpoint} {operation : Operation} {mail : Mail}

theorem reading_kept (passes : diagram.Passes after mail) (id : after.frame.id = diagram.frame.id)
    (found : diagram.context.home? .inputs index = some home)
    (kept : after.context.installed? home = diagram.context.installed? home)
    (unstored : ∀ output, diagram.context.installed? home = some (some (.dependent ⟨diagram.frame.id, output⟩)) →
      after.output? output = diagram.output? output) :
    after.context.input index = diagram.context.input index ∧
      after.context.resolve index = diagram.context.resolve index := by
  obtain ⟨exposed, child, inner, held, present, inside, rfl⟩ := Context.home?_exposed.mp found
  have told : after.subsystems.context? exposed.terminal.system =
      some (child.receive (Mail.addressed mail exposed.terminal.system)) := by
    rw [passes.children, present]
    rfl
  have still : after.context.home? .inputs index = some (inner.under exposed.terminal.system) := by
    refine Context.home?_exposed.mpr ⟨exposed, _, inner, passes.steady.inputs ▸ held, told, ?_, rfl⟩
    exact Context.home?_along Numbering.lasting_inputs (Context.along_receive Context.grows_receive child _) inside
  refine ⟨?_, ?_⟩
  · obtain ⟨binding, bound⟩ := Option.isSome_iff_exists.mp (Context.installed?_home found)
    rw [(Context.input_installed found).mpr bound, (Context.input_installed still).mpr (kept.trans bound)]
  · have here := (Context.installed?_within told).symm.trans (kept.trans (Context.installed?_within present))
    refine Context.resolve_within_congr held present passes.steady.inputs id told
      (Context.resolve_receive _ inside here) (fun source pending => unstored source ?_)
    exact (Context.installed?_within present).trans (Context.installed?_of_pending inside pending)

theorem passes_performed (sound : diagram.context.WellFormed) (closed : diagram.frame.phase = .sealed)
    (left : (diagram.context.perform operation).left? = some after.context) :
    ∃ mail, diagram.Passes after mail ∧ after.frame.id = diagram.frame.id ∧
      ∀ output, (∀ value, operation ≠ .setOutput output value) → after.output? output = diagram.output? output := by
  by_cases builds : operation.Builds
  · obtain rfl : after = diagram := context_injective (Context.finished_already closed builds left)
    exact ⟨[], passes_nothing (.refl _), rfl, fun _ _ => rfl⟩
  have effect := Context.perform_effect sound left
  obtain ⟨frame, subsystems⟩ := diagram
  obtain ⟨later, others⟩ := after
  simp only [context] at effect
  generalize reached : Context.diagram later others = found at effect
  cases effect with
  | idle =>
    cases reached
    exact ⟨[], passes_nothing (.refl _), rfl, fun _ _ => rfl⟩
  | @received _ _ changes sends =>
    cases reached
    refine ⟨_, passes_changes changes rfl, (Frame.Extends.receiveAll frame changes).id, fun output _ => ?_⟩
    exact congrFun (Subsystems.output?_receive subsystems _) output
  | kept =>
    cases reached
    exact ⟨[], passes_nothing ⟨rfl, rfl, rfl, rfl, rfl⟩, rfl, fun _ _ => rfl⟩
  | connected | exposedInput | exposedOutput | finished => exact absurd trivial builds
  | @stored _ _ stored value buffer held bound =>
    cases reached
    have layout := @layout_store ⟨frame, subsystems⟩ stored buffer value held
    refine ⟨_, passes_receive (.refl _) layout (Subsystems.context?_putBuffer _ _ _) _, rfl, fun output other => ?_⟩
    have apart : output ≠ stored := fun same => other value (same ▸ rfl)
    rw [output?, Subsystems.output?_receive, Subsystems.output?_write _ held bound, if_neg apart]
    rfl
  | told tells =>
    cases reached
    exact ⟨_, passes_receive (.refl _) rfl (fun _ => rfl) _, rfl,
      fun output _ => congrFun (Subsystems.output?_receive subsystems _) output⟩

end Diagram

namespace Context
variable {context : Context} {index : Nat}

theorem flushed_bind (bound : index < context.inputCount) (binding : Option Binding) :
    (context.receive [.bind index binding]).Flushed index := by
  have concerned : context.root? (.bind index binding) = context.root? (.invalidateInput index) := by
    cases context <;> rfl
  exact flushed_told bound (List.mem_singleton_self _) (concerned.trans (inputTicket?_of_root bound))

theorem not_flushed {root line : Ticket} {value : Value} (ticket : context.inputTicket? index = some root)
    (depends : line ∈ context.cache.affected root) (held : context.cache.value? line = some value) :
    ¬ context.Flushed index := by
  rintro ⟨other, same, cleared⟩
  obtain rfl := Option.some.inj (ticket.symm.trans same)
  exact nomatch held.symm.trans (cleared line (Cache.dependsOn_of_affected depends))

-- An input that is wired inside the diagram and exposed twice, and a line that
-- depends on it.
def aliased : Context :=
  (((Diagram.create ⟨2⟩ 2 .sequential).context.joined [] 0 (.leaf (.create ⟨0⟩ ⟨0, 1, 0, []⟩ [])) ⟨[none]⟩).joined [] 1
    (.leaf (.create ⟨1⟩ ⟨1, 0, 0, []⟩ [])) ⟨[]⟩).actAll
    [([], .connect ⟨0, 0⟩ ⟨1, 0⟩), ([], .exposeInput ⟨1, 0⟩), ([], .exposeInput ⟨1, 0⟩), ([], .finishBuilding),
      ([], .issueTicket [⟨2⟩]), ([], .setLine ⟨4⟩ (.int32 7))]

theorem aliased_built : Built .any aliased :=
  ((Built.diagram.joined .leaf (by decide) [] 0 ⟨[none]⟩).joined .leaf (by decide) [] 1 ⟨[]⟩).actAll _
    (fun _ _ => trivial)

end Context

namespace Diagram
variable {diagram after : Diagram} {index : Nat} {home : Endpoint} {operation : Operation} {mail : Mail}

theorem reading_missing (passes : diagram.Passes after mail) (outside : ¬ index < diagram.context.inputCount) :
    after.context.input index = diagram.context.input index ∧
      after.context.resolve index = diagram.context.resolve index := by
  have missing : diagram.frame.inputs[index]? = none := List.getElem?_eq_none (Nat.le_of_not_lt outside)
  have absent : ∀ found : Frame, found.inputs = diagram.frame.inputs →
      found.input index = .error (.inputOutOfRange index diagram.frame.inputs.length) := by
    intro found same
    simp only [Frame.input, same, missing]
  have before := absent diagram.frame rfl
  have later := absent after.frame passes.steady.inputs
  simp only [context, Context.input, Context.resolve, before, later, and_self]

theorem port_kept (sound : diagram.context.WellFormed) (closed : diagram.frame.phase = .sealed)
    (found : diagram.context.home? .inputs index = some home) (direct : ¬ operation.Sidesteps diagram index)
    (left : (diagram.context.perform operation).left? = some after.context) :
    after.context.installed? home = diagram.context.installed? home ∨
      ∃ binding, after.context = diagram.context.receive [.bind index binding] := by
  by_cases writes : operation.Writes
  · cases operation with
    | connect output input =>
      have same := @Context.finished_already _ _ _ (.connect output input) closed trivial left
      exact .inl (congrArg (Context.installed? · home) same)
    | change asked =>
      rw [Context.perform, Outcome.left?_answering] at left
      rcases Context.send_left sound left with ⟨_, same⟩ | told
      · exact .inl (by rw [same])
      · cases asked with
        | bind other binding =>
          by_cases same : other = index
          · exact .inr ⟨binding, same ▸ told⟩
          · have apart : diagram.context.home? .inputs other ≠ some home := fun there => direct (.shared same found there)
            refine .inl ?_
            rw [told, Context.installed?_written rfl, if_neg apart]
        | rebind => exact absurd .rebound direct
        | _ => cases writes
    | _ => exact writes.elim
  · exact .inl ((unwritten (Context.perform_effect sound left) writes).1 home)

theorem flushed_performed (sound : diagram.context.WellFormed) (closed : diagram.frame.phase = .sealed)
    (left : (diagram.context.perform operation).left? = some after.context)
    (direct : ¬ operation.Sidesteps diagram index)
    (changed : after.context.input index ≠ diagram.context.input index ∨
      after.context.resolve index ≠ diagram.context.resolve index) : after.context.Flushed index := by
  obtain ⟨mail, passes, id, buffers⟩ := passes_performed sound closed left
  by_cases bound : index < diagram.context.inputCount
  · obtain ⟨home, found⟩ := Context.home?_exists sound bound
    rcases port_kept sound closed found direct left with kept | ⟨binding, told⟩
    · obtain ⟨input, resolved⟩ := reading_kept passes id found kept
        (fun output named => buffers output (fun value same => direct (same ▸ .stored found named)))
      exact (changed.elim (· input) (· resolved)).elim
    · rw [told]
      exact Context.flushed_bind bound binding
  · obtain ⟨input, resolved⟩ := reading_missing passes bound
    exact (changed.elim (· input) (· resolved)).elim

-- On the ways around an input the diagram forgets what depends on the input that is
-- bound, and nothing else.
theorem cleared_sidestepped (sound : diagram.context.WellFormed)
    (left : (diagram.context.perform operation).left? = some after.context)
    (around : operation.Sidesteps diagram index) :
    diagram.context.cache.ClearedOf (operation.Names diagram) after.context.cache := by
  have untold : (∀ root, ¬ operation.Names diagram root) → after.context.cache = diagram.context.cache →
      diagram.context.cache.ClearedOf (operation.Names diagram) after.context.cache := by
    intro none same
    rw [same]
    exact (Cache.ClearedOf.nothing _).congr (fun root => ⟨False.elim, none root⟩)
  cases around with
  | @rebound other binding =>
    rw [Context.perform, Outcome.left?_answering] at left
    refine untold (fun root => ?_) ?_
    · rintro ⟨_, _, same, _⟩
      cases same
    · rcases Context.send_left sound left with ⟨_, same⟩ | told
      · rw [same]
      · rw [told]
        refine (diagram.context.cache_receive [.rebind other binding]).unchanged (fun root => ?_)
        rintro ⟨change, asked, concerned⟩
        cases List.mem_singleton.mp asked
        exact absurd concerned (Option.some_ne_none root).symm
  | @shared other binding home _ _ there =>
    rw [Context.perform, Outcome.left?_answering] at left
    have bound := Context.input_bound_of_home there
    rcases Context.send_left sound left with ⟨⟨_, binds, outside⟩, _⟩ | told
    · exact absurd (Option.some.inj binds ▸ bound) outside
    · have concerned : diagram.context.root? (.bind other binding) = diagram.context.inputTicket? other :=
        Context.inputTicket?_of_root bound
      rw [told]
      refine (diagram.context.cache_receive [.bind other binding]).congr (fun root => ⟨?_, ?_⟩)
      · rintro ⟨change, asked, ticket⟩
        cases List.mem_singleton.mp asked
        exact ⟨other, binding, rfl, concerned.symm.trans ticket⟩
      · rintro ⟨_, _, same, ticket⟩
        cases same
        exact ⟨_, List.mem_singleton_self _, concerned.trans ticket⟩
  | stored =>
    refine untold (fun root => ?_) ?_
    · rintro ⟨_, _, same, _⟩
      cases same
    · have effect := Context.perform_effect sound left
      obtain ⟨frame, subsystems⟩ := diagram
      obtain ⟨later, others⟩ := after
      simp only [context] at effect
      generalize reached : Context.diagram later others = found at effect
      cases effect with
      | idle | stored | told => cases reached; rfl
      | received sends => cases sends
      | kept keeps => cases keeps

def aliased : Diagram := Context.aliased.diagram?.get (by decide)

end Diagram

namespace Built
open Context
variable {rules : Rules} {tree later : Context} {path : List Nat} {diagram : Diagram} {operation : Operation}

-- Of all that can be done to a finished diagram, what changes an input without
-- going around it has the diagram forget all that depends on the input; what goes
-- around it is told only through the input it was addressed to. Nothing more can be
-- put into the diagram.
theorem inputs_tracked (built : Built rules tree) (located : tree.locate path = .ok diagram.context)
    (closed : diagram.frame.phase = .sealed) :
    (∀ operation later, (tree.act path operation).left? = some later → ∃ after, later.locate path = .ok after ∧
      (∀ index, ¬ operation.Sidesteps diagram index →
        after.input index ≠ diagram.context.input index ∨ after.resolve index ≠ diagram.context.resolve index →
          after.Flushed index) ∧
      ∀ index, operation.Sidesteps diagram index →
        diagram.context.cache.ClearedOf (operation.Names diagram) after.cache) ∧
      ∀ system other buffer later, (tree.adopt path system other buffer).left? = some later → later = tree := by
  have sound : diagram.context.WellFormed := Everywhere.below built.wellFormed located
  refine ⟨fun operation later left => ?_, fun system other buffer later left => ?_⟩
  · rcases carryOut_left left with ⟨missing, _⟩ | ⟨found, changed, there, performed, rfl⟩
    · exact nomatch located.symm.trans missing
    · cases located.symm.trans there
      have grows := (perform_effect sound performed).grows.here
      cases changed with
      | leaf => exact grows.elim
      | diagram frame subsystems =>
        refine ⟨_, locate_grafted _ located, fun index direct moved => ?_, fun index around => ?_⟩
        · exact @Diagram.flushed_performed _ ⟨frame, subsystems⟩ _ _ sound closed performed direct moved
        · exact @Diagram.cleared_sidestepped _ ⟨frame, subsystems⟩ _ _ sound performed around
  · rcases adopt_left left with same | ⟨frame, subsystems, there, building, _⟩
    · exact same
    · cases located.symm.trans there
      exact nomatch closed.symm.trans building

theorem inputs_tracked_aliased :
    (∃ later after, (aliased.act [] (.change (.bind 0 (some (.free (.int32 5)))))).left? = some later ∧
      later.locate [] = .ok after ∧ after.input 0 ≠ aliased.input 0 ∧ after.Flushed 0) ∧
    (∃ later after, (aliased.act [] (.change (.bind 1 (some (.free (.int32 5)))))).left? = some later ∧
      later.locate [] = .ok after ∧ after.input 0 ≠ aliased.input 0 ∧
      aliased.cache.ClearedOf (· = ⟨3⟩) after.cache) ∧
    (aliased.adopt [] 0 (.leaf (.create ⟨3⟩ ⟨0, 0, 0, []⟩ [])) ⟨[]⟩).left? = some aliased := by
  obtain ⟨tracked, kept⟩ := @inputs_tracked _ _ [] Diagram.aliased aliased_built rfl (by decide)
  have bound : ∀ index ∈ [0, 1], (aliased.act [] (.change (.bind index (some (.free (.int32 5)))))).left?.map
      (·.input 0) = some (.ok (some (.free (.int32 5)))) := by decide +kernel
  have wired : aliased.input 0 ≠ .ok (some (.free (.int32 5))) := by decide
  refine ⟨?_, ?_, ?_⟩
  · obtain ⟨later, left, read⟩ := Option.map_eq_some_iff.mp (bound 0 (by decide))
    obtain ⟨after, there, follows, _⟩ := tracked _ later left
    obtain rfl := Except.ok.inj ((locate_nil later).symm.trans there)
    have rebound : later.input 0 ≠ aliased.input 0 := read ▸ wired.symm
    exact ⟨later, later, left, there, rebound, follows 0 Operation.bind_direct (.inl rebound)⟩
  · obtain ⟨later, left, read⟩ := Option.map_eq_some_iff.mp (bound 1 (by decide))
    obtain ⟨after, there, _, around⟩ := tracked _ later left
    obtain rfl := Except.ok.inj ((locate_nil later).symm.trans there)
    refine ⟨later, later, left, there, read ▸ wired.symm, ?_⟩
    have cleared := around 0 (@Operation.Sidesteps.shared Diagram.aliased 0 1 _ ⟨[1], 0⟩ (by decide) (by decide) (by decide))
    refine cleared.congr (fun root => ⟨?_, ?_⟩)
    · rintro ⟨_, _, same, ticket⟩
      cases same
      exact (Option.some.inj ticket).symm
    · rintro rfl
      exact ⟨1, _, rfl, by decide⟩
  · have refused : (aliased.adopt [] 0 (.leaf (.create ⟨3⟩ ⟨0, 0, 0, []⟩ [])) ⟨[]⟩).left?.isSome := by decide +kernel
    obtain ⟨other, same⟩ := Option.isSome_iff_exists.mp refused
    rw [same, kept _ _ _ _ same]

-- Binding through the other input and storing on the wire leave what depends on the
-- first input in place, and so does a binding that is said to stand for the same value.
theorem inputs_sidestepped :
    ∃ diagram : Diagram, Built .any diagram.context ∧ diagram.frame.phase = .sealed ∧ diagram.context.Matched ∧
      ∀ operation ∈ [Operation.change (.bind 1 (some (.free (.int32 5)))), .setOutput ⟨0, 0⟩ (.int32 5),
          .change (.rebind 0 none)], ∃ after, (diagram.context.perform operation).left? = some after ∧
        (after.input 0 ≠ diagram.context.input 0 ∨ after.resolve 0 ≠ diagram.context.resolve 0) ∧
        ¬ after.Flushed 0 := by
  refine ⟨.aliased, aliased_built, by decide, by decide, ?_⟩
  simp only [List.forall_mem_cons, List.not_mem_nil, false_implies, implies_true, and_true]
  refine ⟨⟨_, rfl, .inl (by decide), ?_⟩, ⟨_, rfl, .inr (by decide), ?_⟩, ⟨_, rfl, .inl (by decide), ?_⟩⟩
  all_goals exact @not_flushed _ _ ⟨2⟩ ⟨4⟩ (.int32 7) (by decide) (by decide) (by decide)

end Built
end BlockDiagram
