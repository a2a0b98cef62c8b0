import BlockDiagram.Proofs.Spread

namespace BlockDiagram

namespace Diagram
variable {diagram : Diagram} {system : Nat} {indices order : List Nat} {buffer : OutputBuffer}

-- Propagates from one output after the other and collects the answers.
def propagateEach (diagram : Diagram) (system : Nat) : List Nat → Outcome Diagram (List (List Nat))
  | [] => .done [] diagram
  | index :: rest =>
    match diagram.propagate system index with
    | .done changed after => (after.propagateEach system rest).map (changed :: ·)
    | .refused refusal left => .refused refusal left
    | .aborted fault => .aborted fault

def told (diagram : Diagram) (mail : Mail) : Diagram := diagram.withSubsystems (diagram.subsystems.receive mail)

def rippleFrom (diagram : Diagram) (buffer : OutputBuffer) (system : Nat) (indices : List Nat) : Mail :=
  diagram.frame.ripple diagram.layout (startsOf buffer system indices)

def reachedFrom (diagram : Diagram) (buffer : OutputBuffer) (system : Nat) (indices : List Nat) : List Nat :=
  diagram.frame.reachedOutputs diagram.layout (startsOf buffer system indices)

theorem told_told (first second : Mail) : (diagram.told first).told second = diagram.told (first ++ second) := by
  simp only [told, withSubsystems, Subsystems.receive_append]

theorem told_nil : diagram.told [] = diagram := by
  simp only [told, withSubsystems, Subsystems.receive_nil]

theorem layout_told (mail : Mail) : (diagram.told mail).layout = diagram.layout :=
  diagram.subsystems.layout_receive mail

theorem rippleFrom_told (mail : Mail) : (diagram.told mail).rippleFrom buffer system = diagram.rippleFrom buffer system := by
  funext indices
  simp only [rippleFrom, layout_told]
  rfl

theorem reachedFrom_told (mail : Mail) :
    (diagram.told mail).reachedFrom buffer system = diagram.reachedFrom buffer system := by
  funext indices
  simp only [reachedFrom, layout_told]
  rfl

theorem told_members {mail other : Mail} (quiet : ∀ item ∈ mail, item.2.Quiet)
    (same : ∀ item, item ∈ mail ↔ item ∈ other) : diagram.told mail = diagram.told other :=
  congrArg diagram.withSubsystems (Subsystems.receive_members quiet same)

theorem rippleFrom_quiet : ∀ item ∈ diagram.rippleFrom buffer system indices, item.2.Quiet :=
  fun _ sent => Frame.ripple_quiet sent

-- A diagram in which propagation from the outputs of a subsystem gets through.
structure Ready (diagram : Diagram) (system : Nat) (buffer : OutputBuffer) : Prop where
  sound : diagram.context.WellFormed
  matched : diagram.context.Matched
  closed : diagram.frame.phase = .sealed
  held : diagram.subsystems.buffer? system = some buffer

namespace Ready

theorem told (ready : diagram.Ready system buffer) (mail : Mail) : (diagram.told mail).Ready system buffer where
  sound := Context.wellFormed_delivery ready.sound (fun _ => rfl) (ready.sound.frame.receive mail)
  matched := Context.matched_delivery mail ready.matched
  closed := ready.closed
  held := (Subsystems.buffer?_receive _ _ _).trans ready.held

theorem propagateAs (ready : diagram.Ready system buffer) (bound : ∀ index ∈ indices, index < buffer.count)
    (named : SealedOnly) :
    Diagram.propagateAs named diagram system indices =
      .done (diagram.reachedFrom buffer system indices) (diagram.told (diagram.rippleFrom buffer system indices)) :=
  (propagateAs_eq named ready.closed ready.held bound).trans (propagateFrom_eq ready.sound ready.matched _)

-- No propagation changes what the next one will tell and answer.
theorem propagateEach (ready : diagram.Ready system buffer) (bound : ∀ index ∈ order, index < buffer.count) :
    diagram.propagateEach system order =
      .done (order.map (fun index => diagram.reachedFrom buffer system [index]))
        (diagram.told (order.flatMap (fun index => diagram.rippleFrom buffer system [index]))) := by
  induction order generalizing diagram with
  | nil =>
    rw [List.flatMap_nil, told_nil]
    rfl
  | cons index rest ih =>
    obtain ⟨inside, later⟩ := List.forall_mem_cons.mp bound
    have done : diagram.propagate system index = _ :=
      ready.propagateAs (fun given member => List.mem_singleton.mp member ▸ inside) .propagateOutput
    rw [Diagram.propagateEach, done]
    simp only [ih (ready.told _) later, Outcome.map, rippleFrom_told, reachedFrom_told, told_told, List.map_cons,
      List.flatMap_cons]

end Ready

theorem reached_split {output : Terminal} :
    diagram.Reached system indices output ↔ ∃ index ∈ indices, diagram.Reached system [index] output := by
  constructor
  · intro reached
    induction reached with
    | given member => exact ⟨_, member, .given List.mem_cons_self⟩
    | fed _ wired present declared ih =>
      obtain ⟨index, member, reached⟩ := ih
      exact ⟨index, member, reached.fed wired present declared⟩
  · intro split
    obtain ⟨index, member, reached⟩ := split
    induction reached with
    | given only => exact .given (List.mem_singleton.mp only ▸ member)
    | fed _ wired present declared ih => exact ih.fed wired present declared

theorem bound_single (bound : ∀ index ∈ indices, index < buffer.count) {index : Nat} (member : index ∈ indices) :
    ∀ given ∈ [index], given < buffer.count :=
  fun _ only => List.mem_singleton.mp only ▸ bound index member

-- What is told on behalf of several outputs is told on behalf of one of them.
theorem mem_rippleFrom_split (bound : ∀ index ∈ indices, index < buffer.count) {item : Nat × Change} :
    item ∈ diagram.rippleFrom buffer system indices ↔
      ∃ index ∈ indices, item ∈ diagram.rippleFrom buffer system [index] := by
  simp only [rippleFrom, Frame.mem_ripple]
  constructor
  · intro sent
    obtain ⟨output, found, tells⟩ := sent
    obtain ⟨index, member, reached⟩ := reached_split.mp ((mem_downstream_iff bound).mp found)
    exact ⟨index, member, output, (mem_downstream_iff (bound_single bound member)).mpr reached, tells⟩
  · intro sent
    obtain ⟨index, member, output, found, tells⟩ := sent
    have reached := (mem_downstream_iff (bound_single bound member)).mp found
    exact ⟨output, (mem_downstream_iff bound).mpr (reached_split.mpr ⟨index, member, reached⟩), tells⟩

theorem mem_reachedFrom_split (bound : ∀ index ∈ indices, index < buffer.count) {answer : Nat} :
    answer ∈ diagram.reachedFrom buffer system indices ↔
      ∃ index ∈ indices, answer ∈ diagram.reachedFrom buffer system [index] := by
  rw [reachedFrom, reachedOutputs_iff bound]
  constructor
  · intro exported
    obtain ⟨output, exported, reached⟩ := exported
    obtain ⟨index, member, reached⟩ := reached_split.mp reached
    exact ⟨index, member, (reachedOutputs_iff (bound_single bound member)).mpr ⟨output, exported, reached⟩⟩
  · intro answered
    obtain ⟨index, member, answered⟩ := answered
    obtain ⟨output, exported, reached⟩ := (reachedOutputs_iff (bound_single bound member)).mp answered
    exact ⟨output, exported, reached_split.mpr ⟨index, member, reached⟩⟩

end Diagram

-- A subsystem with two outputs, both wired to another one; the first output of that
-- one and the second of these are exported.
def Context.forked : Context :=
  (((Diagram.create ⟨2⟩ 2 .sequential).context.joined [] 0 (.leaf (.create ⟨0⟩ ⟨0, 2, 0, []⟩ [])) ⟨[none, none]⟩).joined
    [] 1 (.leaf (.create ⟨1⟩ ⟨2, 1, 0, []⟩ [])) ⟨[none]⟩).actAll
    [([], .connect ⟨0, 0⟩ ⟨1, 0⟩), ([], .connect ⟨0, 1⟩ ⟨1, 1⟩), ([], .exposeOutput ⟨1, 0⟩), ([], .exposeOutput ⟨0, 1⟩),
      ([], .finishBuilding)]

theorem Context.forked_built : Built .any forked :=
  ((Built.diagram.joined .leaf (by decide) [] 0 ⟨[none, none]⟩).joined .leaf (by decide) [] 1 ⟨[none]⟩).actAll _
    (fun _ _ => trivial)

def Diagram.forked : Diagram := Context.forked.diagram?.get (by decide)

theorem Diagram.context_forked : Diagram.forked.context = Context.forked := Context.context_get _

namespace Built
open Context
variable {rules : Rules} {tree : Context} {path : List Nat} {diagram : Diagram} {system : Nat} {buffer : OutputBuffer}
  {indices : List Nat}

theorem propagation_batched (built : Built rules tree) (located : tree.locate path = .ok diagram.context)
    (closed : diagram.frame.phase = .sealed) (matched : diagram.context.Matched)
    (held : diagram.subsystems.buffer? system = some buffer) (bound : ∀ index ∈ indices, index < buffer.count) :
    ∃ changed after, ∃ answer : Nat → List Nat,
      diagram.propagateMany system indices = .done changed after ∧
        (∀ index ∈ indices, ∃ left, diagram.propagate system index = .done (answer index) left) ∧
        (∀ order, (∀ index, index ∈ order ↔ index ∈ indices) →
          diagram.propagateEach system order = .done (order.map answer) after) ∧
        changed.Pairwise (· < ·) ∧ (∀ index, index ∈ changed ↔ ∃ given ∈ indices, index ∈ answer given) ∧
        after.propagateMany system indices = .done changed after := by
  have ready : diagram.Ready system buffer := ⟨(built.frame_sound located).1, matched, closed, held⟩
  have again := (ready.told (diagram.rippleFrom buffer system indices)).propagateAs bound .propagateOutputs
  refine ⟨_, _, fun index => diagram.reachedFrom buffer system [index], ready.propagateAs bound .propagateOutputs,
    fun index member => ⟨_, ready.propagateAs (Diagram.bound_single bound member) .propagateOutput⟩,
    fun order same => ?_, List.pairwise_lt_range.filter _, fun index => Diagram.mem_reachedFrom_split bound, ?_⟩
  · rw [ready.propagateEach (fun index member => bound index ((same index).mp member))]
    apply congrArg (Outcome.done _)
    apply Diagram.told_members
    · intro item sent
      obtain ⟨index, _, sent⟩ := List.mem_flatMap.mp sent
      exact Diagram.rippleFrom_quiet item sent
    · intro item
      simp only [List.mem_flatMap, same, Diagram.mem_rippleFrom_split bound]
  · rw [Diagram.reachedFrom_told, Diagram.rippleFrom_told, Diagram.told_told] at again
    refine again.trans (congrArg (Outcome.done _) ?_)
    apply Diagram.told_members
    · intro item sent
      exact Diagram.rippleFrom_quiet item ((List.mem_append.mp sent).elim id id)
    · intro item
      simp only [List.mem_append, or_self]

theorem propagation_batched_forked :
    ∃ changed after answers, Diagram.forked.propagateMany 0 [1, 0, 1] = .done changed after ∧
      Diagram.forked.propagateEach 0 [0, 1] = .done answers after ∧
      changed.Pairwise (· < ·) ∧ after.propagateMany 0 [1, 0, 1] = .done changed after := by
  have located : Context.forked.locate [] = .ok Diagram.forked.context := by
    rw [locate_nil, Diagram.context_forked]
  have matched : Diagram.forked.context.Matched := by
    rw [Diagram.context_forked]
    decide
  have held : Diagram.forked.subsystems.buffer? 0 = some ⟨[none, none]⟩ := by decide
  have bound : ∀ index ∈ [1, 0, 1], index < (⟨[none, none]⟩ : OutputBuffer).count := by decide
  obtain ⟨changed, after, answer, many, _, each, sorted, _, again⟩ :=
    propagation_batched forked_built located (by decide) matched held bound
  have same : ∀ index, index ∈ [0, 1] ↔ index ∈ [1, 0, 1] := by
    intro index
    simp only [List.mem_cons, List.not_mem_nil, or_false]
    omega
  exact ⟨changed, after, _, many, each [0, 1] same, sorted, again⟩

end Built
end BlockDiagram
