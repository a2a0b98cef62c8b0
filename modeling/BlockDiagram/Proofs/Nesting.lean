import BlockDiagram.Proofs.Replay

namespace BlockDiagram

def Context.enclosing : Context → List Nat → List Diagram
  | .diagram frame subsystems, system :: path =>
    match subsystems.context? system with
    | some child => child.enclosing path ++ [⟨frame, subsystems⟩]
    | none => []
  | _, _ => []

def Diagram.Owns (diagram : Diagram) (handle : Handle) : Prop := diagram.frame.id = handle.owner

instance (diagram : Diagram) (handle : Handle) : Decidable (diagram.Owns handle) :=
  inferInstanceAs (Decidable (_ = _))

-- What a binding stands for among the diagrams around it. What is around all of
-- them is asked only about a handle that none of them owns.
def Binding.among (around : List Diagram) (outer : Resolver) : Option Binding → Option Value
  | some (.free value) => some value
  | some (.dependent handle) =>
    match around.find? (fun diagram => diagram.Owns handle) with
    | some owner => owner.output? handle.source
    | none => outer handle
  | none => none

-- The same said of what is stored: the first diagram from the inside out that owns
-- the handle answers with the cell of the output it names, be it empty, and with
-- nothing if there is no such output.
inductive Binding.Yields (around : List Diagram) (outer : Resolver) : Option Binding → Option Value → Prop where
  | unbound : Yields around outer none none
  | free {value : Value} : Yields around outer (some (.free value)) (some value)
  | stored {nearer further : List Diagram} {owner : Diagram} {handle : Handle} {buffer : OutputBuffer}
    {cell : Option Value} (chain : around = nearer ++ owner :: further)
    (passed : ∀ diagram ∈ nearer, ¬ diagram.Owns handle) (owns : owner.Owns handle)
    (held : owner.subsystems.buffer? handle.source.system = some buffer)
    (stored : buffer.cell? handle.source.index = some cell) : Yields around outer (some (.dependent handle)) cell
  | missing {nearer further : List Diagram} {owner : Diagram} {handle : Handle}
    (chain : around = nearer ++ owner :: further) (passed : ∀ diagram ∈ nearer, ¬ diagram.Owns handle)
    (owns : owner.Owns handle)
    (missing : ∀ buffer, owner.subsystems.buffer? handle.source.system = some buffer →
      buffer.cell? handle.source.index = none) : Yields around outer (some (.dependent handle)) none
  | foreign {handle : Handle} (passed : ∀ diagram ∈ around, ¬ diagram.Owns handle) :
    Yields around outer (some (.dependent handle)) (outer handle)

theorem Binding.yields_owned {around nearer further : List Diagram} {owner : Diagram} {handle : Handle}
    (chain : around = nearer ++ owner :: further) (passed : ∀ diagram ∈ nearer, ¬ diagram.Owns handle)
    (owns : owner.Owns handle) (outer : Resolver) :
    Binding.Yields around outer (some (.dependent handle)) (owner.output? handle.source) := by
  rw [Diagram.output?, Subsystems.output?]
  cases held : owner.subsystems.buffer? handle.source.system with
  | none =>
    refine .missing chain passed owns (fun buffer there => ?_)
    cases held.symm.trans there
  | some buffer =>
    rw [Option.bind_some, OutputBuffer.value?]
    cases stored : buffer.cell? handle.source.index with
    | none =>
      refine .missing chain passed owns (fun other there => ?_)
      cases held.symm.trans there
      exact stored
    | some cell => exact .stored chain passed owns held stored

theorem Binding.among_yields (around : List Diagram) (outer : Resolver) (binding : Option Binding) :
    Binding.Yields around outer binding (Binding.among around outer binding) := by
  cases binding with
  | none => exact .unbound
  | some binding =>
    cases binding with
    | free value => exact .free
    | dependent handle =>
      rw [Binding.among]
      cases found : around.find? (fun diagram => diagram.Owns handle) with
      | none =>
        refine .foreign (fun diagram member => ?_)
        exact of_decide_eq_false (Bool.not_eq_true _ ▸ List.find?_eq_none.mp found diagram member)
      | some owner =>
        obtain ⟨owns, nearer, further, chain, passed⟩ := List.find?_eq_some_iff_append.mp found
        refine Binding.yields_owned chain (fun diagram member => ?_) (of_decide_eq_true owns) outer
        have answered := passed diagram member
        exact of_decide_eq_false (Bool.not_eq_true' _ ▸ answered)

namespace Context

theorem enclosing_cons {frame : Frame} {subsystems : Subsystems} {system : Nat} {child : Context}
    (present : subsystems.context? system = some child) (path : List Nat) :
    (Context.diagram frame subsystems).enclosing (system :: path) = child.enclosing path ++ [⟨frame, subsystems⟩] := by
  simp only [enclosing, present]

theorem resolverAt_among (outer : Resolver) (tree : Context) (path : List Nat) (handle : Handle) :
    tree.resolverAt outer path handle = Binding.among (tree.enclosing path) outer (some (.dependent handle)) := by
  induction path generalizing tree outer with
  | nil =>
    rw [resolverAt_nil]
    cases tree <;> rfl
  | cons system path ih =>
    cases tree with
    | leaf own => rfl
    | diagram frame subsystems =>
      cases present : subsystems.context? system with
      | none => simp only [resolverAt, enclosing, present, Binding.among, List.find?_nil]
      | some child =>
        rw [resolverAt_cons present, enclosing_cons present, ih]
        simp only [Binding.among, List.find?_append]
        cases child.enclosing path |>.find? (fun diagram => diagram.Owns handle) with
        | some owner => rfl
        | none =>
          -- Nobody further in owns the handle, and it is this diagram's turn.
          by_cases owned : handle.owner = frame.id
          · simp [Resolver.chain, Diagram.Owns, Diagram.output?, owned]
          · simp [Resolver.chain, Diagram.Owns, owned, Ne.symm owned]

theorem value?_resolverAt (outer : Resolver) (tree : Context) (path : List Nat) (binding : Option Binding) :
    Binding.value? (tree.resolverAt outer path) binding = Binding.among (tree.enclosing path) outer binding := by
  cases binding with
  | none => rfl
  | some binding =>
    cases binding with
    | free => rfl
    | dependent handle => exact resolverAt_among outer tree path handle

end Context

namespace Diagram

theorem evaluateInput_under {diagram : Diagram} (closed : diagram.frame.phase = .sealed) (input : Terminal)
    (outer : Resolver) :
    diagram.evaluateInput input outer =
      (diagram.subsystems.context input.system).bind
        (fun child => (child.resolve input.index).map (Reading.under (diagram.resolver outer))) := by
  simp only [evaluateInput, closed]
  cases diagram.subsystems.context input.system with
  | error => rfl
  | ok child =>
    refine congrArg (fun settle => (child.resolve input.index).map settle) (funext fun reading => ?_)
    refine Eq.trans ?_ (reading.under_settledBy diagram.frame.id diagram.output? outer)
    cases reading.settledBy diagram.frame.id diagram.output? <;> rfl

theorem resolve_exposed {diagram : Diagram} {index : Nat} {exposed : ExposedInput}
    (held : diagram.frame.inputs[index]? = some exposed) :
    diagram.context.resolve index =
      (diagram.subsystems.context exposed.terminal.system).bind
        (fun child => (child.resolve exposed.terminal.index).map
          (Reading.settledBy diagram.frame.id diagram.output?)) := by
  simp only [context, Context.resolve, Frame.input_eq_ok.mpr held, Subsystems.resolveAt_eq, Subsystems.context]
  cases diagram.subsystems.context? exposed.terminal.system <;> rfl

-- Through one diagram and the one nested in it both ways give the same answer,
-- a refusal included, and through any number of them it is the one the handle's
-- innermost owner gives.
theorem evaluateInput_nested {outer inner : Diagram} {system index : Nat} {exposed : ExposedInput}
    (closed : outer.frame.phase = .sealed) (within : inner.frame.phase = .sealed)
    (present : outer.subsystems.context? system = some inner.context)
    (held : inner.frame.inputs[index]? = some exposed) (around : Resolver) :
    outer.evaluateInput ⟨system, index⟩ around = inner.evaluateInput exposed.terminal (outer.resolver around) ∧
      ∀ home own binding, outer.subsystems.terminalHome? .inputs ⟨system, index⟩ = some home →
        outer.context.locate home.path = .ok (.leaf own) → own.inputs[home.index]? = some binding →
          outer.evaluateInput ⟨system, index⟩ around =
              .ok (Binding.among (outer.context.enclosing home.path) around binding) ∧
            ∃ answer, outer.evaluateInput ⟨system, index⟩ around = .ok answer ∧
              Binding.Yields (outer.context.enclosing home.path) around binding answer := by
  refine ⟨?_, fun home own binding found located bound => ?_⟩
  · rw [evaluateInput_under closed, evaluateInput_under within, Subsystems.context_eq_ok.mpr present]
    refine (congrArg (Except.map _) (resolve_exposed held)).trans ?_
    cases inner.subsystems.context exposed.terminal.system with
    | error => rfl
    | ok child =>
      simp only [Except.bind]
      cases child.resolve exposed.terminal.index with
      | error => rfl
      | ok reading =>
        exact congrArg Except.ok (reading.under_settledBy inner.frame.id inner.output? (outer.resolver around))
  · have read : outer.evaluateInput ⟨system, index⟩ around =
        .ok (Binding.among (outer.context.enclosing home.path) around binding) := by
      rw [evaluateInput_home closed found located around, Context.value?_resolverAt, bound, Option.join_some]
    exact ⟨read, _, read, Binding.among_yields _ around binding⟩

end Diagram

namespace Context

def leafAt? (tree : Context) (path : List Nat) : Option Leaf := (tree.locate path).toOption.bind leaf?

theorem leafAt?_eq_some {tree : Context} {path : List Nat} {own : Leaf} :
    tree.leafAt? path = some own ↔ tree.locate path = .ok (.leaf own) := by
  unfold leafAt?
  cases tree.locate path with
  | error => simp [Except.toOption]
  | ok found => cases found <;> simp [Except.toOption, leaf?]

-- A diagram inside another, with the input it exposes bound to an output of its
-- own on which nothing has been stored.
def housed : Context :=
  ((Diagram.create ⟨3⟩ 1 .sequential).context.joined [] 0 rewired ⟨[]⟩).actAll
    [([], .finishBuilding), ([0], .change (.bind 0 (some (.dependent ⟨⟨2⟩, ⟨1, 0⟩⟩))))]

def stocked : Context := housed.actAll [([0], .setOutput ⟨1, 0⟩ (.int32 6))]

end Context

namespace Diagram

def housed : Diagram := Context.housed.diagram?.get (by decide +kernel)

def houseguest : Diagram := ((housed.subsystems.context? 0).bind Context.diagram?).get (by decide +kernel)

def stocked : Diagram := Context.stocked.diagram?.get (by decide +kernel)

def stockist : Diagram := ((stocked.subsystems.context? 0).bind Context.diagram?).get (by decide +kernel)

-- The resolver around the two diagrams would answer any handle, and is not asked,
-- neither before nor after a value is stored on the output.
theorem evaluateInput_nested_housed :
    (housed.evaluateInput ⟨0, 0⟩ (.fixed (.int32 9)) =
        houseguest.evaluateInput ⟨1, 0⟩ (housed.resolver (.fixed (.int32 9))) ∧
      housed.evaluateInput ⟨0, 0⟩ (.fixed (.int32 9)) = .ok none) ∧
    (stocked.evaluateInput ⟨0, 0⟩ (.fixed (.int32 9)) =
        stockist.evaluateInput ⟨1, 0⟩ (stocked.resolver (.fixed (.int32 9))) ∧
      stockist.subsystems.buffer? 1 = some ⟨[some (.int32 6)]⟩ ∧
      stocked.evaluateInput ⟨0, 0⟩ (.fixed (.int32 9)) = .ok (some (.int32 6)) ∧
      Binding.Yields (stocked.context.enclosing [0, 1]) (.fixed (.int32 9)) (some (.dependent ⟨⟨2⟩, ⟨1, 0⟩⟩))
        (some (.int32 6))) := by
  have reads : ∀ (outer inner : Diagram) (value : Option Value), outer.frame.phase = .sealed →
      inner.frame.phase = .sealed → outer.subsystems.context? 0 = some inner.context →
      inner.frame.inputs[0]? = some ⟨⟨1, 0⟩, ⟨2⟩⟩ →
      outer.subsystems.terminalHome? .inputs ⟨0, 0⟩ = some ⟨[0, 1], 0⟩ →
      (outer.context.leafAt? [0, 1]).bind (·.inputs[0]?) = some (some (.dependent ⟨⟨2⟩, ⟨1, 0⟩⟩)) →
      Binding.among (outer.context.enclosing [0, 1]) (.fixed (.int32 9)) (some (.dependent ⟨⟨2⟩, ⟨1, 0⟩⟩)) = value →
        outer.evaluateInput ⟨0, 0⟩ (.fixed (.int32 9)) =
            inner.evaluateInput ⟨1, 0⟩ (outer.resolver (.fixed (.int32 9))) ∧
          outer.evaluateInput ⟨0, 0⟩ (.fixed (.int32 9)) = .ok value ∧
          Binding.Yields (outer.context.enclosing [0, 1]) (.fixed (.int32 9)) (some (.dependent ⟨⟨2⟩, ⟨1, 0⟩⟩)) value := by
    rintro outer inner _ closed within present held home bound rfl
    obtain ⟨own, there, bound⟩ := Option.bind_eq_some_iff.mp bound
    obtain ⟨same, decided⟩ := evaluateInput_nested closed within present held (.fixed (.int32 9))
    obtain ⟨read, answer, answered, yields⟩ := decided _ own _ home (Context.leafAt?_eq_some.mp there) bound
    exact ⟨same, read, Except.ok.inj (answered.symm.trans read) ▸ yields⟩
  have empty := reads housed houseguest none (by decide +kernel) (by decide +kernel) (by decide +kernel)
    (by decide +kernel) (by decide +kernel) (by decide +kernel) (by decide +kernel)
  have filled := reads stocked stockist (some (.int32 6)) (by decide +kernel) (by decide +kernel) (by decide +kernel)
    (by decide +kernel) (by decide +kernel) (by decide +kernel) (by decide +kernel)
  exact ⟨⟨empty.1, empty.2.1⟩, filled.1, by decide +kernel, filled.2⟩

end Diagram
end BlockDiagram
