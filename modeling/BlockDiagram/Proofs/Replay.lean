import BlockDiagram.Proofs.Resolution
import BlockDiagram.Proofs.Inventory

namespace BlockDiagram

namespace Context

theorem verdict_rebind {context : Context} (sound : context.WellFormed) {index : Nat} (bound : index < context.inputCount)
    (binding : Option Binding) : context.verdict (.rebind index binding) = .accepted := by
  induction context using Context.induct generalizing index with
  | leaf own => exact if_pos bound
  | diagram frame subsystems ih =>
    have inside : index < frame.inputs.length := bound
    have own : frame.verdict (.rebind index binding) = .accepted := by
      simp only [Frame.verdict, Frame.input, List.getElem?_eq_getElem inside]
    rw [verdict_diagram _ _ _ own]
    refine Verdict.all_accepted.mpr (fun verdict member => ?_)
    obtain ⟨item, sent, rfl⟩ := List.mem_map.mp member
    simp only [Frame.mail, Frame.input, List.getElem?_eq_getElem inside, List.mem_singleton] at sent
    obtain ⟨child, present, fits⟩ := sound.frame.exposed _ (List.getElem_mem inside)
    rw [sent, Subsystems.verdict_present present]
    exact ih _ _ present (sound.child present) fits

end Context

namespace Subsystems

theorem reissue_eq {subsystems : Subsystems} (owner : ContextId) (wires : List (Terminal × Terminal))
    (sound : ∀ system child, subsystems.context? system = some child → child.WellFormed)
    (wired : ∀ wire ∈ wires, subsystems.HasInput wire.2) :
    subsystems.reissue owner wires = .ok (subsystems.receive (reissues owner wires)) := by
  induction wires generalizing subsystems with
  | nil => exact congrArg Except.ok (receive_nil _).symm
  | cons wire rest ih =>
    obtain ⟨output, input⟩ := wire
    obtain ⟨child, present, bound⟩ := wired _ List.mem_cons_self
    have sent := send_eq present (Context.verdict_rebind (sound _ _ present) bound (some (.dependent ⟨owner, output⟩)))
    rw [reissue]
    simp only [sent]
    rw [ih, ← receive_append]
    · rfl
    · intro system other there
      obtain ⟨before, held, rfl⟩ := of_receive there
      exact (sound _ _ held).receive _
    · exact fun wire member => (wired wire (List.mem_cons_of_mem _ member)).receive _

end Subsystems

mutual
theorem Context.copy_succeeds : (context : Context) → context.WellFormed → context.Sealed → (outer : Resolver) →
    (serial : Nat) → ∃ copied next, context.copy outer serial = .ok (copied, next)
  | .leaf own, _, _, outer, serial => ⟨_, _, rfl⟩
  | .diagram frame subsystems, sound, closed, outer, serial => by
    obtain ⟨copies, next, made⟩ := subsystems.copy_succeeds (fun _ _ present => sound.child present)
      (fun _ _ present => closed.child present) (.chain frame.id subsystems.output? outer) serial
    obtain ⟨marks, copied, _⟩ := Subsystems.copy_ok subsystems made
    have inner : ∀ system copy, copies.context? system = some copy → copy.WellFormed := by
      intro system copy there
      obtain ⟨child, present, done⟩ := copied.of_copy there
      exact (sound.child present).copy done
    have wired : ∀ wire ∈ frame.wiring.wires, copies.HasInput wire.2 := by
      intro wire member
      obtain ⟨output, input⟩ := wire
      obtain ⟨child, present, bound⟩ := (sound.frame.wired _ _ ((Wiring.mem_wires sound.frame.coherent).mp member)).2
      obtain ⟨copy, done, there⟩ := copied.present _ _ present
      exact ⟨copy, there, by rw [(Context.copy_counts done).1]; exact bound⟩
    have replayed := Subsystems.reissue_eq ⟨next⟩ frame.wiring.wires inner wired
    refine ⟨.diagram (frame.copy ⟨next⟩ copies) (copies.receive (Subsystems.reissues ⟨next⟩ frame.wiring.wires)),
      next + 1, ?_⟩
    simp only [Context.copy, closed.frame, made, replayed, if_true]
theorem Subsystems.copy_succeeds : (subsystems : Subsystems) →
    (∀ system child, subsystems.context? system = some child → child.WellFormed) →
    (∀ system child, subsystems.context? system = some child → child.Sealed) → (outer : Resolver) →
    (serial : Nat) → ∃ copies next, subsystems.copy outer serial = .ok (copies, next)
  | .nil, _, _, _, _ => ⟨_, _, rfl⟩
  | .vacant rest, sound, closed, outer, serial => by
    obtain ⟨copies, next, made⟩ := rest.copy_succeeds (fun system => sound (system + 1))
      (fun system => closed (system + 1)) outer serial
    exact ⟨.vacant copies, next, by simp only [Subsystems.copy, made]⟩
  | .filled context buffer rest, sound, closed, outer, serial => by
    obtain ⟨copied, middle, first⟩ := context.copy_succeeds (sound 0 _ rfl) (closed 0 _ rfl) outer serial
    obtain ⟨copies, next, made⟩ := rest.copy_succeeds (fun system => sound (system + 1))
      (fun system => closed (system + 1)) outer middle
    exact ⟨.filled copied buffer copies, next, by simp only [Subsystems.copy, first, made]⟩
end

namespace Context

-- A change that each diagram hands on through one of its tables and in no other
-- way arrives at home and nowhere else.
theorem mailTo_routed {numbering : Numbering} {change : Nat → Change}
    (routed : ∀ (frame : Frame) (layout : Layout) (index : Nat) (terminal : Terminal),
      numbering.target? frame index = some terminal →
      frame.mail layout (change index) = [(terminal.system, change terminal.index)])
    {context : Context} {index : Nat} {home : Endpoint} (found : context.home? numbering index = some home)
    {path : List Nat} {own : Leaf} (located : context.locate path = .ok (.leaf own)) :
    context.mailTo [change index] path = if home.path = path then [change home.index] else [] := by
  induction context using Context.induct generalizing index home path with
  | leaf leaf =>
    obtain ⟨_, rfl⟩ := home?_leaf.mp found
    obtain ⟨rfl, _⟩ := locate_leaf located
    rw [mailTo_nil, if_pos rfl]
  | diagram frame subsystems ih =>
    obtain ⟨terminal, entered, below⟩ := home?_diagram.mp found
    obtain ⟨child, inner, present, inside, rfl⟩ := Subsystems.terminalHome?_eq_some.mp below
    cases path with
    | nil => cases located
    | cons system path =>
      obtain ⟨other, there, deeper⟩ := locate_cons.mp located
      rw [mailTo_cons there, List.flatMap_singleton, routed frame _ index terminal entered, Mail.addressed_single]
      by_cases here : terminal.system = system
      · subst here
        cases present.symm.trans there
        rw [if_pos rfl, ih _ _ present inside deeper]
        simp [Endpoint.under]
      · rw [if_neg here, mailTo_none]
        simp [Endpoint.under, here]

theorem mailTo_rebind {context : Context} (sound : context.WellFormed) {index : Nat} (bound : index < context.inputCount)
    (binding : Option Binding) :
    ∃ home, context.home? .inputs index = some home ∧ ∀ path own, context.locate path = .ok (.leaf own) →
      context.mailTo [.rebind index binding] path = if home.path = path then [.rebind home.index binding] else [] := by
  obtain ⟨home, found⟩ := home?_exists sound bound
  refine ⟨home, found, fun path own located => @mailTo_routed _ (.rebind · binding) ?_ _ _ _ found _ _ located⟩
  intro frame layout index terminal entered
  obtain ⟨exposed, held, rfl⟩ := Frame.target?_inputs.mp entered
  simp only [Frame.mail, held]

end Context

namespace Subsystems

def told (subsystems : Subsystems) (owner : ContextId) (path : List Nat) (wire : Terminal × Terminal) : List Change :=
  match subsystems.terminalHome? .inputs wire.2 with
  | some home => if home.path = path then [.rebind home.index (some (.dependent ⟨owner, wire.1⟩))] else []
  | none => []

theorem mailTo_reissues {subsystems : Subsystems} {system : Nat} {child : Context} {path : List Nat} {own : Leaf}
    (owner : ContextId) (wires : List (Terminal × Terminal))
    (sound : ∀ system child, subsystems.context? system = some child → child.WellFormed)
    (wired : ∀ wire ∈ wires, subsystems.HasInput wire.2) (present : subsystems.context? system = some child)
    (located : child.locate path = .ok (.leaf own)) :
    child.mailTo (Mail.addressed (reissues owner wires) system) path =
      wires.flatMap (subsystems.told owner (system :: path)) := by
  induction wires with
  | nil => exact Context.mailTo_none _ _
  | cons wire rest ih =>
    have split : reissues owner (wire :: rest) =
        [(wire.2.system, .rebind wire.2.index (some (.dependent ⟨owner, wire.1⟩)))] ++ reissues owner rest := rfl
    rw [split, Mail.addressed_append, Context.mailTo_append,
      ih (fun other member => wired other (List.mem_cons_of_mem _ member)), List.flatMap_cons, Mail.addressed_single]
    refine congrArg (· ++ _) ?_
    obtain ⟨other, there, bound⟩ := wired wire List.mem_cons_self
    obtain ⟨home, found, arrives⟩ := Context.mailTo_rebind (sound _ _ there) bound (some (.dependent ⟨owner, wire.1⟩))
    have traced : subsystems.terminalHome? .inputs wire.2 = some (home.under wire.2.system) :=
      terminalHome?_eq_some.mpr ⟨other, home, there, found, rfl⟩
    simp only [told, traced]
    by_cases here : wire.2.system = system
    · subst here
      cases present.symm.trans there
      rw [if_pos rfl, arrives path own located]
      simp [Endpoint.under]
    · rw [if_neg here, Context.mailTo_none]
      simp [Endpoint.under, here]

def lastInto (subsystems : Subsystems) (wires : List (Terminal × Terminal)) (input : Endpoint) : Option Terminal :=
  ((wires.filter (fun wire => subsystems.terminalHome? .inputs wire.2 = some input)).getLast?).map (·.1)

theorem lastInto_cons (subsystems : Subsystems) (wire : Terminal × Terminal) (rest : List (Terminal × Terminal))
    (input : Endpoint) :
    subsystems.lastInto (wire :: rest) input =
      (subsystems.lastInto rest input).or
        (if subsystems.terminalHome? .inputs wire.2 = some input then some wire.1 else none) := by
  unfold lastInto
  rw [List.filter_cons]
  by_cases here : subsystems.terminalHome? .inputs wire.2 = some input
  · simp only [here, decide_true, if_true, List.getLast?_cons]
    cases (rest.filter (fun wire => subsystems.terminalHome? .inputs wire.2 = some input)).getLast? <;> rfl
  · simp [here]

theorem lastInto_some {subsystems : Subsystems} {wires : List (Terminal × Terminal)} {input : Endpoint} {output : Terminal}
    (last : subsystems.lastInto wires input = some output) :
    ∃ target, (output, target) ∈ wires ∧ subsystems.terminalHome? .inputs target = some input := by
  obtain ⟨wire, found, rfl⟩ := Option.map_eq_some_iff.mp last
  have member := List.mem_filter.mp (List.mem_of_getLast? found)
  exact ⟨wire.2, member.1, of_decide_eq_true member.2⟩

theorem lastInto_none {subsystems : Subsystems} {wires : List (Terminal × Terminal)} {input : Endpoint}
    (last : subsystems.lastInto wires input = none) {wire : Terminal × Terminal} (member : wire ∈ wires) :
    subsystems.terminalHome? .inputs wire.2 ≠ some input := by
  intro home
  have empty := List.getLast?_eq_none_iff.mp (Option.map_eq_none_iff.mp last)
  have listed : wire ∈ wires.filter (fun wire => subsystems.terminalHome? .inputs wire.2 = some input) :=
    List.mem_filter.mpr ⟨member, decide_eq_true home⟩
  rw [empty] at listed
  cases listed

theorem inputs_told {subsystems : Subsystems} {owner : ContextId} {path : List Nat} {own : Leaf} {index : Nat}
    (bound : index < own.inputs.length) (wires : List (Terminal × Terminal)) :
    ((wires.flatMap (subsystems.told owner path)).foldl Leaf.receive own).inputs[index]? =
      match subsystems.lastInto wires ⟨path, index⟩ with
      | some output => some (some (.dependent ⟨owner, output⟩))
      | none => own.inputs[index]? := by
  induction wires generalizing own with
  | nil => rfl
  | cons wire rest ih =>
    have first : ((subsystems.told owner path wire).foldl Leaf.receive own).inputs.length = own.inputs.length ∧
        ((subsystems.told owner path wire).foldl Leaf.receive own).inputs[index]? =
          if subsystems.terminalHome? .inputs wire.2 = some ⟨path, index⟩ then some (some (.dependent ⟨owner, wire.1⟩))
          else own.inputs[index]? := by
      unfold told
      cases traced : subsystems.terminalHome? .inputs wire.2 with
      | none => exact ⟨rfl, by simp⟩
      | some home =>
        obtain ⟨front, place⟩ := home
        by_cases here : front = path
        · subst here
          by_cases same : place = index
          · subst same
            simp [Leaf.receive, bound]
          · simp [Leaf.receive, same]
        · simp [here]
    rw [List.flatMap_cons, List.foldl_append, ih (first.1 ▸ bound), lastInto_cons]
    cases subsystems.lastInto rest ⟨path, index⟩ with
    | some output => rfl
    | none =>
      simp only [Option.none_or, first.2]
      split <;> simp_all

end Subsystems

-- The value on the source of the wire that copying plays back last into an
-- input of a leaf, if there is one. Diagrams further out come after those
-- inside them, and each plays its wires back in ascending order of their ends.
def Context.replayed? : Context → List Nat → Nat → Option (Option Value)
  | .diagram frame subsystems, system :: path, index =>
    match subsystems.lastInto frame.wiring.wires ⟨system :: path, index⟩ with
    | some output => some (subsystems.output? output)
    | none =>
      match subsystems.context? system with
      | some child => child.replayed? path index
      | none => none
  | _, _, _ => none

namespace Context

theorem id_receive (context : Context) (changes : List Change) : (context.receive changes).id = context.id :=
  (grows_receive context changes).id

theorem resolverAt_receive (context : Context) (changes : List Change) (outer : Resolver) (path : List Nat) :
    (context.receive changes).resolverAt outer path = context.resolverAt outer path := by
  induction path generalizing context changes outer with
  | nil => rw [resolverAt_nil, resolverAt_nil]
  | cons system path ih =>
    cases context with
    | leaf => rfl
    | diagram frame subsystems =>
      have id := (Frame.Extends.receiveAll frame changes).id
      cases present : subsystems.context? system with
      | none => simp only [receive, resolverAt, Subsystems.context?_receive, present, Option.map_none]
      | some child =>
        simp only [receive, resolverAt, Subsystems.context?_receive, present, Option.map_some, ih, id,
          Subsystems.output?_receive]

theorem home?_copy {context copied : Context} {outer : Resolver} {serial next : Nat}
    (done : context.copy outer serial = .ok (copied, next)) {index : Nat} {home : Endpoint}
    (found : context.home? .inputs index = some home) : copied.home? .inputs index = some home := by
  induction context using Context.induct generalizing outer serial next copied index home with
  | leaf own =>
    cases done
    obtain ⟨bound, rfl⟩ := home?_leaf.mp found
    exact home?_leaf.mpr ⟨Nat.lt_of_lt_of_le bound (Nat.le_of_eq (List.length_map _).symm), rfl⟩
  | diagram frame subsystems ih =>
    obtain ⟨copies, marks, last, _, made, _, _, rfl, rfl⟩ := copy_diagram done
    obtain ⟨terminal, entered, below⟩ := home?_diagram.mp found
    obtain ⟨child, inner, present, inside, rfl⟩ := Subsystems.terminalHome?_eq_some.mp below
    obtain ⟨copy, copying, there⟩ := made.present _ _ present
    have arrived := fun changes => home?_along Numbering.lasting_inputs (along_receive grows_receive copy changes)
      (ih _ _ present copying inside)
    exact home?_diagram.mpr ⟨terminal, entered, Subsystems.terminalHome?_eq_some.mpr
      ⟨_, inner, Subsystems.context?_received there _, arrived _, rfl⟩⟩

end Context

namespace Subsystems

theorem terminalHome?_copies {subsystems copies : Subsystems} {outer : Resolver} {marks : Nat → Nat}
    (made : subsystems.Copies outer copies marks) {terminal : Terminal} {home : Endpoint}
    (found : subsystems.terminalHome? .inputs terminal = some home) :
    copies.terminalHome? .inputs terminal = some home := by
  obtain ⟨child, inner, present, inside, rfl⟩ := terminalHome?_eq_some.mp found
  obtain ⟨copy, copying, there⟩ := made.present _ _ present
  exact terminalHome?_eq_some.mpr ⟨copy, inner, there, Context.home?_copy copying inside, rfl⟩

theorem lastInto_congr {subsystems others : Subsystems} {wires : List (Terminal × Terminal)}
    (same : ∀ wire ∈ wires, others.terminalHome? .inputs wire.2 = subsystems.terminalHome? .inputs wire.2)
    (input : Endpoint) : others.lastInto wires input = subsystems.lastInto wires input := by
  unfold lastInto
  rw [List.filter_congr (fun wire member => by rw [same wire member])]

end Subsystems

theorem Subsystems.rewired_leaf {frame : Frame} {subsystems copies : Subsystems} {outer : Resolver} {marks : Nat → Nat}
    (sound : (Context.diagram frame subsystems).WellFormed) (made : subsystems.Copies outer copies marks)
    (owner : ContextId) {system : Nat} {copy : Context} {path : List Nat} {own : Leaf}
    (there : copies.context? system = some copy) (located : copy.locate path = .ok (.leaf own)) :
    ∃ later, (copy.receive (Mail.addressed (reissues owner frame.wiring.wires) system)).locate path = .ok (.leaf later) ∧
      later.inputs.length = own.inputs.length ∧ ∀ index, index < own.inputs.length →
        later.inputs[index]? =
          match subsystems.lastInto frame.wiring.wires ⟨system :: path, index⟩ with
          | some output => some (some (.dependent ⟨owner, output⟩))
          | none => own.inputs[index]? := by
  have inner : ∀ place other, copies.context? place = some other → other.WellFormed := by
    intro place other held
    obtain ⟨original, found, making⟩ := made.of_copy held
    exact (sound.child found).copy making
  have wired : ∀ wire ∈ frame.wiring.wires, subsystems.HasInput wire.2 := by
    intro wire member
    obtain ⟨output, input⟩ := wire
    exact (sound.frame.wired _ _ ((Wiring.mem_wires sound.frame.coherent).mp member)).2
  have homes : ∀ wire ∈ frame.wiring.wires,
      copies.terminalHome? .inputs wire.2 = subsystems.terminalHome? .inputs wire.2 := by
    intro wire member
    obtain ⟨home, found⟩ := terminalHome?_exists (fun _ _ held => sound.child held) (wired wire member)
    exact (terminalHome?_copies made found).trans found.symm
  have kept : ∀ wire ∈ frame.wiring.wires, copies.HasInput wire.2 := by
    intro wire member
    obtain ⟨original, found, within⟩ := wired wire member
    obtain ⟨other, making, held⟩ := made.present _ _ found
    exact ⟨other, held, by rw [(Context.copy_counts making).1]; exact within⟩
  have arrived := Context.locate_receive (Mail.addressed (reissues owner frame.wiring.wires) system) located
  rw [mailTo_reissues owner _ inner kept there located] at arrived
  refine ⟨_, arrived, Leaf.inputs_length_receiveAll own _, fun index bound => ?_⟩
  rw [inputs_told bound, lastInto_congr homes]

theorem Binding.value?_settled (around outer : Resolver) (binding : Option Binding) :
    value? around (settled outer binding) = value? outer binding := by
  cases binding with
  | none => rfl
  | some binding =>
    cases binding with
    | free => rfl
    | dependent handle =>
      show value? around ((outer handle).map .free) = outer handle
      cases outer handle <;> rfl

namespace Context

theorem copy_resolves {context copied : Context} {outer : Resolver} {serial next : Nat} {path : List Nat} {own : Leaf}
    {index : Nat} (sound : context.WellFormed) (done : context.copy outer serial = .ok (copied, next))
    (located : context.locate path = .ok (.leaf own)) (bound : index < own.inputs.length) :
    ∃ later, copied.locate path = .ok (.leaf later) ∧ later.inputs.length = own.inputs.length ∧
      ∀ around, Binding.value? (copied.resolverAt around path) later.inputs[index]?.join =
        (context.replayed? path index).getD (Binding.value? (context.resolverAt outer path) own.inputs[index]?.join) := by
  induction context using Context.induct generalizing outer serial next copied path with
  | leaf leaf =>
    obtain ⟨rfl, same⟩ := locate_leaf located
    cases same
    cases done
    refine ⟨_, locate_nil _, List.length_map _, fun around => ?_⟩
    have held : (own.copy outer ⟨serial⟩).inputs[index]? = some (Binding.settled outer own.inputs[index]) := by
      simp [Leaf.copy, bound]
    rw [held, List.getElem?_eq_getElem bound, resolverAt_nil]
    exact Binding.value?_settled around outer own.inputs[index]
  | diagram frame subsystems ih =>
    obtain ⟨copies, marks, last, _, made, _, high, rfl, rfl⟩ := copy_diagram done
    cases path with
    | nil => cases located
    | cons system path =>
      obtain ⟨child, present, below⟩ := locate_cons.mp located
      obtain ⟨copy, copying, there⟩ := made.present _ _ present
      obtain ⟨first, inside, length, reads⟩ := ih _ _ present (sound.child present) copying below
      obtain ⟨later, arrived, kept, inputs⟩ := Subsystems.rewired_leaf sound made ⟨last⟩ there inside
      refine ⟨later, locate_cons.mpr ⟨_, Subsystems.context?_received there _, arrived⟩, kept.trans length, fun around => ?_⟩
      rw [inputs index (length ▸ bound), replayed?, resolverAt_cons (Subsystems.context?_received there _),
        resolverAt_receive, resolverAt_cons present]
      cases subsystems.lastInto frame.wiring.wires ⟨system :: path, index⟩ with
      | none =>
        rw [reads]
        simp only [present]
      | some output =>
        -- No diagram further in has the id of this one, so the handle comes up to it.
        show copy.resolverAt _ path ⟨⟨last⟩, output⟩ = subsystems.output? output
        rw [resolverAt_foreign]
        · refine (if_pos rfl).trans ?_
          rw [Subsystems.output?_receive, Subsystems.output?, made.buffers]
          rfl
        · intro front found located same
          have range := (copy_range copying located).2
          have above := high (system + 1)
          rw [same] at range
          exact absurd (Nat.lt_of_lt_of_le range above) (Nat.lt_irrefl _)

theorem copy_locate {context copied : Context} {outer : Resolver} {serial next : Nat} {front : List Nat}
    {frame : Frame} {subsystems : Subsystems} (done : context.copy outer serial = .ok (copied, next))
    (located : context.locate front = .ok (.diagram frame subsystems)) :
    ∃ later others, copied.locate front = .ok (.diagram later others) ∧ later.phase = .sealed ∧
      ∀ terminal home, subsystems.terminalHome? .inputs terminal = some home →
        others.terminalHome? .inputs terminal = some home := by
  induction context using Context.induct generalizing outer serial next copied front with
  | leaf own =>
    obtain ⟨_, same⟩ := locate_leaf located
    cases same
  | diagram top places ih =>
    obtain ⟨copies, marks, last, _, made, _, _, rfl, rfl⟩ := copy_diagram done
    cases front with
    | nil =>
      rw [locate_nil] at located
      cases located
      refine ⟨_, _, locate_nil _, rfl, fun terminal home found => ?_⟩
      exact Subsystems.terminalHome?_receive Numbering.lasting_inputs _ (Subsystems.terminalHome?_copies made found)
    | cons system front =>
      obtain ⟨child, present, below⟩ := locate_cons.mp located
      obtain ⟨copy, copying, there⟩ := made.present _ _ present
      obtain ⟨later, others, inside, closed, homes⟩ := ih _ _ present copying below
      have arrived := locate_receive (Mail.addressed (Subsystems.reissues ⟨last⟩ top.wiring.wires) system) inside
      refine ⟨_, _, locate_cons.mpr ⟨_, Subsystems.context?_received there _, arrived⟩, ?_, fun terminal home found => ?_⟩
      · exact (Frame.Steady.receiveAll _ _).phase.trans closed
      · exact Subsystems.terminalHome?_receive Numbering.lasting_inputs _ (homes terminal home found)

end Context

def Reading.under (outer : Resolver) : Reading → Option Value
  | .known value => some value
  | .pending handle => outer handle
  | .unconnected => none

theorem Reading.under_settledBy (reading : Reading) (owner : ContextId) (outputs : Terminal → Option Value)
    (outer : Resolver) : (reading.settledBy owner outputs).under outer = reading.under (.chain owner outputs outer) := by
  cases reading with
  | known | unconnected => rfl
  | pending handle =>
    simp only [settledBy, under, Resolver.chain]
    by_cases owned : handle.owner = owner
    · simp only [if_pos owned]
      cases outputs handle.source <;> rfl
    · simp only [if_neg owned]

namespace Context

-- Asking inwards from a diagram and following handles outwards from a leaf
-- give the same value.
theorem resolve_under {context : Context} {index : Nat} {home : Endpoint} {own : Leaf} (outer : Resolver)
    (found : context.home? .inputs index = some home) (located : context.locate home.path = .ok (.leaf own)) :
    ∃ reading, context.resolve index = .ok reading ∧
      reading.under outer = Binding.value? (context.resolverAt outer home.path) own.inputs[home.index]?.join := by
  induction context using Context.induct generalizing outer index home with
  | leaf leaf =>
    obtain ⟨bound, rfl⟩ := home?_leaf.mp found
    cases located
    have bound : index < own.inputs.length := bound
    refine ⟨Reading.ofBinding own.inputs[index], ?_, ?_⟩
    · simp only [resolve, Leaf.input, List.getElem?_eq_getElem bound, Except.map]
    · simp only [resolverAt_nil, List.getElem?_eq_getElem bound, Option.join_some]
      cases own.inputs[index] with
      | none => rfl
      | some binding => cases binding <;> rfl
  | diagram frame subsystems ih =>
    obtain ⟨terminal, entered, below⟩ := home?_diagram.mp found
    obtain ⟨exposed, held, rfl⟩ := Frame.target?_inputs.mp entered
    obtain ⟨child, inner, present, inside, rfl⟩ := Subsystems.terminalHome?_eq_some.mp below
    obtain ⟨other, there, deeper⟩ := locate_cons.mp located
    cases present.symm.trans there
    obtain ⟨reading, resolved, value⟩ := ih _ _ present (.chain frame.id subsystems.output? outer) inside deeper
    refine ⟨reading.settledBy frame.id subsystems.output?, ?_, ?_⟩
    · simp only [resolve, held, Subsystems.resolveAt_eq, present, Option.map_some, Option.getD_some, resolved, Except.map]
    · rw [Reading.under_settledBy, value]
      exact congrArg (Binding.value? · _) (resolverAt_cons present outer inner.path).symm

end Context

theorem Diagram.evaluateInput_home {diagram : Diagram} {input : Terminal} {home : Endpoint} {own : Leaf}
    (closed : diagram.frame.phase = .sealed) (found : diagram.subsystems.terminalHome? .inputs input = some home)
    (located : diagram.context.locate home.path = .ok (.leaf own)) (outer : Resolver) :
    diagram.evaluateInput input outer =
      .ok (Binding.value? (diagram.context.resolverAt outer home.path) own.inputs[home.index]?.join) := by
  obtain ⟨child, inner, present, inside, rfl⟩ := Subsystems.terminalHome?_eq_some.mp found
  obtain ⟨other, held, there⟩ := Context.locate_cons.mp located
  cases present.symm.trans held
  obtain ⟨reading, resolved, value⟩ := Context.resolve_under (diagram.resolver outer) inside there
  rw [Endpoint.under, context, Context.resolverAt_cons present]
  refine Eq.trans ?_ (congrArg Except.ok ((reading.under_settledBy _ _ outer).trans value))
  simp only [evaluateInput, closed, Subsystems.context_eq_ok.mpr present, resolved, Except.map]
  cases reading.settledBy diagram.frame.id diagram.output? <;> rfl

namespace Context

-- What the diagram at a path evaluates an input of a subsystem to, with nothing
-- around the tree; nothing at all where there is no such input.
def evaluateAt (tree : Context) (front : List Nat) (input : Terminal) : Option (Option Value) :=
  match tree.locate front with
  | .ok (.diagram frame subsystems) =>
    ((⟨frame, subsystems⟩ : Diagram).evaluateInput input (tree.resolverAt .nowhere front)).toOption
  | _ => none

theorem evaluateAt_eq {tree : Context} {front : List Nat} {frame : Frame} {subsystems : Subsystems}
    {input : Terminal} {home : Endpoint} (located : tree.locate front = .ok (.diagram frame subsystems))
    (closed : frame.phase = .sealed) (found : subsystems.terminalHome? .inputs input = some home) :
    tree.evaluateAt front input = some (tree.reads (front ++ home.path) home.index) := by
  obtain ⟨own, there, _⟩ := locate_terminalHome frame found
  have whole : tree.locate (front ++ home.path) = .ok (.leaf own) := (locate_append located).mpr there
  have value := @Diagram.evaluateInput_home ⟨frame, subsystems⟩ _ _ _ closed found there (tree.resolverAt .nowhere front)
  simp only [evaluateAt, located, value, Except.toOption]
  rw [reads_leaf whole, resolverAt_append located]
  rfl

theorem copied_observed {α : Type} (observe : Context → α) {tree copied : Context} {outer : Resolver} {serial next : Nat}
    {answer : α} (copies : tree.copy outer serial = .ok (copied, next)) :
    observe copied = answer ↔ (tree.copy outer serial).toOption.map (fun made => observe made.1) = some answer := by
  simp [copies, Except.toOption]

-- A wired input that is exposed and then bound from outside: the wire stays on
-- record although it no longer reaches the input.
def rewired : Context :=
  (((Diagram.create ⟨2⟩ 2 .sequential).context.joined [] 0 (.leaf (.create ⟨0⟩ ⟨1, 1, 0, []⟩ [])) ⟨[none]⟩).joined [] 1
    (.leaf (.create ⟨1⟩ ⟨1, 1, 0, []⟩ [])) ⟨[none]⟩).actAll
    [([], .connect ⟨0, 0⟩ ⟨1, 0⟩), ([], .exposeInput ⟨1, 0⟩), ([], .finishBuilding), ([], .setOutput ⟨0, 0⟩ (.int32 1)),
      ([], .change (.bind 0 (some (.free (.int32 5)))))]

theorem rewired_built : Built .any rewired :=
  ((Built.diagram.joined .leaf (by decide) [] 0 ⟨[none]⟩).joined .leaf (by decide) [] 1 ⟨[none]⟩).actAll
    _ (fun _ _ => trivial)

end Context

def Diagram.rewired : Diagram := Context.rewired.diagram?.get (by decide +kernel)

theorem Diagram.context_rewired : Diagram.rewired.context = Context.rewired := Context.context_get _

theorem Context.rewired_sealed : Context.rewired.Sealed := by decide +kernel

-- Every finished tree can be copied, and an input of it reads the same in the
-- copy exactly if no wire is played back into it, or the wire played back last
-- carries the value that is read there anyway.
theorem Built.copy_evaluates_iff {tree : Context} (built : Built .any tree) (closed : tree.Sealed) (serial : Nat) :
    ∃ copied next, tree.copy .nowhere serial = .ok (copied, next) ∧
      ∀ front frame subsystems input, tree.locate front = .ok (.diagram frame subsystems) →
        subsystems.HasInput input →
        ∃ home, subsystems.terminalHome? .inputs input = some home ∧
          (copied.evaluateAt front input = tree.evaluateAt front input ↔
            ∀ value, tree.replayed? (front ++ home.path) home.index = some value →
              value = tree.reads (front ++ home.path) home.index) := by
  have sound := built.wellFormed
  obtain ⟨copied, next, done⟩ := tree.copy_succeeds sound closed .nowhere serial
  refine ⟨copied, next, done, fun front frame subsystems input located has => ?_⟩
  have around : (Context.diagram frame subsystems).WellFormed := Context.Everywhere.below sound located
  have finished : (Context.diagram frame subsystems).Sealed := Context.Everywhere.below closed located
  obtain ⟨home, found⟩ := Subsystems.terminalHome?_exists (fun _ _ held => around.child held) has
  obtain ⟨later, others, there, sealedThere, homes⟩ := Context.copy_locate done located
  refine ⟨home, found, ?_⟩
  obtain ⟨own, below, bound⟩ := Context.locate_terminalHome frame found
  have whole : tree.locate (front ++ home.path) = .ok (.leaf own) := (Context.locate_append located).mpr below
  obtain ⟨leaf, copy, _, reads⟩ := Context.copy_resolves sound done whole bound
  have copied_reads : copied.reads (front ++ home.path) home.index =
      (tree.replayed? (front ++ home.path) home.index).getD (tree.reads (front ++ home.path) home.index) := by
    rw [Context.reads_leaf copy, Context.reads_leaf whole]
    exact reads .nowhere
  rw [Context.evaluateAt_eq there sealedThere (homes _ _ found), Context.evaluateAt_eq located finished.frame found,
    copied_reads, Option.some.injEq]
  cases tree.replayed? (front ++ home.path) home.index with
  | none => exact ⟨fun _ value same => (nomatch same), fun _ => rfl⟩
  | some value => exact ⟨fun same other here => Option.some.inj here ▸ same, fun all => all value rfl⟩

theorem Built.copy_evaluates_wire :
    ∃ tree copied next, Built .any tree ∧ tree.Sealed ∧ tree.copy .nowhere 3 = .ok (copied, next) ∧
      tree.evaluateAt [] ⟨1, 0⟩ = some (some (.int32 5)) ∧ copied.evaluateAt [] ⟨1, 0⟩ = some (some (.int32 1)) := by
  obtain ⟨copied, next, copies⟩ :=
    Context.copy_succeeds Context.rewired Context.rewired_built.wellFormed Context.rewired_sealed .nowhere 3
  exact ⟨_, copied, next, Context.rewired_built, Context.rewired_sealed, copies, by decide +kernel,
    (Context.copied_observed (·.evaluateAt [] ⟨1, 0⟩) copies).mpr (by decide +kernel)⟩

theorem Built.copy_evaluates_iff_rewired :
    ∃ copied next, Context.rewired.Sealed ∧ Context.rewired.copy .nowhere 3 = .ok (copied, next) ∧
      copied.evaluateAt [] ⟨1, 0⟩ ≠ Context.rewired.evaluateAt [] ⟨1, 0⟩ := by
  obtain ⟨copied, next, copies, all⟩ := Built.copy_evaluates_iff Context.rewired_built Context.rewired_sealed 3
  refine ⟨copied, next, Context.rewired_sealed, copies, fun same => ?_⟩
  have located : Context.rewired.locate [] = .ok Diagram.rewired.context := by
    rw [Diagram.context_rewired, Context.locate_nil]
  obtain ⟨home, found, same_iff⟩ := all [] _ _ ⟨1, 0⟩ located (by decide +kernel)
  obtain rfl : home = ⟨[1], 0⟩ := Option.some.inj (found.symm.trans (by decide +kernel))
  exact absurd (same_iff.mp same (Value.int32 1) (by decide +kernel)) (by decide +kernel)

end BlockDiagram
