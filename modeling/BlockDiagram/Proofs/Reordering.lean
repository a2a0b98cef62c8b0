import BlockDiagram.Proofs.Quiet

namespace BlockDiagram

section
variable {σ α : Type} {step : σ → α → σ} {calm : α → Prop}
  (swap : ∀ state first second, calm first → calm second →
    step (step state first) second = step (step state second) first)
  (again : ∀ state item, calm item → step (step state item) item = step state item)
include swap again

theorem foldl_absorb {items : List α} (all : ∀ item ∈ items, calm item) {item : α} (member : item ∈ items) (state : σ) :
    items.foldl step (step state item) = items.foldl step state := by
  induction items generalizing state with
  | nil => cases member
  | cons head rest ih =>
    rcases List.mem_cons.mp member with rfl | later
    · rw [List.foldl_cons, again state item (all item member), List.foldl_cons]
    · rw [List.foldl_cons, List.foldl_cons, swap state item head (all item member) (all head List.mem_cons_self)]
      exact ih (fun other inside => all other (List.mem_cons_of_mem _ inside)) later _

theorem foldl_within {few many : List α} (all : ∀ item ∈ many, calm item) (within : ∀ item ∈ few, item ∈ many)
    (state : σ) : many.foldl step (few.foldl step state) = many.foldl step state := by
  induction few generalizing state with
  | nil => rfl
  | cons head rest ih =>
    rw [List.foldl_cons, ih (fun item member => within item (List.mem_cons_of_mem _ member))]
    exact foldl_absorb swap again all (within head List.mem_cons_self) state

theorem foldl_members {left right : List α} (all : ∀ item ∈ left, calm item)
    (same : ∀ item, item ∈ left ↔ item ∈ right) (state : σ) : left.foldl step state = right.foldl step state := by
  have others : ∀ item ∈ right, calm item := fun item member => all item ((same item).mpr member)
  calc left.foldl step state
      = left.foldl step (right.foldl step state) :=
        (foldl_within swap again all (fun item member => (same item).mpr member) state).symm
    _ = (right ++ left).foldl step state := List.foldl_append.symm
    _ = (left ++ right).foldl step state := by
        refine List.Perm.foldl_eq' List.perm_append_comm (fun first one second two state => ?_) state
        have calm : ∀ item ∈ right ++ left, calm item :=
          fun item member => (List.mem_append.mp member).elim (others item) (all item)
        exact swap state first second (calm first one) (calm second two)
    _ = right.foldl step (left.foldl step state) := List.foldl_append
    _ = right.foldl step state := foldl_within swap again others (fun item member => (same item).mp member) state

end

namespace Cache

theorem affected_clear (cache : Cache) (cleared : Ticket) : (cache.clear cleared).affected = cache.affected := by
  have dependents : (cache.clear cleared).dependents = cache.dependents := funext (dependents_clear cache cleared)
  have tickets : (cache.clear cleared).tickets = cache.tickets := by simp only [tickets, size_clear]
  funext ticket
  simp only [affected, dependents, tickets]

theorem lines_clear (cache : Cache) (ticket : Ticket) (index : Nat) :
    (cache.clear ticket).lines[index]? = cache.lines[index]?.map
      (fun line => if ⟨index⟩ ∈ cache.affected ticket then { line with value := none } else line) := by
  simp only [clear, List.getElem?_mapIdx]

theorem clear_swap (cache : Cache) (first second : Ticket) :
    (cache.clear first).clear second = (cache.clear second).clear first := by
  refine congrArg Cache.mk (List.ext_getElem? (fun index => ?_))
  show ((cache.clear first).clear second).lines[index]? = ((cache.clear second).clear first).lines[index]?
  simp only [lines_clear, affected_clear, Option.map_map]
  congr 1
  funext line
  simp only [Function.comp_apply]
  split <;> split <;> rfl

theorem clear_again (cache : Cache) (ticket : Ticket) : (cache.clear ticket).clear ticket = cache.clear ticket := by
  refine congrArg Cache.mk (List.ext_getElem? (fun index => ?_))
  show ((cache.clear ticket).clear ticket).lines[index]? = (cache.clear ticket).lines[index]?
  simp only [lines_clear, affected_clear, Option.map_map]
  congr 1
  funext line
  simp only [Function.comp_apply]
  split <;> rfl

end Cache

namespace Leaf

theorem receive_swap (own : Leaf) (first second : Change) (calm : first.Quiet) (quiet : second.Quiet) :
    (own.receive first).receive second = (own.receive second).receive first := by
  cases first with
  | invalidateInput index =>
    cases second with
    | invalidateInput other => simp [receive, disturb, Cache.clear_swap _ (inputTicket index)]
    | mark place fresh => cases quiet; simp [receive, disturb, List.map_set]
    | _ => exact quiet.elim
  | mark index fresh =>
    cases calm
    cases second with
    | invalidateInput other => simp [receive, disturb, List.map_set]
    | mark place fresh =>
      cases quiet
      by_cases same : index = place
      · rw [same]
      · simp [receive, List.set_comm _ _ same]
    | _ => exact quiet.elim
  | _ => exact calm.elim

theorem receive_again (own : Leaf) (change : Change) (quiet : change.Quiet) :
    (own.receive change).receive change = own.receive change := by
  cases change with
  | invalidateInput index => simp [receive, disturb, Cache.clear_again]
  | mark index fresh => simp [receive]
  | _ => exact quiet.elim

end Leaf

namespace Frame

theorem receive_swap (frame : Frame) (first second : Change) (calm : first.Quiet) (quiet : second.Quiet) :
    (frame.receive first).receive second = (frame.receive second).receive first := by
  cases first with
  | invalidateInput index =>
    cases second with
    | invalidateInput other =>
      have kept : ∀ ticket, (frame.clear ticket).input = frame.input := fun _ => rfl
      cases one : frame.input index <;> cases two : frame.input other <;> simp only [receive, one, two, kept]
      simp only [clear, Cache.clear_swap frame.cache]
    | mark => rfl
    | _ => exact quiet.elim
  | mark => cases second <;> rfl
  | _ => exact calm.elim

theorem receive_again (frame : Frame) (change : Change) (quiet : change.Quiet) :
    (frame.receive change).receive change = frame.receive change := by
  cases change with
  | invalidateInput index =>
    simp only [receive]
    cases found : frame.input index with
    | error => simp only [found]
    | ok exposed =>
      have kept : (frame.clear exposed.ticket).input index = .ok exposed := found
      simp only [kept]
      simp only [clear, Cache.clear_again]
  | mark => rfl
  | _ => exact quiet.elim

end Frame

-- What quiet mail does is settled by which changes it contains.
theorem Context.receive_members {context : Context} {left right : List Change}
    (quiet : ∀ change ∈ left, change.Quiet) (same : ∀ change, change ∈ left ↔ change ∈ right) :
    context.receive left = context.receive right := by
  induction context using Context.induct generalizing left right with
  | leaf own =>
    exact congrArg Context.leaf (foldl_members Leaf.receive_swap Leaf.receive_again quiet same own)
  | diagram frame subsystems ih =>
    have top : left.foldl Frame.receive frame = right.foldl Frame.receive frame :=
      foldl_members Frame.receive_swap Frame.receive_again quiet same frame
    rw [receive, receive, top]
    refine congrArg (Context.diagram _) (Subsystems.ext ?_ (fun system => ?_) (fun system => ?_))
    · simp only [Subsystems.size_receive]
    · rw [Subsystems.context?_receive, Subsystems.context?_receive]
      cases present : subsystems.context? system with
      | none => rfl
      | some child =>
        refine congrArg some (ih system child present ?_ (fun change => ?_))
        · have hop := @mailTo_quiet (.diagram frame subsystems) left [system] quiet
          rwa [mailTo_cons present, mailTo_nil] at hop
        · simp only [mem_addressed_mail, same]
    · simp only [Subsystems.buffer?_receive]

-- The same wires, with the inputs fed by an output in whatever order.
structure Wiring.Alike (wiring later : Wiring) : Prop where
  sources : later.sources = wiring.sources
  fed : ∀ output, (later.inputsOf output).Perm (wiring.inputsOf output)

structure Frame.Alike (frame later : Frame) : Prop where
  phase : later.phase = frame.phase
  concurrency : later.concurrency = frame.concurrency
  time : later.time = frame.time
  inputs : later.inputs = frame.inputs
  outputs : later.outputs = frame.outputs
  wiring : frame.wiring.Alike later.wiring
  composite : later.composite = frame.composite
  cache : later.cache = frame.cache

namespace Frame
variable {frame later : Frame} {layout : Layout}

-- A diagram's mail in parts: what it propagates is all that depends on the wires.
def Parted (frame : Frame) (layout : Layout) (change : Change) (front back : Mail) : Prop :=
  ∀ later : Frame, later.inputs = frame.inputs → later.outputs = frame.outputs → later.composite = frame.composite →
    later.mail layout change = front ++ (later.ripple layout (frame.disturbed layout change) ++ back)

theorem parted (frame : Frame) (layout : Layout) (change : Change) :
    ∃ front back, frame.Parted layout change front back := by
  have unspread : frame.disturbed layout change = [] →
      (∀ later : Frame, later.inputs = frame.inputs → later.outputs = frame.outputs →
        later.composite = frame.composite → later.mail layout change = frame.mail layout change) →
      ∃ front back, frame.Parted layout change front back := by
    intro none sent
    refine ⟨frame.mail layout change, [], fun later inputs outputs composite => ?_⟩
    rw [sent later inputs outputs composite, none, ripple_nil, List.append_nil, List.append_nil]
  have broadcast : frame.disturbed layout change = layout.buffered →
      (∀ later : Frame, later.mail layout change = later.broadcast layout change) →
      ∃ front back, frame.Parted layout change front back := by
    intro start sent
    refine ⟨layout.present.map (fun system => (system, change)), [], fun later _ _ _ => ?_⟩
    rw [sent, start, List.append_nil]
    rfl
  have inward : ∀ (index : Nat) (told : Nat → Change),
      frame.disturbed layout change = frame.disturbed layout (.invalidateInput index) →
      (∀ later : Frame, later.mail layout change = later.inward layout index told) →
      ∃ front back, frame.Parted layout change front back := by
    intro index told start sent
    cases found : frame.input index with
    | ok exposed =>
      refine ⟨[(exposed.terminal.system, told exposed.terminal.index)], [], fun later inputs _ _ => ?_⟩
      have entered : later.input index = .ok exposed := by rw [← found]; simp only [input, inputs]
      rw [sent, start]
      simp only [disturbed, Frame.inward, entered, found, List.append_nil, List.singleton_append]
    | error refusal =>
      refine unspread (by rw [start]; simp only [disturbed, found]) (fun later inputs _ _ => ?_)
      have entered : later.input index = .error refusal := by rw [← found]; simp only [input, inputs]
      simp only [sent, Frame.inward, entered, found]
  cases change with
  | setTime | invalidateTime | invalidateState => exact broadcast rfl (fun _ => rfl)
  | invalidateInput index => exact inward index .invalidateInput rfl (fun _ => rfl)
  | bind index binding => exact inward index (.bind · binding) rfl (fun _ => rfl)
  | openEntry partition index =>
    cases found : frame.composite.slot? partition index with
    | some slot =>
      refine ⟨[], [(slot.system, .openEntry partition slot.index)], fun later _ _ composite => ?_⟩
      simp only [mail, composite, found, disturbed, List.nil_append]
    | none =>
      refine unspread (by simp only [disturbed, found]) (fun later _ _ composite => ?_)
      simp only [mail, composite, found]
  | rebind | mark | storeEntry =>
    refine unspread rfl (fun later inputs outputs composite => ?_)
    simp only [mail, input, output, inputs, outputs, composite]

namespace Alike

theorem mem_inputsOf (alike : frame.Alike later) {output input : Terminal} :
    input ∈ later.wiring.inputsOf output ↔ input ∈ frame.wiring.inputsOf output :=
  (alike.wiring.fed output).mem_iff

theorem mem_downstream (alike : frame.Alike later) {start : List Terminal} {output : Terminal} :
    output ∈ later.downstream layout start ↔ output ∈ frame.downstream layout start := by
  simp only [Frame.mem_downstream, mem_fedBy, alike.mem_inputsOf]

theorem mem_ripple (alike : frame.Alike later) {start : List Terminal} {item : Nat × Change} :
    item ∈ later.ripple layout start ↔ item ∈ frame.ripple layout start := by
  simp only [Frame.mem_ripple, mem_invalidations, alike.mem_downstream, alike.mem_inputsOf]

theorem reachedOutputs (alike : frame.Alike later) (start : List Terminal) :
    later.reachedOutputs layout start = frame.reachedOutputs layout start := by
  simp only [Frame.reachedOutputs, alike.outputs, alike.mem_downstream]

theorem mem_mail (alike : frame.Alike later) {change : Change} {item : Nat × Change} :
    item ∈ later.mail layout change ↔ item ∈ frame.mail layout change := by
  obtain ⟨front, back, parted⟩ := frame.parted layout change
  rw [parted later alike.inputs alike.outputs alike.composite, parted frame rfl rfl rfl]
  simp only [List.mem_append, alike.mem_ripple]

-- A subsystem cannot tell from its mail in which order the wires are recorded.
theorem receive_ripple (alike : frame.Alike later) (start : List Terminal) (system : Nat) (context : Context) :
    context.receive (Mail.addressed (later.ripple layout start) system) =
      context.receive (Mail.addressed (frame.ripple layout start) system) := by
  refine Context.receive_members (fun change member => ?_) (fun change => ?_)
  · exact ripple_quiet (Mail.mem_addressed.mp member)
  · simp only [Mail.mem_addressed, alike.mem_ripple]

theorem receive_mail (alike : frame.Alike later) (changes : List Change) (system : Nat) (context : Context) :
    context.receive (Mail.addressed (changes.flatMap (later.mail layout)) system) =
      context.receive (Mail.addressed (changes.flatMap (frame.mail layout)) system) := by
  induction changes generalizing context with
  | nil => rfl
  | cons change rest ih =>
    -- What surrounds the propagated part is the same for both, and stays in order.
    obtain ⟨front, back, parted⟩ := frame.parted layout change
    simp only [List.flatMap_cons, parted later alike.inputs alike.outputs alike.composite,
      parted frame rfl rfl rfl, Mail.addressed_append, Context.receive_append, alike.receive_ripple, ih]

theorem receive (alike : frame.Alike later) (change : Change) : (frame.receive change).Alike (later.receive change) := by
  have cleared : ∀ ticket, (frame.clear ticket).Alike (later.clear ticket) :=
    fun ticket => { alike with cache := congrArg (Cache.clear · ticket) alike.cache }
  cases change with
  | setTime time => exact { cleared timeTicket with time := rfl }
  | invalidateTime => exact cleared timeTicket
  | invalidateState => exact cleared stateTicket
  | invalidateInput index | bind index =>
    have same : later.input index = frame.input index := by simp only [input, alike.inputs]
    simp only [Frame.receive, same]
    split
    · exact cleared _
    · exact alike
  | openEntry partition index =>
    simp only [Frame.receive, alike.composite]
    split
    · exact cleared _
    · exact alike
  | _ => exact alike

theorem receiveAll (alike : frame.Alike later) (changes : List Change) :
    (changes.foldl Frame.receive frame).Alike (changes.foldl Frame.receive later) := by
  induction changes generalizing frame later with
  | nil => exact alike
  | cons change rest ih => exact ih (alike.receive change)

end Alike
end Frame
end BlockDiagram
