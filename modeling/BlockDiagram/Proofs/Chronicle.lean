import BlockDiagram.Proofs.Ledger
import BlockDiagram.Proofs.Usable
import BlockDiagram.Proofs.Replay

namespace BlockDiagram

-- With an operation goes what the inputs of the diagram stood for at the time.
inductive Deed where
  | added (system : Nat) (own : Leaf) (buffer : OutputBuffer)
  | performed (exposed : List Terminal) (operation : Operation)

namespace Deed

def binds? (owner : ContextId) (input : Terminal) : Deed → Option (Option Binding)
  | .added system own _ => if system = input.system then own.inputs[input.index]? else none
  | .performed _ (.connect output target) =>
    if target = input then some (some (.dependent ⟨owner, output⟩)) else none
  | .performed exposed (.change (.bind index binding)) => if exposed[index]? = some input then some binding else none
  | _ => none

def rebinds? (input : Terminal) : Deed → Option (Option Binding)
  | .performed exposed (.change (.rebind index binding)) => if exposed[index]? = some input then some binding else none
  | _ => none

def feeds? (owner : ContextId) (input : Terminal) (deed : Deed) : Option (Option Binding) :=
  (deed.binds? owner input).or (deed.rebinds? input)

def stores? (output : Terminal) : Deed → Option (Option Value)
  | .added system _ buffer => if system = output.system then buffer.cell? output.index else none
  | .performed _ (.setOutput target value) => if target = output then some (some value) else none
  | _ => none

def stored? (history : List Deed) (output : Terminal) : Option Value := (history.findSome? (stores? output)).join

-- What an input reads if `writes` tells which deeds bound it.
def reading (owner : ContextId) (history : List Deed) (writes : Deed → Option (Option Binding)) : Option Value :=
  match (history.findSome? writes).join with
  | some (.free value) => some value
  | some (.dependent handle) => if handle.owner = owner then stored? history handle.source else none
  | none => none

variable {owner : ContextId} {input output : Terminal} {operation : Operation} {exposed : List Terminal}

theorem feeds?_added {system : Nat} {own : Leaf} {buffer : OutputBuffer} :
    (added system own buffer).feeds? owner input =
      if system = input.system then own.inputs[input.index]? else none := by
  simp [feeds?, binds?, rebinds?]

theorem feeds?_connect {target : Terminal} :
    (performed exposed (.connect output target)).feeds? owner input =
      if target = input then some (some (.dependent ⟨owner, output⟩)) else none := by
  simp [feeds?, binds?, rebinds?]

theorem feeds?_unwritten (silent : ¬ operation.Writes) : (performed exposed operation).feeds? owner input = none := by
  cases operation with
  | connect => exact (silent trivial).elim
  | change asked =>
    cases asked with
    | bind | rebind => exact (silent rfl).elim
    | _ => rfl
  | _ => rfl

theorem feeds?_change {asked : Change} {index : Nat} {binding : Option Binding}
    (writes : asked.write? = some (index, binding)) :
    (performed exposed (.change asked)).feeds? owner input =
      if exposed[index]? = some input then some binding else none := by
  cases asked with
  | bind | rebind => cases writes; simp [feeds?, binds?, rebinds?]
  | _ => cases writes

-- A deed that neither binds an input nor stores what its wire starts from does not concern it.
theorem reading_unconcerned {history : List Deed} {deed : Deed} {writes : Deed → Option (Option Binding)}
    (unbound : writes deed = none)
    (unstored : ∀ source, history.findSome? writes = some (some (.dependent ⟨owner, source⟩)) →
      deed.stores? source = none) : reading owner (deed :: history) writes = reading owner history writes := by
  rw [reading, reading, List.findSome?_cons, unbound]
  match found : history.findSome? writes with
  | none | some none | some (some (.free value)) => rfl
  | some (some (.dependent ⟨other, source⟩)) =>
    by_cases owned : other = owner
    · subst owned
      simp only [Option.join_some, if_true, stored?, List.findSome?_cons, unstored source found]
    · simp only [Option.join_some, if_neg owned]

theorem stores?_unstored (unstored : ∀ target value, operation ≠ .setOutput target value) :
    (performed exposed operation).stores? output = none := by
  cases operation with
  | setOutput target value => exact absurd rfl (unstored target value)
  | _ => rfl

end Deed

def Terminal.port (input : Terminal) : Endpoint := ⟨[input.system], input.index⟩

theorem Terminal.port_inj {first second : Terminal} : first.port = second.port ↔ first = second := by
  cases first
  cases second
  simp [port]

def Diagram.exposed (diagram : Diagram) : List Terminal := diagram.frame.inputs.map (·.terminal)

-- What a diagram of leaves can have become by its own operations, and how.
inductive Chronicle : Diagram → List Deed → Prop where
  | created {id : ContextId} {places : Nat} {concurrency : Concurrency} :
    Chronicle (.create id places concurrency) []
  | added {diagram after : Diagram} {history : List Deed} {system : Nat} {own : Leaf} {buffer : OutputBuffer}
    (chronicle : Chronicle diagram history) (joining : Built .any (.leaf own))
    (added : diagram.add system (.leaf own) buffer = .done () after) :
    Chronicle after (.added system own buffer :: history)
  | declined {diagram after : Diagram} {history : List Deed} {system : Nat} {other : Context} {buffer : OutputBuffer}
    {refusal : Refusal} (chronicle : Chronicle diagram history)
    (declined : diagram.add system other buffer = .refused refusal after) : Chronicle after history
  | performed {diagram after : Diagram} {history : List Deed} {operation : Operation} {answer : Answer}
    (chronicle : Chronicle diagram history)
    (done : diagram.context.perform operation = .done answer after.context) :
    Chronicle after (.performed diagram.exposed operation :: history)
  | refused {diagram after : Diagram} {history : List Deed} {operation : Operation} {refusal : Refusal}
    (chronicle : Chronicle diagram history)
    (refused : diagram.context.perform operation = .refused refusal after.context) : Chronicle after history

namespace Diagram
variable {diagram after : Diagram} {operation : Operation}

theorem flat_created (id : ContextId) (places : Nat) (concurrency : Concurrency) :
    (create id places concurrency).Flat := by
  intro system child present
  have located : (create id places concurrency).context.locate [system] = .ok child :=
    Context.locate_cons.mpr ⟨child, present, Context.locate_nil _⟩
  cases (Built.locate_create located).1

theorem Flat.effect (flat : diagram.Flat) (effect : Effect diagram.context operation after.context) : after.Flat := by
  intro system child present
  have there : after.context.locate [system] = .ok child :=
    Context.locate_cons.mpr ⟨child, present, Context.locate_nil _⟩
  obtain ⟨found, located⟩ := effect.covers [system] child there
  obtain ⟨before, held, _⟩ := Context.locate_cons.mp located
  obtain ⟨own, rfl⟩ := flat system before held
  obtain ⟨later, arrived, grows⟩ := Context.Along.child effect.grows held
  cases present.symm.trans arrived
  cases child with
  | leaf own => exact ⟨own, rfl⟩
  | diagram => exact grows.here.elim

theorem Flat.terminalHome? (flat : diagram.Flat) {input : Terminal} (has : diagram.subsystems.HasInput input) :
    diagram.subsystems.terminalHome? .inputs input = some input.port := by
  obtain ⟨child, present, bound⟩ := has
  obtain ⟨own, rfl⟩ := flat _ _ present
  exact Subsystems.terminalHome?_eq_some.mpr
    ⟨_, ⟨[], input.index⟩, present, Context.home?_leaf.mpr ⟨bound, rfl⟩, rfl⟩

theorem Flat.home? (flat : diagram.Flat) (sound : diagram.context.WellFormed) (index : Nat) :
    diagram.context.home? .inputs index = diagram.exposed[index]?.map Terminal.port := by
  have frame : diagram.frame.Sound diagram.subsystems := sound.frame
  rw [exposed, List.getElem?_map]
  cases entered : diagram.frame.inputs[index]? with
  | none => simp [context, Context.home?, Numbering.inputs, entered]
  | some item =>
    have has := frame.exposed item (List.mem_of_getElem? entered)
    exact Context.home?_diagram.mpr ⟨item.terminal, Frame.target?_inputs.mpr
      ⟨item, Frame.input_eq_ok.mpr entered, rfl⟩, flat.terminalHome? has⟩

theorem output?_effect (effect : Effect diagram.context operation after.context)
    (silent : ∀ output value, operation ≠ .setOutput output value) :
    after.output? = diagram.output? := by
  have buffers : ∀ system, after.subsystems.buffer? system = diagram.subsystems.buffer? system := by
    intro system
    obtain ⟨frame, subsystems⟩ := diagram
    obtain ⟨later, others⟩ := after
    simp only [context] at effect ⊢
    generalize reached : Context.diagram later others = found at effect
    cases effect with
    | stored => exact absurd rfl (silent _ _)
    | received | connected | told =>
      cases reached
      exact Subsystems.buffer?_receive _ _ _
    | _ =>
      cases reached
      rfl
  funext output
  rw [Diagram.output?, Diagram.output?, Subsystems.output?, buffers]
  rfl

theorem closed_effect (effect : Effect diagram.context operation after.context)
    (closed : diagram.frame.phase = .sealed) : after.frame.phase = .sealed := by
  obtain ⟨frame, subsystems⟩ := diagram
  obtain ⟨later, others⟩ := after
  simp only [context] at effect ⊢
  generalize reached : Context.diagram later others = found at effect
  cases effect with
  | @received _ _ changes =>
    cases reached
    have phase := (Frame.Steady.receiveAll frame changes).phase
    exact phase.trans closed
  | finished =>
    cases reached
    rfl
  | _ =>
    cases reached
    exact closed

theorem hasInput_effect (effect : Effect diagram.context operation after.context) {input : Terminal}
    (has : diagram.subsystems.HasInput input) : after.subsystems.HasInput input := by
  obtain ⟨child, present, bound⟩ := has
  obtain ⟨later, arrived, grows⟩ := Context.Along.child effect.grows present
  exact ⟨later, arrived, Nat.lt_of_lt_of_le bound grows.here.inputCount⟩

theorem add_bound {system : Nat} {own : Leaf} {buffer : OutputBuffer}
    (added : diagram.add system (.leaf own) buffer = .done () after) (input : Terminal) :
    after.context.installed? input.port = ((Deed.added system own buffer).feeds? diagram.frame.id input).or
      (diagram.context.installed? input.port) := by
  obtain ⟨_, place, vacant, rfl⟩ := add_done added
  rw [Deed.feeds?_added, context, context, Terminal.port, Context.installed?_below, Context.installed?_below,
    Subsystems.context?_install]
  by_cases here : input.system = system
  · rw [if_pos ⟨here, place⟩, if_pos here.symm, here, vacant]
    exact Option.or_none.symm
  · rw [if_neg (fun both => here both.1), if_neg (fun same => here same.symm)]
    rfl

theorem add_output {system : Nat} {own : Leaf} {buffer : OutputBuffer}
    (added : diagram.add system (.leaf own) buffer = .done () after) (output : Terminal) :
    after.output? output = ((Deed.added system own buffer).stores? output).getD (diagram.output? output) := by
  obtain ⟨_, place, vacant, rfl⟩ := add_done added
  rw [Diagram.output?, Diagram.output?, Subsystems.output?, Subsystems.output?, Subsystems.buffer?_install, Deed.stores?]
  by_cases here : output.system = system
  · have unbuffered : diagram.subsystems.buffer? output.system = none := by
      rw [here, ← Option.not_isSome_iff_eq_none, Subsystems.isSome_buffer?, vacant]
      exact Bool.false_ne_true
    rw [if_pos ⟨here, place⟩, if_pos here.symm, unbuffered]
    show (buffer.cell? output.index).join = (buffer.cell? output.index).getD none
    cases buffer.cell? output.index <;> rfl
  · rw [if_neg (fun both => here both.1), if_neg (fun same => here same.symm)]
    rfl

theorem connect_bound (sound : diagram.context.WellFormed) (flat : diagram.Flat) {output target : Terminal}
    {answer : Answer} (done : diagram.context.perform (.connect output target) = .done answer after.context)
    (input : Terminal) :
    after.context.installed? input.port =
      if target = input then some (some (diagram.bindingTo output)) else diagram.context.installed? input.port := by
  obtain ⟨has, drawn⟩ := connect_performed sound done
  have held := Context.installed?_bound diagram.frame after.frame diagram.subsystems target
    (some (diagram.bindingTo output)) input.port
  simp only [flat.terminalHome? has, Option.some.injEq, Terminal.port_inj] at held
  rw [drawn] at held ⊢
  exact held

theorem change_bound (sound : diagram.context.WellFormed) (flat : diagram.Flat) {asked : Change} {answer : Answer}
    {index : Nat} {binding : Option Binding} (writes : asked.write? = some (index, binding))
    (done : diagram.context.perform (.change asked) = .done answer after.context) (input : Terminal) :
    after.context.installed? input.port =
      if diagram.exposed[index]? = some input then some binding else diagram.context.installed? input.port := by
  rw [change_performed done, Context.installed?_written writes, flat.home? sound index]
  refine if_congr ?_ rfl rfl
  simp only [Option.map_eq_some_iff, Terminal.port_inj, exists_eq_right]

theorem performed_bound (sound : diagram.context.WellFormed) (flat : diagram.Flat) {answer : Answer}
    (done : diagram.context.perform operation = .done answer after.context) (input : Terminal) :
    after.context.installed? input.port = ((Deed.performed diagram.exposed operation).feeds? diagram.frame.id input).or
      (diagram.context.installed? input.port) := by
  by_cases writes : operation.Writes
  · cases operation with
    | connect output target =>
      rw [connect_bound sound flat done, Deed.feeds?_connect]
      split <;> rfl
    | change asked =>
      obtain ⟨⟨index, binding⟩, asks⟩ := Option.isSome_iff_exists.mp writes
      rw [change_bound sound flat asks done, Deed.feeds?_change asks]
      split <;> rfl
    | _ => exact writes.elim
  · have effect := Context.perform_effect sound (congrArg Outcome.left? done)
    rw [Deed.feeds?_unwritten writes, (unwritten effect writes).1]
    rfl

theorem setOutput_output (sound : diagram.context.WellFormed) {output : Terminal} {value : Value} {answer : Answer}
    (done : diagram.context.perform (.setOutput output value) = .done answer after.context) (other : Terminal) :
    after.output? other = if output = other then some value else diagram.output? other := by
  rw [Context.perform] at done
  obtain ⟨changed, stored, _⟩ := Outcome.map_eq_done.mp (Context.onDiagram_done done)
  obtain ⟨buffer, held, bound, rfl⟩ := setOutput_done sound stored
  rw [Diagram.output?, Subsystems.output?_receive, Subsystems.output?_write _ held bound]
  simp only [eq_comm, Diagram.output?]

theorem performed_output (sound : diagram.context.WellFormed) {answer : Answer}
    (done : diagram.context.perform operation = .done answer after.context) (output : Terminal) :
    after.output? output = ((Deed.performed diagram.exposed operation).stores? output).getD (diagram.output? output) := by
  by_cases stores : ∃ target value, operation = .setOutput target value
  · obtain ⟨target, value, rfl⟩ := stores
    rw [setOutput_output sound done, Deed.stores?]
    split <;> rfl
  · have unstored : ∀ target value, operation ≠ .setOutput target value :=
      fun target value same => stores ⟨target, value, same⟩
    have effect := Context.perform_effect sound (congrArg Outcome.left? done)
    rw [output?_effect effect unstored, Deed.stores?_unstored unstored]
    rfl

theorem refused_silent (sound : diagram.context.WellFormed) {refusal : Refusal}
    (refused : diagram.context.perform operation = .refused refusal after.context) :
    (¬ operation.Writes ∧ ∀ output value, operation ≠ .setOutput output value) ∨ after = diagram := by
  by_cases guarded : operation.Guarded
  · exact .inr (context_injective (Context.perform_refused sound guarded refused))
  · cases operation with
    | edit => exact .inl ⟨id, fun _ _ same => Operation.noConfusion same⟩
    | _ => exact absurd trivial guarded

theorem Flat.evaluateInput (flat : diagram.Flat) (closed : diagram.frame.phase = .sealed) {input : Terminal}
    (has : diagram.subsystems.HasInput input) :
    diagram.evaluateInput input .nowhere =
      .ok (Binding.value? (diagram.resolver .nowhere) (diagram.context.installed? input.port).join) := by
  obtain ⟨own, located, _⟩ := Context.locate_terminalHome diagram.frame (flat.terminalHome? has)
  obtain ⟨child, present, _⟩ := Context.locate_cons.mp located
  have held : diagram.context.installed? input.port = own.inputs[input.index]? := by
    simp only [Context.installed?, context, located]
    rfl
  rw [evaluateInput_home closed (flat.terminalHome? has) located, held, context, Terminal.port,
    Context.resolverAt_cons present, Context.resolverAt_nil]
  rfl

end Diagram

-- A chronicle tells what each input is bound to and what is stored on each output.
structure Recounted (diagram : Diagram) (history : List Deed) : Prop where
  sound : diagram.context.WellFormed
  flat : diagram.Flat
  bound : ∀ input, diagram.context.installed? input.port = history.findSome? (Deed.feeds? diagram.frame.id input)
  stored : ∀ output, diagram.output? output = Deed.stored? history output

namespace Recounted
variable {diagram after : Diagram} {history : List Deed} {operation : Operation}

theorem created {id : ContextId} {places : Nat} {concurrency : Concurrency} :
    Recounted (.create id places concurrency) [] where
  sound := (@Built.diagram .any id places concurrency).wellFormed
  flat := Diagram.flat_created id places concurrency
  bound := fun input => by
    refine Context.installed?_none (fun own located => ?_)
    cases (Built.locate_create located).1
  stored := fun output => by
    cases held : (Diagram.create id places concurrency).subsystems.buffer? output.system with
    | none => simp [Diagram.output?, Subsystems.output?, held, Deed.stored?]
    | some buffer =>
      obtain ⟨child, present⟩ := Subsystems.context?_of_buffer? held
      cases (Built.context?_vacancies _ output.system).symm.trans present

-- A deed that took effect comes before all that was known.
theorem extended (recounted : Recounted diagram history) {deed : Deed} (sound : after.context.WellFormed)
    (flat : after.Flat) (id : after.frame.id = diagram.frame.id)
    (bound : ∀ input, after.context.installed? input.port =
      (deed.feeds? diagram.frame.id input).or (diagram.context.installed? input.port))
    (stored : ∀ output, after.output? output = (deed.stores? output).getD (diagram.output? output)) :
    Recounted after (deed :: history) where
  sound := sound
  flat := flat
  bound := fun input => by
    rw [bound, id, recounted.bound, List.findSome?_cons]
    cases deed.feeds? diagram.frame.id input <;> rfl
  stored := fun output => by
    rw [stored, recounted.stored, Deed.stored?, Deed.stored?, List.findSome?_cons]
    cases deed.stores? output <;> rfl

theorem added (recounted : Recounted diagram history) {system : Nat} {own : Leaf} {buffer : OutputBuffer}
    (joining : Built .any (.leaf own)) (added : diagram.add system (.leaf own) buffer = .done () after) :
    Recounted after (.added system own buffer :: history) := by
  obtain ⟨_, place, vacant, grown⟩ := Diagram.add_done added
  have sound := Context.wellFormed_install buffer recounted.sound joining.wellFormed vacant
  refine recounted.extended (grown ▸ sound) (fun other child present => ?_) (grown ▸ rfl)
    (Diagram.add_bound added) (Diagram.add_output added)
  rw [grown, Subsystems.context?_install] at present
  split at present
  · cases present
    exact ⟨own, rfl⟩
  · exact recounted.flat other child present

theorem performed (recounted : Recounted diagram history) {answer : Answer}
    (done : diagram.context.perform operation = .done answer after.context) :
    Recounted after (.performed diagram.exposed operation :: history) := by
  have effect := Context.perform_effect recounted.sound (congrArg Outcome.left? done)
  exact recounted.extended (recounted.sound.effect effect) (recounted.flat.effect effect) effect.grows.here.id
    (Diagram.performed_bound recounted.sound recounted.flat done) (Diagram.performed_output recounted.sound done)

theorem refused (recounted : Recounted diagram history) {refusal : Refusal}
    (refused : diagram.context.perform operation = .refused refusal after.context) : Recounted after history := by
  have effect := Context.perform_effect recounted.sound (congrArg Outcome.left? refused)
  rcases Diagram.refused_silent recounted.sound refused with ⟨unwritten, unstored⟩ | same
  · have id : after.frame.id = diagram.frame.id := effect.grows.here.id
    refine ⟨recounted.sound.effect effect, recounted.flat.effect effect, fun input => ?_, fun output => ?_⟩
    · rw [(Diagram.unwritten effect unwritten).1, recounted.bound, id]
    · rw [Diagram.output?_effect effect unstored, recounted.stored]
  · rw [same]
    exact recounted

theorem evaluateInput (recounted : Recounted diagram history) (closed : diagram.frame.phase = .sealed)
    {input : Terminal} (has : diagram.subsystems.HasInput input) :
    diagram.evaluateInput input .nowhere =
      .ok (Deed.reading diagram.frame.id history (Deed.feeds? diagram.frame.id input)) := by
  have outputs : diagram.output? = Deed.stored? history := funext recounted.stored
  rw [recounted.flat.evaluateInput closed has, recounted.bound, Deed.reading, Diagram.resolver, outputs]
  match (history.findSome? (Deed.feeds? diagram.frame.id input)).join with
  | none => rfl
  | some (.free value) => rfl
  | some (.dependent handle) => rfl

end Recounted

theorem Chronicle.recounted {diagram : Diagram} {history : List Deed} (chronicle : Chronicle diagram history) :
    Recounted diagram history := by
  induction chronicle with
  | created => exact .created
  | added _ joining added ih => exact ih.added joining added
  | declined _ declined ih => rw [Diagram.add_refused declined]; exact ih
  | performed _ done ih => exact ih.performed done
  | refused _ refused ih => exact ih.refused refused

-- What a diagram and its history are after one more operation, or as before if it is aborted.
def Diagram.proceed (state : Diagram × List Deed) (operation : Operation) : Diagram × List Deed :=
  match state.1.context.perform operation with
  | .done _ (.diagram frame subsystems) => (⟨frame, subsystems⟩, .performed state.1.exposed operation :: state.2)
  | .refused _ (.diagram frame subsystems) => (⟨frame, subsystems⟩, state.2)
  | _ => state

def Diagram.place (state : Diagram × List Deed) (system : Nat) (own : Leaf) (buffer : OutputBuffer) :
    Diagram × List Deed :=
  match state.1.add system (.leaf own) buffer with
  | .done _ after => (after, .added system own buffer :: state.2)
  | _ => state

-- A wired input that is exposed and rebound from outside to the value it reads.
def Deed.rebinding : List Deed :=
  [.performed [⟨1, 0⟩] (.setOutput ⟨0, 0⟩ (.int32 2)),
    .performed [⟨1, 0⟩] (.change (.rebind 0 (some (.free (.int32 1))))),
    .performed [⟨1, 0⟩] (.setOutput ⟨0, 0⟩ (.int32 1)), .performed [⟨1, 0⟩] .finishBuilding,
    .performed [] (.exposeInput ⟨1, 0⟩), .performed [] (.connect ⟨0, 0⟩ ⟨1, 0⟩),
    .added 1 (.create ⟨1⟩ ⟨1, 1, 0, []⟩ []) ⟨[none]⟩, .added 0 (.create ⟨0⟩ ⟨0, 1, 0, []⟩ []) ⟨[none]⟩]

def Diagram.rebound : Diagram × List Deed :=
  [.connect ⟨0, 0⟩ ⟨1, 0⟩, .exposeInput ⟨1, 0⟩, .finishBuilding, .setOutput ⟨0, 0⟩ (.int32 1),
    .change (.rebind 0 (some (.free (.int32 1)))), .setOutput ⟨0, 0⟩ (.int32 2)].foldl proceed
      (place (place (.create ⟨2⟩ 2 .sequential, []) 0 (.create ⟨0⟩ ⟨0, 1, 0, []⟩ []) ⟨[none]⟩) 1
        (.create ⟨1⟩ ⟨1, 1, 0, []⟩ []) ⟨[none]⟩)

namespace Chronicle

theorem proceed {state : Diagram × List Deed} (chronicle : Chronicle state.1 state.2) (operation : Operation) :
    Chronicle (Diagram.proceed state operation).1 (Diagram.proceed state operation).2 := by
  unfold Diagram.proceed
  split
  · rename_i done
    exact chronicle.performed done
  · rename_i refused
    exact chronicle.refused refused
  · exact chronicle

theorem proceedAll {state : Diagram × List Deed} (chronicle : Chronicle state.1 state.2)
    (operations : List Operation) :
    Chronicle (operations.foldl Diagram.proceed state).1 (operations.foldl Diagram.proceed state).2 := by
  induction operations generalizing state with
  | nil => exact chronicle
  | cons operation rest ih => exact ih (chronicle.proceed operation)

theorem place {state : Diagram × List Deed} (chronicle : Chronicle state.1 state.2) (system : Nat) {own : Leaf}
    (joining : Built .any (.leaf own)) (buffer : OutputBuffer) :
    Chronicle (Diagram.place state system own buffer).1 (Diagram.place state system own buffer).2 := by
  unfold Diagram.place
  split
  · rename_i added
    exact chronicle.added joining added
  · exact chronicle

theorem rebound : Chronicle Diagram.rebound.1 Deed.rebinding := by
  have first := @place (.create ⟨2⟩ 2 .sequential, []) created 0 (.create ⟨0⟩ ⟨0, 1, 0, []⟩ []) .leaf ⟨[none]⟩
  exact (first.place 1 .leaf ⟨[none]⟩).proceedAll _

variable {diagram : Diagram} {history : List Deed} {input : Terminal}

-- Once the diagram is sealed, an input reads what the last deed that bound it and
-- the last one that stored its source make of it. Any other operation leaves it alone.
theorem evaluates_reading (chronicle : Chronicle diagram history) (closed : diagram.frame.phase = .sealed)
    (has : diagram.subsystems.HasInput input) :
    diagram.evaluateInput input .nowhere =
        .ok (Deed.reading diagram.frame.id history (Deed.feeds? diagram.frame.id input)) ∧
      (∀ operation answer after, diagram.context.perform operation = .done answer (Diagram.context after) →
        (Deed.performed diagram.exposed operation).feeds? diagram.frame.id input = none →
        (∀ source, history.findSome? (Deed.feeds? diagram.frame.id input) =
          some (some (.dependent ⟨diagram.frame.id, source⟩)) →
            (Deed.performed diagram.exposed operation).stores? source = none) →
        after.evaluateInput input .nowhere = diagram.evaluateInput input .nowhere) ∧
      ∀ operation refusal after, diagram.context.perform operation = .refused refusal (Diagram.context after) →
        after.evaluateInput input .nowhere = diagram.evaluateInput input .nowhere := by
  have recounted := chronicle.recounted
  refine ⟨recounted.evaluateInput closed has, fun operation answer after done unbound unstored => ?_,
    fun operation refusal after refused => ?_⟩
  · have effect := Context.perform_effect recounted.sound (congrArg Outcome.left? done)
    have id : after.frame.id = diagram.frame.id := effect.grows.here.id
    rw [recounted.evaluateInput closed has, (recounted.performed done).evaluateInput (Diagram.closed_effect effect closed)
      (Diagram.hasInput_effect effect has), id, Deed.reading_unconcerned unbound unstored]
  · have effect := Context.perform_effect recounted.sound (congrArg Outcome.left? refused)
    have id : after.frame.id = diagram.frame.id := effect.grows.here.id
    rw [recounted.evaluateInput closed has, (recounted.refused refused).evaluateInput (Diagram.closed_effect effect closed)
      (Diagram.hasInput_effect effect has), id]

theorem evaluates_reading_rebound :
    ∃ diagram : Diagram, Chronicle diagram Deed.rebinding ∧ diagram.frame.phase = .sealed ∧
      diagram.subsystems.HasInput ⟨1, 0⟩ ∧ diagram.evaluateInput ⟨1, 0⟩ .nowhere = .ok (some (.int32 1)) ∧
      ∀ value answer after, diagram.context.perform (.setOutput ⟨0, 0⟩ value) = .done answer (Diagram.context after) →
        after.evaluateInput ⟨1, 0⟩ .nowhere = .ok (some (.int32 1)) := by
  have closed : Diagram.rebound.1.frame.phase = .sealed := by decide
  have has : Diagram.rebound.1.subsystems.HasInput ⟨1, 0⟩ := by decide
  obtain ⟨reads, unconcerned, _⟩ := evaluates_reading rebound closed has
  have value : Diagram.rebound.1.evaluateInput ⟨1, 0⟩ .nowhere = .ok (some (.int32 1)) := reads
  refine ⟨_, rebound, closed, has, value, fun stored answer after done => ?_⟩
  rw [unconcerned _ _ _ done rfl (fun source wired => nomatch wired), value]

-- A rebinding decides what is read although nothing was connected or bound anew.
theorem rebinding_decides :
    ∃ diagram : Diagram, Chronicle diagram Deed.rebinding ∧ diagram.frame.phase = .sealed ∧
      diagram.subsystems.HasInput ⟨1, 0⟩ ∧ diagram.evaluateInput ⟨1, 0⟩ .nowhere = .ok (some (.int32 1)) ∧
      Deed.reading diagram.frame.id Deed.rebinding (Deed.binds? diagram.frame.id ⟨1, 0⟩) = some (.int32 2) :=
  ⟨_, rebound, by decide, by decide, rfl, rfl⟩

end Chronicle
end BlockDiagram
