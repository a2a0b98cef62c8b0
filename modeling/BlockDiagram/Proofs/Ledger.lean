import BlockDiagram.Proofs.Ports
import BlockDiagram.Proofs.Refusals

namespace BlockDiagram

def Binding.sourceIn (owner : ContextId) : Option Binding → Option Terminal
  | some (.dependent handle) => if handle.owner = owner then some handle.source else none
  | _ => none

theorem Binding.sourceIn_eq_some {owner : ContextId} {binding : Option Binding} {output : Terminal} :
    Binding.sourceIn owner binding = some output ↔ binding = some (.dependent ⟨owner, output⟩) := by
  unfold sourceIn
  split
  · rename_i handle
    obtain ⟨other, source⟩ := handle
    simp [eq_comm]
  · rename_i other
    simp only [reduceCtorEq, false_iff]
    exact other _

-- What was written on a port, and the input a wire was recorded for, if one was.
structure Entry where
  port : Endpoint
  binding : Option Binding
  wired : Option Terminal
deriving DecidableEq

def Entry.latest (ledger : List Entry) (concerns : Entry → Bool) : Option Binding :=
  (ledger.find? concerns).bind Entry.binding

def Operation.Writes : Operation → Prop
  | .connect .. => True
  | .change asked => asked.write?.isSome
  | _ => False

namespace Diagram

def posted? (diagram : Diagram) : Operation → Option Entry
  | .connect output input =>
    (diagram.subsystems.terminalHome? .inputs input).map (⟨·, some (diagram.bindingTo output), some input⟩)
  | .change asked =>
    asked.write?.bind (fun write => (diagram.context.home? .inputs write.1).map (⟨·, write.2, none⟩))
  | _ => none

-- The record and the port behind the input name the same source.
def Agrees (diagram : Diagram) (input : Terminal) : Prop :=
  ∀ output, diagram.frame.wiring.source? input = some output ↔
    ∃ child, diagram.subsystems.context? input.system = some child ∧
      child.input input.index = .ok (some (diagram.bindingTo output))

end Diagram

-- What a diagram can have become by its own operations, with the ledger of what
-- they wrote, the latest entry first. What is added to it holds no handles of it.
inductive Kept : Diagram → List Entry → Prop where
  | created {id : ContextId} {places : Nat} {concurrency : Concurrency} : Kept (.create id places concurrency) []
  | added {diagram after : Diagram} {ledger : List Entry} {system : Nat} {other : Context} {buffer : OutputBuffer}
    (kept : Kept diagram ledger) (joining : Built .any other)
    (foreign : ∀ port handle, other.installed? port = some (some (.dependent handle)) →
      handle.owner ≠ diagram.frame.id)
    (added : (diagram.add system other buffer).left? = some after) : Kept after ledger
  | performed {diagram after : Diagram} {ledger : List Entry} {operation : Operation} {answer : Answer}
    (kept : Kept diagram ledger) (done : diagram.context.perform operation = .done answer after.context) :
    Kept after ((diagram.posted? operation).toList ++ ledger)
  | refused {diagram after : Diagram} {ledger : List Entry} {operation : Operation} {refusal : Refusal}
    (kept : Kept diagram ledger) (refused : diagram.context.perform operation = .refused refusal after.context) :
    Kept after ledger

namespace Diagram
variable {diagram after : Diagram} {operation : Operation}

-- Nothing but a wire or a binding is written on a port or on record.
theorem unwritten (effect : Effect diagram.context operation after.context) (silent : ¬ operation.Writes) :
    (∀ port, after.context.installed? port = diagram.context.installed? port) ∧
      after.frame.wiring = diagram.frame.wiring := by
  obtain ⟨frame, subsystems⟩ := diagram
  obtain ⟨later, others⟩ := after
  simp only [context] at effect ⊢
  generalize reached : Context.diagram later others = found at effect
  cases effect with
  | idle =>
    cases reached
    exact ⟨fun _ => rfl, rfl⟩
  | @received _ _ changes sends =>
    have calm : ∀ change ∈ changes, change.write? = none := by
      cases sends with
      | change =>
        intro change member
        rw [List.mem_singleton.mp member]
        exact Option.not_isSome_iff_eq_none.mp silent
      | opened => simp [Change.write?]
      | edited => simp [Change.write?]
      | marked => simp [Change.write?]
    refine ⟨Context.installed?_unwritten calm, ?_⟩
    cases reached
    exact (Frame.Steady.receiveAll _ _).wiring
  | kept =>
    cases reached
    exact ⟨Context.installed?_around _ _ _, rfl⟩
  | connected => exact (silent trivial).elim
  | exposedInput | exposedOutput | finished =>
    cases reached
    exact ⟨Context.installed?_around _ _ _, rfl⟩
  | stored =>
    cases reached
    refine ⟨Context.installed?_delivery (Subsystems.context?_putBuffer _ _ _) (fun item member => ?_), rfl⟩
    rcases List.mem_append.mp member with spread | mark
    · exact (Frame.ripple_quiet spread).unwritten
    · rw [List.mem_singleton.mp mark]
      rfl
  | told tells =>
    cases reached
    refine ⟨Context.installed?_delivery (fun _ => rfl) (fun item member => ?_), rfl⟩
    cases tells with
    | marked =>
      obtain ⟨change, listed, rfl⟩ := List.mem_map.mp member
      obtain ⟨index, _, rfl⟩ := List.mem_map.mp listed
      rfl
    | _ => exact (Frame.ripple_quiet member).unwritten

theorem posted?_silent (silent : ¬ operation.Writes) : diagram.posted? operation = none := by
  cases operation with
  | connect => exact (silent trivial).elim
  | change asked =>
    have calm : asked.write? = none := Option.not_isSome_iff_eq_none.mp silent
    rw [posted?, calm]
    rfl
  | _ => rfl

theorem connect_performed (sound : diagram.context.WellFormed) {output input : Terminal} {answer : Answer}
    (done : diagram.context.perform (.connect output input) = .done answer after.context) :
    diagram.subsystems.HasInput input ∧
      after = ⟨{ diagram.frame with wiring := diagram.frame.wiring.connect output input },
        diagram.subsystems.receive [(input.system, .bind input.index (some (diagram.bindingTo output)))]⟩ := by
  rw [Context.perform] at done
  obtain ⟨⟨_, drawn⟩, _⟩ := Outcome.answering_eq_done.mp (Context.onDiagram_done done)
  obtain ⟨_, target, _, same⟩ := connect_done sound drawn
  exact ⟨target, same⟩

theorem change_performed {asked : Change} {answer : Answer}
    (done : diagram.context.perform (.change asked) = .done answer after.context) :
    after.context = diagram.context.receive [asked] := by
  obtain ⟨⟨_, sent⟩, _⟩ := Outcome.answering_eq_done.mp done
  exact Context.send_done sent

theorem refused_unchanged (sound : diagram.context.WellFormed) {refusal : Refusal} (writes : operation.Writes)
    (refused : diagram.context.perform operation = .refused refusal after.context) : after = diagram := by
  have guarded : operation.Guarded := by
    cases operation with
    | edit => exact writes.elim
    | _ => trivial
  exact context_injective (Context.perform_refused sound guarded refused)

end Diagram

theorem Entry.latest_cons (entry : Entry) (ledger : List Entry) (concerns : Entry → Bool) :
    Entry.latest (entry :: ledger) concerns = if concerns entry then entry.binding else Entry.latest ledger concerns := by
  unfold latest
  rw [List.find?_cons]
  cases concerns entry <;> rfl

-- The record is the work of the wires drawn to an input, a port holds what was
-- written on it last.
structure Accounted (diagram : Diagram) (ledger : List Entry) : Prop where
  sound : diagram.context.WellFormed
  recorded : ∀ input, diagram.frame.wiring.source? input =
    Binding.sourceIn diagram.frame.id (Entry.latest ledger (·.wired = some input))
  bound : ∀ port binding, diagram.context.installed? port = some binding →
    Binding.sourceIn diagram.frame.id binding = Binding.sourceIn diagram.frame.id (Entry.latest ledger (·.port = port))
  rooted : ∀ entry ∈ ledger, (diagram.context.installed? entry.port).isSome

namespace Accounted
variable {diagram after : Diagram} {ledger : List Entry}

theorem created {id : ContextId} {places : Nat} {concurrency : Concurrency} :
    Accounted (.create id places concurrency) [] where
  sound := (@Built.diagram .any id places concurrency).wellFormed
  recorded := fun _ => rfl
  bound := by
    intro port binding held
    obtain ⟨own, located, _⟩ := Context.installed?_eq_some.mp held
    cases (Built.locate_create located).2
  rooted := nofun

theorem unwritten (accounted : Accounted diagram ledger) (sound : after.context.WellFormed)
    (id : after.frame.id = diagram.frame.id)
    (ports : ∀ port, after.context.installed? port = diagram.context.installed? port)
    (wiring : after.frame.wiring = diagram.frame.wiring) : Accounted after ledger where
  sound := sound
  recorded := fun input => by rw [wiring, id, accounted.recorded]
  bound := fun port binding held => by rw [id, accounted.bound port binding (ports port ▸ held)]
  rooted := fun entry member => by rw [ports]; exact accounted.rooted entry member

theorem written (accounted : Accounted diagram ledger) (sound : after.context.WellFormed)
    (id : after.frame.id = diagram.frame.id) (entry : Entry)
    (port : (diagram.context.installed? entry.port).isSome)
    (ports : ∀ port, after.context.installed? port =
      if entry.port = port then some entry.binding else diagram.context.installed? port)
    (wires : ∀ input, after.frame.wiring.source? input =
      if entry.wired = some input then Binding.sourceIn diagram.frame.id entry.binding
      else diagram.frame.wiring.source? input) : Accounted after (entry :: ledger) where
  sound := sound
  recorded := by
    intro input
    rw [wires, id, Entry.latest_cons, accounted.recorded]
    by_cases here : entry.wired = some input <;> simp [here]
  bound := by
    intro place binding held
    rw [ports] at held
    rw [id, Entry.latest_cons]
    by_cases here : entry.port = place
    · rw [if_pos here] at held
      cases held
      simp [here]
    · rw [if_neg here] at held
      simp only [here, decide_false, Bool.false_eq_true, if_false]
      exact accounted.bound place binding held
  rooted := by
    intro other member
    rw [ports]
    split
    · rfl
    · rcases List.mem_cons.mp member with rfl | earlier
      · exact port
      · exact accounted.rooted other earlier

theorem connected (accounted : Accounted diagram ledger) {output input : Terminal}
    (target : diagram.subsystems.HasInput input)
    (drawn : after = ⟨{ diagram.frame with wiring := diagram.frame.wiring.connect output input },
      diagram.subsystems.receive [(input.system, .bind input.index (some (diagram.bindingTo output)))]⟩)
    (sound : after.context.WellFormed) :
    Accounted after ((diagram.posted? (.connect output input)).toList ++ ledger) := by
  obtain ⟨home, found⟩ := Subsystems.terminalHome?_exists (fun _ _ held => accounted.sound.child held) target
  have written : diagram.posted? (.connect output input) = some ⟨home, some (diagram.bindingTo output), some input⟩ := by
    rw [Diagram.posted?, found]
    rfl
  have named : Binding.sourceIn diagram.frame.id (some (diagram.bindingTo output)) = some output :=
    Binding.sourceIn_eq_some.mpr rfl
  rw [written]
  refine accounted.written sound (by rw [drawn]) _ ?_ (fun port => ?_) (fun place => ?_)
  · obtain ⟨own, located, bound⟩ := Context.locate_terminalHome diagram.frame found
    exact Option.isSome_of_eq_some (Context.installed?_eq_some.mpr ⟨own, located, List.getElem?_eq_getElem bound⟩)
  · have held := Context.installed?_bound diagram.frame after.frame diagram.subsystems input
      (some (diagram.bindingTo output)) port
    simp only [found, Option.some.injEq] at held
    rw [drawn] at held ⊢
    exact held
  · rw [drawn, Wiring.source?_connect, named]
    by_cases here : place = input
    · rw [if_pos here, if_pos (congrArg some here.symm)]
    · rw [if_neg here, if_neg (fun same => here (Option.some.inj same).symm)]

theorem changed (accounted : Accounted diagram ledger) {asked : Change} {index : Nat} {binding : Option Binding}
    (writing : asked.write? = some (index, binding)) (reached : after.context = diagram.context.receive [asked])
    (sound : after.context.WellFormed) :
    Accounted after ((diagram.posted? (.change asked)).toList ++ ledger) := by
  have ports : ∀ port, after.context.installed? port =
      if diagram.context.home? .inputs index = some port then some binding else diagram.context.installed? port := by
    intro port
    rw [reached]
    exact Context.installed?_written writing port
  have received := (Context.diagram.inj reached).1
  have wiring : after.frame.wiring = diagram.frame.wiring := by
    rw [received]
    exact (Frame.Steady.receiveAll _ _).wiring
  have id : after.frame.id = diagram.frame.id := by
    rw [received]
    exact (Frame.Extends.receiveAll _ _).id
  have written : diagram.posted? (.change asked) = (diagram.context.home? .inputs index).map (⟨·, binding, none⟩) := by
    rw [Diagram.posted?, writing]
    rfl
  rw [written]
  cases found : diagram.context.home? .inputs index with
  | none =>
    -- No port is behind such an input, so that nothing has been written.
    refine accounted.unwritten sound id (fun port => ?_) wiring
    rw [ports, found, if_neg nofun]
  | some home =>
    refine accounted.written sound id _ (Context.installed?_home found) (fun port => ?_) (fun place => ?_)
    · have held := ports port
      simp only [found, Option.some.injEq] at held
      exact held
    · rw [wiring, if_neg nofun]

theorem performed (accounted : Accounted diagram ledger) {operation : Operation} {answer : Answer}
    (done : diagram.context.perform operation = .done answer after.context) :
    Accounted after ((diagram.posted? operation).toList ++ ledger) := by
  have effect := Context.perform_effect accounted.sound (congrArg Outcome.left? done)
  have sound : after.context.WellFormed := accounted.sound.effect effect
  by_cases writes : operation.Writes
  · cases operation with
    | connect output input =>
      obtain ⟨target, drawn⟩ := Diagram.connect_performed accounted.sound done
      exact accounted.connected target drawn sound
    | change asked =>
      obtain ⟨write, writing⟩ := Option.isSome_iff_exists.mp writes
      exact accounted.changed writing (Diagram.change_performed done) sound
    | _ => exact writes.elim
  · obtain ⟨ports, wiring⟩ := Diagram.unwritten effect writes
    rw [Diagram.posted?_silent writes]
    exact accounted.unwritten sound effect.grows.here.id ports wiring

theorem refused (accounted : Accounted diagram ledger) {operation : Operation} {refusal : Refusal}
    (refused : diagram.context.perform operation = .refused refusal after.context) : Accounted after ledger := by
  have effect := Context.perform_effect accounted.sound (congrArg Outcome.left? refused)
  by_cases writes : operation.Writes
  · rw [Diagram.refused_unchanged accounted.sound writes refused]
    exact accounted
  · obtain ⟨ports, wiring⟩ := Diagram.unwritten effect writes
    exact accounted.unwritten (accounted.sound.effect effect) effect.grows.here.id ports wiring

theorem added (accounted : Accounted diagram ledger) {system : Nat} {other : Context} {buffer : OutputBuffer}
    (joining : other.WellFormed)
    (foreign : ∀ port handle, other.installed? port = some (some (.dependent handle)) →
      handle.owner ≠ diagram.frame.id)
    (added : (diagram.add system other buffer).left? = some after) : Accounted after ledger := by
  rcases Diagram.add_left added with rfl | ⟨_, bound, vacant, rfl⟩
  · exact accounted
  have ports := @Context.installed?_install diagram.frame _ system other buffer vacant
  refine ⟨Context.wellFormed_install buffer accounted.sound joining vacant, accounted.recorded, ?_, ?_⟩
  · intro port binding held
    rcases ports port with same | ⟨fresh, inner, same⟩
    · exact accounted.bound port binding (same.symm.trans held)
    · -- A port that has just come in has no entry, and no handle of this diagram.
      have unlisted : Entry.latest ledger (·.port = port) = none := by
        rw [Entry.latest, List.find?_eq_none.mpr]
        · rfl
        · intro entry member here
          have rooted := accounted.rooted entry member
          rw [of_decide_eq_true here, Diagram.context, fresh] at rooted
          cases rooted
      rw [unlisted]
      refine Option.eq_none_iff_forall_ne_some.mpr (fun output named => ?_)
      rw [Binding.sourceIn_eq_some.mp named] at held
      exact foreign inner _ (same.symm.trans held) rfl
  · intro entry member
    have rooted := accounted.rooted entry member
    rcases ports entry.port with same | ⟨fresh, _⟩
    · rw [Diagram.context, same]
      exact rooted
    · rw [Diagram.context, fresh] at rooted
      cases rooted

end Accounted

theorem Kept.accounted {diagram : Diagram} {ledger : List Entry} (kept : Kept diagram ledger) :
    Accounted diagram ledger := by
  induction kept with
  | created => exact .created
  | added _ joining foreign added ih => exact ih.added joining.wellFormed foreign added
  | performed _ done ih => exact ih.performed done
  | refused _ refused ih => exact ih.refused refused

-- What a diagram and its ledger are after one more operation, or as before if it
-- is aborted.
def Diagram.advance (state : Diagram × List Entry) (operation : Operation) : Diagram × List Entry :=
  match state.1.context.perform operation with
  | .done _ (.diagram frame subsystems) => (⟨frame, subsystems⟩, (state.1.posted? operation).toList ++ state.2)
  | .refused _ (.diagram frame subsystems) => (⟨frame, subsystems⟩, state.2)
  | _ => state

def Diagram.joined (diagram : Diagram) (system : Nat) (other : Context) (buffer : OutputBuffer) : Diagram :=
  (diagram.add system other buffer).left?.getD diagram

theorem Kept.advance {state : Diagram × List Entry} (kept : Kept state.1 state.2) (operation : Operation) :
    Kept (Diagram.advance state operation).1 (Diagram.advance state operation).2 := by
  unfold Diagram.advance
  split
  · rename_i done
    exact kept.performed done
  · rename_i refused
    exact kept.refused refused
  · exact kept

theorem Kept.advanceAll {state : Diagram × List Entry} (kept : Kept state.1 state.2) (operations : List Operation) :
    Kept (operations.foldl Diagram.advance state).1 (operations.foldl Diagram.advance state).2 := by
  induction operations generalizing state with
  | nil => exact kept
  | cons operation rest ih => exact ih (kept.advance operation)

theorem Kept.joined {diagram : Diagram} {ledger : List Entry} (kept : Kept diagram ledger) (system : Nat)
    (id : ContextId) (configuration : Configuration) (modal : List Value) (buffer : OutputBuffer) :
    Kept (diagram.joined system (.leaf (.create id configuration modal)) buffer) ledger := by
  unfold Diagram.joined
  cases added : (diagram.add system (.leaf (.create id configuration modal)) buffer).left? with
  | none => exact kept
  | some after =>
    refine kept.added .leaf (fun port handle held => ?_) added
    obtain ⟨own, located, found⟩ := Context.installed?_eq_some.mp held
    cases (Context.locate_leaf located).2
    cases List.eq_of_mem_replicate (List.mem_of_getElem? found)

theorem Context.input_bound {context : Context} {index : Nat} {binding : Option Binding}
    (read : context.input index = .ok binding) : index < context.inputCount := by
  cases context with
  | leaf own =>
    simp only [input, Leaf.input] at read
    split at read
    · rename_i found
      exact (List.getElem?_eq_some_iff.mp found).1
    · cases read
  | diagram frame subsystems =>
    simp only [input] at read
    split at read
    · rename_i exposed found
      exact (List.getElem?_eq_some_iff.mp (Frame.input_eq_ok.mp found)).1
    · cases read

theorem Subsystems.hasInput_of_home {subsystems : Subsystems} {input : Terminal} {home : Endpoint}
    (found : subsystems.terminalHome? .inputs input = some home) : subsystems.HasInput input := by
  obtain ⟨child, inner, present, inside, _⟩ := terminalHome?_eq_some.mp found
  exact ⟨child, present, Context.input_bound_of_home inside⟩

-- The record tells what an input is bound to exactly if the last wire drawn to
-- the input and whatever was written last on the port behind it name the same source.
theorem Kept.agrees_iff {diagram : Diagram} {ledger : List Entry} (kept : Kept diagram ledger) (input : Terminal) :
    diagram.Agrees input ↔ ∀ home, diagram.subsystems.terminalHome? .inputs input = some home →
      Binding.sourceIn diagram.frame.id (Entry.latest ledger (·.port = home)) =
        Binding.sourceIn diagram.frame.id (Entry.latest ledger (·.wired = some input)) := by
  have accounted := kept.accounted
  have sound : diagram.frame.Sound diagram.subsystems := accounted.sound.frame
  by_cases has : diagram.subsystems.HasInput input
  · obtain ⟨home, found⟩ := Subsystems.terminalHome?_exists (fun _ _ held => accounted.sound.child held) has
    obtain ⟨child, inner, present, inside, same⟩ := Subsystems.terminalHome?_eq_some.mp found
    obtain ⟨own, located, bound⟩ := Context.locate_home inside
    have bound : inner.index < own.inputs.length := bound
    have read : child.input input.index = .ok own.inputs[inner.index] := by
      rw [Context.input_home inside located, Leaf.input, List.getElem?_eq_getElem bound]
    have held : diagram.context.installed? home = some own.inputs[inner.index] := by
      rw [same]
      exact Context.installed?_eq_some.mpr
        ⟨own, Context.locate_cons.mpr ⟨child, present, located⟩, List.getElem?_eq_getElem bound⟩
    have named := accounted.bound home _ held
    have agrees : diagram.Agrees input ↔
        diagram.frame.wiring.source? input = Binding.sourceIn diagram.frame.id own.inputs[inner.index] := by
      rw [Option.ext_iff]
      refine forall_congr' (fun output => ?_)
      rw [Binding.sourceIn_eq_some]
      simp [present, read, Diagram.bindingTo]
    rw [agrees, accounted.recorded, named]
    constructor
    · intro equal other there
      cases found.symm.trans there
      exact equal.symm
    · intro all
      exact (all home found).symm
  · refine ⟨fun _ home found => absurd (Subsystems.hasInput_of_home found) has, fun _ output => ?_⟩
    constructor
    · intro wired
      exact absurd (sound.wired output input wired).2 has
    · intro held
      obtain ⟨child, present, read⟩ := held
      exact absurd ⟨child, present, Context.input_bound read⟩ has

-- A wired input that is exposed and then bound from outside stays on record.
def Diagram.drifting : Diagram × List Entry :=
  [.connect ⟨0, 0⟩ ⟨1, 0⟩, .exposeInput ⟨1, 0⟩, .finishBuilding, .change (.bind 0 (some (.free (.int32 5))))].foldl advance
    (((create ⟨2⟩ 2 .sequential).joined 0 (.leaf (.create ⟨0⟩ ⟨1, 1, 0, []⟩ [])) ⟨[none]⟩).joined 1
      (.leaf (.create ⟨1⟩ ⟨1, 1, 0, []⟩ [])) ⟨[none]⟩, [])

theorem Diagram.drifting_kept : Kept drifting.1 drifting.2 := by
  have start := ((@Kept.created ⟨2⟩ 2 .sequential).joined 0 ⟨0⟩ ⟨1, 1, 0, []⟩ [] ⟨[none]⟩).joined 1 ⟨1⟩ ⟨1, 1, 0, []⟩ []
    ⟨[none]⟩
  exact @Kept.advanceAll (_, []) start _

theorem Kept.drifts :
    ∃ diagram ledger, Kept diagram ledger ∧
      (∀ entry ∈ ledger, entry.wired = none → ∀ handle, entry.binding ≠ some (.dependent handle)) ∧
      diagram.frame.wiring.source? ⟨1, 0⟩ = some ⟨0, 0⟩ ∧ ¬ diagram.Agrees ⟨1, 0⟩ := by
  have entries : Diagram.drifting.2 = [⟨⟨[1], 0⟩, some (.free (.int32 5)), none⟩,
      ⟨⟨[1], 0⟩, some (.dependent ⟨⟨2⟩, ⟨0, 0⟩⟩), some ⟨1, 0⟩⟩] := by decide
  have recorded : Diagram.drifting.1.frame.wiring.source? ⟨1, 0⟩ = some ⟨0, 0⟩ := by decide
  have bound : (Diagram.drifting.1.subsystems.context? 1).bind (fun child => (child.input 0).toOption) =
      some (some (.free (.int32 5))) := by decide
  refine ⟨_, _, Diagram.drifting_kept, ?_, recorded, fun agrees => ?_⟩
  · rw [entries]
    simp
  · obtain ⟨child, present, read⟩ := (agrees ⟨0, 0⟩).mp recorded
    rw [show Diagram.drifting.1.subsystems.context? 1 = some child from present, Option.bind_some, read] at bound
    cases bound

theorem Kept.agrees_iff_drifting :
    Diagram.drifting.1.Agrees ⟨0, 0⟩ ∧ ¬ Diagram.drifting.1.Agrees ⟨1, 0⟩ := by
  constructor
  · refine (Kept.agrees_iff Diagram.drifting_kept ⟨0, 0⟩).mpr (fun home found => ?_)
    obtain rfl : home = ⟨[0], 0⟩ := Option.some.inj (found.symm.trans (by decide))
    decide
  · intro agrees
    have same := (Kept.agrees_iff Diagram.drifting_kept ⟨1, 0⟩).mp agrees ⟨[1], 0⟩ (by decide)
    exact absurd same (by decide)

end BlockDiagram
