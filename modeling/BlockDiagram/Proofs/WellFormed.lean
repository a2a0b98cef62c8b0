import BlockDiagram.Proofs.Growth
import BlockDiagram.Proofs.Wires

namespace BlockDiagram

namespace Subsystems

def HasInput (subsystems : Subsystems) (terminal : Terminal) : Prop :=
  ∃ child, subsystems.context? terminal.system = some child ∧ terminal.index < child.inputCount

-- An output that is buffered, whether or not the subsystem declares it.
def HasOutput (subsystems : Subsystems) (terminal : Terminal) : Prop :=
  ∃ buffer, subsystems.buffer? terminal.system = some buffer ∧ terminal.index < buffer.count

theorem HasInput.putContext {subsystems : Subsystems} {terminal : Terminal} {system : Nat} {child other : Context}
    (has : subsystems.HasInput terminal) (present : subsystems.context? system = some child)
    (grows : child.Grows other) : (subsystems.putContext system other).HasInput terminal := by
  obtain ⟨found, held, bound⟩ := has
  unfold HasInput
  rw [context?_putContext]
  split
  · rename_i same
    rw [same, present] at held
    cases held
    exact ⟨other, by rw [present]; rfl, Nat.lt_of_lt_of_le bound grows.inputCount⟩
  · exact ⟨found, held, bound⟩

theorem HasInput.receive {subsystems : Subsystems} {terminal : Terminal} (has : subsystems.HasInput terminal)
    (mail : Mail) : (subsystems.receive mail).HasInput terminal := by
  obtain ⟨found, held, bound⟩ := has
  refine ⟨found.receive (mail.addressed terminal.system), by rw [context?_receive, held]; rfl, ?_⟩
  exact Nat.lt_of_lt_of_le bound (Context.grows_receive _ _).inputCount

theorem HasOutput.of_buffers {subsystems others : Subsystems} {terminal : Terminal}
    (has : subsystems.HasOutput terminal)
    (same : ∀ buffer, subsystems.buffer? terminal.system = some buffer →
      ∃ kept, others.buffer? terminal.system = some kept ∧ kept.count = buffer.count) :
    others.HasOutput terminal := by
  obtain ⟨buffer, held, bound⟩ := has
  obtain ⟨kept, there, equal⟩ := same buffer held
  exact ⟨kept, there, by rw [equal]; exact bound⟩

end Subsystems

structure Frame.Sound (frame : Frame) (subsystems : Subsystems) : Prop where
  exposed : ∀ exposed ∈ frame.inputs, subsystems.HasInput exposed.terminal
  exported : ∀ output ∈ frame.outputs, subsystems.HasOutput output
  wired : ∀ output input, frame.wiring.source? input = some output →
    subsystems.HasOutput output ∧ subsystems.HasInput input
  coherent : frame.wiring.Coherent
  acyclic : frame.wiring.Acyclic

def Context.Sound : Context → Prop
  | .leaf own => own.cache.Closed
  | .diagram frame subsystems => frame.Sound subsystems

def Context.WellFormed (tree : Context) : Prop := tree.Everywhere Sound

theorem Frame.Sound.carry {frame later : Frame} {subsystems others : Subsystems} (sound : frame.Sound subsystems)
    (inputs : ∀ terminal, subsystems.HasInput terminal → others.HasInput terminal)
    (outputs : ∀ terminal, subsystems.HasOutput terminal → others.HasOutput terminal)
    (exposed : later.inputs = frame.inputs) (exported : later.outputs = frame.outputs)
    (wiring : later.wiring = frame.wiring) : later.Sound others where
  exposed := fun item member => inputs _ (sound.exposed item (exposed ▸ member))
  exported := fun output member => outputs _ (sound.exported output (exported ▸ member))
  wired := fun output input wired =>
    have both := sound.wired output input (wiring ▸ wired)
    ⟨outputs _ both.1, inputs _ both.2⟩
  coherent := wiring ▸ sound.coherent
  acyclic := wiring ▸ sound.acyclic

namespace Cache

theorem closed_of_dependents {cache later : Cache} (closed : cache.Closed) (size : later.size = cache.size)
    (same : ∀ ticket, later.dependents ticket = cache.dependents ticket) : later.Closed := by
  intro ticket dependent member
  rw [size]
  exact closed ticket dependent (same ticket ▸ member)

theorem closed_clear {cache : Cache} (closed : cache.Closed) (ticket : Ticket) : (cache.clear ticket).Closed :=
  closed_of_dependents closed (size_clear _ _) (dependents_clear _ _)

theorem closed_write {cache : Cache} (closed : cache.Closed) (ticket : Ticket) (value : Option Value) :
    (cache.write ticket value).Closed :=
  closed_of_dependents closed (size_write _ _ _) (fun other => dependents_write cache ticket other value)

theorem dependents_blank (count : Nat) (ticket : Ticket) : (blank count).dependents ticket = [] := by
  unfold dependents line? blank
  rw [List.getElem?_replicate]
  split <;> rfl

theorem closed_blank (count : Nat) : (blank count).Closed := by
  intro ticket dependent member
  rw [dependents_blank] at member
  cases member

-- A new line comes last among those of the lines it depends on; nothing depends on it.
theorem dependents_extend (cache : Cache) (needs : List Ticket) (ticket : Ticket) :
    (cache.extend needs).dependents ticket =
      cache.dependents ticket ++ if ticket ∈ needs ∧ ticket.index < cache.size then [⟨cache.size⟩] else [] := by
  obtain ⟨index⟩ := ticket
  simp only [dependents, line?, extend]
  by_cases inside : index < cache.lines.length
  · rw [List.getElem?_append_left (by simpa using inside), List.getElem?_mapIdx, List.getElem?_eq_getElem inside]
    have bound : index < cache.size := inside
    by_cases needed : (⟨index⟩ : Ticket) ∈ needs <;> simp [needed, bound]
  · have outside : cache.lines.length ≤ index := Nat.le_of_not_lt inside
    have none : cache.lines[index]? = none := List.getElem?_eq_none outside
    have bound : ¬ index < cache.size := inside
    rw [List.getElem?_append_right (by simpa using outside), none]
    simp only [List.length_mapIdx, bound, and_false]
    cases index - cache.lines.length <;> simp

theorem mem_dependents_extend {cache : Cache} {needs : List Ticket} {ticket dependent : Ticket} :
    dependent ∈ (cache.extend needs).dependents ticket ↔
      dependent ∈ cache.dependents ticket ∨
        (dependent = ⟨cache.size⟩ ∧ ticket ∈ needs ∧ ticket.index < cache.size) := by
  rw [dependents_extend, List.mem_append]
  by_cases needed : ticket ∈ needs ∧ ticket.index < cache.size <;> simp [needed]

theorem closed_extend {cache : Cache} (closed : cache.Closed) (needs : List Ticket) :
    (cache.extend needs).Closed := by
  intro ticket dependent member
  rw [size_extend]
  rcases mem_dependents_extend.mp member with old | ⟨rfl, _⟩
  · exact Nat.lt_succ_of_lt (closed ticket dependent old)
  · exact Nat.lt_succ_self _

end Cache

namespace Leaf

def root? (own : Leaf) : Change → Option Ticket
  | .setTime _ | .invalidateTime => some timeTicket
  | .invalidateState => some stateTicket
  | .invalidateInput index | .bind index _ => some (inputTicket index)
  | .openEntry partition index => if index < own.state.count partition then some stateTicket else none
  | .mark .. | .rebind .. | .storeEntry .. => none

theorem cache_receive (own : Leaf) (change : Change) :
    (own.receive change).cache =
      match own.root? change with
      | some root => own.cache.clear root
      | none => own.cache := by
  cases change <;> simp only [receive, root?] <;> try rfl
  split <;> rfl

end Leaf

namespace Context

theorem sound_receive (context : Context) (changes : List Change) (sound : context.Sound) :
    (context.receive changes).Sound := by
  cases context with
  | leaf own =>
    rw [receive]
    induction changes generalizing own with
    | nil => exact sound
    | cons change rest ih =>
      refine ih _ ?_
      show (own.receive change).cache.Closed
      rw [Leaf.cache_receive]
      split
      · exact Cache.closed_clear sound _
      · exact sound
  | diagram frame subsystems =>
    refine Frame.Sound.carry sound (fun _ has => has.receive _) ?_ (Frame.Steady.receiveAll frame changes).inputs
      (Frame.Steady.receiveAll frame changes).outputs (Frame.Steady.receiveAll frame changes).wiring
    intro terminal has
    refine has.of_buffers (fun buffer held => ⟨buffer, ?_, rfl⟩)
    rw [Subsystems.buffer?_receive]
    exact held

theorem WellFormed.receive {context : Context} (sound : context.WellFormed) (changes : List Change) :
    (context.receive changes).WellFormed :=
  everywhere_receive sound_receive changes sound

theorem WellFormed.child {frame : Frame} {subsystems : Subsystems} {system : Nat} {child : Context}
    (sound : (Context.diagram frame subsystems).WellFormed) (present : subsystems.context? system = some child) :
    child.WellFormed :=
  (everywhere_diagram.mp sound).2 system child present

theorem WellFormed.frame {frame : Frame} {subsystems : Subsystems}
    (sound : (Context.diagram frame subsystems).WellFormed) : frame.Sound subsystems :=
  (everywhere_diagram.mp sound).1

theorem WellFormed.graft {tree found changed : Context} {path : List Nat} (sound : tree.WellFormed)
    (located : tree.locate path = .ok found) (inside : changed.WellFormed) (grows : found.Grows changed) :
    (tree.graft path changed).WellFormed := by
  refine everywhere_graft ?_ grows_outward located sound inside grows
  intro frame subsystems system child other present grows top
  refine Frame.Sound.carry top (fun _ has => has.putContext present grows) ?_ rfl rfl rfl
  intro terminal has
  refine has.of_buffers (fun buffer held => ⟨buffer, ?_, rfl⟩)
  rw [Subsystems.buffer?_putContext]
  exact held

end Context

-- Every input there is belongs to a leaf.
theorem Context.home?_exists {context : Context} (sound : context.WellFormed) {index : Nat}
    (bound : index < context.inputCount) : ∃ home, context.home? .inputs index = some home := by
  induction context using Context.induct generalizing index with
  | leaf own => exact ⟨_, home?_leaf.mpr ⟨bound, rfl⟩⟩
  | diagram frame subsystems ih =>
    have entered : frame.inputs[index]? = some frame.inputs[index] := List.getElem?_eq_getElem bound
    obtain ⟨child, present, inside⟩ := sound.frame.exposed _ (List.getElem_mem bound)
    obtain ⟨inner, home⟩ := ih _ _ present (sound.child present) inside
    refine ⟨inner.under frame.inputs[index].terminal.system, home?_diagram.mpr ⟨frame.inputs[index].terminal, ?_, ?_⟩⟩
    · exact Frame.target?_inputs.mpr ⟨_, Frame.input_eq_ok.mpr entered, rfl⟩
    · exact Subsystems.terminalHome?_eq_some.mpr ⟨child, inner, present, home, rfl⟩

theorem Subsystems.terminalHome?_exists {subsystems : Subsystems} {terminal : Terminal}
    (sound : ∀ system child, subsystems.context? system = some child → child.WellFormed)
    (has : subsystems.HasInput terminal) : ∃ home, subsystems.terminalHome? .inputs terminal = some home := by
  obtain ⟨child, present, bound⟩ := has
  obtain ⟨inner, found⟩ := Context.home?_exists (sound _ _ present) bound
  exact ⟨_, terminalHome?_eq_some.mpr ⟨child, inner, present, found, rfl⟩⟩

def Change.bound? : Change → Option Nat
  | .bind index _ | .rebind index _ => some index
  | _ => none

theorem Change.Quiet.unbound {change : Change} (quiet : change.Quiet) : change.bound? = none := by
  cases change <;> first | rfl | exact quiet.elim

theorem Change.Quiet.not_refused {change : Change} (quiet : change.Quiet) (missing refusal : Refusal) :
    change.undelivered missing ≠ .refused refusal := by
  cases change with
  | bind | rebind => exact quiet.elim
  | _ => exact nofun

theorem Verdict.all_refused {verdicts : List Verdict} {refusal : Refusal}
    (refused : Verdict.all verdicts = .refused refusal) : .refused refusal ∈ verdicts := by
  induction verdicts with
  | nil => cases refused
  | cons verdict rest ih =>
    cases verdict with
    | accepted => exact List.mem_cons_of_mem _ (ih refused)
    | refused => cases refused; exact List.mem_cons_self
    | aborted => cases refused

theorem Subsystems.verdict_present {subsystems : Subsystems} {system : Nat} {child : Context}
    (present : subsystems.context? system = some child) (change : Change) :
    subsystems.verdict system change = child.verdict change := by
  rw [verdict, verdictAt_eq, present]
  rfl

theorem Subsystems.verdict_absent {subsystems : Subsystems} {system : Nat}
    (absent : subsystems.context? system = none) (change : Change) :
    subsystems.verdict system change = change.undelivered (subsystems.absence system) := by
  rw [verdict, verdictAt_eq, absent]
  rfl

theorem Frame.mail_bound {frame : Frame} {subsystems : Subsystems} (sound : frame.Sound subsystems)
    {cause : Change} {item : Nat × Change} (sent : item ∈ frame.mail subsystems.layout cause) {index : Nat}
    (binds : item.2.bound? = some index) : subsystems.HasInput ⟨item.1, index⟩ := by
  have exposed : ∀ {outer : Nat} {terminal : Terminal},
      Numbering.inputs.target? frame outer = some terminal → subsystems.HasInput terminal := by
    intro outer terminal entered
    obtain ⟨exposed, found, rfl⟩ := target?_inputs.mp entered
    exact sound.exposed exposed (List.mem_of_getElem? (input_eq_ok.mp found))
  rcases mem_mail.mp sent with passed | spread
  · cases passed with
    | bind entered => cases binds; exact exposed entered
    | rebind entered => cases binds; exact exposed entered
    | _ => cases binds
  · have quiet := ripple_quiet spread
    obtain ⟨system, change⟩ := item
    cases change <;> first | exact quiet.elim | cases binds

theorem Leaf.verdict_not_refused {own : Leaf} {change : Change}
    (bound : ∀ index, change.bound? = some index → index < own.inputs.length) (refusal : Refusal) :
    own.verdict change ≠ .refused refusal := by
  intro refused
  cases change with
  | bind index _ | rebind index _ =>
    have inside : index < own.inputs.length := bound index rfl
    simp [verdict, inside] at refused
  | invalidateInput | mark =>
    simp only [verdict] at refused
    split at refused <;> cases refused
  | _ => cases refused

theorem Frame.verdict_not_refused {frame : Frame} {change : Change}
    (bound : ∀ index, change.bound? = some index → index < frame.inputs.length) (refusal : Refusal) :
    frame.verdict change ≠ .refused refusal := by
  intro refused
  cases change with
  | bind index _ | rebind index _ =>
    have inside : index < frame.inputs.length := bound index rfl
    simp [verdict, input, List.getElem?_eq_getElem inside] at refused
  | setTime | invalidateInput | mark =>
    simp only [verdict] at refused
    split at refused <;> cases refused
  | _ => cases refused

-- A change is refused where it is asked for or not at all.
theorem Context.verdict_not_refused {context : Context} (sound : context.WellFormed) {change : Change}
    (bound : ∀ index, change.bound? = some index → index < context.inputCount) (refusal : Refusal) :
    context.verdict change ≠ .refused refusal := by
  induction context using Context.induct generalizing change with
  | leaf own => exact Leaf.verdict_not_refused bound refusal
  | diagram frame subsystems ih =>
    intro refused
    cases own : frame.verdict change with
    | refused => exact Frame.verdict_not_refused bound _ own
    | aborted => rw [verdict, own] at refused; cases refused
    | accepted =>
      rw [verdict_diagram _ _ _ own] at refused
      obtain ⟨item, sent, objection⟩ := List.mem_map.mp (Verdict.all_refused refused)
      have has : ∀ index, item.2.bound? = some index → subsystems.HasInput ⟨item.1, index⟩ :=
        fun index binds => Frame.mail_bound sound.frame sent binds
      cases present : subsystems.context? item.1 with
      | some child =>
        rw [Subsystems.verdict_present present] at objection
        refine ih _ _ present (sound.child present) (fun index binds => ?_) objection
        obtain ⟨other, held, inside⟩ := has index binds
        cases present.symm.trans held
        exact inside
      | none =>
        rw [Subsystems.verdict_absent present] at objection
        -- Only a binding would be refused here, and the input it is for is there.
        obtain ⟨system, change⟩ := item
        cases change <;> simp only [Change.undelivered] at objection <;> try cases objection
        all_goals
          obtain ⟨_, held, _⟩ := has _ rfl
          cases present.symm.trans held

end BlockDiagram
