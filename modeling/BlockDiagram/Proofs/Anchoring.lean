import BlockDiagram.Proofs.Routes

namespace BlockDiagram

-- What a diagram has done to itself only until it is finished.
def Operation.Builds : Operation → Prop
  | .connect .. | .exposeInput _ | .exposeOutput _ | .finishBuilding => True
  | _ => False

namespace Context

-- A diagram has a number for the entry. A leaf is asked for it in any case.
def Offers (partition : Partition) (index : Nat) : Context → Prop
  | .leaf _ => True
  | .diagram frame _ => ∃ slot, frame.composite.slot? partition index = some slot

-- A diagram numbers nothing before it is finished, and afterwards what is there and
-- offers the entry.
def Anchored : Context → Prop
  | .leaf _ => True
  | .diagram frame subsystems => ∀ partition index slot, frame.composite.slot? partition index = some slot →
    frame.phase = .sealed ∧ ∃ child, subsystems.context? slot.system = some child ∧ child.Offers partition slot.index

def Widens (context later : Context) : Prop :=
  ∀ partition index, context.Offers partition index → later.Offers partition index

theorem widens_refl (context : Context) : context.Widens context := fun _ _ offers => offers

theorem offers_iff {context : Context} {partition : Partition} {index : Nat} :
    context.Offers partition index ↔ index < context.entryCount partition ∨ context.leaf?.isSome := by
  cases context with
  | leaf own => simp [Offers, leaf?]
  | diagram frame subsystems =>
    simp [Offers, leaf?, entryCount, CompositeState.slot?, CompositeState.count, List.getElem?_eq_some_iff]

theorem widens_receive (context : Context) (changes : List Change) : context.Widens (context.receive changes) := by
  intro partition index offers
  cases context with
  | leaf own => trivial
  | diagram frame subsystems =>
    obtain ⟨slot, held⟩ := offers
    exact ⟨slot, by rw [(Frame.Steady.receiveAll frame changes).composite]; exact held⟩

theorem anchored_told {frame later : Frame} {subsystems others : Subsystems} {mail : Mail}
    (phase : later.phase = frame.phase) (composite : later.composite = frame.composite)
    (same : ∀ system, others.context? system = subsystems.context? system)
    (anchored : (Context.diagram frame subsystems).Anchored) : (Context.diagram later (others.receive mail)).Anchored := by
  intro partition index slot held
  obtain ⟨closed, child, present, offers⟩ := anchored partition index slot (composite ▸ held)
  rw [← same] at present
  exact ⟨phase.trans closed, _, Subsystems.context?_received present mail, widens_receive _ _ _ _ offers⟩

theorem anchored_receive (context : Context) (changes : List Change) (anchored : context.Anchored) :
    (context.receive changes).Anchored := by
  cases context with
  | leaf own => trivial
  | diagram frame subsystems =>
    exact anchored_told (Frame.Steady.receiveAll frame changes).phase (Frame.Steady.receiveAll frame changes).composite (fun _ => rfl) anchored

-- Whatever a diagram passes on, as long as it keeps its phase and its numbers.
theorem Everywhere.anchored_told {frame later : Frame} {subsystems others : Subsystems} (mail : Mail)
    (phase : later.phase = frame.phase) (composite : later.composite = frame.composite)
    (same : ∀ system, others.context? system = subsystems.context? system)
    (anchored : (Context.diagram frame subsystems).Everywhere Anchored) :
    (Context.diagram later (others.receive mail)).Everywhere Anchored ∧
      (Context.diagram frame subsystems).Widens (.diagram later (others.receive mail)) := by
  obtain ⟨here, below⟩ := everywhere_diagram.mp anchored
  refine ⟨everywhere_diagram.mpr ⟨Context.anchored_told phase composite same here, ?_⟩, fun partition index offers => ?_⟩
  · intro system child held
    obtain ⟨before, present, rfl⟩ := Subsystems.of_receive held
    rw [same] at present
    exact everywhere_receive anchored_receive _ (below system before present)
  · obtain ⟨slot, held⟩ := offers
    exact ⟨slot, by rw [composite]; exact held⟩

theorem Everywhere.anchored_tables {frame later : Frame} {subsystems : Subsystems} (phase : later.phase = frame.phase)
    (composite : later.composite = frame.composite) (anchored : (Context.diagram frame subsystems).Everywhere Anchored) :
    (Context.diagram later subsystems).Everywhere Anchored ∧
      (Context.diagram frame subsystems).Widens (.diagram later subsystems) := by
  have told := anchored.anchored_told [] phase composite (fun _ => rfl)
  rwa [Subsystems.receive_nil] at told

end Context

theorem Subsystems.mem_slotsFrom {subsystems : Subsystems} {partition : Partition} {system : Nat} {slot : Slot}
    (listed : slot ∈ subsystems.slotsFrom partition system) :
    ∃ place child, slot.system = system + place ∧ subsystems.context? place = some child ∧
      slot.index < child.entryCount partition := by
  induction subsystems using row_induct generalizing system with
  | nil => cases listed
  | vacant rest ih =>
    obtain ⟨place, child, same, present, bound⟩ := ih listed
    exact ⟨place + 1, child, by omega, present, bound⟩
  | filled first _ rest ih =>
    rcases List.mem_append.mp listed with here | behind
    · obtain ⟨index, inside, rfl⟩ := List.mem_map.mp here
      exact ⟨0, first, rfl, rfl, List.mem_range.mp inside⟩
    · obtain ⟨place, child, same, present, bound⟩ := ih behind
      exact ⟨place + 1, child, by omega, present, bound⟩

namespace Context
variable {frame : Frame} {subsystems : Subsystems} {context after : Context} {operation : Operation}

theorem anchored_surveyed (closed : frame.phase = .sealed) (surveyed : frame.composite = subsystems.composite) :
    (Context.diagram frame subsystems).Anchored := by
  intro partition index slot held
  rw [surveyed, CompositeState.slot?, Subsystems.composite, CompositeState.slots_tabulate] at held
  obtain ⟨place, child, same, present, bound⟩ := Subsystems.mem_slotsFrom (List.mem_of_getElem? held)
  rw [Nat.zero_add] at same
  exact ⟨closed, child, same ▸ present, offers_iff.mpr (.inl bound)⟩

theorem finished_already (closed : frame.phase = .sealed) (builds : operation.Builds)
    (left : ((Context.diagram frame subsystems).perform operation).left? = some after) :
    after = .diagram frame subsystems := by
  cases operation with
  | connect | exposeInput | exposeOutput | finishBuilding =>
    simp only [perform, onDiagram, Diagram.connect, Diagram.exposeInput, Diagram.exposeOutput,
      Diagram.finishBuilding, Diagram.whileBuilding, closed] at left
    cases left
    rfl
  | _ => exact builds.elim

theorem Everywhere.anchored_perform (anchored : context.Everywhere Anchored) (sound : context.WellFormed)
    (left : (context.perform operation).left? = some after) : after.Everywhere Anchored ∧ context.Widens after := by
  cases perform_effect sound left with
  | idle => exact ⟨anchored, widens_refl _⟩
  | received => exact ⟨everywhere_receive anchored_receive _ anchored, widens_receive _ _⟩
  | revised => exact ⟨everywhere_leaf.mpr trivial, fun _ _ _ => trivial⟩
  | kept =>
    cases context with
    | leaf own => exact ⟨everywhere_leaf.mpr trivial, fun _ _ _ => trivial⟩
    | diagram frame subsystems => exact anchored.anchored_tables rfl rfl
  | exposedInput | exposedOutput => exact anchored.anchored_tables rfl rfl
  | connected | told => exact anchored.anchored_told _ rfl rfl (fun _ => rfl)
  | stored => exact anchored.anchored_told _ rfl rfl (Subsystems.context?_putBuffer _ _ _)
  | @finished frame subsystems _ =>
    cases phase : frame.phase with
    | sealed =>
      rw [@finished_already _ _ _ .finishBuilding phase trivial left]
      exact ⟨anchored, widens_refl _⟩
    | building =>
      obtain ⟨here, below⟩ := everywhere_diagram.mp anchored
      refine ⟨everywhere_diagram.mpr ⟨anchored_surveyed rfl rfl, below⟩, fun partition index offers => ?_⟩
      obtain ⟨slot, held⟩ := offers
      cases phase.symm.trans (here partition index slot held).1

theorem widens_outward (frame : Frame) (subsystems : Subsystems) (system : Nat) (child other : Context)
    (_ : subsystems.context? system = some child) (_ : child.Widens other) :
    (Context.diagram frame subsystems).Widens (.diagram frame (subsystems.putContext system other)) :=
  fun _ _ offers => offers

theorem Everywhere.anchored_graft {tree found changed : Context} {path : List Nat} (anchored : tree.Everywhere Anchored)
    (located : tree.locate path = .ok found) (inside : changed.Everywhere Anchored) (widens : found.Widens changed) :
    (tree.graft path changed).Everywhere Anchored := by
  refine everywhere_graft ?_ widens_outward located anchored inside widens
  intro frame subsystems system child other present widens here partition index slot held
  obtain ⟨closed, entered, there, offers⟩ := here partition index slot held
  refine ⟨closed, ?_⟩
  rw [Subsystems.context?_putContext]
  split
  · rename_i same
    rw [same, present] at there
    cases there
    exact ⟨other, by rw [present]; rfl, widens _ _ offers⟩
  · exact ⟨entered, there, offers⟩

theorem Anchored.leads {tree : Context} {partition : Partition} {index : Nat} (anchored : tree.Everywhere Anchored)
    (offers : tree.Offers partition index) :
    ∃ place own, tree.Routes (.entries partition) index place ∧ tree.locate place.path = .ok (.leaf own) := by
  induction tree using Context.induct generalizing index with
  | leaf own => exact ⟨_, own, .here, locate_nil _⟩
  | diagram frame subsystems ih =>
    obtain ⟨here, below⟩ := everywhere_diagram.mp anchored
    obtain ⟨slot, held⟩ := offers
    obtain ⟨_, child, present, inside⟩ := here partition index slot held
    obtain ⟨place, own, routed, located⟩ := ih _ _ present (below _ _ present) inside
    have entered : (Numbering.entries partition).target? frame index = some ⟨slot.system, slot.index⟩ :=
      Frame.target?_entries.mpr ⟨slot, held, rfl⟩
    exact ⟨_, own, .into entered present routed, locate_cons.mpr ⟨child, present, located⟩⟩

end Context

namespace Built
open Context
variable {rules : Rules} {tree : Context}

theorem anchored (built : Built rules tree) : tree.Everywhere Anchored := by
  induction built with
  | leaf => exact everywhere_leaf.mpr trivial
  | diagram =>
    refine everywhere_diagram.mpr ⟨fun partition index slot held => ?_, fun system child present => ?_⟩
    · cases partition <;> cases held
    · cases (context?_vacancies _ system).symm.trans present
  | act built _ acted ih =>
    rcases carryOut_left acted with ⟨_, rfl⟩ | ⟨found, changed, located, performed, rfl⟩
    · exact ih
    · obtain ⟨inside, widens⟩ :=
        (Everywhere.below ih located).anchored_perform (Everywhere.below built.wellFormed located) performed
      exact ih.anchored_graft located inside widens
  | adopt _ _ _ adopted ih joining =>
    rcases adopt_left adopted with rfl | ⟨frame, subsystems, located, building, _, _, rfl⟩
    · exact ih
    · obtain ⟨here, below⟩ := everywhere_diagram.mp (Everywhere.below ih located)
      refine ih.anchored_graft located (everywhere_diagram.mpr ⟨fun partition index slot held => ?_, ?_⟩)
        (fun _ _ offers => offers)
      · cases building.symm.trans (here partition index slot held).1
      · intro system child held
        rw [Subsystems.context?_install] at held
        split at held
        · cases held
          exact joining
        · exact below system child held
  | copy _ _ done =>
    have closed := (copy_sealed done).2
    have surveyed := copy_surveyed done
    intro path found located
    cases found with
    | leaf => trivial
    | diagram frame subsystems => exact anchored_surveyed (closed path _ located) (surveyed path _ located)

end Built
end BlockDiagram
