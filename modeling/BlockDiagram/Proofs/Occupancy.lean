import BlockDiagram.Proofs.Reachable

namespace BlockDiagram

theorem Subsystems.Occupied.carry {subsystems others : Subsystems} (occupied : subsystems.Occupied)
    (size : others.size = subsystems.size) (kept : ∀ system child, subsystems.context? system = some child →
      ∃ other, others.context? system = some other) : others.Occupied := by
  intro system bound
  obtain ⟨child, present⟩ := occupied system (size ▸ bound)
  exact kept system child present

namespace Context

def Complete : Context → Prop
  | .leaf _ => True
  | .diagram frame subsystems => frame.phase = .sealed → subsystems.Occupied

theorem complete_receive (context : Context) (changes : List Change) (complete : context.Complete) :
    (context.receive changes).Complete := by
  cases context with
  | leaf own => trivial
  | diagram frame subsystems =>
    intro closed
    apply (complete ((Frame.Steady.receiveAll frame changes).phase.symm.trans closed)).carry (Subsystems.size_receive _ _)
    intro system child present
    exact ⟨_, Subsystems.context?_received present _⟩

theorem complete_tables {frame later : Frame} {subsystems : Subsystems}
    (complete : (Context.diagram frame subsystems).Everywhere Complete)
    (top : later.phase = .sealed → frame.phase = .sealed ∨ subsystems.Occupied) :
    (Context.diagram later subsystems).Everywhere Complete := by
  obtain ⟨here, below⟩ := everywhere_diagram.mp complete
  refine everywhere_diagram.mpr ⟨fun closed => ?_, below⟩
  rcases top closed with before | occupied
  · exact here before
  · exact occupied

theorem complete_delivery {frame later : Frame} {subsystems others : Subsystems} (mail : Mail)
    (complete : (Context.diagram frame subsystems).Everywhere Complete) (phase : later.phase = frame.phase)
    (size : others.size = subsystems.size) (same : ∀ system, others.context? system = subsystems.context? system) :
    (Context.diagram later (others.receive mail)).Everywhere Complete := by
  obtain ⟨here, below⟩ := everywhere_diagram.mp complete
  refine everywhere_diagram.mpr ⟨fun closed => ?_, fun system child held => ?_⟩
  · apply (here (phase.symm.trans closed)).carry ((Subsystems.size_receive _ _).trans size)
    intro system child present
    exact ⟨_, Subsystems.context?_received ((same system).trans present) mail⟩
  · rw [Subsystems.context?_receive, same] at held
    obtain ⟨before, present, rfl⟩ := Option.map_eq_some_iff.mp held
    exact everywhere_receive complete_receive _ (below system before present)

theorem Everywhere.complete_effect {context after : Context} {operation : Operation}
    (complete : context.Everywhere Complete) (effect : Effect context operation after) : after.Everywhere Complete := by
  cases effect with
  | idle => exact complete
  | received => exact everywhere_receive complete_receive _ complete
  | revised => exact everywhere_leaf.mpr trivial
  | kept =>
    cases context with
    | leaf own => exact everywhere_leaf.mpr trivial
    | diagram frame subsystems => exact complete_tables complete .inl
  | connected | told => exact complete_delivery _ complete rfl rfl (fun _ => rfl)
  | exposedInput | exposedOutput => exact complete_tables complete .inl
  | finished occupied => exact complete_tables complete (fun _ => .inr occupied)
  | stored => exact complete_delivery _ complete rfl (Subsystems.size_putBuffer _ _ _) (Subsystems.context?_putBuffer _ _ _)

theorem Everywhere.complete_graft {tree found changed : Context} {path : List Nat} (complete : tree.Everywhere Complete)
    (located : tree.locate path = .ok found) (inside : changed.Everywhere Complete) :
    (tree.graft path changed).Everywhere Complete := by
  refine @everywhere_graft _ (fun _ _ => True) ?_ (fun _ _ _ _ _ _ _ => trivial) _ _ _ _ located complete inside trivial
  intro frame subsystems system child other present _ top closed
  apply (top closed).carry (Subsystems.size_putContext _ _ _)
  intro place kept held
  rw [Subsystems.context?_putContext]
  split
  · exact ⟨other, by rw [present]; rfl⟩
  · exact ⟨kept, held⟩

theorem complete_copy {context copied : Context} {outer : Resolver} {serial next : Nat}
    (complete : context.Everywhere Complete) (done : context.copy outer serial = .ok (copied, next)) :
    copied.Everywhere Complete := by
  induction context using Context.induct generalizing outer serial next copied with
  | leaf own =>
    cases done
    exact everywhere_leaf.mpr trivial
  | diagram frame subsystems ih =>
    obtain ⟨copies, marks, last, closed, made, _, _, rfl, rfl⟩ := copy_diagram done
    obtain ⟨here, below⟩ := everywhere_diagram.mp complete
    have unwired : (Context.diagram (frame.copy ⟨last⟩ copies) copies).Everywhere Complete := by
      refine everywhere_diagram.mpr ⟨fun _ => ?_, fun system copy held => ?_⟩
      · apply (here closed).carry made.size
        intro system child present
        obtain ⟨copy, _, held⟩ := made.present system child present
        exact ⟨copy, held⟩
      · obtain ⟨child, present, copying⟩ := made.of_copy held
        exact ih _ _ present (below _ _ present) copying
    exact complete_delivery _ unwired rfl rfl (fun _ => rfl)

end Context

namespace Built
open Context
variable {rules : Rules} {tree : Context}

theorem complete (built : Built rules tree) : tree.Everywhere Complete := by
  induction built with
  | leaf => exact everywhere_leaf.mpr trivial
  | diagram =>
    refine everywhere_diagram.mpr ⟨nofun, fun system child present => ?_⟩
    cases (context?_vacancies _ system).symm.trans present
  | act built _ acted ih =>
    rcases built.wellFormed.act acted with ⟨_, rfl⟩ | ⟨found, changed, located, effect, rfl⟩
    · exact ih
    · exact ih.complete_graft located ((Everywhere.below ih located).complete_effect effect)
  | adopt _ _ _ adopted ih joining =>
    rcases adopt_left adopted with rfl | ⟨frame, subsystems, located, building, _, _, rfl⟩
    · exact ih
    · obtain ⟨_, below⟩ := everywhere_diagram.mp (Everywhere.below ih located)
      refine ih.complete_graft located (everywhere_diagram.mpr ⟨fun closed => ?_, fun system child held => ?_⟩)
      · cases building.symm.trans closed
      · rw [Subsystems.context?_install] at held
        split at held
        · cases held
          exact joining
        · exact below system child held
  | copy _ _ done ih => exact complete_copy ih done

theorem occupied {path : List Nat} {diagram : Diagram} (built : Built rules tree)
    (located : tree.locate path = .ok diagram.context) (closed : diagram.frame.phase = .sealed) :
    diagram.subsystems.Occupied :=
  built.complete path _ located closed

end Built
end BlockDiagram
