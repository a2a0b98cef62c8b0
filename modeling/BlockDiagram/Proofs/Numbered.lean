import BlockDiagram.Proofs.Survey

namespace BlockDiagram

-- Revising the state as a whole is the one way to change the number of entries.
def Operation.KeepsCounts : Operation → Prop
  | .reviseState revise => ∀ state changed, revise state = .ok changed →
    ∀ partition, changed.count partition = state.count partition
  | _ => True

namespace Context

theorem entryCount_receive (context : Context) (changes : List Change) (partition : Partition) :
    (context.receive changes).entryCount partition = context.entryCount partition := by
  cases context with
  | leaf own => exact own.count_receiveAll changes partition
  | diagram frame subsystems =>
    exact congrArg (CompositeState.count · partition) (Frame.Steady.receiveAll frame changes).composite

end Context

namespace Subsystems

theorem composite_delivery {subsystems others : Subsystems} (size : others.size = subsystems.size)
    (same : ∀ system, others.context? system = subsystems.context? system) (mail : Mail) :
    (others.receive mail).composite = subsystems.composite := by
  apply composite_congr ((size_receive _ _).trans size)
  intro partition system
  rw [context?_receive, same, Option.map_map]
  simp only [Function.comp_def, Context.entryCount_receive]

theorem composite_putContext {subsystems : Subsystems} {system : Nat} {child other : Context}
    (present : subsystems.context? system = some child)
    (counts : ∀ partition, other.entryCount partition = child.entryCount partition) :
    (subsystems.putContext system other).composite = subsystems.composite := by
  apply composite_congr (size_putContext _ _ _)
  intro partition place
  rw [context?_putContext]
  by_cases here : place = system
  · subst here
    simp [present, counts]
  · simp [here]

end Subsystems

namespace Context

-- A finished diagram has nothing unfinished in it and numbers it as it is.
def Numbered (context : Context) : Prop := context.Finished → context.Sealed ∧ context.Surveyed

-- As long as it is finished, the context shows as many entries as before.
def Counted (context later : Context) : Prop :=
  context.Sealed → later.Sealed ∧ ∀ partition, later.entryCount partition = context.entryCount partition

theorem Everywhere.surveyed {context : Context} (numbered : context.Everywhere Numbered) (finished : context.Finished) :
    context.Everywhere Surveyed := by
  intro path found located
  have closed := (numbered [] context (locate_nil _) finished).1
  exact (numbered path found located (closed path found located)).2

theorem surveyed_receive (context : Context) (changes : List Change) (surveyed : context.Surveyed) :
    (context.receive changes).Surveyed := by
  cases context with
  | leaf own => trivial
  | diagram frame subsystems =>
    have same := @Subsystems.composite_delivery subsystems _ rfl (fun _ => rfl)
      (changes.flatMap (frame.mail subsystems.layout))
    exact (Frame.Steady.receiveAll frame changes).composite.trans (surveyed.trans same.symm)

theorem numbered_receive (context : Context) (changes : List Change) (numbered : context.Numbered) :
    (context.receive changes).Numbered := by
  intro finished
  obtain ⟨closed, surveyed⟩ := numbered ((finished_receive context changes).mp finished)
  exact ⟨closed.receive changes, surveyed_receive context changes surveyed⟩

theorem numbered_leaf (own : Leaf) : (Context.leaf own).Everywhere Numbered :=
  everywhere_leaf.mpr (fun _ => ⟨everywhere_leaf.mpr trivial, trivial⟩)

section
variable {frame later : Frame} {subsystems others : Subsystems}

theorem numbered_told (numbered : (Context.diagram frame subsystems).Everywhere Numbered)
    (inside : later.phase = .sealed → subsystems.Sealed ∧ later.composite = subsystems.composite)
    (told : subsystems.Told others) (same : others.composite = subsystems.composite) :
    (Context.diagram later others).Everywhere Numbered := by
  refine everywhere_diagram.mpr ⟨fun closed => ?_, fun system other held => ?_⟩
  · obtain ⟨finished, composite⟩ := inside closed
    exact ⟨sealed_told closed finished told, composite.trans same.symm⟩
  · obtain ⟨child, changes, present, rfl⟩ := told system other held
    exact everywhere_receive numbered_receive changes ((everywhere_diagram.mp numbered).2 system child present)

theorem Everywhere.numbered_kept (numbered : (Context.diagram frame subsystems).Everywhere Numbered)
    (phase : later.phase = frame.phase) (composite : later.composite = frame.composite)
    (told : subsystems.Told others) (same : others.composite = subsystems.composite) :
    (Context.diagram later others).Everywhere Numbered ∧
      (Context.diagram frame subsystems).Counted (.diagram later others) := by
  refine ⟨numbered_told numbered (fun closed => ?_) told same, fun closed => ⟨?_, fun partition => ?_⟩⟩
  · obtain ⟨finished, surveyed⟩ := (everywhere_diagram.mp numbered).1 (phase.symm.trans closed)
    exact ⟨fun _ _ => finished.child, composite.trans surveyed⟩
  · exact sealed_told (phase.trans closed.frame) (fun _ _ => closed.child) told
  · exact congrArg (CompositeState.count · partition) composite

theorem Everywhere.numbered_effect {after : Context} {operation : Operation}
    (numbered : (Context.diagram frame subsystems).Everywhere Numbered)
    (effect : Effect (.diagram frame subsystems) operation after)
    (finishes : operation = .finishBuilding → subsystems.Sealed) :
    after.Everywhere Numbered ∧ (Context.diagram frame subsystems).Counted after := by
  cases effect with
  | idle => exact ⟨numbered, fun closed => ⟨closed, fun _ => rfl⟩⟩
  | received =>
    exact ⟨everywhere_receive numbered_receive _ numbered,
      fun closed => ⟨closed.receive _, entryCount_receive _ _⟩⟩
  | kept => exact numbered.numbered_kept rfl rfl subsystems.told_nothing rfl
  | exposedInput | exposedOutput => exact numbered.numbered_kept rfl rfl subsystems.told_nothing rfl
  | connected | told =>
    exact numbered.numbered_kept rfl rfl (Subsystems.told_receive (fun _ => rfl) _)
      (Subsystems.composite_delivery rfl (fun _ => rfl) _)
  | stored =>
    have same := Subsystems.context?_putBuffer subsystems
    exact numbered.numbered_kept rfl rfl (Subsystems.told_receive (same _ _) _)
      (Subsystems.composite_delivery (Subsystems.size_putBuffer _ _ _) (same _ _) _)
  | finished =>
    have inside := finishes rfl
    refine ⟨numbered_told numbered (fun _ => ⟨inside, rfl⟩) subsystems.told_nothing rfl, fun closed => ⟨?_, ?_⟩⟩
    · exact sealed_told rfl inside subsystems.told_nothing
    · -- A diagram that is finished already has just this table.
      intro partition
      have surveyed := ((everywhere_diagram.mp numbered).1 closed.frame).2
      exact congrArg (CompositeState.count · partition) (Eq.symm surveyed)

end

theorem counted_leaf {own : Leaf} {operation : Operation} {after : Context} (keeps : operation.KeepsCounts)
    (sound : (Context.leaf own).WellFormed) (left : ((Context.leaf own).perform operation).left? = some after) :
    (Context.leaf own).Counted after := by
  have counted : ∀ later : Leaf, (∀ partition, later.state.count partition = own.state.count partition) →
      (Context.leaf own).Counted (.leaf later) :=
    fun later counts _ => ⟨everywhere_leaf.mpr trivial, counts⟩
  have effect := perform_effect sound left
  cases effect with
  | idle => exact counted own (fun _ => rfl)
  | received => exact counted _ (own.count_receiveAll _)
  | kept => exact counted _ (fun _ => rfl)
  | @revised _ revise state =>
    simp only [perform, onLeaf, Outcome.left?_within, Outcome.left?_answering, Option.map_eq_some_iff] at left
    obtain ⟨revised, performed, same⟩ := left
    unfold Leaf.reviseState at performed
    split at performed
    · rename_i changed accepted
      cases performed
      cases same
      exact counted _ (keeps _ _ accepted)
    · cases performed

-- Some diagram on the way to the context is finished.
def Enclosed (tree : Context) (path : List Nat) : Prop :=
  ∃ front frame subsystems, front <+: path ∧ tree.locate front = .ok (.diagram frame subsystems) ∧ frame.phase = .sealed

theorem Everywhere.numbered_graft {tree found changed : Context} {path : List Nat} (numbered : tree.Everywhere Numbered)
    (located : tree.locate path = .ok found) (inside : changed.Everywhere Numbered) (counted : found.Counted changed) :
    (tree.graft path changed).Everywhere Numbered := by
  refine everywhere_graft ?_ ?_ located numbered inside counted
  · intro frame subsystems system child other present counted here finished
    obtain ⟨closed, surveyed⟩ := here finished
    have counts := (counted (closed.child present)).2
    exact ⟨sealed_putContext present (fun closed => (counted closed).1) closed,
      surveyed.trans (Subsystems.composite_putContext present counts).symm⟩
  · intro frame subsystems system child other present counted closed
    exact ⟨sealed_putContext present (fun closed => (counted closed).1) closed, fun _ => rfl⟩

-- Where nothing around is finished, nothing around has numbered anything yet.
theorem Everywhere.numbered_open {tree found changed : Context} {path : List Nat} (numbered : tree.Everywhere Numbered)
    (located : tree.locate path = .ok found) (inside : changed.Everywhere Numbered) (free : ¬ tree.Enclosed path) :
    (tree.graft path changed).Everywhere Numbered := by
  refine graft_induct (fun path before after => ¬ before.Enclosed path → before.Everywhere Numbered →
    after.Everywhere Numbered) located (fun _ _ => inside) ?_ free numbered
  intro frame subsystems system rest child other present around free numbered
  have building : ¬ frame.phase = .sealed :=
    fun closed => free ⟨[], frame, subsystems, List.nil_prefix, locate_nil _, closed⟩
  have below : ¬ child.Enclosed rest := by
    rintro ⟨front, inner, places, shorter, there, closed⟩
    exact free ⟨system :: front, inner, places, List.cons_prefix_cons.mpr ⟨rfl, shorter⟩,
      locate_cons.mpr ⟨child, present, there⟩, closed⟩
  have behind := (everywhere_diagram.mp numbered).2
  refine everywhere_diagram.mpr ⟨fun closed => absurd closed building, fun place context held => ?_⟩
  rcases Subsystems.of_putContext present held with ⟨_, rfl⟩ | kept
  · exact around below (behind system child present)
  · exact behind place context kept

theorem copy_surveyed {context copied : Context} {outer : Resolver} {serial next : Nat}
    (done : context.copy outer serial = .ok (copied, next)) : copied.Everywhere Surveyed := by
  induction context using Context.induct generalizing outer serial next copied with
  | leaf own =>
    cases done
    exact everywhere_leaf.mpr trivial
  | diagram frame subsystems ih =>
    obtain ⟨copies, marks, last, _, made, _, _, rfl, rfl⟩ := copy_diagram done
    refine everywhere_diagram.mpr ⟨(Subsystems.composite_delivery rfl (fun _ => rfl) _).symm, ?_⟩
    intro system other held
    obtain ⟨copy, there, rfl⟩ := Subsystems.of_receive held
    obtain ⟨child, present, copying⟩ := made.of_copy there
    exact everywhere_receive surveyed_receive _ (ih _ _ present copying)

-- Trees in which a diagram is finished only after all that is inside it, and in
-- which from then on no entry is added or removed in there.
inductive Stable : Context → Prop where
  | leaf {id : ContextId} {configuration : Configuration} {modal : List Value} :
    Stable (.leaf (.create id configuration modal))
  | diagram {id : ContextId} {places : Nat} {concurrency : Concurrency} :
    Stable (Diagram.create id places concurrency).context
  | act {tree after : Context} {path : List Nat} {operation : Operation} (stable : Stable tree)
    (finishes : operation = .finishBuilding → ∀ frame subsystems,
      tree.locate path = .ok (.diagram frame subsystems) → subsystems.Sealed)
    (keeps : tree.Enclosed path → operation.KeepsCounts)
    (acted : (tree.act path operation).left? = some after) : Stable after
  | adopt {tree other after : Context} {path : List Nat} {system : Nat} {buffer : OutputBuffer}
    (stable : Stable tree) (joining : Stable other) (apart : tree.Apart other)
    (adopted : (tree.adopt path system other buffer).left? = some after) : Stable after
  | copy {tree copied : Context} {outer : Resolver} {serial next : Nat} (stable : Stable tree)
    (done : tree.copy outer serial = .ok (copied, next)) : Stable copied

namespace Stable
variable {tree : Context}

theorem orderly (stable : Stable tree) : Orderly tree := by
  induction stable with
  | leaf => exact .leaf
  | diagram => exact .diagram
  | act _ finishes _ acted ih => exact ih.act finishes acted
  | adopt _ _ apart adopted ih joining => exact ih.adopt joining apart adopted
  | copy _ done ih => exact ih.copy done

theorem wellFormed (stable : Stable tree) : tree.WellFormed := stable.orderly.built.wellFormed

theorem numbered (stable : Stable tree) : tree.Everywhere Numbered := by
  induction stable with
  | leaf => exact numbered_leaf _
  | diagram =>
    refine everywhere_diagram.mpr ⟨nofun, fun system child present => ?_⟩
    cases (Built.context?_vacancies _ system).symm.trans present
  | @act before _ path _ stable finishes keeps acted ih =>
    rcases carryOut_left acted with ⟨_, rfl⟩ | ⟨found, changed, located, performed, rfl⟩
    · exact ih
    have sound := Everywhere.below stable.wellFormed located
    have here := Everywhere.below ih located
    cases found with
    | leaf own =>
      have inside : changed.Everywhere Numbered := by
        cases changed with
        | leaf later => exact numbered_leaf later
        | diagram => exact (perform_effect sound performed).grows.here.elim
      by_cases enclosed : before.Enclosed path
      · exact ih.numbered_graft located inside (counted_leaf (keeps enclosed) sound performed)
      · exact ih.numbered_open located inside enclosed
    | diagram frame subsystems =>
      obtain ⟨inside, counted⟩ := here.numbered_effect (perform_effect sound performed)
        (fun same => finishes same frame subsystems located)
      exact ih.numbered_graft located inside counted
  | adopt _ _ _ adopted ih joining =>
    rcases adopt_left adopted with rfl | ⟨frame, subsystems, located, building, _, _, rfl⟩
    · exact ih
    · have still : ¬ frame.phase = .sealed := fun closed => nomatch building.symm.trans closed
      refine ih.numbered_graft located (everywhere_diagram.mpr ⟨fun closed => absurd closed still, ?_⟩)
        (fun closed => absurd closed.frame still)
      intro system child held
      rw [Subsystems.context?_install] at held
      split at held
      · cases held
        exact joining
      · exact (everywhere_diagram.mp (Everywhere.below ih located)).2 system child held
  | copy _ done =>
    exact fun path found located _ =>
      ⟨Everywhere.below (copy_sealed done).2 located, copy_surveyed done path found located⟩

theorem surveyed {found : Context} {path : List Nat} (stable : Stable tree) (located : tree.locate path = .ok found)
    (finished : found.Finished) : found.Everywhere Surveyed :=
  (Everywhere.below stable.numbered located).surveyed finished

theorem joined {other : Context} (stable : Stable tree) (joining : Stable other) (apart : tree.Apart other)
    (path : List Nat) (system : Nat) (buffer : OutputBuffer) : Stable (tree.joined path system other buffer) := by
  unfold Context.joined
  cases adopted : (tree.adopt path system other buffer).left? with
  | none => exact stable
  | some after => exact stable.adopt joining apart adopted

theorem acted {path : List Nat} {operation : Operation} (stable : Stable tree)
    (finishes : operation = .finishBuilding → ∀ found, tree.locate path = .ok found →
      ∀ inner ∈ found.contexts.tail, inner.Finished)
    (keeps : operation.KeepsCounts) : Stable (tree.actAll [(path, operation)]) := by
  dsimp only [actAll, List.foldl_cons, List.foldl_nil]
  cases acted : (tree.act path operation).left? with
  | none => exact stable
  | some after =>
    refine stable.act (fun same frame subsystems there system child present place inner below => ?_)
      (fun _ => keeps) acted
    exact finishes same _ there inner ((Subsystems.mem_contexts _).mpr
      ⟨system, child, present, mem_contexts.mpr ⟨place, below⟩⟩)

theorem finish (stable : Stable tree) (inside : ∀ inner ∈ tree.contexts.tail, inner.Finished) :
    Stable (tree.actAll [([], .finishBuilding)]) := by
  refine stable.acted (fun _ found located => ?_) trivial
  rw [locate_nil] at located
  cases located
  exact inside

end Stable

end Context
end BlockDiagram
