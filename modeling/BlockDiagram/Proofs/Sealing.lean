import BlockDiagram.Proofs.Inventory
import BlockDiagram.Proofs.Replay

namespace BlockDiagram

namespace Context

-- If the context is finished, so is everything inside it.
def Inward (context : Context) : Prop := context.Finished → context.Sealed

theorem finished_receive (context : Context) (changes : List Change) :
    (context.receive changes).Finished ↔ context.Finished := by
  cases context with
  | leaf own => exact Iff.rfl
  | diagram frame subsystems =>
    show (changes.foldl Frame.receive frame).phase = .sealed ↔ frame.phase = .sealed
    rw [(Frame.Steady.receiveAll frame changes).phase]

theorem Sealed.receive {context : Context} (closed : context.Sealed) (changes : List Change) :
    (context.receive changes).Sealed :=
  everywhere_receive (fun context changes => (finished_receive context changes).mpr) changes closed

theorem inward_receive (context : Context) (changes : List Change) (inward : context.Inward) :
    (context.receive changes).Inward :=
  fun finished => (inward ((finished_receive context changes).mp finished)).receive changes

theorem Sealed.inward {context : Context} (closed : context.Sealed) : context.Everywhere Inward :=
  fun _ _ located _ => Everywhere.below closed located

theorem inward_leaf (own : Leaf) : (Context.leaf own).Everywhere Inward :=
  everywhere_leaf.mpr (fun _ => everywhere_leaf.mpr trivial)

end Context

namespace Subsystems

def Sealed (subsystems : Subsystems) : Prop :=
  ∀ system child, subsystems.context? system = some child → child.Sealed

-- The others are the same subsystems, some of which may have been told something.
def Told (subsystems others : Subsystems) : Prop :=
  ∀ system other, others.context? system = some other →
    ∃ child changes, subsystems.context? system = some child ∧ other = child.receive changes

theorem told_nothing (subsystems : Subsystems) : subsystems.Told subsystems :=
  fun _ other held => ⟨other, [], held, (Context.receive_nil other).symm⟩

theorem told_receive {subsystems others : Subsystems}
    (same : ∀ system, others.context? system = subsystems.context? system) (mail : Mail) :
    subsystems.Told (others.receive mail) := by
  intro system other held
  obtain ⟨child, present, rfl⟩ := of_receive held
  exact ⟨child, _, (same system).symm.trans present, rfl⟩

end Subsystems

namespace Context
variable {frame later : Frame} {subsystems others : Subsystems}

theorem sealed_told (closed : later.phase = .sealed) (inside : subsystems.Sealed) (told : subsystems.Told others) :
    (Context.diagram later others).Sealed := by
  refine everywhere_diagram.mpr ⟨closed, fun system other held => ?_⟩
  obtain ⟨child, changes, present, rfl⟩ := told system other held
  exact (inside system child present).receive changes

theorem inward_told (inward : (Context.diagram frame subsystems).Everywhere Inward)
    (inside : later.phase = .sealed → subsystems.Sealed) (told : subsystems.Told others) :
    (Context.diagram later others).Everywhere Inward := by
  refine everywhere_diagram.mpr ⟨fun closed => sealed_told closed (inside closed) told, fun system other held => ?_⟩
  obtain ⟨child, changes, present, rfl⟩ := told system other held
  exact everywhere_receive inward_receive changes ((everywhere_diagram.mp inward).2 system child present)

-- As long as the phase stays, so does everything that matters here.
theorem Everywhere.inward_kept (inward : (Context.diagram frame subsystems).Everywhere Inward)
    (phase : later.phase = frame.phase) (told : subsystems.Told others) :
    (Context.diagram later others).Everywhere Inward ∧
      ((Context.diagram frame subsystems).Sealed → (Context.diagram later others).Sealed) := by
  refine ⟨inward_told inward (fun closed => ?_) told, fun closed => ?_⟩
  · have finished : (Context.diagram frame subsystems).Sealed :=
      (everywhere_diagram.mp inward).1 (phase.symm.trans closed)
    exact fun _ _ => finished.child
  · exact sealed_told (phase.trans closed.frame) (fun _ _ => closed.child) told

-- Finishing a diagram is the one operation that has to look inside.
theorem Everywhere.inward_effect {context after : Context} {operation : Operation} (inward : context.Everywhere Inward)
    (effect : Effect context operation after)
    (finishes : operation = .finishBuilding → ∀ frame subsystems, context = .diagram frame subsystems →
      subsystems.Sealed) :
    after.Everywhere Inward ∧ (context.Sealed → after.Sealed) := by
  cases effect with
  | idle => exact ⟨inward, fun closed => closed⟩
  | received => exact ⟨everywhere_receive inward_receive _ inward, fun closed => closed.receive _⟩
  | revised => exact ⟨inward_leaf _, fun _ => everywhere_leaf.mpr trivial⟩
  | kept =>
    cases context with
    | leaf own => exact ⟨inward_leaf _, fun _ => everywhere_leaf.mpr trivial⟩
    | diagram frame subsystems => exact inward.inward_kept rfl subsystems.told_nothing
  | exposedInput | exposedOutput => exact inward.inward_kept rfl (Subsystems.told_nothing _)
  | connected | told => exact inward.inward_kept rfl (Subsystems.told_receive (fun _ => rfl) _)
  | stored => exact inward.inward_kept rfl (Subsystems.told_receive (Subsystems.context?_putBuffer _ _ _) _)
  | finished =>
    have inside := finishes rfl _ _ rfl
    exact ⟨inward_told inward (fun _ => inside) (Subsystems.told_nothing _),
      fun _ => sealed_told rfl inside (Subsystems.told_nothing _)⟩

theorem sealed_putContext {system : Nat} {child other : Context}
    (present : subsystems.context? system = some child) (kept : child.Sealed → other.Sealed)
    (closed : (Context.diagram frame subsystems).Sealed) :
    (Context.diagram frame (subsystems.putContext system other)).Sealed := by
  refine everywhere_diagram.mpr ⟨closed.frame, fun place found held => ?_⟩
  rcases Subsystems.of_putContext present held with ⟨_, rfl⟩ | elsewhere
  · exact kept (closed.child present)
  · exact closed.child elsewhere

theorem Everywhere.inward_graft {tree found changed : Context} {path : List Nat} (inward : tree.Everywhere Inward)
    (located : tree.locate path = .ok found) (inside : changed.Everywhere Inward)
    (kept : found.Sealed → changed.Sealed) : (tree.graft path changed).Everywhere Inward :=
  @everywhere_graft _ (fun before after => before.Sealed → after.Sealed)
    (fun _ _ _ _ _ present kept here finished => sealed_putContext present kept (here finished))
    (fun _ _ _ _ _ present kept => sealed_putContext present kept) _ _ _ _ located inward inside kept

theorem copy_sealed {context copied : Context} {outer : Resolver} {serial next : Nat}
    (done : context.copy outer serial = .ok (copied, next)) : context.Sealed ∧ copied.Sealed := by
  induction context using Context.induct generalizing outer serial next copied with
  | leaf own =>
    cases done
    exact ⟨everywhere_leaf.mpr trivial, everywhere_leaf.mpr trivial⟩
  | diagram frame subsystems ih =>
    obtain ⟨copies, marks, last, closed, made, _, _, rfl, rfl⟩ := copy_diagram done
    refine ⟨everywhere_diagram.mpr ⟨closed, fun system child present => ?_⟩, ?_⟩
    · obtain ⟨copy, copying, _⟩ := made.present system child present
      exact (ih _ _ present copying).1
    · have inside : copies.Sealed := by
        intro system copy held
        obtain ⟨child, present, copying⟩ := made.of_copy held
        exact (ih _ _ present copying).2
      exact sealed_told rfl inside (Subsystems.told_receive (fun _ => rfl) _)

-- Trees in which a diagram is finished only after all that is inside it.
inductive Orderly : Context → Prop where
  | leaf {id : ContextId} {configuration : Configuration} {modal : List Value} :
    Orderly (.leaf (.create id configuration modal))
  | diagram {id : ContextId} {places : Nat} {concurrency : Concurrency} :
    Orderly (Diagram.create id places concurrency).context
  | act {tree after : Context} {path : List Nat} {operation : Operation} (orderly : Orderly tree)
    (finishes : operation = .finishBuilding → ∀ frame subsystems,
      tree.locate path = .ok (.diagram frame subsystems) → subsystems.Sealed)
    (acted : (tree.act path operation).left? = some after) : Orderly after
  | adopt {tree other after : Context} {path : List Nat} {system : Nat} {buffer : OutputBuffer}
    (orderly : Orderly tree) (joining : Orderly other) (apart : tree.Apart other)
    (adopted : (tree.adopt path system other buffer).left? = some after) : Orderly after
  | copy {tree copied : Context} {outer : Resolver} {serial next : Nat} (orderly : Orderly tree)
    (done : tree.copy outer serial = .ok (copied, next)) : Orderly copied

namespace Orderly
variable {tree : Context}

theorem built (orderly : Orderly tree) : Built .any tree := by
  induction orderly with
  | leaf => exact .leaf
  | diagram => exact .diagram
  | act _ _ acted ih => exact ih.act trivial acted
  | adopt _ _ apart adopted ih joining => exact ih.adopt joining apart adopted
  | copy _ done ih => exact ih.copy trivial done

theorem inward (orderly : Orderly tree) : tree.Everywhere Inward := by
  induction orderly with
  | leaf => exact inward_leaf _
  | diagram =>
    refine everywhere_diagram.mpr ⟨nofun, fun system child present => ?_⟩
    cases (Built.context?_vacancies _ system).symm.trans present
  | act orderly finishes acted ih =>
    rcases orderly.built.wellFormed.act acted with ⟨_, rfl⟩ | ⟨found, changed, located, effect, rfl⟩
    · exact ih
    · have below := (Everywhere.below ih located).inward_effect effect (fun same frame subsystems here =>
        finishes same frame subsystems (here ▸ located))
      exact ih.inward_graft located below.1 below.2
  | adopt _ _ _ adopted ih joining =>
    rcases adopt_left adopted with rfl | ⟨frame, subsystems, located, building, _, _, rfl⟩
    · exact ih
    · have still : ¬ frame.phase = .sealed := fun closed => nomatch building.symm.trans closed
      refine ih.inward_graft located (everywhere_diagram.mpr ⟨fun closed => absurd closed still, ?_⟩)
        (fun closed => absurd closed.frame still)
      intro system child held
      rw [Subsystems.context?_install] at held
      split at held
      · cases held
        exact joining
      · exact (everywhere_diagram.mp (Everywhere.below ih located)).2 system child held
  | copy _ done => exact (copy_sealed done).2.inward

theorem joined {other : Context} (orderly : Orderly tree) (joining : Orderly other) (apart : tree.Apart other)
    (path : List Nat) (system : Nat) (buffer : OutputBuffer) : Orderly (tree.joined path system other buffer) := by
  unfold Context.joined
  cases adopted : (tree.adopt path system other buffer).left? with
  | none => exact orderly
  | some after => exact orderly.adopt joining apart adopted

theorem finish {path : List Nat} {found : Context} (orderly : Orderly tree) (located : tree.locate path = .ok found)
    (inside : ∀ inner ∈ found.contexts.tail, inner.Finished) : Orderly (tree.actAll [(path, .finishBuilding)]) := by
  dsimp only [actAll, List.foldl_cons, List.foldl_nil]
  cases acted : (tree.act path .finishBuilding).left? with
  | none => exact orderly
  | some after =>
    refine orderly.act (fun _ frame subsystems there system child present => ?_) acted
    cases located.symm.trans there
    exact fun place inner below => inside inner ((Subsystems.mem_contexts _).mpr
      ⟨system, child, present, mem_contexts.mpr ⟨place, below⟩⟩)

end Orderly

-- Setting the time goes to every context below, and propagation has nothing to object.
theorem verdict_setTime {context : Context} (sound : context.WellFormed) (matched : context.Matched) (moment : Float) :
    context.verdict (.setTime moment) = .accepted ↔ context.Sealed := by
  induction context using Context.induct with
  | leaf own => exact ⟨fun _ => everywhere_leaf.mpr trivial, fun _ => rfl⟩
  | diagram frame subsystems ih =>
    by_cases closed : frame.phase = .sealed
    · have own : frame.verdict (.setTime moment) = .accepted := if_pos closed
      rw [verdict_diagram _ _ _ own, Verdict.all_accepted]
      constructor
      · intro accepted
        refine everywhere_diagram.mpr ⟨closed, fun system child present => ?_⟩
        refine (ih _ _ present (sound.child present) (matched.child present)).mp ?_
        rw [← Subsystems.verdict_present present]
        refine accepted _ (List.mem_map.mpr ⟨(system, .setTime moment), Frame.mem_mail.mpr (.inl ?_), rfl⟩)
        exact .setTime (Subsystems.mem_present.mpr ⟨child, present⟩)
      · intro finished verdict member
        obtain ⟨item, sent, rfl⟩ := List.mem_map.mp member
        rcases Frame.mem_mail.mp sent with passed | spread
        · cases passed with
          | setTime there =>
            obtain ⟨child, present⟩ := Subsystems.mem_present.mp there
            rw [Subsystems.verdict_present present]
            exact (ih _ _ present (sound.child present) (matched.child present)).mpr (finished.child present)
        · obtain ⟨child, present, fits⟩ := Frame.ripple_fits sound.frame spread
          rw [Subsystems.verdict_present present]
          exact verdict_fits (sound.child present) (matched.child present) fits
    · have objection : frame.verdict (.setTime moment) = .aborted (.notSealed .setTime) := if_neg closed
      rw [verdict, objection]
      exact ⟨fun accepted => Verdict.noConfusion accepted, fun finished => absurd finished.frame closed⟩

theorem setTime_of_mailTo {context : Context} {changes : List Change} {path : List Nat} {moment : Float}
    (member : .setTime moment ∈ context.mailTo changes path) : .setTime moment ∈ changes := by
  refine Classical.byContradiction (fun absent => ?_)
  refine @mailTo_forall (· ≠ .setTime moment) ?_ ?_ _ _ _ ?_ _ member rfl
  · intro _ _ _ _ passed other same
    cases passed <;> cases same
    exact other rfl
  · rintro _ quiet rfl
    exact quiet
  · rintro _ given rfl
    exact absent given

theorem Sealed.setTime {context : Context} (closed : context.Sealed) (sound : context.WellFormed)
    (matched : context.Matched) (moment : Float) :
    ∃ after, context.send (.setTime moment) = .done () after ∧
      context.Along (fun _ found => found.time = moment) after := by
  have accepted := (verdict_setTime sound matched moment).mpr closed
  refine ⟨context.receive [.setTime moment], by rw [send, accepted], fun place found located => ?_⟩
  refine ⟨_, locate_receive _ located, time_receive (fun other member => ?_) (.inr ?_)⟩
  · cases List.mem_singleton.mp (setTime_of_mailTo member)
    rfl
  · exact mailTo_setTime List.mem_cons_self located

-- A diagram in a diagram, neither of them finished.
def single : Context :=
  (Diagram.create ⟨1⟩ 1 .sequential).context.joined [] 0 (.leaf (.create ⟨0⟩ ⟨0, 1, 0, []⟩ [])) ⟨[none]⟩

def nested : Context := (Diagram.create ⟨2⟩ 1 .sequential).context.joined [] 0 single ⟨[]⟩

theorem nested_orderly : Orderly nested :=
  Orderly.diagram.joined (Orderly.diagram.joined .leaf (by decide) [] 0 ⟨[none]⟩) (by decide) [] 0 ⟨[]⟩

def inwards : Context := (nested.actAll [([0], .finishBuilding)]).actAll [([], .finishBuilding)]

theorem inwards_orderly : Orderly inwards := by
  have there : nested.locate [0] = .ok single := rfl
  exact (nested_orderly.finish there (by decide)).finish (locate_nil _) (by decide)

end Context

def Diagram.inwards : Diagram := Context.inwards.diagram?.get (by decide)

theorem Diagram.inwards_orderly : Diagram.inwards.context.Orderly := by
  rw [inwards, Context.context_get]
  exact Context.inwards_orderly

namespace Built
open Context
variable {tree : Context} {path : List Nat} {diagram : Diagram}

-- Finished from the inside out, a finished diagram has nothing unfinished in it.
-- Exactly then the time can be set, in all of it, and exactly then it can be copied.
theorem sealed_within (built : Built .any tree) (located : tree.locate path = .ok diagram.context)
    (closed : diagram.frame.phase = .sealed) :
    (Orderly tree → diagram.context.Sealed) ∧
      (diagram.context.Matched → ∀ moment outer serial,
        (diagram.context.Sealed ↔ ∃ after, diagram.context.send (.setTime moment) = .done () after ∧
          diagram.context.Along (fun _ found => found.time = moment) after) ∧
        (diagram.context.Sealed ↔ ∃ copied next, diagram.context.copy outer serial = .ok (copied, next))) := by
  obtain ⟨sound, _⟩ := built.frame_sound located
  refine ⟨fun orderly => orderly.inward _ _ located closed, fun matched moment outer serial => ⟨⟨?_, ?_⟩, ⟨?_, ?_⟩⟩⟩
  · exact fun finished => finished.setTime sound matched moment
  · rintro ⟨after, done, _⟩
    refine (verdict_setTime sound matched moment).mp ?_
    unfold send at done
    split at done <;> first | assumption | cases done
  · exact fun finished => diagram.context.copy_succeeds sound finished outer serial
  · rintro ⟨copied, next, done⟩
    exact (copy_sealed done).1

theorem sealed_within_inwards :
    ∃ diagram : Diagram, Orderly diagram.context ∧ diagram.frame.phase = .sealed ∧ diagram.context.Matched ∧
      diagram.context.Sealed ∧
      (∃ after, diagram.context.send (.setTime 1.5) = .done () after ∧
        diagram.context.Along (fun _ found => found.time = 1.5) after) ∧
      ∃ copied next, diagram.context.copy .nowhere 3 = .ok (copied, next) := by
  have orderly := Diagram.inwards_orderly
  have closed : Diagram.inwards.frame.phase = .sealed := by decide
  have matched : Diagram.inwards.context.Matched := by decide
  obtain ⟨hereditary, runs⟩ := sealed_within orderly.built (locate_nil _) closed
  obtain ⟨time, copies⟩ := runs matched 1.5 .nowhere 3
  have finished := hereditary orderly
  exact ⟨_, orderly, closed, matched, finished, time.mp finished, copies.mp finished⟩

-- Nothing keeps a diagram from being finished while one inside it is not.
theorem sealed_within_hollow :
    ∃ tree frame subsystems inner others, Built .any tree ∧ tree = .diagram frame subsystems ∧
      frame.phase = .sealed ∧ tree.Matched ∧ tree.locate [0] = .ok (.diagram inner others) ∧
      inner.phase = .building ∧ (∀ moment, tree.send (.setTime moment) = .aborted (.notSealed .setTime)) ∧
      tree.copy .nowhere 3 = .error (.notSealed .clone) :=
  ⟨Context.nested.actAll [([], .finishBuilding)], _, _, _, _, nested_orderly.built.actAll _ (fun _ _ => trivial), rfl,
    rfl, by decide, rfl, rfl, fun _ => rfl, rfl⟩

end Built
end BlockDiagram
