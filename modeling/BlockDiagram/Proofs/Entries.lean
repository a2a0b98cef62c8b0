import BlockDiagram.Proofs.Numbered

namespace BlockDiagram

mutual
theorem Context.survey_receive (partition : Partition) : (context : Context) → (changes : List Change) →
    (context.receive changes).survey partition = context.survey partition
  | .leaf own, changes => by simp only [Context.receive, Context.survey, own.count_receiveAll]
  | .diagram frame subsystems, changes => subsystems.surveyFrom_receive partition _ 0
theorem Subsystems.surveyFrom_receive (partition : Partition) : (subsystems : Subsystems) → (mail : Mail) →
    (system : Nat) → (subsystems.receive mail).surveyFrom partition system = subsystems.surveyFrom partition system
  | .nil, _, _ => rfl
  | .vacant rest, mail, system => rest.surveyFrom_receive partition mail.later (system + 1)
  | .filled context _ rest, mail, system => by
    rw [Subsystems.receive, Subsystems.surveyFrom, context.survey_receive partition,
      rest.surveyFrom_receive partition mail.later, Subsystems.surveyFrom]
end

theorem Subsystems.surveyFrom_putContext {subsystems : Subsystems} {system : Nat} {child other : Context}
    {partition : Partition} (present : subsystems.context? system = some child)
    (same : other.survey partition = child.survey partition) (first : Nat) :
    (subsystems.putContext system other).surveyFrom partition first = subsystems.surveyFrom partition first := by
  fun_induction putContext subsystems system other generalizing first <;> simp_all [surveyFrom, context?]

-- The same entry of a leaf as seen from further out.
def Endpoint.beneath (front : List Nat) (inner : Endpoint) : Endpoint := ⟨front ++ inner.path, inner.index⟩

namespace Context

def SameSurvey (context later : Context) : Prop :=
  (later.Finished ↔ context.Finished) ∧ ∀ partition, later.survey partition = context.survey partition

theorem sameSurvey_refl (context : Context) : context.SameSurvey context := ⟨Iff.rfl, fun _ => rfl⟩

theorem sameSurvey_receive (context : Context) (changes : List Change) : context.SameSurvey (context.receive changes) :=
  ⟨finished_receive context changes, fun partition => context.survey_receive partition changes⟩

theorem sameSurvey_outward (frame : Frame) (subsystems : Subsystems) (system : Nat) (child other : Context)
    (present : subsystems.context? system = some child) (same : child.SameSurvey other) :
    (Context.diagram frame subsystems).SameSurvey (.diagram frame (subsystems.putContext system other)) :=
  ⟨Iff.rfl, fun partition => Subsystems.surveyFrom_putContext present (same.2 partition) 0⟩

theorem entryAt?_append {tree found : Context} {path : List Nat} (located : tree.locate path = .ok found)
    (partition : Partition) (inner : Endpoint) :
    tree.entryAt? partition (inner.beneath path) = found.entryAt? partition inner := by
  induction path generalizing tree with
  | nil =>
    rw [locate_nil] at located
    cases located
    rfl
  | cons system path ih =>
    cases tree with
    | leaf => cases located
    | diagram frame subsystems =>
      obtain ⟨child, present, below⟩ := locate_cons.mp located
      have outermost := entryAt?_under frame subsystems system partition (inner.beneath path)
      rw [present, Option.bind_some, ih below] at outermost
      exact outermost

theorem entryAt?_elsewhere {tree found changed : Context} {path : List Nat} {place : Endpoint}
    (located : tree.locate path = .ok found) (partition : Partition) (apart : ¬ path <+: place.path) :
    (tree.graft path changed).entryAt? partition place = tree.entryAt? partition place := by
  refine graft_induct (fun path before after => ∀ place : Endpoint, ¬ path <+: place.path →
    after.entryAt? partition place = before.entryAt? partition place) located ?_ ?_ place apart
  · exact fun _ apart => absurd List.nil_prefix apart
  · intro frame subsystems system rest child other present around place apart
    obtain ⟨path, index⟩ := place
    cases path with
    | nil => rfl
    | cons step path =>
      have below := fun subsystems => entryAt?_under frame subsystems step partition ⟨path, index⟩
      refine (below _).trans (Eq.trans ?_ (below _).symm)
      rw [Subsystems.context?_putContext]
      by_cases here : step = system
      · subst here
        rw [if_pos rfl, present]
        exact around ⟨path, index⟩ (fun shorter => apart (List.cons_prefix_cons.mpr ⟨rfl, shorter⟩))
      · rw [if_neg here]

theorem entryAt?_graft {tree found changed : Context} {path : List Nat} {place : Endpoint} {partition : Partition}
    (located : tree.locate path = .ok found)
    (same : ∀ inner : Endpoint, place = inner.beneath path →
      changed.entryAt? partition inner = found.entryAt? partition inner) :
    (tree.graft path changed).entryAt? partition place = tree.entryAt? partition place := by
  by_cases below : path <+: place.path
  · obtain ⟨rest, split⟩ := below
    have equal : place = Endpoint.beneath path ⟨rest, place.index⟩ := by
      rw [Endpoint.beneath, split]
    rw [equal, entryAt?_append (locate_grafted changed located), entryAt?_append located]
    exact same _ equal
  · exact entryAt?_elsewhere located partition below

theorem entryAt?_receive {context : Context} {changes : List Change} {partition : Partition} {place : Endpoint}
    (same : ∀ own, context.locate place.path = .ok (.leaf own) →
      ((context.mailTo changes place.path).foldl Leaf.receive own).state.read? partition place.index =
        own.state.read? partition place.index) :
    (context.receive changes).entryAt? partition place = context.entryAt? partition place := by
  unfold entryAt?
  cases located : context.locate place.path with
  | ok found =>
    rw [locate_receive changes located]
    cases found with
    | leaf own => exact same own located
    | diagram => rfl
  | error missing =>
    cases there : (context.receive changes).locate place.path with
    | error => rfl
    | ok after =>
      obtain ⟨found, held, _⟩ := locate_of_receive there
      cases located.symm.trans held

-- One entry has been written and no other, in this partition or another.
structure Rewritten (tree later : Context) (partition : Partition) (place : Endpoint) (written : partition.Entry) :
    Prop where
  here : later.entryAt? partition place = some written
  elsewhere : ∀ other, other ≠ place → later.entryAt? partition other = tree.entryAt? partition other
  beside : ∀ kind, kind ≠ partition → ∀ other, later.entryAt? kind other = tree.entryAt? kind other

theorem Rewritten.graft {tree found changed : Context} {path : List Nat} {partition : Partition} {place : Endpoint}
    {written : partition.Entry} (located : tree.locate path = .ok found)
    (rewritten : found.Rewritten changed partition place written) :
    tree.Rewritten (tree.graft path changed) partition (place.beneath path) written where
  here := (entryAt?_append (locate_grafted changed located) partition place).trans rewritten.here
  elsewhere := by
    intro other apart
    apply entryAt?_graft located
    rintro inner rfl
    exact rewritten.elsewhere inner (fun same => apart (same ▸ rfl))
  beside := fun kind other place => entryAt?_graft located (fun inner _ => rewritten.beside kind other inner)

theorem mailTo_unwritten {context : Context} {changes : List Change} {path : List Nat}
    (unwritten : ∀ change ∈ changes, ¬ change.Writes) :
    ∀ change ∈ context.mailTo changes path, ¬ change.Writes := by
  refine mailTo_forall ?_ ?_ unwritten
  · intro _ _ _ _ passed quiet
    cases passed <;> exact quiet
  · rintro (_ | _ | _ | _ | _ | _ | _ | _ | _) quiet
    all_goals first | exact fun writes => writes | exact quiet.elim

theorem entryAt?_unwritten {context : Context} {changes : List Change} (unwritten : ∀ change ∈ changes, ¬ change.Writes)
    (partition : Partition) (place : Endpoint) :
    (context.receive changes).entryAt? partition place = context.entryAt? partition place :=
  entryAt?_receive (fun _ _ => by rw [Leaf.state_receiveAll (mailTo_unwritten unwritten)])

section
variable {context : Context} {partition : Partition} {index : Nat} {place : Endpoint}

theorem mailTo_storeEntry (home : context.home? (.entries partition) index = some place) (written : partition.Entry)
    {path : List Nat} {own : Leaf} (located : context.locate path = .ok (.leaf own)) :
    context.mailTo [.storeEntry partition index written] path =
      if place.path = path then [.storeEntry partition place.index written] else [] := by
  refine @mailTo_routed _ (.storeEntry partition · written) ?_ _ _ _ home _ _ located
  intro frame layout index terminal entered
  obtain ⟨slot, held, rfl⟩ := Frame.target?_entries.mp entered
  simp only [Frame.mail, held]

-- Opening an entry clears on its way to it; what is stored then arrives there alone.
theorem state_written (home : context.home? (.entries partition) index = some place) (written : partition.Entry)
    {path : List Nat} {own : Leaf} (located : context.locate path = .ok (.leaf own)) :
    ((context.mailTo [.openEntry partition index, .storeEntry partition index written] path).foldl
        Leaf.receive own).state =
      if place.path = path then own.state.store partition place.index written else own.state := by
  have opened := @Leaf.state_receiveAll own (context.mailTo [.openEntry partition index] path)
    (mailTo_unwritten (by simp [Change.Writes]))
  rw [← List.singleton_append, mailTo_append, List.foldl_append, mailTo_storeEntry home written located]
  split
  · exact congrArg (State.store · partition place.index written) opened
  · exact opened

theorem rewritten_receive (home : context.home? (.entries partition) index = some place) (written : partition.Entry) :
    context.Rewritten (context.receive [.openEntry partition index, .storeEntry partition index written]) partition
      place written where
  here := by
    obtain ⟨own, located, bound⟩ := locate_home home
    have inside : place.index < (own.state.entries partition).length := bound
    have arrived := locate_receive [.openEntry partition index, .storeEntry partition index written] located
    simp only [entryAt?, arrived, receive, state_written home written located, if_true]
    simp [State.read?, State.entries_store, inside]
  elsewhere := by
    intro other apart
    refine entryAt?_receive (fun own located => ?_)
    rw [state_written home written located]
    split
    · rename_i same
      have different : place.index ≠ other.index := by
        intro equal
        apply apart
        cases place
        cases other
        simp_all
      simp [State.read?, State.entries_store, different]
    · rfl
  beside := by
    intro kind apart other
    refine entryAt?_receive (fun own located => ?_)
    rw [state_written home written located]
    split
    · simp only [State.read?, State.entries_store_other own.state place.index written apart]
    · rfl

theorem verdict_openEntry (sound : context.WellFormed)
    (furnished : ∀ system rest inner, context.locate (system :: rest) = .ok inner → inner.Furnished) :
    context.verdict (.openEntry partition index) = .accepted := by
  induction context using Context.induct generalizing index with
  | leaf own => rfl
  | diagram frame subsystems ih =>
    have below : ∀ system child, subsystems.context? system = some child → child.Everywhere Furnished :=
      fun system child present path found located =>
        furnished system path found (locate_cons.mpr ⟨child, present, located⟩)
    rw [verdict_diagram _ _ _ rfl, Verdict.all_accepted]
    intro verdict member
    obtain ⟨item, sent, rfl⟩ := List.mem_map.mp member
    rcases Frame.mem_mail.mp sent with passed | spread
    · cases passed with
      | @openEntry _ _ terminal entered =>
        cases present : subsystems.context? terminal.system with
        | none => rw [Subsystems.verdict_absent present]; rfl
        | some child =>
          rw [Subsystems.verdict_present present]
          exact ih _ _ present (sound.child present)
            (fun system rest inner located => below _ _ present (system :: rest) inner located)
    · obtain ⟨child, present, fits⟩ := Frame.ripple_fits sound.frame spread
      rw [Subsystems.verdict_present present]
      exact verdict_furnished (sound.child present) (below _ _ present) fits

theorem verdict_storeEntry (context : Context) (partition : Partition) (index : Nat) (written : partition.Entry) :
    context.verdict (.storeEntry partition index written) = .accepted := by
  induction context using Context.induct generalizing index with
  | leaf own => rfl
  | diagram frame subsystems ih =>
    rw [verdict_diagram _ _ _ rfl, Verdict.all_accepted]
    intro verdict member
    obtain ⟨item, sent, rfl⟩ := List.mem_map.mp member
    rcases Frame.mem_mail.mp sent with passed | spread
    · cases passed with
      | @storeEntry _ _ terminal _ entered =>
        cases present : subsystems.context? terminal.system with
        | none => rw [Subsystems.verdict_absent present]; rfl
        | some child =>
          rw [Subsystems.verdict_present present]
          exact ih _ _ present _
    · simp only [Frame.disturbed, Frame.ripple_nil, List.not_mem_nil] at spread

theorem receive_beyond (beyond : context.entryCount partition ≤ index) :
    context.receive [.openEntry partition index] = context ∧
      context.verdict (.openEntry partition index) = .accepted ∧ context.read? partition index = none := by
  cases context with
  | leaf own =>
    have outside : ¬ index < own.state.count partition := Nat.not_lt.mpr beyond
    exact ⟨congrArg Context.leaf (if_neg outside), rfl, List.getElem?_eq_none beyond⟩
  | diagram frame subsystems =>
    have missing : frame.composite.slot? partition index = none := List.getElem?_eq_none beyond
    have silent : frame.mail subsystems.layout (.openEntry partition index) = [] := by simp only [Frame.mail, missing]
    refine ⟨?_, ?_, by simp only [read?, missing]⟩
    · simp [receive, Frame.receive, missing, silent, Subsystems.receive_nil]
    · rw [verdict_diagram _ _ _ rfl, silent]
      rfl

theorem edit_beyond (beyond : context.entryCount partition ≤ index)
    (revise : partition.Entry → Outcome Unit partition.Entry) :
    context.edit partition index revise = .done false context := by
  obtain ⟨kept, accepted, missing⟩ := receive_beyond beyond
  simp only [edit, send, accepted, kept, missing]

theorem edit_done {revise : partition.Entry → Outcome Unit partition.Entry} {after : Context}
    (done : context.edit partition index revise = .done true after) :
    context.verdict (.openEntry partition index) = .accepted := by
  unfold edit at done
  split at done
  · rename_i sent
    unfold send at sent
    split at sent
    · assumption
    · cases sent
    · cases sent
  · cases done
  · cases done

theorem edit_within {revise : partition.Entry → Outcome Unit partition.Entry} {entry written : partition.Entry}
    (accepted : context.verdict (.openEntry partition index) = .accepted)
    (held : (context.receive [.openEntry partition index]).read? partition index = some entry)
    (revised : revise entry = .done written ()) :
    context.edit partition index revise =
      .done true (context.receive [.openEntry partition index, .storeEntry partition index written]) := by
  have told := receive_append context [.openEntry partition index] [.storeEntry partition index written]
  simp only [edit, send, accepted, held, revised, verdict_storeEntry, Outcome.answering, ← told, List.singleton_append]

end

theorem act_edit {tree found : Context} {path : List Nat} (located : tree.locate path = .ok found)
    (partition : Partition) (index : Nat) (revise : partition.Entry → Outcome Unit partition.Entry) :
    tree.act path (.edit partition index revise) =
      ((found.edit partition index revise).map .flag).within (tree.graft path) := by
  simp only [act, carryOut, operate, located, Except.map, perform]

theorem act_edited {tree found later : Context} {path : List Nat} {partition : Partition} {index : Nat}
    {revise : partition.Entry → Outcome Unit partition.Entry} (located : tree.locate path = .ok found)
    (done : tree.act path (.edit partition index revise) = .done (.flag true) later) :
    ∃ after, found.edit partition index revise = .done true after ∧ later = tree.graft path after := by
  rw [act_edit located] at done
  obtain ⟨after, answered, rfl⟩ := Outcome.within_eq_done.mp done
  obtain ⟨changed, edited, same⟩ := Outcome.map_eq_done.mp answered
  cases same
  exact ⟨after, edited, rfl⟩

instance : DecidablePred Furnished
  | .leaf _ => isTrue trivial
  | .diagram frame subsystems =>
    inferInstanceAs (Decidable (∀ output ∈ frame.outputs, output ∈ subsystems.layout.declaredBy output.system))

-- A leaf in a diagram that exports an output of it, whether or not the leaf declares
-- that output, and another leaf beside the diagram.
def encased (declares : Bool) : Context :=
  (((Diagram.create ⟨1⟩ 1 .sequential).context.joined [] 0
    (.leaf (.create ⟨0⟩ ⟨0, declares.toNat, 0, []⟩ [.int32 1])) ⟨[none]⟩).actAll
      [([], .exposeOutput ⟨0, 0⟩)]).actAll [([], .finishBuilding)]

def layered (declares : Bool) : Context :=
  (((Diagram.create ⟨3⟩ 2 .sequential).context.joined [] 0 (encased declares) ⟨[none]⟩).joined [] 1
    (.leaf (.create ⟨2⟩ ⟨0, 0, 0, []⟩ [.int32 2, .int32 3])) ⟨[]⟩).actAll [([], .finishBuilding)]

theorem encased_stable (declares : Bool) : Stable (encased declares) := by
  refine (@Stable.acted _ [] (.exposeOutput ⟨0, 0⟩) (Stable.diagram.joined .leaf ?_ [] 0 ⟨[none]⟩)
    (fun same => nomatch same) trivial).finish ?_
  all_goals cases declares <;> decide

theorem layered_stable (declares : Bool) : Stable (layered declares) := by
  refine ((Stable.diagram.joined (encased_stable declares) ?_ [] 0 ⟨[none]⟩).joined .leaf ?_ [] 1 ⟨[]⟩).finish ?_
  all_goals cases declares <;> decide

-- What a context shows as its own are the entries of the leaves below it, each of
-- them once and in order.
structure Shows (context : Context) (partition : Partition) : Prop where
  total : context.entryCount partition = (context.leaves.map (·.state.count partition)).sum
  length : (context.survey partition).length = context.entryCount partition
  ordered : (context.survey partition).Pairwise Endpoint.Before
  complete : ∀ place, place ∈ context.survey partition ↔
    ∃ own, context.locate place.path = .ok (.leaf own) ∧ place.index < own.state.count partition
  read : ∀ index, context.read? partition index =
    (context.survey partition)[index]?.bind (context.entryAt? partition)

theorem shows_survey {context : Context} (surveyed : context.Everywhere Surveyed) (partition : Partition) :
    context.Shows partition where
  total := (home?_survey surveyed partition).1.trans (context.length_survey partition)
  length := (home?_survey surveyed partition).1.symm
  ordered := context.survey_ascending partition
  complete := fun _ => mem_survey
  read := fun index => by rw [read?_home, (home?_survey surveyed partition).2]

namespace Stable
variable {tree found : Context} {path : List Nat}

-- An entry that has been written reads so through every finished context around it.
theorem read_back {later outer : Context} {front : List Nat} {partition : Partition} {place inner : Endpoint}
    {written : partition.Entry} {index : Nat} (stable : Stable later)
    (rewritten : tree.Rewritten later partition place written) (located : later.locate front = .ok outer)
    (finished : outer.Finished) (shown : (outer.survey partition)[index]? = some inner)
    (same : inner.beneath front = place) : outer.read? partition index = some written := by
  rw [(shows_survey (stable.surveyed located finished) partition).read, shown, Option.bind_some,
    ← entryAt?_append located, same]
  exact rewritten.here

-- In a finished context of such a tree the entries are those of its leaves. One that
-- is there can be written if no diagram further in exports an output that is not
-- declared; whenever it is written nothing else is, all contexts go on to show what
-- they showed, and it reads as written through all of them. One that is not there
-- can be neither read nor written.
theorem entries_exact (stable : Stable tree) (located : tree.locate path = .ok found) (finished : found.Finished)
    (partition : Partition) :
    found.Shows partition ∧
      (∀ index revise, found.entryCount partition ≤ index → found.read? partition index = none ∧
        tree.act path (.edit partition index revise) = .done (.flag false) tree) ∧
      ∀ index place entry revise written, (found.survey partition)[index]? = some place →
        found.entryAt? partition place = some entry → revise entry = .done written () →
        ((∀ system rest inner, found.locate (system :: rest) = .ok inner → inner.Furnished) →
          ∃ later, tree.act path (.edit partition index revise) = .done (.flag true) later) ∧
        ∀ later, tree.act path (.edit partition index revise) = .done (.flag true) later →
          tree.Rewritten later partition (place.beneath path) written ∧ tree.Along SameSurvey later ∧
          ∀ front outer position inner, later.locate front = .ok outer → outer.Finished →
            (outer.survey partition)[position]? = some inner → inner.beneath front = place.beneath path →
            outer.read? partition position = some written := by
  have sound : found.WellFormed := Everywhere.below stable.wellFormed located
  have surveyed := stable.surveyed located finished
  have shows := shows_survey surveyed partition
  refine ⟨shows, fun index revise beyond => ⟨(receive_beyond beyond).2.2, ?_⟩, ?_⟩
  · rw [act_edit located, edit_beyond beyond]
    exact congrArg (Outcome.done _) (graft_located located)
  intro index place entry revise written shown held revised
  have home := ((home?_survey surveyed partition).2 index).trans shown
  -- Opening the entry leaves it as it is.
  have opened : (found.receive [.openEntry partition index]).read? partition index = some entry := by
    have still := shows_survey (everywhere_receive surveyed_receive [.openEntry partition index] surveyed) partition
    rw [still.read, survey_receive, shown, Option.bind_some, entryAt?_unwritten (by simp [Change.Writes])]
    exact held
  refine ⟨fun furnished => ?_, fun later done => ?_⟩
  · refine ⟨tree.graft path (found.receive [.openEntry partition index, .storeEntry partition index written]), ?_⟩
    rw [act_edit located, edit_within (verdict_openEntry sound furnished) opened revised]
    rfl
  · obtain ⟨after, edited, rfl⟩ := act_edited located done
    rw [edit_within (edit_done edited) opened revised] at edited
    cases edited
    have rewritten := (rewritten_receive home written).graft located
    have again := @Stable.act _ _ path (.edit partition index revise) stable (fun same => nomatch same)
      (fun _ => trivial) (congrArg Outcome.left? done)
    refine ⟨rewritten, ?_, fun front outer position inner there closed reached same =>
      again.read_back rewritten there closed reached same⟩
    exact along_graft sameSurvey_refl sameSurvey_outward located (along_receive sameSurvey_receive _ _)

theorem entries_exact_layered :
    ∃ later, (layered true).act [] (.edit .modal 0 (fun _ => .done (.int32 7) ())) = .done (.flag true) later ∧
      later.entryAt? .modal ⟨[0, 0], 0⟩ = some (.int32 7) ∧ later.entryAt? .modal ⟨[1], 0⟩ = some (.int32 2) ∧
      ∀ front ∈ [[], [0], [0, 0]], ∃ outer, later.locate front = .ok outer ∧ outer.read? .modal 0 = some (.int32 7) := by
  obtain ⟨_, _, writes⟩ := entries_exact (layered_stable true) (locate_nil _) (by decide +kernel) .modal
  obtain ⟨willing, effects⟩ := writes 0 ⟨[0, 0], 0⟩ (.int32 1) (fun _ => .done (.int32 7) ()) (.int32 7)
    (by decide +kernel) (by decide +kernel) rfl
  obtain ⟨later, done⟩ := willing (fun system rest inner located => by
    have furnished : ∀ inner ∈ (layered true).contexts, inner.Furnished := by decide +kernel
    exact furnished inner (mem_contexts.mpr ⟨_, located⟩))
  obtain ⟨rewritten, along, back⟩ := effects later done
  refine ⟨later, done, rewritten.here, (rewritten.elsewhere ⟨[1], 0⟩ (by decide)).trans (by decide +kernel), ?_⟩
  have shown : ∀ front ∈ [[], [0], [0, 0]], ∃ found inner, (layered true).locate front = .ok found ∧ found.Finished ∧
      (found.survey .modal)[0]? = some inner ∧ inner.beneath front = ⟨[0, 0], 0⟩ := by
    simp only [List.forall_mem_cons, List.not_mem_nil, false_implies, implies_true, and_true]
    exact ⟨⟨_, _, rfl, by decide, rfl, rfl⟩, ⟨_, _, rfl, by decide, rfl, rfl⟩, ⟨_, _, rfl, by decide, rfl, rfl⟩⟩
  intro front member
  obtain ⟨found, inner, located, finished, first, same⟩ := shown front member
  obtain ⟨outer, there, closed, survey⟩ := along front found located
  exact ⟨outer, there, back front outer 0 inner there (closed.mpr finished) (by rw [survey]; exact first) same⟩

-- Where such an output is not declared, an entry that is there can not be written.
theorem entries_unwritable :
    ∃ tree, Stable tree ∧ tree.Finished ∧ tree.entryCount .modal = 3 ∧ tree.read? .modal 0 = some (.int32 1) ∧
      ∀ revise, tree.act [] (.edit .modal 0 revise) = .aborted (.outputOutOfRange 0 0) :=
  ⟨layered false, layered_stable false, by decide +kernel, by decide +kernel, by decide +kernel, fun _ => rfl⟩

end Stable

end Context
end BlockDiagram
