import BlockDiagram.Proofs.Touch

namespace BlockDiagram
open Context

-- What a caller may ask for who keeps to the rules: no input is bound to a
-- handle by hand or rebound, and entries are written only as they are opened.
def Change.Plain : Change → Prop
  | .bind _ (some (.dependent _)) | .rebind .. | .openEntry .. | .storeEntry .. => False
  | _ => True

def Operation.Plain : Operation → Prop
  | .change asked => asked.Plain
  | _ => True

def Rules.plain : Rules := ⟨Operation.Plain, False⟩

namespace Context

theorem leaf_before {tree later : Context} {place : List Nat} {after : Leaf} (along : tree.Along Grows later)
    (covers : tree.Covers later) (located : later.locate place = .ok (.leaf after)) :
    ∃ own, tree.locate place = .ok (.leaf own) ∧ after.inputs.length = own.inputs.length := by
  obtain ⟨before, there⟩ := covers place _ located
  obtain ⟨same, arrived, grows⟩ := along place before there
  rw [located] at arrived
  cases arrived
  cases before with
  | leaf own => exact ⟨own, there, grows.2.1⟩
  | diagram => exact grows.elim

theorem Backed.act {tree after : Context} {path : List Nat} {operation : Operation} (backed : tree.Backed)
    (sound : tree.WellFormed) (plain : operation.Plain) (acted : (tree.act path operation).left? = some after) :
    after.Backed := by
  intro place later index handle located held
  obtain ⟨along, covers⟩ := along_act sound acted
  obtain ⟨own, there, lengths⟩ := leaf_before along covers located
  obtain ⟨changes, same, reaches⟩ := act_reaches sound acted there
  cases located.symm.trans reaches.located
  have bound : index < own.inputs.length := by
    rw [← lengths]
    exact (List.getElem?_eq_some_iff.mp held).1
  rcases reaches.touched.inputs bound with ⟨kept, unbound⟩ | ⟨binding, given, now⟩
  · obtain ⟨value, backs⟩ := backed place own index handle there (kept ▸ held)
    rcases reaches.backed index handle value backs with ⟨other, still, _⟩ | ⟨binding, member⟩
    · exact ⟨other, still⟩
    · exact absurd rfl (unbound _ member)
  · cases held.symm.trans now
    rcases given with member | member
    · rcases reaches.bound index _ bound member with ⟨outer, rfl⟩ | ⟨wire, value, same, backs⟩
      · exact plain.elim
      · cases same
        exact ⟨value, backs⟩
    · obtain ⟨outer, rfl⟩ := reaches.rebound index _ member
      exact plain.elim

theorem Backs.adopt {tree other : Context} {path : List Nat} {frame : Frame} {subsystems : Subsystems}
    {system : Nat} {buffer : OutputBuffer} (located : tree.locate path = .ok (.diagram frame subsystems))
    (bound : system < subsystems.size) {rest : List Nat} {index : Nat} {handle : Handle} {value : Option Value}
    (backs : other.Backs rest index handle value) :
    (tree.graft path (.diagram frame (subsystems.install system other buffer))).Backs
      (path ++ system :: rest) index handle value := by
  have inner : (Context.diagram frame (subsystems.install system other buffer)).locate [system] = .ok other := by
    refine locate_cons.mpr ⟨other, ?_, locate_nil _⟩
    rw [Subsystems.context?_install, if_pos ⟨rfl, bound⟩]
  exact (backs.lift inner).lift (locate_grafted _ located)

theorem locate_adopted {tree other found : Context} {path rest : List Nat} {frame : Frame} {subsystems : Subsystems}
    {system : Nat} (buffer : OutputBuffer) (located : tree.locate path = .ok (.diagram frame subsystems))
    (bound : system < subsystems.size) (inside : other.locate rest = .ok found) :
    (tree.graft path (.diagram frame (subsystems.install system other buffer))).locate (path ++ system :: rest) =
      .ok found := by
  refine (locate_append (locate_grafted _ located)).mpr (locate_cons.mpr ⟨other, ?_, inside⟩)
  rw [Subsystems.context?_install, if_pos ⟨rfl, bound⟩]

theorem Along.calm {tree later : Context} (still : tree.Along Still later) : tree.Along Calm later := by
  intro path found located
  obtain ⟨after, there, same⟩ := still path found located
  exact ⟨after, there, same.1⟩

theorem Backed.adopt {tree other after : Context} {path : List Nat} {system : Nat} {buffer : OutputBuffer}
    (backed : tree.Backed) (inner : other.Backed) (sound : tree.WellFormed)
    (adopted : (tree.adopt path system other buffer).left? = some after) : after.Backed := by
  rcases adopt_left adopted with rfl | ⟨frame, subsystems, located, _, bound, vacant, rfl⟩
  · exact backed
  have still := along_graft_install other buffer located vacant
  intro place own index handle there held
  rcases locate_graft_install located there with ⟨rest, rfl, inside⟩ | ⟨before, here⟩
  · obtain ⟨value, backs⟩ := inner rest own index handle inside held
    exact ⟨value, backs.adopt located bound⟩
  · obtain ⟨same, arrived, kept⟩ := still place before here
    rw [there] at arrived
    cases arrived
    cases before with
    | diagram => exact kept.1.elim
    | leaf first =>
      cases kept.2 first rfl
      obtain ⟨value, backs⟩ := backed place own index handle here held
      exact ⟨value, backs.along sound still.calm⟩

theorem reads_backed {tree : Context} {path : List Nat} {own : Leaf} {index : Nat} {handle : Handle}
    {value : Option Value} (unique : tree.Unambiguous) (located : tree.locate path = .ok (.leaf own))
    (held : own.inputs[index]? = some (some (.dependent handle))) (backs : tree.Backs path index handle value) :
    tree.reads path index = value := by
  obtain ⟨front, back, frame, subsystems, input, rfl, there, owner, _, home, rfl⟩ := backs
  obtain ⟨child, inner, present, _, same⟩ := Subsystems.terminalHome?_eq_some.mp home
  cases same
  rw [reads_leaf located, held]
  have followed := resolverAt_owner unique there present .nowhere inner.path handle.source
  rw [owner] at followed
  exact followed

theorem reads_same {tree later : Context} {path place : List Nat} {own after : Leaf} {index : Nat}
    (unique : tree.Unambiguous) (other : later.Unambiguous) (located : tree.locate path = .ok (.leaf own))
    (there : later.locate place = .ok (.leaf after)) (held : after.inputs[index]? = own.inputs[index]?)
    (backs : ∀ handle, own.inputs[index]? = some (some (.dependent handle)) →
      ∃ value, tree.Backs path index handle value ∧ later.Backs place index handle value) :
    tree.reads path index = later.reads place index := by
  cases found : own.inputs[index]? with
  | none => rw [reads_leaf located, reads_leaf there, held, found]; rfl
  | some binding =>
    cases binding with
    | none => rw [reads_leaf located, reads_leaf there, held, found]; rfl
    | some binding =>
      cases binding with
      | free => rw [reads_leaf located, reads_leaf there, held, found]; rfl
      | dependent handle =>
        obtain ⟨value, first, second⟩ := backs handle found
        rw [reads_backed unique located found first, reads_backed other there (held.trans found) second]

end Context

namespace Built

theorem backed {tree : Context} (built : Built .plain tree) : tree.Backed := by
  induction built with
  | leaf =>
    intro path own index handle located held
    obtain ⟨_, same⟩ := locate_leaf located
    cases same
    simp only [Leaf.create, List.getElem?_replicate] at held
    split at held <;> cases held
  | diagram =>
    intro path own index handle located held
    cases path with
    | nil => cases located
    | cons system path =>
      obtain ⟨child, present, _⟩ := locate_cons.mp located
      cases (context?_vacancies _ system).symm.trans present
  | act built plain acted ih => exact ih.act built.wellFormed plain acted
  | adopt built _ _ adopted ih joining => exact ih.adopt joining built.wellFormed adopted
  | copy allowed => exact allowed.elim

end Built

-- A leaf, by the tree it is in at the moment and its place there.
structure Site where
  tree : Context
  path : List Nat

-- What can happen to the tree a leaf is in: an operation on one of its
-- contexts, another tree being added to it, or its being added to another.
inductive Event where
  | act (path : List Nat) (operation : Operation)
  | take (path : List Nat) (system : Nat) (other : Context) (buffer : OutputBuffer)
  | enter (outer : Context) (path : List Nat) (system : Nat) (buffer : OutputBuffer)

namespace Site

inductive Step : Site → Event → Site → Prop where
  | act {tree after : Context} {place path : List Nat} {operation : Operation} (plain : operation.Plain)
    (acted : (tree.act path operation).left? = some after) :
    Step ⟨tree, place⟩ (.act path operation) ⟨after, place⟩
  | take {tree other after : Context} {place path : List Nat} {system : Nat} {buffer : OutputBuffer}
    (joining : Built .plain other) (apart : tree.Apart other)
    (adopted : (tree.adopt path system other buffer).left? = some after) :
    Step ⟨tree, place⟩ (.take path system other buffer) ⟨after, place⟩
  | enter {tree outer after : Context} {place path : List Nat} {system : Nat} {buffer : OutputBuffer}
    (around : Built .plain outer) (apart : outer.Apart tree)
    (adopted : outer.adopt path system tree buffer = .done .nothing after) :
    Step ⟨tree, place⟩ (.enter outer path system buffer) ⟨after, path ++ system :: place⟩

inductive Run : Site → List (Site × Event) → Site → Prop where
  | none {site : Site} : Run site [] site
  | step {site next finish : Site} {event : Event} {rest : List (Site × Event)} (first : Step site event next)
    (later : Run next rest finish) : Run site ((site, event) :: rest) finish

def leaf? (site : Site) : Option Leaf :=
  match site.tree.locate site.path with
  | .ok (.leaf own) => some own
  | _ => none

def reads (site : Site) (index : Nat) : Option Value := site.tree.reads site.path index

def SetsTime (site : Site) : Event → Prop
  | .act path (.change (.setTime _)) => path <+: site.path
  | _ => False

-- The event opens the state of the leaf for writing: the whole state, or an
-- entry that is at home in the leaf.
def OpensState (site : Site) : Event → Prop
  | .act path (.reviseState _) => path = site.path
  | .act path (.edit partition index _) => ∃ found back entry, site.path = path ++ back ∧
    site.tree.locate path = .ok found ∧ found.home? (.entries partition) index = some ⟨back, entry⟩
  | _ => False

def Stores (site : Site) (ticket : Ticket) : Event → Prop
  | .act path operation => path = site.path ∧ operation.Stores ticket
  | _ => False

-- What an event has not done to what a line of the leaf's cache depends on.
-- `finish` is where the leaf is in the end, and `own` what it is then.
structure Spares (site : Site) (event : Event) (finish : Site) (own : Leaf) (ticket : Ticket) : Prop where
  time : own.cache.DependsOn ticket timeTicket → ¬ site.SetsTime event
  state : own.cache.DependsOn ticket stateTicket → ¬ site.OpensState event
  inputs : ∀ index, index < own.inputs.length → own.cache.DependsOn ticket (Leaf.inputTicket index) →
    site.reads index = finish.reads index

theorem leaf?_eq_some {site : Site} {own : Leaf} :
    site.leaf? = some own ↔ site.tree.locate site.path = .ok (.leaf own) := by
  unfold leaf?
  split
  · rename_i other located
    rw [located]
    simp
  · rename_i none
    exact ⟨nofun, fun located => absurd located (none own)⟩

end Site

namespace Effect

theorem setTime {found changed : Context} {time : Float} (effect : Effect found (.change (.setTime time)) changed) :
    changed = found.receive [.setTime time] := by
  cases effect with
  | idle idles => cases idles
  | received sends => cases sends; rfl
  | kept keeps => cases keeps
  | told tells => cases tells

theorem edit {found changed : Context} {partition : Partition} {index : Nat}
    {revise : partition.Entry → Outcome Unit partition.Entry}
    (effect : Effect found (.edit partition index revise) changed) :
    ∃ changes, .openEntry partition index ∈ changes ∧ changed = found.receive changes := by
  cases effect with
  | idle idles => cases idles
  | received sends => cases sends <;> exact ⟨_, by simp, rfl⟩
  | kept keeps => cases keeps
  | told tells => cases tells

theorem reviseState {own : Leaf} {revise : State → Except Fault State} {changed : Context}
    (effect : Effect (.leaf own) (.reviseState revise) changed) :
    ∃ state, changed = .leaf { own.openState with state := state } := by
  cases effect with
  | idle idles => cases idles
  | received sends => cases sends
  | revised => exact ⟨_, rfl⟩
  | kept keeps => cases keeps

end Effect

namespace Context

theorem act_around {tree after : Context} {path rest : List Nat} {operation : Operation} {own : Leaf}
    (sound : tree.WellFormed) (acted : (tree.act path operation).left? = some after)
    (there : tree.locate (path ++ rest) = .ok (.leaf own)) :
    ∃ found changed, tree.locate path = .ok found ∧ found.locate rest = .ok (.leaf own) ∧
      Effect found operation changed ∧
      ∀ later, after.locate (path ++ rest) = .ok (.leaf later) → changed.locate rest = .ok (.leaf later) := by
  obtain ⟨middle, located, inside⟩ := locate_split there
  rcases sound.act acted with ⟨lost, _⟩ | ⟨found, changed, here, effect, rfl⟩
  · cases located.symm.trans lost
  · cases located.symm.trans here
    exact ⟨middle, changed, located, inside, effect,
      fun later arrived => (locate_append (locate_grafted changed located)).mp arrived⟩

end Context

namespace Site
variable {site next : Site} {event : Event} {ticket : Ticket} {value : Value}

theorem act_setsTime {tree after : Context} {place path : List Nat} {operation : Operation} {own later : Leaf}
    (sound : tree.WellFormed) (acted : (tree.act path operation).left? = some after)
    (there : tree.locate place = .ok (.leaf own)) (arrived : after.locate place = .ok (.leaf later))
    (held : later.cache.value? ticket = some value) (sets : SetsTime ⟨tree, place⟩ (.act path operation)) :
    ¬ own.cache.DependsOn ticket timeTicket := by
  have closed := leaf_closed sound there
  cases operation with
  | change asked =>
    cases asked with
    | setTime time =>
      obtain ⟨rest, equal⟩ : path <+: place := sets
      subst equal
      obtain ⟨found, changed, _, inside, effect, reached⟩ := act_around sound acted there
      have last := reached later arrived
      rw [effect.setTime] at last
      rw [receive_leaf inside last, Leaf.value?_receiveAll closed] at held
      exact held.2 _ (mailTo_setTime List.mem_cons_self inside) timeTicket rfl
    | _ => exact sets.elim
  | _ => exact sets.elim

theorem act_opensState {tree after : Context} {place path : List Nat} {operation : Operation} {own later : Leaf}
    (sound : tree.WellFormed) (acted : (tree.act path operation).left? = some after)
    (there : tree.locate place = .ok (.leaf own)) (arrived : after.locate place = .ok (.leaf later))
    (held : later.cache.value? ticket = some value) (opens : OpensState ⟨tree, place⟩ (.act path operation)) :
    ¬ own.cache.DependsOn ticket stateTicket := by
  have closed := leaf_closed sound there
  cases operation with
  | reviseState revise =>
    have equal : path = place := opens
    subst equal
    have whole : tree.locate (path ++ []) = .ok (.leaf own) := by rw [List.append_nil]; exact there
    obtain ⟨found, changed, _, inside, effect, reached⟩ := act_around sound acted whole
    rw [locate_nil] at inside
    cases inside
    obtain ⟨state, same⟩ := effect.reviseState
    have last := reached later (by rw [List.append_nil]; exact arrived)
    rw [same, locate_nil] at last
    cases last
    -- Revising the state leaves the cache that an invalidation of the state leaves.
    have kept := (Leaf.value?_receiveAll closed [.invalidateState]).mp held
    exact kept.2 _ (List.mem_singleton.mpr rfl) stateTicket rfl
  | edit partition index revise =>
    obtain ⟨found, rest, entry, equal, located, home⟩ := opens
    have equal : place = path ++ rest := equal
    subst equal
    obtain ⟨same, changed, here, inside, effect, reached⟩ := act_around sound acted there
    cases located.symm.trans here
    obtain ⟨changes, opened, whole⟩ := effect.edit
    have last := reached later arrived
    rw [whole] at last
    rw [receive_leaf inside last, Leaf.value?_receiveAll closed] at held
    refine held.2 _ (mailTo_openEntry opened home) stateTicket ?_
    obtain ⟨leaf, at_home, bound⟩ := locate_home home
    cases inside.symm.trans at_home
    exact if_pos bound
  | _ => exact opens.elim

theorem act_spares {tree after : Context} {place path : List Nat} {operation : Operation} {own later : Leaf}
    (built : Built .plain tree) (plain : operation.Plain) (acted : (tree.act path operation).left? = some after)
    (there : tree.locate place = .ok (.leaf own)) (arrived : after.locate place = .ok (.leaf later))
    (unstored : ¬ Stores ⟨tree, place⟩ ticket (.act path operation))
    (held : later.cache.value? ticket = some value) :
    own.inputs.length = later.inputs.length ∧ own.cache.value? ticket = some value ∧
      (∀ root, later.cache.DependsOn ticket root → own.cache.DependsOn ticket root) ∧
      Spares ⟨tree, place⟩ (.act path operation) ⟨after, place⟩ later ticket := by
  have sound := built.wellFormed
  have closed := leaf_closed sound there
  obtain ⟨along, _⟩ := along_act sound acted
  have lengths : later.inputs.length = own.inputs.length := by
    obtain ⟨same, located, grows⟩ := along place _ there
    rw [arrived] at located
    cases located
    exact grows.2.1
  obtain ⟨changes, same, reaches⟩ := act_reaches sound acted there
  cases arrived.symm.trans reaches.located
  have direct : ¬ (place = path ∧ operation.Stores ticket) := fun stores => unstored ⟨stores.1.symm, stores.2⟩
  obtain ⟨before, spared⟩ := reaches.touched.value? closed direct held
  have depends : ∀ root, later.cache.DependsOn ticket root → own.cache.DependsOn ticket root :=
    fun root => reaches.touched.dependsOn (Cache.value?_issued before)
  refine ⟨lengths.symm, before, depends, ?_, ?_, ?_⟩
  · intro needs sets
    exact act_setsTime sound acted there arrived held sets (depends _ needs)
  · intro needs opens
    exact act_opensState sound acted there arrived held opens (depends _ needs)
  · intro index bound needs
    have inside : index < own.inputs.length := lengths ▸ bound
    -- Any change that touched this input would have cleared the line.
    have undisturbed : ∀ change ∈ changes, own.root? change ≠ some (Leaf.inputTicket index) :=
      fun change member root => spared change member _ root (depends _ needs)
    have unbound : ∀ binding, .bind index binding ∉ changes := fun binding member => undisturbed _ member rfl
    refine reads_same built.unambiguous (built.act plain acted).unambiguous there arrived ?_ ?_
    · rcases reaches.touched.inputs inside with ⟨kept, _⟩ | ⟨binding, member | member, _⟩
      · exact kept
      · exact absurd member (unbound binding)
      · obtain ⟨outer, rfl⟩ := reaches.rebound index binding member
        exact plain.elim
    · intro handle bound
      obtain ⟨value, backs⟩ := built.backed place own index handle there bound
      rcases reaches.backed index handle value backs with ⟨other, still, rfl | cleared⟩ | ⟨binding, member⟩
      · exact ⟨_, backs, still⟩
      · exact absurd rfl (undisturbed _ cleared)
      · exact absurd member (unbound binding)

theorem built_step (built : Built .plain site.tree) (step : Step site event next) : Built .plain next.tree := by
  cases step with
  | act plain acted => exact built.act plain acted
  | take joining apart adopted => exact built.adopt joining apart adopted
  | @enter tree outer joined place path system buffer around apart adopted =>
    have done : (outer.adopt path system tree buffer).left? = some joined := by rw [adopted]; rfl
    exact .adopt around built apart done

theorem step_present {own : Leaf} (built : Built .plain site.tree) (step : Step site event next)
    (there : site.leaf? = some own) : ∃ later, next.leaf? = some later := by
  simp only [leaf?_eq_some] at *
  cases step with
  | @act tree after place path operation plain acted =>
    obtain ⟨same, arrived, grows⟩ := (along_act built.wellFormed acted).1 place _ there
    cases same with
    | leaf later => exact ⟨later, arrived⟩
    | diagram => exact grows.elim
  | @take tree other joined place path system buffer joining apart adopted =>
    rcases adopt_left adopted with same | ⟨frame, subsystems, located, _, _, vacant, same⟩
    · exact ⟨own, same ▸ there⟩
    · obtain ⟨after, arrived, still⟩ := along_graft_install other buffer located vacant place _ there
      cases still.2 own rfl
      exact ⟨own, same ▸ arrived⟩
  | @enter tree outer joined place path system buffer around apart adopted =>
    obtain ⟨frame, subsystems, located, bound, _, rfl⟩ := adopt_done adopted
    exact ⟨own, locate_adopted buffer located bound there⟩

theorem joined_spares {tree later : Context} {path place : List Nat} {own : Leaf} (built : Built .plain tree)
    (other : Built .plain later) (there : tree.locate path = .ok (.leaf own))
    (arrived : later.locate place = .ok (.leaf own))
    (backs : ∀ index handle value, tree.Backs path index handle value → later.Backs place index handle value)
    (index : Nat) : tree.reads path index = later.reads place index := by
  refine reads_same built.unambiguous other.unambiguous there arrived rfl (fun handle bound => ?_)
  obtain ⟨value, holds⟩ := built.backed path own index handle there bound
  exact ⟨value, holds, backs _ _ _ holds⟩

theorem step_spares {own later : Leaf} (built : Built .plain site.tree) (step : Step site event next)
    (there : site.leaf? = some own) (arrived : next.leaf? = some later)
    (unstored : ¬ site.Stores ticket event) (held : later.cache.value? ticket = some value) :
    own.inputs.length = later.inputs.length ∧ own.cache.value? ticket = some value ∧
      (∀ root, later.cache.DependsOn ticket root → own.cache.DependsOn ticket root) ∧
      site.Spares event next later ticket := by
  have after := built_step built step
  rw [leaf?_eq_some] at there arrived
  cases step with
  | act plain acted => exact act_spares built plain acted there arrived unstored held
  | @take tree other joined place path system buffer joining apart adopted =>
    have still : tree.Along Still joined := by
      rcases adopt_left adopted with same | ⟨frame, subsystems, located, _, _, vacant, same⟩
      · exact same ▸ .refl still_refl tree
      · exact same ▸ along_graft_install other buffer located vacant
    obtain ⟨same, reached, kept⟩ := still place _ there
    cases kept.2 own rfl
    cases arrived.symm.trans reached
    refine ⟨rfl, held, fun _ depends => depends, fun _ sets => sets, fun _ opens => opens, fun index _ _ => ?_⟩
    exact joined_spares built after there arrived
      (fun _ _ _ backs => backs.along built.wellFormed still.calm) index
  | @enter tree outer joined place path system buffer around apart adopted =>
    obtain ⟨frame, subsystems, located, bound, _, rfl⟩ := adopt_done adopted
    cases arrived.symm.trans (locate_adopted buffer located bound there)
    refine ⟨rfl, held, fun _ depends => depends, fun _ sets => sets, fun _ opens => opens, fun index _ _ => ?_⟩
    exact joined_spares built after there arrived (fun _ _ _ backs => backs.adopt located bound) index

theorem Spares.carry {finish : Site} {own later : Leaf} (spares : site.Spares event next own ticket)
    (lengths : own.inputs.length = later.inputs.length)
    (depends : ∀ root, later.cache.DependsOn ticket root → own.cache.DependsOn ticket root)
    (reads : ∀ index, index < later.inputs.length → later.cache.DependsOn ticket (Leaf.inputTicket index) →
      next.reads index = finish.reads index) : site.Spares event finish later ticket where
  time := fun needs => spares.time (depends _ needs)
  state := fun needs => spares.state (depends _ needs)
  inputs := fun index bound needs =>
    (spares.inputs index (lengths ▸ bound) (depends _ needs)).trans (reads index bound needs)

theorem run_present {finish : Site} {trace : List (Site × Event)} {own : Leaf} (built : Built .plain site.tree)
    (run : Run site trace finish) (there : site.leaf? = some own) : ∃ later, finish.leaf? = some later := by
  induction run generalizing own with
  | none => exact ⟨own, there⟩
  | step first _ ih =>
    obtain ⟨later, arrived⟩ := step_present built first there
    exact ih (built_step built first) arrived

theorem run_built {finish : Site} {trace : List (Site × Event)} (built : Built .plain site.tree)
    (run : Run site trace finish) : Built .plain finish.tree := by
  induction run with
  | none => exact built
  | step first _ ih => exact ih (built_step built first)

-- A line that is valid after a run that never stored it was valid throughout.
theorem run_spares {finish : Site} {trace : List (Site × Event)} {own later : Leaf} (built : Built .plain site.tree)
    (run : Run site trace finish) (there : site.leaf? = some own) (arrived : finish.leaf? = some later)
    (unstored : ∀ item ∈ trace, ¬ item.1.Stores ticket item.2) (held : later.cache.value? ticket = some value) :
    own.inputs.length = later.inputs.length ∧ own.cache.value? ticket = some value ∧
      (∀ root, later.cache.DependsOn ticket root → own.cache.DependsOn ticket root) ∧
      (∀ index, index < later.inputs.length → later.cache.DependsOn ticket (Leaf.inputTicket index) →
        site.reads index = finish.reads index) ∧
      ∀ item ∈ trace, item.1.Spares item.2 finish later ticket := by
  induction run generalizing own with
  | none =>
    cases there.symm.trans arrived
    exact ⟨rfl, held, fun _ depends => depends, fun _ _ _ => rfl, nofun⟩
  | @step site next finish event rest first run ih =>
    obtain ⟨middle, between⟩ := step_present built first there
    obtain ⟨lengths, valid, depends, reads, spared⟩ := ih (built_step built first) between arrived
      (fun item member => unstored item (List.mem_cons_of_mem _ member))
    obtain ⟨same, before, earlier, spares⟩ := step_spares built first there between
      (unstored _ List.mem_cons_self) valid
    have whole := spares.carry lengths depends reads
    refine ⟨same.trans lengths, before, fun root needs => earlier root (depends root needs), whole.inputs, ?_⟩
    intro item member
    rcases List.mem_cons.mp member with rfl | behind
    · exact whole
    · exact spared item behind

theorem run_append {finish : Site} {earlier later : List (Site × Event)} (run : Run site (earlier ++ later) finish) :
    ∃ middle, Run site earlier middle ∧ Run middle later finish := by
  induction earlier generalizing site with
  | nil => exact ⟨site, .none, run⟩
  | cons item earlier ih =>
    cases run with
    | step first run =>
      obtain ⟨middle, before, behind⟩ := ih run
      exact ⟨middle, .step first before, behind⟩

theorem last_store (ticket : Ticket) (trace : List (Site × Event)) :
    (∀ item ∈ trace, ¬ item.1.Stores ticket item.2) ∨ ∃ earlier store later, trace = earlier ++ store :: later ∧
      store.1.Stores ticket store.2 ∧ ∀ item ∈ later, ¬ item.1.Stores ticket item.2 := by
  induction trace with
  | nil => exact .inl nofun
  | cons item trace ih =>
    rcases ih with never | ⟨earlier, store, later, rfl, stores, never⟩
    · by_cases stores : item.1.Stores ticket item.2
      · exact .inr ⟨[], item, trace, rfl, stores, never⟩
      · refine .inl (fun other member => ?_)
        rcases List.mem_cons.mp member with rfl | behind
        · exact stores
        · exact never other behind
    · exact .inr ⟨item :: earlier, store, later, rfl, stores, never⟩

end Site

-- A line of a leaf's cache that is valid after a run has been stored in it, and
-- since it was stored last nothing it depends on has changed: neither the time
-- of the leaf nor its state has been written, and the inputs read the same.
theorem Site.valid_since_stored {id : ContextId} {configuration : Configuration} {modal : List Value}
    {trace : List (Site × Event)} {finish : Site} {own : Leaf} {ticket : Ticket} {value : Value}
    (run : Run ⟨.leaf (.create id configuration modal), []⟩ trace finish) (there : finish.leaf? = some own)
    (valid : own.cache.value? ticket = some value) :
    ∃ earlier store later, trace = earlier ++ store :: later ∧ store.1.Stores ticket store.2 ∧
      (∀ item ∈ later, ¬ item.1.Stores ticket item.2) ∧
      ∀ item ∈ later, item.1.Spares item.2 finish own ticket := by
  have built : Built .plain (.leaf (.create id configuration modal)) := .leaf
  have fresh : Site.leaf? ⟨.leaf (.create id configuration modal), []⟩ = some (.create id configuration modal) := rfl
  rcases last_store ticket trace with never | ⟨earlier, store, later, rfl, stores, never⟩
  · obtain ⟨_, held, _⟩ := run_spares built run fresh there never valid
    have empty : (Leaf.create id configuration modal).cache.value? ticket = none := by
      simp only [Leaf.create, Cache.value?, Cache.line?, Cache.blank, List.getElem?_replicate]
      split <;> rfl
    cases empty.symm.trans held
  · refine ⟨earlier, store, later, rfl, stores, never, ?_⟩
    obtain ⟨middle, before, behind⟩ := run_append run
    cases behind with
    | step first rest =>
      have whole := run_built built before
      obtain ⟨origin, reached⟩ := run_present built before fresh
      obtain ⟨start, begun⟩ := step_present whole first reached
      exact (run_spares (built_step whole first) rest begun there never valid).2.2.2.2

theorem Site.valid_since_stored_entered : ∃ (trace : List (Site × Event)) (finish : Site) (own : Leaf),
    Run ⟨.leaf (.create ⟨0⟩ ⟨1, 1, 0, []⟩ []), []⟩ trace finish ∧ trace.length = 4 ∧ finish.leaf? = some own ∧
      own.cache.value? ⟨3⟩ = some (.int32 5) ∧
      ∃ earlier store later, trace = earlier ++ store :: later ∧ store.1.Stores ⟨3⟩ store.2 ∧
        (∀ item ∈ later, ¬ item.1.Stores ⟨3⟩ item.2) ∧ ∀ item ∈ later, item.1.Spares item.2 finish own ⟨3⟩ := by
  have apart : ∀ own : Leaf, own.id = ⟨0⟩ → (Diagram.create ⟨1⟩ 1 .sequential).context.Apart (.leaf own) := by
    intro own zero
    refine Built.apart_create (fun path found located same => ?_)
    obtain ⟨_, rfl⟩ := locate_leaf located
    cases same.symm.trans zero
  have run : ∃ trace finish, Run ⟨.leaf (.create ⟨0⟩ ⟨1, 1, 0, []⟩ []), []⟩ trace finish ∧ trace.length = 4 ∧
      finish.leaf? = some { Leaf.create ⟨0⟩ ⟨1, 1, 0, []⟩ [] with
        cache := ((Cache.blank 3).extend [timeTicket, Leaf.inputTicket 0]).write ⟨3⟩ (some (.int32 5)) } := by
    refine ⟨_, _, .step (@Step.act _ _ _ [] (.issueTicket [timeTicket, Leaf.inputTicket 0]) trivial rfl)
      (.step (@Step.act _ _ _ [] (.setLine ⟨3⟩ (.int32 5)) trivial rfl)
      (.step (@Step.enter _ _ _ _ [] 0 ⟨[none]⟩ .diagram (apart _ rfl) rfl)
      (.step (@Step.act _ _ _ [] (.exposeInput ⟨0, 0⟩) trivial rfl) .none))), rfl, ?_⟩
    rfl
  obtain ⟨trace, finish, run, length, there⟩ := run
  exact ⟨trace, finish, _, run, length, there, rfl, valid_since_stored run there rfl⟩

end BlockDiagram
