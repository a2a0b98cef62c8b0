import BlockDiagram.Proofs.Session
import BlockDiagram.Proofs.Replay
import BlockDiagram.Proofs.Coherence

namespace BlockDiagram

theorem Wiring.alike_rebuilt {wiring : Wiring} (coherent : wiring.Coherent) : wiring.Alike wiring.rebuilt where
  sources := TerminalTable.ext_find? wiring.coherent_rebuilt.sources coherent.sources (source?_rebuilt coherent)
  fed := by
    intro output
    refine (List.perm_ext_iff_of_nodup (wiring.coherent_rebuilt.once output) (coherent.once output)).mpr (fun input => ?_)
    rw [wiring.coherent_rebuilt.both, coherent.both, source?_rebuilt coherent]

namespace Subsystems

theorem slotsFrom_congr (partition : Partition) : {left right : Subsystems} → left.size = right.size →
    (∀ system, (left.context? system).map (·.entryCount partition) =
      (right.context? system).map (·.entryCount partition)) →
    ∀ system, left.slotsFrom partition system = right.slotsFrom partition system
  | .nil, .nil, _, _, _ => rfl
  | .nil, .vacant _, size, _, _ => by simp [Subsystems.size] at size
  | .nil, .filled .., size, _, _ => by simp [Subsystems.size] at size
  | .vacant _, .nil, size, _, _ => by simp [Subsystems.size] at size
  | .filled .., .nil, size, _, _ => by simp [Subsystems.size] at size
  | .vacant _, .filled .., _, counts, _ => nomatch counts 0
  | .filled .., .vacant _, _, counts, _ => nomatch counts 0
  | .vacant _, .vacant _, size, counts, system =>
    slotsFrom_congr partition (Nat.succ.inj size) (fun place => counts (place + 1)) (system + 1)
  | .filled first _ left, .filled other _ right, size, counts, system => by
    have same : first.entryCount partition = other.entryCount partition := Option.some.inj (counts 0)
    simp only [slotsFrom, same,
      slotsFrom_congr partition (Nat.succ.inj size) (fun place => counts (place + 1)) (system + 1)]

theorem composite_congr {left right : Subsystems} (size : left.size = right.size)
    (counts : ∀ partition system, (left.context? system).map (·.entryCount partition) =
      (right.context? system).map (·.entryCount partition)) : left.composite = right.composite :=
  congrArg CompositeState.tabulate (funext (fun partition => slotsFrom_congr partition size (counts partition) 0))

end Subsystems

def Change.Rebinds : Change → Prop
  | .rebind .. => True
  | _ => False

theorem Leaf.receive_rebinds (own : Leaf) {changes : List Change} (rebinds : ∀ change ∈ changes, change.Rebinds) :
    ∃ inputs, changes.foldl receive own = { own with inputs := inputs } ∧ inputs.length = own.inputs.length := by
  induction changes generalizing own with
  | nil => exact ⟨own.inputs, rfl, rfl⟩
  | cons change rest ih =>
    have here := rebinds change List.mem_cons_self
    cases change with
    | rebind index binding =>
      obtain ⟨inputs, same, length⟩ := ih (own.receive (.rebind index binding))
        (fun other member => rebinds other (List.mem_cons_of_mem _ member))
      exact ⟨inputs, same, length.trans List.length_set⟩
    | _ => exact here.elim

namespace Context

-- The diagram numbers the entries of its subsystems as they are now.
def Surveyed : Context → Prop
  | .leaf _ => True
  | .diagram frame subsystems => frame.composite = subsystems.composite

def Intact : Context → Prop
  | .leaf _ => True
  | .diagram frame subsystems => ∀ wire ∈ frame.wiring.wires, ∃ child, subsystems.context? wire.2.system = some child ∧
    child.input wire.2.index = .ok (some (.dependent ⟨frame.id, wire.1⟩))

-- What a context has in common with its copy, bindings apart.
def Copied : Context → Context → Prop
  | .leaf own, .leaf later => ∃ id inputs, later = { own with id := id, inputs := inputs } ∧
    inputs.length = own.inputs.length
  | .diagram frame subsystems, .diagram later others => frame.phase = .sealed ∧ frame.Alike later ∧
    others.size = subsystems.size ∧ ∀ system, others.buffer? system = subsystems.buffer? system
  | _, _ => False

theorem Copied.entryCount {found after : Context} (copied : found.Copied after) (partition : Partition) :
    after.entryCount partition = found.entryCount partition := by
  cases found <;> cases after <;> try exact copied.elim
  · obtain ⟨id, inputs, rfl, _⟩ := copied
    rfl
  · exact congrArg (CompositeState.count · partition) copied.2.1.composite

theorem Copied.receive {found after : Context} {changes : List Change} (copied : found.Copied after)
    (rebinds : ∀ change ∈ changes, change.Rebinds) : found.Copied (after.receive changes) := by
  cases found <;> cases after <;> try exact copied.elim
  · rename_i own later
    obtain ⟨id, inputs, rfl, length⟩ := copied
    obtain ⟨rebound, reached, same⟩ := Leaf.receive_rebinds { own with id := id, inputs := inputs } rebinds
    rw [Context.receive, reached]
    exact ⟨id, rebound, rfl, same.trans length⟩
  · rename_i frame subsystems later others
    have kept : changes.foldl Frame.receive later = later := by
      induction changes with
      | nil => rfl
      | cons change rest ih =>
        have here := rebinds change List.mem_cons_self
        cases change with
        | rebind => exact ih (fun other member => rebinds other (List.mem_cons_of_mem _ member))
        | _ => exact here.elim
    rw [Context.receive, kept]
    obtain ⟨closed, alike, size, buffers⟩ := copied
    exact ⟨closed, alike, (Subsystems.size_receive _ _).trans size, fun system => by rw [Subsystems.buffer?_receive, buffers]⟩

theorem mailTo_rebinds {context : Context} {changes : List Change} {path : List Nat}
    (rebinds : ∀ change ∈ changes, change.Rebinds) : ∀ change ∈ context.mailTo changes path, change.Rebinds := by
  induction path generalizing context changes with
  | nil => rw [mailTo_nil]; exact rebinds
  | cons system path ih =>
    cases context with
    | leaf => exact fun _ member => absurd member List.not_mem_nil
    | diagram frame subsystems =>
      simp only [mailTo]
      split
      · refine ih (fun change member => ?_)
        obtain ⟨cause, given, sent⟩ := mem_addressed_mail.mp member
        have here := rebinds cause given
        cases cause with
        | rebind =>
          rcases Frame.mem_mail.mp sent with passed | spread
          · cases passed; trivial
          · simp only [Frame.disturbed, Frame.ripple_nil, List.not_mem_nil] at spread
        | _ => exact here.elim
      · exact fun _ member => absurd member List.not_mem_nil

theorem copy_along {context copied : Context} {outer : Resolver} {serial next : Nat} (sound : context.WellFormed)
    (surveyed : context.Everywhere Surveyed) (done : context.copy outer serial = .ok (copied, next)) :
    context.Along Copied copied := by
  induction context using Context.induct generalizing outer serial next copied with
  | leaf own =>
    cases done
    intro path found located
    obtain ⟨rfl, rfl⟩ := locate_leaf located
    exact ⟨_, locate_nil _, _, _, rfl, List.length_map _⟩
  | diagram frame subsystems ih =>
    obtain ⟨copies, marks, last, closed, made, _, _, rfl, rfl⟩ := copy_diagram done
    obtain ⟨here, below⟩ := everywhere_diagram.mp surveyed
    have composite : copies.composite = frame.composite := by
      rw [here]
      refine Subsystems.composite_congr made.size (fun partition system => ?_)
      cases present : subsystems.context? system with
      | none => rw [made.vacant _ present]
      | some child =>
        obtain ⟨copy, copying, there⟩ := made.present _ _ present
        rw [there]
        exact congrArg some ((ih _ _ present (sound.child present) (below _ _ present) copying).here.entryCount partition)
    refine along_diagram ⟨closed, ?_, ?_, fun system => ?_⟩ (fun system child present => ?_)
    · exact ⟨closed.symm, rfl, rfl, rfl, rfl, Wiring.alike_rebuilt sound.frame.coherent, composite, rfl⟩
    · exact (Subsystems.size_receive _ _).trans made.size
    · rw [Subsystems.buffer?_receive, made.buffers]
    · obtain ⟨copy, copying, there⟩ := made.present _ _ present
      refine ⟨_, Subsystems.context?_received there _, fun path found located => ?_⟩
      obtain ⟨after, arrived, copied⟩ := ih _ _ present (sound.child present) (below _ _ present) copying path found located
      refine ⟨_, locate_receive _ arrived, copied.receive (mailTo_rebinds (fun change member => ?_))⟩
      obtain ⟨wire, _, same⟩ := List.mem_map.mp (Mail.mem_addressed.mp member)
      cases same
      trivial

theorem bound_of_backs {tree : Context} {path : List Nat} {index : Nat} {handle : Handle} {value : Option Value}
    {own : Leaf} (sound : tree.WellFormed) (intact : tree.Everywhere Intact) (backs : tree.Backs path index handle value)
    (located : tree.locate path = .ok (.leaf own)) : own.inputs[index]? = some (some (.dependent handle)) := by
  obtain ⟨front, back, frame, subsystems, input, rfl, there, owner, wired, home, _⟩ := backs
  have coherent : frame.wiring.Coherent := (WellFormed.frame (Everywhere.below sound there)).coherent
  obtain ⟨child, present, bound⟩ := intact front _ there ⟨handle.source, input⟩ ((Wiring.mem_wires coherent).mpr wired)
  obtain ⟨other, inner, held, inside, same⟩ := Subsystems.terminalHome?_eq_some.mp home
  cases same
  cases present.symm.trans held
  obtain ⟨again, found, below⟩ := locate_cons.mp ((locate_append there).mp located)
  cases present.symm.trans found
  rw [input_home inside below, owner] at bound
  unfold Leaf.input at bound
  split at bound
  · rename_i held
    cases bound
    exact held
  · cases bound

-- An input of a copied leaf is bound to a wire of the copy if some wire of the
-- original ends there, and otherwise to what it read.
theorem copy_binding {context copied : Context} {outer : Resolver} {serial next : Nat} {path : List Nat} {own : Leaf}
    {index : Nat} (sound : context.WellFormed) (done : context.copy outer serial = .ok (copied, next))
    (located : context.locate path = .ok (.leaf own)) (bound : index < own.inputs.length) :
    ∃ later, copied.locate path = .ok (.leaf later) ∧ later.inputs.length = own.inputs.length ∧
      ((∃ front original top output value, context.locate front = .ok original ∧ copied.locate front = .ok top ∧
          context.Backs path index ⟨original.id, output⟩ value ∧
          later.inputs[index]? = some (some (.dependent ⟨top.id, output⟩))) ∨
        ((∀ handle value, ¬ context.Backs path index handle value) ∧
          later.inputs[index]? = some (Binding.settled (context.resolverAt outer path) own.inputs[index]))) := by
  induction context using Context.induct generalizing outer serial next copied path with
  | leaf leaf =>
    obtain ⟨rfl, same⟩ := locate_leaf located
    cases same
    cases done
    refine ⟨_, locate_nil _, List.length_map _, .inr ⟨?_, ?_⟩⟩
    · intro handle value backs
      obtain ⟨front, back, frame, subsystems, input, _, there, _⟩ := backs
      cases (locate_leaf there).2
    · simp [Leaf.copy, bound, resolverAt_nil]
  | diagram frame subsystems ih =>
    obtain ⟨copies, marks, last, _, made, _, _, rfl, rfl⟩ := copy_diagram done
    cases path with
    | nil => cases located
    | cons system path =>
      obtain ⟨child, present, below⟩ := locate_cons.mp located
      obtain ⟨copy, copying, there⟩ := made.present _ _ present
      obtain ⟨first, inside, length, binding⟩ := ih _ _ present (sound.child present) copying below
      obtain ⟨later, arrived, kept, inputs⟩ := Subsystems.rewired_leaf sound made ⟨last⟩ there inside
      have step : (Context.diagram frame subsystems).locate [system] = .ok child :=
        locate_cons.mpr ⟨child, present, locate_nil child⟩
      refine ⟨later, locate_cons.mpr ⟨_, Subsystems.context?_received there _, arrived⟩, kept.trans length, ?_⟩
      have held := inputs index (length ▸ bound)
      cases ended : subsystems.lastInto frame.wiring.wires ⟨system :: path, index⟩ with
      | some output =>
        rw [ended] at held
        obtain ⟨target, member, home⟩ := Subsystems.lastInto_some ended
        refine .inl ⟨[], _, _, output, subsystems.output? output, locate_nil _, locate_nil _, ?_, held⟩
        exact ⟨[], _, frame, subsystems, target, rfl, locate_nil _, rfl, (Wiring.mem_wires sound.frame.coherent).mp member,
          home, rfl⟩
      | none =>
        rw [ended] at held
        rcases binding with ⟨front, original, top, output, value, one, two, backs, wired⟩ | ⟨unbacked, settled⟩
        · refine .inl ⟨system :: front, original, _, output, value, locate_cons.mpr ⟨child, present, one⟩,
            locate_cons.mpr ⟨_, Subsystems.context?_received there _, locate_receive _ two⟩, backs.lift step, ?_⟩
          rw [id_receive]
          exact held.trans wired
        · refine .inr ⟨?_, ?_⟩
          · intro handle value backs
            rcases backs.innermost present with ⟨input, _, wired, home, _⟩ | deeper
            · exact Subsystems.lastInto_none ended ((Wiring.mem_wires sound.frame.coherent).mpr wired) home
            · exact unbacked handle value deeper
          · rw [held, settled, resolverAt_cons present]

-- The ids of two contexts that are at the same place of two trees.
def Stands (tree copied : Context) (one two : ContextId) : Prop :=
  ∃ path found after, tree.locate path = .ok found ∧ copied.locate path = .ok after ∧ found.id = one ∧ after.id = two

theorem Stands.determined {tree copied : Context} {one two other : ContextId} (unique : tree.Unambiguous)
    (first : tree.Stands copied one two) (second : tree.Stands copied one other) : two = other := by
  obtain ⟨path, found, after, here, there, rfl, rfl⟩ := first
  obtain ⟨place, again, later, located, arrived, same, rfl⟩ := second
  cases unique _ _ _ _ here located same.symm
  cases there.symm.trans arrived
  rfl

theorem Stands.apart {tree copied : Context} {one two other : ContextId} (unique : copied.Unambiguous)
    (first : tree.Stands copied one two) (second : tree.Stands copied other two) : one = other := by
  obtain ⟨path, found, after, here, there, rfl, rfl⟩ := first
  obtain ⟨place, again, later, located, arrived, rfl, same⟩ := second
  cases unique _ _ _ _ there arrived same.symm
  cases here.symm.trans located
  rfl

end Context

-- A one-to-one matching with ids below some serial is part of an injective
-- renaming: whatever it leaves out is sent beyond that serial.
theorem ContextId.exists_extension {matched : ContextId → ContextId → Prop} {next : Nat}
    (determined : ∀ one two other, matched one two → matched one other → two = other)
    (apart : ∀ one two other, matched one two → matched other two → one = other)
    (low : ∀ one two, matched one two → two.serial < next) :
    ∃ rename : ContextId → ContextId, Function.Injective rename ∧ ∀ one two, matched one two → two = rename one := by
  have fresh : ∀ one other, ¬ matched one ⟨next + other⟩ :=
    fun one other stands => absurd (low _ _ stands) (Nat.not_lt.mpr (Nat.le_add_right next other))
  classical
  refine ⟨fun one => if known : ∃ two, matched one two then known.choose else ⟨next + one.serial⟩, ?_, ?_⟩
  · intro one other same
    dsimp only at same
    split at same <;> split at same
    · rename_i known familiar
      exact apart _ _ _ known.choose_spec (same ▸ familiar.choose_spec)
    · rename_i known _
      exact absurd (same ▸ known.choose_spec) (fresh one other.serial)
    · rename_i _ known
      exact absurd (same ▸ known.choose_spec) (fresh other one.serial)
    · have serials := congrArg ContextId.serial same
      simp only [Nat.add_left_cancel_iff] at serials
      cases one
      cases other
      exact congrArg ContextId.mk serials
  · intro one two stands
    have known : ∃ two, matched one two := ⟨two, stands⟩
    dsimp only
    rw [dif_pos known]
    exact determined _ _ _ stands known.choose_spec

namespace Context

theorem exists_rename {tree copied : Context} {next : Nat} (first : tree.Unambiguous) (second : copied.Unambiguous)
    (bound : ∀ path after, copied.locate path = .ok after → after.id.serial < next) :
    ∃ rename : ContextId → ContextId, Function.Injective rename ∧ ∀ path found after,
      tree.locate path = .ok found → copied.locate path = .ok after → after.id = rename found.id := by
  have low : ∀ one two, tree.Stands copied one two → two.serial < next := by
    intro one two stands
    obtain ⟨path, found, after, _, there, _, rfl⟩ := stands
    exact bound path after there
  obtain ⟨rename, injective, renames⟩ := ContextId.exists_extension
    (fun _ _ _ one two => one.determined first two) (fun _ _ _ one two => one.apart second two) low
  exact ⟨rename, injective, fun path found after here there => renames _ _ ⟨path, found, after, here, there, rfl, rfl⟩⟩

-- The bindings of a copied leaf name the copy's diagrams where they named the
-- original's, and carry the same values elsewhere.
theorem copy_inputs {tree copied : Context} {outer : Resolver} {serial next : Nat} {rename : ContextId → ContextId}
    {path : List Nat} {own later : Leaf} (sound : tree.WellFormed) (intact : tree.Everywhere Intact)
    (backed : tree.Backed) (done : tree.copy outer serial = .ok (copied, next))
    (renames : ∀ path found after, tree.locate path = .ok found → copied.locate path = .ok after →
      after.id = rename found.id) (located : tree.locate path = .ok (.leaf own))
    (there : copied.locate path = .ok (.leaf later)) (length : later.inputs.length = own.inputs.length) :
    later.inputs = own.inputs.map (Option.map (Binding.renamed rename)) := by
  refine List.ext_getElem? (fun index => ?_)
  rw [List.getElem?_map]
  by_cases bound : index < own.inputs.length
  · obtain ⟨same, arrived, _, ended⟩ := copy_binding sound done located bound
    cases there.symm.trans arrived
    rw [List.getElem?_eq_getElem bound]
    rcases ended with ⟨front, original, top, output, value, one, two, backs, wired⟩ | ⟨unbacked, settled⟩
    · -- An intact wire ends here, so the original was bound to it as well.
      have held := bound_of_backs sound intact backs located
      rw [List.getElem?_eq_getElem bound] at held
      rw [wired, renames front original top one two, Option.some.inj held]
      rfl
    · rw [settled]
      cases held : own.inputs[index] with
      | none => rfl
      | some binding =>
        cases binding with
        | free value => rfl
        | dependent handle =>
          obtain ⟨value, backs⟩ := backed path own index handle located
            (by rw [List.getElem?_eq_getElem bound, held])
          exact absurd backs (unbacked handle value)
  · have outside : own.inputs.length ≤ index := Nat.le_of_not_lt bound
    rw [List.getElem?_eq_none (length ▸ outside), List.getElem?_eq_none outside]
    rfl

theorem copy_twin {tree copied : Context} {outer : Resolver} {serial next : Nat} {rename : ContextId → ContextId}
    (sound : tree.WellFormed) (intact : tree.Everywhere Intact) (backed : tree.Backed)
    (surveyed : tree.Everywhere Surveyed) (done : tree.copy outer serial = .ok (copied, next))
    (renames : ∀ path found after, tree.locate path = .ok found → copied.locate path = .ok after →
      after.id = rename found.id) : tree.Twin rename copied := by
  intro path found located
  obtain ⟨after, there, copied⟩ := copy_along sound surveyed done path found located
  refine ⟨after, there, ?_⟩
  have id := renames path found after located there
  cases found <;> cases after <;> try exact copied.elim
  · rename_i own later
    obtain ⟨_, inputs, rfl, length⟩ := copied
    have bindings : inputs = own.inputs.map (Option.map (Binding.renamed rename)) :=
      copy_inputs sound intact backed done renames located there length
    show Leaf.mk _ _ _ _ _ _ = Leaf.mk _ _ _ _ _ _
    congr
  · obtain ⟨closed, alike, size, buffers⟩ := copied
    exact ⟨id, closed, alike, size, buffers⟩

instance : DecidablePred Surveyed
  | .leaf _ => isTrue trivial
  | .diagram frame subsystems => inferInstanceAs (Decidable (frame.composite = subsystems.composite))

instance : DecidablePred Intact
  | .leaf _ => isTrue trivial
  | .diagram frame subsystems =>
    decidable_of_iff (∀ wire ∈ frame.wiring.wires,
      (subsystems.context? wire.2.system).bind (fun child => (child.input wire.2.index).toOption) =
        some (some (.dependent ⟨frame.id, wire.1⟩)))
      (forall_congr' (fun wire => imp_congr_right (fun _ => by
        rw [Option.bind_eq_some_iff]
        refine exists_congr (fun child => and_congr_right (fun _ => ?_))
        cases child.input wire.2.index <;> simp [Except.toOption])))

-- The outer diagram numbered the state of the inner one before that was finished.
def presealed : Context :=
  ((Diagram.create ⟨2⟩ 1 .sequential).context.joined [] 0
    ((Diagram.create ⟨1⟩ 1 .sequential).context.joined [] 0 (.leaf (.create ⟨0⟩ ⟨0, 1, 1, []⟩ [])) ⟨[none]⟩) ⟨[]⟩).actAll
    [([], .finishBuilding), ([0], .finishBuilding)]

theorem presealed_built (rules : Rules) (plain : ∀ operation : Operation, operation.Plain → rules.permits operation) :
    Built rules presealed :=
  (Built.diagram.joined (Built.diagram.joined .leaf (by decide) [] 0 ⟨[none]⟩) (by decide) [] 0 ⟨[]⟩).actAll
    _ (fun step member => plain step.2 (by revert step; simp [Operation.Plain]))

def relayed : Context :=
  (((Diagram.create ⟨4⟩ 2 .sequential).context.joined [] 0
    ((((Diagram.create ⟨2⟩ 2 .sequential).context.joined [] 0 (.leaf (.create ⟨0⟩ ⟨1, 1, 0, []⟩ [])) ⟨[none]⟩).joined [] 1
      (.leaf (.create ⟨1⟩ ⟨1, 1, 0, []⟩ [])) ⟨[none]⟩).actAll
      [([], .connect ⟨0, 0⟩ ⟨1, 0⟩), ([], .exposeOutput ⟨1, 0⟩), ([], .finishBuilding)]) ⟨[none]⟩).joined [] 1
    (.leaf (.create ⟨3⟩ ⟨1, 1, 0, []⟩ [])) ⟨[none]⟩).actAll
    [([], .connect ⟨0, 0⟩ ⟨1, 0⟩), ([], .finishBuilding), ([], .setOutput ⟨0, 0⟩ (.int32 1))]

theorem relayed_built (rules : Rules) (plain : ∀ operation : Operation, operation.Plain → rules.permits operation) :
    Built rules relayed := by
  have inner := ((@Built.diagram rules ⟨2⟩ 2 .sequential).joined (@Built.leaf rules ⟨0⟩ ⟨1, 1, 0, []⟩ []) (by decide)
    [] 0 ⟨[none]⟩).joined (@Built.leaf rules ⟨1⟩ ⟨1, 1, 0, []⟩ []) (by decide) [] 1 ⟨[none]⟩
  have nested := inner.actAll [([], .connect ⟨0, 0⟩ ⟨1, 0⟩), ([], .exposeOutput ⟨1, 0⟩), ([], .finishBuilding)]
    (fun step member => plain step.2 (by revert step; simp [Operation.Plain]))
  have outer := ((@Built.diagram rules ⟨4⟩ 2 .sequential).joined nested (by decide) [] 0 ⟨[none]⟩).joined
    (@Built.leaf rules ⟨3⟩ ⟨1, 1, 0, []⟩ []) (by decide) [] 1 ⟨[none]⟩
  exact outer.actAll _ (fun step member => plain step.2 (by revert step; simp [Operation.Plain]))

end Context

-- A finished tree whose wires all reach their inputs, where every handle stands
-- for such a wire and every diagram numbers its state as it would now, can be
-- copied, and no series of requests tells the copy from the original.
theorem Built.copy_session {tree : Context} (built : Built .any tree) (closed : tree.Sealed)
    (intact : tree.Everywhere Context.Intact) (backed : tree.Backed) (surveyed : tree.Everywhere Context.Surveyed)
    (serial : Nat) :
    ∃ copied next, tree.copy .nowhere serial = .ok (copied, next) ∧
      ∃ rename : ContextId → ContextId, Function.Injective rename ∧
        (∀ path found, tree.locate path = .ok found →
          ∃ after, copied.locate path = .ok after ∧ after.id = rename found.id) ∧
        ∀ requests : List Request, (∀ request ∈ requests, request.Impersonal) →
          List.Forall₂ (Response.Alike rename) (tree.session requests) (copied.session requests) := by
  have sound := built.wellFormed
  obtain ⟨copied, next, done⟩ := tree.copy_succeeds sound closed .nowhere serial
  have again : Built .any copied := .copy trivial built done
  obtain ⟨rename, injective, renames⟩ := Context.exists_rename built.unambiguous again.unambiguous
    (fun path after located => (Context.copy_range done located).2)
  have twin := Context.copy_twin sound intact backed surveyed done renames
  refine ⟨copied, next, done, rename, injective, fun path found located => ?_, fun requests impersonal => ?_⟩
  · obtain ⟨after, there, _⟩ := twin path found located
    exact ⟨after, there, renames path found after located there⟩
  · exact twin.session injective sound again.wellFormed impersonal

-- Without the last condition a copy may have more state than the original.
theorem Built.copy_session_presealed :
    ∃ tree copied next, Built .any tree ∧ tree.Sealed ∧ tree.Everywhere Context.Intact ∧ tree.Backed ∧
      tree.copy .nowhere 3 = .ok (copied, next) ∧ ∀ rename : ContextId → ContextId,
        ¬ List.Forall₂ (Response.Alike rename) (tree.session [.ask [] (.entryCount .continuous)])
          (copied.session [.ask [] (.entryCount .continuous)]) := by
  have built := Context.presealed_built .any (fun _ _ => trivial)
  have closed : Context.presealed.Sealed := by decide
  obtain ⟨copied, next, copies⟩ := Context.presealed.copy_succeeds built.wellFormed closed .nowhere 3
  have counted : copied.entryCount .continuous = 1 :=
    (Context.copied_observed (·.entryCount .continuous) copies).mpr (by decide)
  refine ⟨_, copied, next, built, closed, by decide,
    (Context.presealed_built .plain (fun _ plain => plain)).backed, copies, fun rename alike => ?_⟩
  simp only [Context.session, Context.locate_nil] at alike
  cases alike with
  | cons here _ =>
    cases here with
    | replied same =>
      have equal : copied.entryCount .continuous = Context.presealed.entryCount .continuous := same
      rw [counted] at equal
      exact absurd equal (by decide)

theorem Built.copy_session_relayed :
    ∃ copied next, Context.relayed.copy .nowhere 5 = .ok (copied, next) ∧ ∃ rename : ContextId → ContextId,
      List.Forall₂ (Response.Alike rename)
        (Context.relayed.session [.act [0] (.setOutput ⟨0, 0⟩ (.int32 7)), .ask [0] (.evaluate ⟨1, 0⟩ ⟨[[]], none⟩),
          .ask [1] (.resolve 0)])
        (copied.session [.act [0] (.setOutput ⟨0, 0⟩ (.int32 7)), .ask [0] (.evaluate ⟨1, 0⟩ ⟨[[]], none⟩),
          .ask [1] (.resolve 0)]) := by
  obtain ⟨copied, next, copies, rename, _, _, alike⟩ := Built.copy_session
    (Context.relayed_built .any (fun _ _ => trivial)) (by decide +kernel) (by decide +kernel)
    (Context.relayed_built .plain (fun _ plain => plain)).backed (by decide +kernel) 5
  refine ⟨copied, next, copies, rename, alike _ ?_⟩
  simp [Request.Impersonal, Operation.Impersonal]

end BlockDiagram
