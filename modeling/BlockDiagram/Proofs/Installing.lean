import BlockDiagram.Proofs.Ports
import BlockDiagram.Proofs.Routes
import BlockDiagram.Proofs.Sending
import BlockDiagram.Proofs.Touch

namespace BlockDiagram

namespace Context
variable {tree context found changed : Context} {changes : List Change} {path : List Nat} {index : Nat}
  {binding : Option Binding} {place inner home : Endpoint}

def withInputs (inputs : List (Option Binding)) : Context → Context
  | .leaf own => .leaf { own with inputs := inputs }
  | .diagram frame subsystems => .diagram frame subsystems

-- The same context but for what is bound to the inputs of a leaf and for what
-- became of its cache and outputs.
def OnlyRebound (context now : Context) : Prop := ∃ inputs, (context.withInputs inputs).Unmoved now

theorem onlyRebound_refl (context : Context) : context.OnlyRebound context := by
  cases context with
  | leaf own => exact ⟨own.inputs, own.fresh, own.cache, rfl⟩
  | diagram frame subsystems => exact ⟨[], frame.cache, subsystems, rfl, rfl, fun _ => rfl⟩

theorem onlyRebound_outward (frame : Frame) (subsystems : Subsystems) (system : Nat) (child other : Context)
    (_ : subsystems.context? system = some child) (_ : child.OnlyRebound other) :
    (Context.diagram frame subsystems).OnlyRebound (.diagram frame (subsystems.putContext system other)) := by
  refine ⟨[], frame.cache, _, rfl, Subsystems.size_putContext _ _ _, fun place => ?_⟩
  rw [Subsystems.buffer?_putContext]

theorem onlyRebound_receive (context : Context)
    (given : ∀ change ∈ changes, change.Quiet ∨ ∃ index binding, change = .bind index binding) :
    context.OnlyRebound (context.receive changes) := by
  have time : (context.receive changes).time = context.time := by
    refine time_receive (fun moment told => ?_) (.inl rfl)
    rcases given _ told with quiet | ⟨_, _, same⟩
    · exact quiet.elim
    · cases same
  cases context with
  | leaf own =>
    have state : (changes.foldl Leaf.receive own).state = own.state := by
      refine Leaf.state_receiveAll (fun change told => ?_)
      rcases given change told with quiet | ⟨_, _, rfl⟩
      · exact quiet.keeps_state
      · exact not_false
    exact ⟨(changes.foldl Leaf.receive own).inputs, unmoved_leaf (grows_receive (.leaf own) changes).id time state rfl⟩
  | diagram => exact ⟨[], unmoved_diagram time⟩

theorem along_bound (context : Context) (index : Nat) (binding : Option Binding) :
    context.Along OnlyRebound (context.receive [.bind index binding]) := by
  intro path found located
  refine ⟨_, locate_receive _ located, onlyRebound_receive _ (mailTo_forall ?_ (fun change quiet => .inl quiet) ?_)⟩
  · rintro _ _ _ _ passed (quiet | ⟨outer, given, rfl⟩)
    · cases passed with
      | invalidateInput => exact .inl trivial
      | mark => exact .inl quiet
      | _ => exact quiet.elim
    · cases passed
      exact .inr ⟨_, _, rfl⟩
  · intro change member
    exact .inr ⟨index, binding, List.mem_singleton.mp member⟩

theorem locate_elsewhere {own : Leaf} {other : List Nat} (located : tree.locate path = .ok found)
    (apart : ¬ path <+: other) :
    (tree.graft path changed).locate other = .ok (.leaf own) ↔ tree.locate other = .ok (.leaf own) := by
  refine graft_induct (fun path before after => ∀ other, ¬ path <+: other →
    (after.locate other = .ok (.leaf own) ↔ before.locate other = .ok (.leaf own))) located ?_ ?_ other apart
  · exact fun _ apart => absurd List.nil_prefix apart
  · intro frame subsystems system rest child after present around other apart
    cases other with
    | nil => simp only [locate_nil, Except.ok.injEq, reduceCtorEq]
    | cons step other =>
      rw [locate_cons, locate_cons, Subsystems.context?_putContext]
      by_cases here : step = system
      · subst here
        have inside := around other (fun shorter => apart (List.cons_prefix_cons.mpr ⟨rfl, shorter⟩))
        rw [if_pos rfl, present]
        simp only [Option.map_some, Option.some.injEq, exists_eq_left', inside]
      · rw [if_neg here]

theorem installed?_beneath (located : tree.locate path = .ok found) (inner : Endpoint) :
    tree.installed? (inner.beneath path) = found.installed? inner := by
  refine Option.ext (fun binding => ?_)
  rw [installed?_eq_some, installed?_eq_some]
  exact exists_congr (fun own => and_congr_left' (locate_append located))

theorem installed?_graft (located : tree.locate path = .ok found)
    (same : ∀ inner : Endpoint, place = inner.beneath path → changed.installed? inner = found.installed? inner) :
    (tree.graft path changed).installed? place = tree.installed? place := by
  by_cases below : path <+: place.path
  · obtain ⟨rest, split⟩ := below
    have equal : place = Endpoint.beneath path ⟨rest, place.index⟩ := by rw [Endpoint.beneath, split]
    rw [equal, installed?_beneath (locate_grafted changed located), installed?_beneath located]
    exact same _ equal
  · refine Option.ext (fun binding => ?_)
    rw [installed?_eq_some, installed?_eq_some]
    exact exists_congr (fun own => and_congr_left' (locate_elsewhere located below))

theorem input_installed (found : context.home? .inputs index = some home) :
    context.input index = .ok binding ↔ context.installed? home = some binding := by
  obtain ⟨own, located, bound⟩ := locate_home found
  rw [input_home found located, installed?, located]
  unfold Leaf.input
  cases held : own.inputs[home.index]? <;> simp [held]

-- Following the tables from an input of the context ends at this input of a leaf.
def EndsAt (context : Context) (index : Nat) (place : Endpoint) : Prop :=
  context.Routes .inputs index place ∧ ∃ own, context.locate place.path = .ok (.leaf own)

theorem endsAt_iff (sound : context.WellFormed) (bound : index < context.inputCount) :
    context.EndsAt index place ↔ context.home? .inputs index = some place := by
  rw [home?_iff]
  constructor
  · rintro ⟨routed, own, located⟩
    exact ⟨routed, own, located, routed.input_bound sound bound located⟩
  · rintro ⟨routed, own, located, _⟩
    exact ⟨routed, own, located⟩

theorem act_change (located : tree.locate path = .ok found) (change : Change) :
    tree.act path (.change change) = ((found.send change).answering .nothing).within (tree.graft path) := by
  simp only [act, carryOut, operate, located, Except.map, perform]

theorem send_unbound (outside : ¬ index < context.inputCount) (binding : Option Binding) :
    context.send (.bind index binding) = .refused (.inputOutOfRange index context.inputCount) context := by
  have objection : context.verdict (.bind index binding) = .refused (.inputOutOfRange index context.inputCount) := by
    cases context with
    | leaf own => exact if_neg outside
    | diagram frame subsystems =>
      have missing : frame.inputs[index]? = none := List.getElem?_eq_none (Nat.le_of_not_lt outside)
      simp only [verdict, Frame.verdict, Frame.input, missing, inputCount]
  rw [send, objection]
  exact congrArg (Outcome.refused _) (afterRefusedBind_outside outside)

theorem installed?_bind (located : tree.locate path = .ok found) (ends : found.home? .inputs index = some inner)
    (binding : Option Binding) (place : Endpoint) :
    (tree.graft path (found.receive [.bind index binding])).installed? place =
      if place = inner.beneath path then some binding else tree.installed? place := by
  have written := @installed?_written found (.bind index binding) index binding rfl
  split
  · rename_i here
    rw [here, installed?_beneath (locate_grafted _ located), written, if_pos ends]
  · rename_i apart
    refine installed?_graft located (fun other equal => ?_)
    rw [written, if_neg]
    intro same
    cases ends.symm.trans same
    exact apart equal

-- What binding an input of the context at a path comes to, if its tables end at the
-- given input of a leaf.
structure Installs (tree : Context) (path : List Nat) (binding : Option Binding) (inner : Endpoint) (later : Context) :
    Prop where
  holds : later.installed? (inner.beneath path) = some binding
  reads : ∀ front outer index, tree.locate front = .ok outer → index < outer.inputCount →
    ∃ place now, (∀ other, outer.EndsAt index other ↔ other = place) ∧ later.locate front = .ok now ∧
      now.input index = if place.beneath front = inner.beneath path then .ok binding else outer.input index
  kept : tree.Along OnlyRebound later
  covers : tree.Covers later

theorem installs_bind (sound : tree.WellFormed) (located : tree.locate path = .ok found)
    (ends : found.home? .inputs index = some inner) (binding : Option Binding) :
    tree.Installs path binding inner (tree.graft path (found.receive [.bind index binding])) where
  holds := by rw [installed?_bind located ends, if_pos rfl]
  reads := by
    intro front outer input there bound
    have along : tree.Along Grows (tree.graft path (found.receive [.bind index binding])) :=
      along_graft grows_refl grows_outward located (along_receive grows_receive found _)
    have inside : outer.WellFormed := Everywhere.below sound there
    obtain ⟨place, home⟩ := home?_exists inside bound
    obtain ⟨now, arrived, _⟩ := along front outer there
    have still := home?_along Numbering.lasting_inputs (along.below there arrived) home
    refine ⟨place, now, fun other => ?_, arrived, ?_⟩
    · rw [endsAt_iff inside bound, home, Option.some.injEq, eq_comm]
    · have now_installed := (installed?_beneath arrived place).symm.trans (installed?_bind located ends binding _)
      split
      · rename_i here
        rw [if_pos here] at now_installed
        exact (input_installed still).mpr now_installed
      · rename_i apart
        rw [if_neg apart, installed?_beneath there] at now_installed
        obtain ⟨before, held⟩ := Option.isSome_iff_exists.mp (installed?_home home)
        rw [(input_installed home).mpr held]
        exact (input_installed still).mpr (now_installed.trans held)
  kept := along_graft onlyRebound_refl onlyRebound_outward located (along_bound found index binding)
  covers := covers_graft located (covers_receive found _)

end Context

namespace Built
open Context
variable {rules : Rules} {tree found : Context} {path : List Nat}

-- Whatever an input is bound to, this succeeds exactly if there is such an input. Its
-- tables then end at one input of one leaf, and binding it is binding that.
theorem bind_exact (built : Built rules tree) (matched : tree.Matched) (located : tree.locate path = .ok found)
    (index : Nat) (binding : Option Binding) :
    ((∃ later, tree.act path (.change (.bind index binding)) = .done .nothing later) ↔ index < found.inputCount) ∧
      (¬ index < found.inputCount → tree.act path (.change (.bind index binding)) =
        .refused (.inputOutOfRange index found.inputCount) tree) ∧
      ∀ answer later, tree.act path (.change (.bind index binding)) = .done answer later →
        ∃ inner, (∀ other, found.EndsAt index other ↔ other = inner) ∧ tree.Installs path binding inner later := by
  have sound : found.WellFormed := Everywhere.below built.wellFormed located
  have refused : ¬ index < found.inputCount → tree.act path (.change (.bind index binding)) =
      .refused (.inputOutOfRange index found.inputCount) tree := by
    intro outside
    rw [act_change located, send_unbound outside]
    exact congrArg (Outcome.refused _) (graft_located located)
  have performed : index < found.inputCount → tree.act path (.change (.bind index binding)) =
      .done .nothing (tree.graft path (found.receive [.bind index binding])) := by
    intro bound
    rw [act_change located, send, verdict_bind sound (Everywhere.below matched located) bound]
    rfl
  refine ⟨⟨fun done => ?_, fun bound => ⟨_, performed bound⟩⟩, refused, fun answer later done => ?_⟩
  · obtain ⟨later, done⟩ := done
    refine Classical.byContradiction (fun outside => ?_)
    cases (refused outside).symm.trans done
  · by_cases bound : index < found.inputCount
    · cases (performed bound).symm.trans done
      obtain ⟨inner, ends⟩ := home?_exists sound bound
      refine ⟨inner, fun other => ?_, installs_bind built.wellFormed located ends binding⟩
      rw [endsAt_iff sound bound, ends, Option.some.injEq, eq_comm]
    · cases (refused bound).symm.trans done

-- The input of the outer diagram stands for the input of the leaf inside the inner
-- one, and so does the other input of that diagram.
theorem bind_exact_cascade :
    ∃ later now, cascade.act [] (.change (.bind 0 (some (.free (.int32 5))))) = .done .nothing later ∧
      later.installed? ⟨[1, 0], 0⟩ = some (some (.free (.int32 5))) ∧
      later.locate [1] = .ok now ∧ now.input 0 = .ok (some (.free (.int32 5))) := by
  have outside : cascade.home? .inputs 0 = some ⟨[1, 0], 0⟩ := by decide
  have inside : ∃ outer, cascade.locate [1] = .ok outer ∧ outer.home? .inputs 0 = some ⟨[0], 0⟩ := ⟨_, rfl, by decide⟩
  obtain ⟨outer, located, beside⟩ := inside
  obtain ⟨succeeds, _, installs⟩ :=
    bind_exact cascade_built cascade_matched (locate_nil _) 0 (some (.free (.int32 5)))
  obtain ⟨later, done⟩ := succeeds.mpr (input_bound_of_home outside)
  obtain ⟨inner, ends, installed⟩ := installs _ _ done
  obtain ⟨routed, own, leaf, _⟩ := home?_iff.mp outside
  obtain rfl := (ends _).mp ⟨routed, own, leaf⟩
  obtain ⟨place, now, only, there, reads⟩ := installed.reads [1] _ 0 located (input_bound_of_home beside)
  obtain ⟨along, last, same, _⟩ := home?_iff.mp beside
  obtain rfl := (only _).mp ⟨along, last, same⟩
  exact ⟨later, now, done, installed.holds, there, reads.trans (if_pos rfl)⟩

end Built
end BlockDiagram
