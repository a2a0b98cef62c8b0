import BlockDiagram.Proofs.Inventory

namespace BlockDiagram

def Change.write? : Change → Option (Nat × Option Binding)
  | .bind index binding | .rebind index binding => some (index, binding)
  | _ => none

theorem Change.Quiet.unwritten {change : Change} (quiet : change.Quiet) : change.write? = none := by
  cases change <;> first | rfl | exact quiet.elim

namespace Context

-- What the input of a leaf is bound to.
def installed? (tree : Context) (port : Endpoint) : Option (Option Binding) :=
  match tree.locate port.path with
  | .ok (.leaf own) => own.inputs[port.index]?
  | _ => none

theorem installed?_eq_some {tree : Context} {port : Endpoint} {binding : Option Binding} :
    tree.installed? port = some binding ↔
      ∃ own, tree.locate port.path = .ok (.leaf own) ∧ own.inputs[port.index]? = some binding := by
  unfold installed?
  split
  · rename_i own located
    simp [located]
  · rename_i other
    constructor
    · intro absent
      cases absent
    · intro held
      obtain ⟨own, located, _⟩ := held
      exact absurd located (other own)

theorem installed?_none {tree : Context} {port : Endpoint}
    (vacant : ∀ own, tree.locate port.path = .ok (.leaf own) → ¬ port.index < own.inputs.length) :
    tree.installed? port = none := by
  refine Option.eq_none_iff_forall_ne_some.mpr (fun binding held => ?_)
  obtain ⟨own, located, found⟩ := installed?_eq_some.mp held
  exact vacant own located (List.getElem?_eq_some_iff.mp found).1

theorem installed?_home {tree : Context} {index : Nat} {home : Endpoint}
    (found : tree.home? .inputs index = some home) : (tree.installed? home).isSome := by
  obtain ⟨own, located, bound⟩ := locate_home found
  have bound : home.index < own.inputs.length := bound
  exact Option.isSome_of_eq_some (installed?_eq_some.mpr ⟨own, located, List.getElem?_eq_getElem bound⟩)

theorem installed?_top {frame : Frame} {subsystems : Subsystems} {index : Nat} :
    (Context.diagram frame subsystems).installed? ⟨[], index⟩ = none :=
  rfl

theorem installed?_below {frame : Frame} {subsystems : Subsystems} {system index : Nat} {path : List Nat} :
    (Context.diagram frame subsystems).installed? ⟨system :: path, index⟩ =
      (subsystems.context? system).bind (·.installed? ⟨path, index⟩) := by
  refine Option.ext (fun binding => ?_)
  simp only [installed?_eq_some, Option.bind_eq_some_iff, locate_cons]
  constructor
  · intro held
    obtain ⟨own, ⟨child, present, located⟩, found⟩ := held
    exact ⟨child, present, own, located, found⟩
  · intro held
    obtain ⟨child, present, own, located, found⟩ := held
    exact ⟨own, ⟨child, present, located⟩, found⟩

theorem write_of_mailTo {context : Context} {changes : List Change} {path : List Nat} {own : Leaf} {index : Nat}
    {binding : Option Binding} (located : context.locate path = .ok (.leaf own)) (bound : index < own.inputs.length)
    (member : .bind index binding ∈ context.mailTo changes path ∨ .rebind index binding ∈ context.mailTo changes path) :
    ∃ cause ∈ changes, ∃ outer, cause.write? = some (outer, binding) ∧
      context.home? .inputs outer = some ⟨path, index⟩ := by
  rcases member with member | member
  · obtain ⟨outer, given, home⟩ := bind_of_mailTo located bound member
    exact ⟨_, given, outer, rfl, home⟩
  · obtain ⟨outer, given, home⟩ := rebind_home_of_mailTo located bound member
    exact ⟨_, given, outer, rfl, home⟩

theorem mailTo_write {context : Context} {changes : List Change} {cause : Change} {outer : Nat}
    {binding : Option Binding} {home : Endpoint} (member : cause ∈ changes) (writes : cause.write? = some (outer, binding))
    (found : context.home? .inputs outer = some home) :
    ∃ change ∈ context.mailTo changes home.path, change.bound? = some home.index := by
  cases cause with
  | bind => cases writes; exact ⟨_, mailTo_bind member found, rfl⟩
  | rebind =>
    cases writes
    refine ⟨_, @mailTo_home _ (.rebind · binding) (fun _ _ _ _ entered => .rebind entered) _ _ _ _ member found, rfl⟩
  | _ => cases writes

theorem installed?_receive (context : Context) (changes : List Change) (port : Endpoint) :
    ((context.receive changes).installed? port = context.installed? port ∧ ∀ cause ∈ changes, ∀ outer binding,
        cause.write? = some (outer, binding) → context.home? .inputs outer ≠ some port) ∨
      ∃ cause ∈ changes, ∃ outer binding, cause.write? = some (outer, binding) ∧
        context.home? .inputs outer = some port ∧ (context.receive changes).installed? port = some binding := by
  by_cases held : ∃ own, context.locate port.path = .ok (.leaf own) ∧ port.index < own.inputs.length
  · obtain ⟨own, located, bound⟩ := held
    have arrived := locate_receive changes located
    rcases Leaf.inputs_receiveAll bound (context.mailTo changes port.path) with ⟨kept, unbound⟩ | ⟨binding, given, now⟩
    · refine .inl ⟨?_, fun cause member outer binding writes home => ?_⟩
      · simp only [installed?, located, arrived, receive, kept]
      · obtain ⟨change, told, binds⟩ := mailTo_write member writes home
        exact unbound change told binds
    · obtain ⟨cause, member, outer, writes, home⟩ := write_of_mailTo located bound given
      refine .inr ⟨cause, member, outer, binding, writes, home, ?_⟩
      simp only [installed?, arrived, receive, now]
  · have vacant : ∀ own, context.locate port.path = .ok (.leaf own) → ¬ port.index < own.inputs.length :=
      fun own located bound => held ⟨own, located, bound⟩
    refine .inl ⟨?_, fun cause member outer binding writes home => ?_⟩
    · rw [installed?_none vacant]
      refine installed?_none (fun later there => ?_)
      obtain ⟨found, located, same⟩ := locate_of_receive there
      cases found with
      | diagram => cases same
      | leaf own =>
        cases same
        rw [Leaf.inputs_length_receiveAll]
        exact vacant own located
    · obtain ⟨own, located, bound⟩ := locate_home home
      exact vacant own located bound

theorem installed?_unwritten {context : Context} {changes : List Change}
    (unwritten : ∀ change ∈ changes, change.write? = none) (port : Endpoint) :
    (context.receive changes).installed? port = context.installed? port := by
  rcases context.installed?_receive changes port with ⟨kept, _⟩ | ⟨cause, member, _, _, writes, _⟩
  · exact kept
  · rw [unwritten cause member] at writes
    cases writes

theorem installed?_written {context : Context} {change : Change} {index : Nat} {binding : Option Binding}
    (writes : change.write? = some (index, binding)) (port : Endpoint) :
    (context.receive [change]).installed? port =
      if context.home? .inputs index = some port then some binding else context.installed? port := by
  rcases context.installed?_receive [change] port with ⟨kept, elsewhere⟩ | ⟨cause, member, outer, other, given, home, now⟩
  · rw [if_neg (elsewhere change List.mem_cons_self index binding writes), kept]
  · rw [List.mem_singleton.mp member, writes] at given
    cases given
    rw [if_pos home, now]

theorem installed?_around (frame later : Frame) (subsystems : Subsystems) (port : Endpoint) :
    (Context.diagram later subsystems).installed? port = (Context.diagram frame subsystems).installed? port := by
  obtain ⟨path, index⟩ := port
  cases path with
  | nil => rfl
  | cons system path => rw [installed?_below, installed?_below]

theorem installed?_delivery {frame later : Frame} {subsystems others : Subsystems} {mail : Mail}
    (same : ∀ system, others.context? system = subsystems.context? system)
    (unwritten : ∀ item ∈ mail, item.2.write? = none) (port : Endpoint) :
    (Context.diagram later (others.receive mail)).installed? port =
      (Context.diagram frame subsystems).installed? port := by
  obtain ⟨path, index⟩ := port
  cases path with
  | nil => rw [installed?_top, installed?_top]
  | cons system path =>
    rw [installed?_below, installed?_below, Subsystems.context?_receive, same]
    cases subsystems.context? system with
    | none => rfl
    | some child => exact installed?_unwritten (fun change member => unwritten _ (Mail.mem_addressed.mp member)) _

theorem installed?_bound (frame later : Frame) (subsystems : Subsystems) (input : Terminal) (binding : Option Binding)
    (port : Endpoint) :
    (Context.diagram later (subsystems.receive [(input.system, .bind input.index binding)])).installed? port =
      if subsystems.terminalHome? .inputs input = some port then some binding
      else (Context.diagram frame subsystems).installed? port := by
  obtain ⟨path, index⟩ := port
  cases path with
  | nil =>
    rw [installed?_top, installed?_top, if_neg]
    intro home
    obtain ⟨_, _, _, _, same⟩ := Subsystems.terminalHome?_eq_some.mp home
    cases same
  | cons system path =>
    rw [installed?_below, installed?_below, Subsystems.context?_receive]
    cases present : subsystems.context? system with
    | none =>
      rw [if_neg]
      · rfl
      · intro home
        obtain ⟨child, _, held, _, same⟩ := Subsystems.terminalHome?_eq_some.mp home
        cases same
        cases present.symm.trans held
    | some child =>
      have reached : subsystems.terminalHome? .inputs input = some ⟨system :: path, index⟩ ↔
          input.system = system ∧ child.home? .inputs input.index = some ⟨path, index⟩ := by
        rw [Subsystems.terminalHome?_eq_some]
        constructor
        · intro home
          obtain ⟨other, inner, held, inside, same⟩ := home
          cases same
          cases present.symm.trans held
          exact ⟨rfl, inside⟩
        · intro home
          obtain ⟨rfl, inside⟩ := home
          exact ⟨child, _, present, inside, rfl⟩
      simp only [Option.map_some, Option.bind_some, Mail.addressed_single, reached]
      by_cases here : input.system = system
      · simp only [here, if_true, true_and]
        exact @installed?_written child (.bind input.index binding) _ _ rfl _
      · simp only [here, if_false, false_and, receive_nil]

-- A port is where it was, or it belongs to what has just been added.
theorem installed?_install {frame : Frame} {subsystems : Subsystems} {system : Nat} {other : Context}
    (buffer : OutputBuffer) (vacant : subsystems.context? system = none) (port : Endpoint) :
    (Context.diagram frame (subsystems.install system other buffer)).installed? port =
        (Context.diagram frame subsystems).installed? port ∨
      (Context.diagram frame subsystems).installed? port = none ∧ ∃ inner,
        (Context.diagram frame (subsystems.install system other buffer)).installed? port = other.installed? inner := by
  obtain ⟨path, index⟩ := port
  cases path with
  | nil => exact .inl rfl
  | cons step path =>
    rw [installed?_below, installed?_below, Subsystems.context?_install]
    split
    · rename_i here
      rw [here.1, vacant]
      exact .inr ⟨rfl, ⟨path, index⟩, rfl⟩
    · exact .inl rfl

end Context
end BlockDiagram
