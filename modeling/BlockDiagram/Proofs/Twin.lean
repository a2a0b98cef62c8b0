import BlockDiagram.Proofs.Reordering
import BlockDiagram.Proofs.Reachable

namespace BlockDiagram

def Binding.renamed (rename : ContextId → ContextId) : Binding → Binding
  | .free value => .free value
  | .dependent handle => .dependent ⟨rename handle.owner, handle.source⟩

def Change.Impersonal : Change → Prop
  | .bind _ binding | .rebind _ binding => ∀ handle, binding ≠ some (.dependent handle)
  | _ => True

theorem Change.Quiet.impersonal {change : Change} (quiet : change.Quiet) : change.Impersonal := by
  cases change with
  | bind | rebind => exact quiet.elim
  | _ => trivial

theorem Frame.mail_impersonal {frame : Frame} {layout : Layout} {cause : Change} {item : Nat × Change}
    (impersonal : cause.Impersonal) (member : item ∈ frame.mail layout cause) : item.2.Impersonal := by
  rcases mem_mail.mp member with passed | spread
  · cases passed <;> exact impersonal
  · exact (ripple_quiet spread).impersonal

namespace Leaf

def renamed (rename : ContextId → ContextId) (own : Leaf) : Leaf :=
  { own with id := rename own.id, inputs := own.inputs.map (Option.map (Binding.renamed rename)) }

theorem verdict_renamed (rename : ContextId → ContextId) (own : Leaf) (change : Change) :
    (own.renamed rename).verdict change = own.verdict change := by
  cases change with
  | bind | rebind | invalidateInput => simp only [verdict, renamed, List.length_map]
  | _ => rfl

theorem receive_renamed (rename : ContextId → ContextId) (own : Leaf) {change : Change}
    (impersonal : change.Impersonal) : (own.renamed rename).receive change = (own.receive change).renamed rename := by
  cases change with
  | bind index binding | rebind index binding =>
    rcases binding with _ | value | handle
    · simp [receive, renamed, disturb]
    · simp [receive, renamed, disturb, Binding.renamed]
    · exact absurd rfl (impersonal handle)
  | openEntry partition index =>
    show (if index < own.state.count partition then (own.renamed rename).openState else own.renamed rename) =
      (if index < own.state.count partition then own.openState else own).renamed rename
    split <;> rfl
  | _ => rfl

theorem receiveAll_renamed (rename : ContextId → ContextId) (own : Leaf) {changes : List Change}
    (impersonal : ∀ change ∈ changes, change.Impersonal) :
    changes.foldl receive (own.renamed rename) = (changes.foldl receive own).renamed rename := by
  induction changes generalizing own with
  | nil => rfl
  | cons change rest ih =>
    rw [List.foldl_cons, receive_renamed rename own (impersonal change List.mem_cons_self)]
    exact ih _ (fun other member => impersonal other (List.mem_cons_of_mem _ member))

end Leaf

structure Diagram.Like (rename : ContextId → ContextId) (diagram other : Diagram) : Prop where
  id : other.frame.id = rename diagram.frame.id
  closed : diagram.frame.phase = .sealed
  alike : diagram.frame.Alike other.frame
  size : other.subsystems.size = diagram.subsystems.size
  buffers : ∀ system, other.subsystems.buffer? system = diagram.subsystems.buffer? system

def Context.Like (rename : ContextId → ContextId) : Context → Context → Prop
  | .leaf own, .leaf later => later = own.renamed rename
  | .diagram frame subsystems, .diagram later others => Diagram.Like rename ⟨frame, subsystems⟩ ⟨later, others⟩
  | _, _ => False

def Context.Twin (rename : ContextId → ContextId) (tree other : Context) : Prop := tree.Along (Like rename) other

def Diagram.Twin (rename : ContextId → ContextId) (diagram other : Diagram) : Prop :=
  Context.Twin rename diagram.context other.context

theorem Layout.ext {left right : Layout} (length : left.length = right.length)
    (outlines : ∀ system, left.outline? system = right.outline? system) : left = right := by
  refine List.ext_getElem length (fun system first second => ?_)
  have same := outlines system
  simpa only [outline?, List.getElem?_eq_getElem first, List.getElem?_eq_getElem second, Option.join_some] using same

namespace Context.Twin
variable {rename : ContextId → ContextId} {tree other : Context} {frame later : Frame} {subsystems others : Subsystems}

theorem leaf {own : Leaf} (twin : Twin rename (.leaf own) other) : other = .leaf (own.renamed rename) := by
  cases other with
  | leaf => exact congrArg Context.leaf twin.here
  | diagram => exact twin.here.elim

theorem diagram (twin : Twin rename (.diagram frame subsystems) other) :
    ∃ later others, other = .diagram later others ∧ Diagram.Like rename ⟨frame, subsystems⟩ ⟨later, others⟩ := by
  cases other with
  | leaf => exact twin.here.elim
  | diagram later others => exact ⟨later, others, rfl, twin.here⟩

theorem like (twin : Twin rename (.diagram frame subsystems) (.diagram later others)) :
    Diagram.Like rename ⟨frame, subsystems⟩ ⟨later, others⟩ := twin.here

theorem present (twin : Twin rename (.diagram frame subsystems) (.diagram later others)) {system : Nat}
    {child : Context} (found : subsystems.context? system = some child) :
    ∃ other, others.context? system = some other ∧ Twin rename child other := Along.child twin found

theorem absent (twin : Twin rename (.diagram frame subsystems) (.diagram later others)) {system : Nat}
    (missing : subsystems.context? system = none) : others.context? system = none := by
  have same := Subsystems.isSome_buffer? others system
  rw [twin.like.buffers, Subsystems.isSome_buffer?, missing] at same
  exact Option.isNone_iff_eq_none.mp (by rw [← Option.not_isSome, ← same]; rfl)

theorem absence (twin : Twin rename (.diagram frame subsystems) (.diagram later others)) :
    others.absence = subsystems.absence := by
  funext system
  simp only [Subsystems.absence, twin.like.size]

theorem context (twin : Twin rename (.diagram frame subsystems) (.diagram later others)) (system : Nat) :
    (∃ missing, subsystems.context system = .error missing ∧ others.context system = .error missing) ∨
      ∃ child other, subsystems.context? system = some child ∧ others.context? system = some other ∧
        Twin rename child other := by
  cases found : subsystems.context? system with
  | none =>
    refine .inl ⟨subsystems.absence system, ?_, ?_⟩
    · simp only [Subsystems.context, found]
    · simp only [Subsystems.context, twin.absent found, twin.absence]
  | some child =>
    obtain ⟨other, there, inside⟩ := twin.present found
    exact .inr ⟨child, other, rfl, there, inside⟩

theorem buffer (twin : Twin rename (.diagram frame subsystems) (.diagram later others)) :
    others.buffer = subsystems.buffer := by
  funext system
  simp only [Subsystems.buffer, twin.like.buffers, twin.absence]

theorem output? (twin : Twin rename (.diagram frame subsystems) (.diagram later others)) :
    others.output? = subsystems.output? := by
  funext output
  simp only [Subsystems.output?, twin.like.buffers]

theorem inputCount (twin : Twin rename tree other) : other.inputCount = tree.inputCount := by
  cases tree with
  | leaf own => rw [twin.leaf]; exact List.length_map _
  | diagram frame subsystems =>
    obtain ⟨later, others, rfl, like⟩ := twin.diagram
    exact congrArg List.length like.alike.inputs

theorem outputCount (twin : Twin rename tree other) : other.outputCount = tree.outputCount := by
  cases tree with
  | leaf own => rw [twin.leaf]; rfl
  | diagram frame subsystems =>
    obtain ⟨later, others, rfl, like⟩ := twin.diagram
    exact congrArg List.length like.alike.outputs

theorem cache (twin : Twin rename tree other) : other.cache = tree.cache := by
  cases tree with
  | leaf own => rw [twin.leaf]; rfl
  | diagram frame subsystems =>
    obtain ⟨later, others, rfl, like⟩ := twin.diagram
    exact like.alike.cache

theorem layout (twin : Twin rename (.diagram frame subsystems) (.diagram later others)) :
    others.layout = subsystems.layout := by
  refine Layout.ext ?_ (fun system => ?_)
  · rw [Subsystems.length_layout, Subsystems.length_layout, twin.like.size]
  · rw [Subsystems.outline?_layout, Subsystems.outline?_layout]
    cases found : subsystems.context? system with
    | none => rw [twin.absent found]; rfl
    | some child =>
      obtain ⟨other, there, inside⟩ := twin.present found
      rw [there]
      simp only [Option.bind_some, twin.like.buffers, inside.outputCount]

-- Twins that are told what comes to the same stay twins.
theorem delivery {mail told : Mail} (like : Diagram.Like rename ⟨frame, subsystems⟩ ⟨later, others⟩)
    (below : ∀ system child, subsystems.context? system = some child → ∃ other, others.context? system = some other ∧
      Twin rename (child.receive (mail.addressed system)) (other.receive (told.addressed system))) :
    Twin rename (.diagram frame (subsystems.receive mail)) (.diagram later (others.receive told)) := by
  refine along_diagram ⟨like.id, like.closed, like.alike, ?_, fun system => ?_⟩ (fun system child found => ?_)
  · simp only [Subsystems.size_receive, like.size]
  · simp only [Subsystems.buffer?_receive, like.buffers]
  · obtain ⟨before, held, rfl⟩ := Subsystems.of_receive found
    obtain ⟨other, there, inside⟩ := below system before held
    exact ⟨_, Subsystems.context?_received there told, inside⟩

theorem receive (twin : Twin rename tree other) {changes : List Change}
    (impersonal : ∀ change ∈ changes, change.Impersonal) :
    Twin rename (tree.receive changes) (other.receive changes) := by
  induction tree using Context.induct generalizing other changes with
  | leaf own =>
    rw [twin.leaf, Context.receive, Context.receive, Leaf.receiveAll_renamed rename own impersonal]
    intro path found located
    obtain ⟨rfl, rfl⟩ := locate_leaf located
    exact ⟨_, locate_nil _, rfl⟩
  | diagram frame subsystems ih =>
    obtain ⟨later, others, rfl, like⟩ := twin.diagram
    have received : Diagram.Like rename ⟨changes.foldl Frame.receive frame, subsystems⟩
        ⟨changes.foldl Frame.receive later, others⟩ := by
      refine ⟨?_, ?_, like.alike.receiveAll changes, like.size, like.buffers⟩
      · exact (Frame.Extends.receiveAll later changes).id.trans
          (like.id.trans (congrArg rename (Frame.Extends.receiveAll frame changes).id.symm))
      · exact (Frame.Steady.receiveAll frame changes).phase.trans like.closed
    refine delivery received (fun system child found => ?_)
    obtain ⟨other, there, inside⟩ := twin.present found
    refine ⟨other, there, ?_⟩
    -- The mails may differ in their order, which the subsystem can not tell.
    rw [twin.layout, like.alike.receive_mail]
    refine ih system child found inside (fun change member => ?_)
    obtain ⟨cause, given, sent⟩ := mem_addressed_mail.mp member
    exact Frame.mail_impersonal (impersonal cause given) sent

end Context.Twin
end BlockDiagram
