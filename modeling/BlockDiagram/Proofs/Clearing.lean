import BlockDiagram.Proofs.Leaves

namespace BlockDiagram

-- The same tickets, issued in the same way, of which those that depend on a root
-- have lost their values and no others.
structure Cache.ClearedOf (cache : Cache) (roots : Ticket → Prop) (later : Cache) : Prop where
  size : later.size = cache.size
  dependents : ∀ ticket, later.dependents ticket = cache.dependents ticket
  cleared : ∀ root ticket, roots root → cache.DependsOn ticket root → later.value? ticket = none
  spared : ∀ ticket, (∀ root, roots root → ¬ cache.DependsOn ticket root) →
    later.value? ticket = cache.value? ticket

namespace Cache
variable {cache middle later : Cache} {roots others : Ticket → Prop}

theorem dependsOn_of_affected {ticket root : Ticket} (member : ticket ∈ cache.affected root) :
    cache.DependsOn ticket root := by
  obtain ⟨origin, start, path⟩ := Frontier.path_of_explored member
  rw [List.mem_singleton.mp start] at path
  exact path

theorem cleared_of_dependsOn {cache : Cache} {ticket root : Ticket} (depends : cache.DependsOn ticket root) :
    (cache.clear root).value? ticket = none := by
  rw [value?_clear]
  split
  · rfl
  · rename_i missed
    refine Option.eq_none_iff_forall_ne_some.mpr (fun value held => ?_)
    exact missed ((mem_affected_issued (value?_issued held)).mpr depends)

theorem clearedOf_clear (cache : Cache) (root : Ticket) : cache.ClearedOf (· = root) (cache.clear root) where
  size := size_clear cache root
  dependents := dependents_clear cache root
  cleared := by
    rintro _ ticket rfl depends
    exact cleared_of_dependsOn depends
  spared := by
    intro ticket free
    have missed : ticket ∉ cache.affected root := fun member => free root rfl (dependsOn_of_affected member)
    rw [value?_clear, if_neg missed]

namespace ClearedOf

theorem congr (cleared : cache.ClearedOf roots later) (same : ∀ root, roots root ↔ others root) :
    cache.ClearedOf others later where
  size := cleared.size
  dependents := cleared.dependents
  cleared := fun root ticket concerned => cleared.cleared root ticket ((same root).mpr concerned)
  spared := fun ticket free => cleared.spared ticket (fun root concerned => free root ((same root).mp concerned))

theorem unchanged (cleared : cache.ClearedOf roots later) (none : ∀ root, ¬ roots root) : later = cache := by
  have lines : later.lines = cache.lines := by
    refine List.ext_getElem cleared.size (fun index here there => ?_)
    have value := cleared.spared ⟨index⟩ (fun root concerned => absurd concerned (none root))
    have dependents := cleared.dependents ⟨index⟩
    simp only [value?, Cache.dependents, line?, List.getElem?_eq_getElem here, List.getElem?_eq_getElem there,
      Option.bind_some, Option.map_some, Option.getD_some] at value dependents
    cases first : later.lines[index]
    cases second : cache.lines[index]
    simp_all
  cases later
  cases cache
  exact congrArg Cache.mk lines

theorem nothing (cache : Cache) : cache.ClearedOf (fun _ => False) cache where
  size := rfl
  dependents := fun _ => rfl
  cleared := fun _ _ concerned => concerned.elim
  spared := fun _ _ => rfl

theorem dependsOn (cleared : cache.ClearedOf roots later) {ticket root : Ticket} :
    later.DependsOn ticket root ↔ cache.DependsOn ticket root :=
  dependsOn_congr cleared.dependents

theorem trans (before : cache.ClearedOf roots middle) (after : middle.ClearedOf others later) :
    cache.ClearedOf (fun root => roots root ∨ others root) later where
  size := after.size.trans before.size
  dependents := fun ticket => (after.dependents ticket).trans (before.dependents ticket)
  cleared := by
    rintro root ticket (first | second) depends
    · have lost := before.cleared root ticket first depends
      by_cases again : ∃ other, others other ∧ middle.DependsOn ticket other
      · obtain ⟨other, concerned, also⟩ := again
        exact after.cleared other ticket concerned also
      · rw [after.spared ticket (fun other concerned also => again ⟨other, concerned, also⟩), lost]
    · exact after.cleared root ticket second (before.dependsOn.mpr depends)
  spared := by
    intro ticket free
    rw [after.spared ticket (fun root concerned depends => free root (.inr concerned) (before.dependsOn.mp depends)),
      before.spared ticket (fun root concerned => free root (.inl concerned))]

-- A series of steps each of which clears what depends on one ticket or nothing.
theorem foldl {σ : Type} {held : σ → Cache} {step : σ → Change → σ} {root? : σ → Change → Option Ticket}
    (clears : ∀ state change, held (step state change) =
      match root? state change with
      | some root => (held state).clear root
      | none => held state)
    (still : ∀ state change, root? (step state change) = root? state) (state : σ) (changes : List Change) :
    (held state).ClearedOf (fun root => ∃ change ∈ changes, root? state change = some root)
      (held (changes.foldl step state)) := by
  induction changes generalizing state with
  | nil => exact (nothing _).congr (fun root => by simp)
  | cons change rest ih =>
    have first : (held state).ClearedOf (fun root => root? state change = some root) (held (step state change)) := by
      rw [clears]
      cases concerned : root? state change with
      | none => exact (nothing _).congr (fun root => by simp)
      | some root => exact (clearedOf_clear _ root).congr (fun other => by simp [eq_comm])
    refine (first.trans (ih (step state change))).congr (fun root => ?_)
    simp only [still, List.mem_cons, exists_eq_or_imp]

end ClearedOf
end Cache

-- The ticket of a diagram's own cache that a change concerns, if there is one.
def Frame.root? (frame : Frame) : Change → Option Ticket
  | .setTime _ | .invalidateTime => some timeTicket
  | .invalidateState => some stateTicket
  | .invalidateInput index | .bind index _ => frame.inputs[index]?.map ExposedInput.ticket
  | .openEntry partition index => (frame.composite.slot? partition index).map (fun _ => stateTicket)
  | .mark .. | .rebind .. | .storeEntry .. => none

namespace Frame

theorem cache_receive (frame : Frame) (change : Change) :
    (frame.receive change).cache =
      match frame.root? change with
      | some root => frame.cache.clear root
      | none => frame.cache := by
  cases change with
  | invalidateInput index | bind index _ =>
    simp only [receive, root?, input]
    cases frame.inputs[index]? <;> rfl
  | openEntry partition index =>
    simp only [receive, root?]
    cases frame.composite.slot? partition index <;> rfl
  | _ => rfl

theorem root?_receive (frame : Frame) (change : Change) : (frame.receive change).root? = frame.root? := by
  obtain ⟨_, _, reached⟩ := frame.receive_eq change
  rw [reached]
  rfl

end Frame

namespace Context

def root? : Context → Change → Option Ticket
  | .leaf own => own.root?
  | .diagram frame _ => frame.root?

theorem cache_receive (context : Context) (changes : List Change) :
    context.cache.ClearedOf (fun root => ∃ change ∈ changes, context.root? change = some root)
      (context.receive changes).cache := by
  cases context with
  | leaf own => exact .foldl Leaf.cache_receive Leaf.root?_receive own changes
  | diagram frame subsystems => exact .foldl Frame.cache_receive Frame.root?_receive frame changes

theorem inputTicket?_receive (context : Context) (changes : List Change) {index : Nat} :
    (context.receive changes).inputTicket? index = context.inputTicket? index := by
  cases context with
  | leaf own =>
    show (if index < (changes.foldl Leaf.receive own).inputs.length then _ else _) = _
    rw [Leaf.inputs_length_receiveAll]
    rfl
  | diagram frame subsystems => exact congrArg (·[index]?.map ExposedInput.ticket) (Frame.Steady.receiveAll frame changes).inputs

theorem inputTicket?_bound {context : Context} {index : Nat} (bound : index < context.inputCount) :
    ∃ root, context.inputTicket? index = some root := by
  cases context with
  | leaf own => exact ⟨_, if_pos bound⟩
  | diagram frame subsystems => exact ⟨_, congrArg (Option.map _) (List.getElem?_eq_getElem bound)⟩

theorem inputTicket?_of_root {context : Context} {index : Nat} (bound : index < context.inputCount) :
    context.root? (.invalidateInput index) = context.inputTicket? index := by
  cases context with
  | leaf own => exact (if_pos bound).symm
  | diagram => rfl

end Context

namespace Leaf

theorem fresh_receive {own : Leaf} {change : Change} {index : Nat} (unmarked : ∀ other, change ≠ .mark other true) :
    (own.receive change).fresh[index]? = some true ↔
      own.fresh[index]? = some true ∧ own.root? change = none ∧ change ≠ .mark index false := by
  cases change with
  | mark other flag =>
    obtain rfl : flag = false := eq_false_of_ne_true (fun up => unmarked other (up ▸ rfl))
    by_cases same : other = index
    · subst same
      refine ⟨fun up => ?_, fun marked => absurd rfl marked.2.2⟩
      obtain ⟨_, flag⟩ := List.getElem?_eq_some_iff.mp up
      simp only [receive, List.getElem_set_self] at flag
      cases flag
    · rw [receive, List.getElem?_set_ne same]
      exact ⟨fun up => ⟨up, rfl, fun again => same (Change.mark.inj again).1⟩, And.left⟩
  | setTime | invalidateTime | invalidateState | invalidateInput | bind =>
    exact ⟨fun up => absurd up (own.stale_disturbed index), fun calm => absurd calm.2.1 (Option.some_ne_none _)⟩
  | openEntry partition place =>
    simp only [receive, root?]
    split
    · exact ⟨fun up => absurd up (own.stale_disturbed index), fun calm => absurd calm.2.1 (Option.some_ne_none _)⟩
    · exact ⟨fun up => ⟨up, rfl, Change.noConfusion⟩, And.left⟩
  | rebind | storeEntry => exact ⟨fun up => ⟨up, rfl, Change.noConfusion⟩, And.left⟩

-- An output is up to date exactly if it was and nothing has been told that would
-- make it stale; nothing told here makes one fresh.
theorem fresh_receiveAll {own : Leaf} {changes : List Change} {index : Nat}
    (unmarked : ∀ other, .mark other true ∉ changes) :
    (changes.foldl receive own).fresh[index]? = some true ↔
      own.fresh[index]? = some true ∧ ∀ change ∈ changes, own.root? change = none ∧ change ≠ .mark index false := by
  induction changes generalizing own with
  | nil => exact ⟨fun up => ⟨up, fun _ none => absurd none List.not_mem_nil⟩, And.left⟩
  | cons change rest ih =>
    have here : ∀ other, change ≠ .mark other true := fun other same => unmarked other (same ▸ List.mem_cons_self)
    have later : ∀ other, .mark other true ∉ rest := fun other member => unmarked other (List.mem_cons_of_mem _ member)
    rw [List.foldl_cons, ih later, fresh_receive here, root?_receive]
    simp only [List.forall_mem_cons, and_assoc]

theorem stale_told {own : Leaf} {changes : List Change} {change : Change} {root : Ticket}
    (unmarked : ∀ other, .mark other true ∉ changes) (member : change ∈ changes)
    (concerned : own.root? change = some root) : ∀ fresh ∈ (changes.foldl receive own).fresh, fresh = false := by
  intro fresh held
  obtain ⟨index, found⟩ := List.mem_iff_getElem?.mp held
  cases fresh with
  | false => rfl
  | true =>
    obtain ⟨_, calm⟩ := (fresh_receiveAll unmarked).mp found
    exact nomatch concerned.symm.trans (calm change member).1

end Leaf
end BlockDiagram
