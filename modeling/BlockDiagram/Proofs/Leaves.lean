import BlockDiagram.Proofs.WellFormed

namespace BlockDiagram

def Change.Writes : Change → Prop
  | .storeEntry .. => True
  | _ => False

namespace Leaf

theorem count_receive (own : Leaf) (change : Change) (partition : Partition) :
    (own.receive change).state.count partition = own.state.count partition := by
  cases change with
  | storeEntry written index entry => exact State.count_store own.state index entry partition
  | openEntry => simp only [receive]; split <;> rfl
  | _ => rfl

theorem count_receiveAll (own : Leaf) (changes : List Change) (partition : Partition) :
    (changes.foldl receive own).state.count partition = own.state.count partition := by
  induction changes generalizing own with
  | nil => rfl
  | cons change rest ih => rw [List.foldl_cons, ih, count_receive]

theorem root?_receive (own : Leaf) (change : Change) : (own.receive change).root? = own.root? := by
  funext other
  cases other with
  | openEntry partition index => simp only [root?, count_receive]
  | _ => rfl

theorem dependsOn_receive (own : Leaf) (change : Change) {ticket root : Ticket} :
    (own.receive change).cache.DependsOn ticket root ↔ own.cache.DependsOn ticket root := by
  have same : (own.receive change).cache.dependents = own.cache.dependents := by
    rw [cache_receive]
    split
    · funext ticket; exact Cache.dependents_clear _ _ _
    · rfl
  unfold Cache.DependsOn
  rw [same]

theorem closed_receive {own : Leaf} (closed : own.cache.Closed) (change : Change) :
    (own.receive change).cache.Closed := by
  rw [cache_receive]
  split
  · exact Cache.closed_clear closed _
  · exact closed

theorem value?_receive {own : Leaf} (closed : own.cache.Closed) (change : Change) {ticket : Ticket} {value : Value} :
    (own.receive change).cache.value? ticket = some value ↔
      own.cache.value? ticket = some value ∧
        ∀ root, own.root? change = some root → ¬ own.cache.DependsOn ticket root := by
  rw [cache_receive]
  cases disturbed : own.root? change with
  | none => simp
  | some root =>
    have found : ticket ∈ own.cache.affected root ↔ own.cache.DependsOn ticket root := Cache.mem_affected closed
    rw [Cache.value?_clear]
    by_cases depends : own.cache.DependsOn ticket root
    · simp [found.mpr depends, depends]
    · have absent : ticket ∉ own.cache.affected root := fun member => depends (found.mp member)
      simp [absent, depends]

theorem value?_receiveAll {own : Leaf} (closed : own.cache.Closed) (changes : List Change) {ticket : Ticket}
    {value : Value} :
    (changes.foldl receive own).cache.value? ticket = some value ↔
      own.cache.value? ticket = some value ∧ ∀ change ∈ changes, ∀ root, own.root? change = some root →
        ¬ own.cache.DependsOn ticket root := by
  induction changes generalizing own with
  | nil => simp
  | cons change rest ih =>
    rw [List.foldl_cons, ih (closed_receive closed change), value?_receive closed, root?_receive]
    simp only [dependsOn_receive, List.forall_mem_cons, and_assoc]

theorem dependsOn_receiveAll (own : Leaf) (changes : List Change) {ticket root : Ticket} :
    (changes.foldl receive own).cache.DependsOn ticket root ↔ own.cache.DependsOn ticket root := by
  induction changes generalizing own with
  | nil => rfl
  | cons change rest ih => rw [List.foldl_cons, ih, dependsOn_receive]

theorem state_receiveAll {own : Leaf} {changes : List Change} (unwritten : ∀ change ∈ changes, ¬ change.Writes) :
    (changes.foldl receive own).state = own.state := by
  induction changes generalizing own with
  | nil => rfl
  | cons change rest ih =>
    rw [List.foldl_cons, ih (fun other member => unwritten other (List.mem_cons_of_mem _ member))]
    cases change with
    | storeEntry => exact absurd trivial (unwritten _ List.mem_cons_self)
    | openEntry => simp only [receive]; split <;> rfl
    | _ => rfl

theorem inputs_unbound {own : Leaf} {changes : List Change} (unbound : ∀ change ∈ changes, change.bound? = none) :
    (changes.foldl receive own).inputs = own.inputs := by
  induction changes generalizing own with
  | nil => rfl
  | cons change rest ih =>
    have here := unbound change List.mem_cons_self
    rw [List.foldl_cons, ih (fun other member => unbound other (List.mem_cons_of_mem _ member))]
    cases change with
    | bind | rebind => cases here
    | openEntry =>
      simp only [receive]
      split <;> rfl
    | _ => rfl

theorem stale_disturbed (own : Leaf) (index : Nat) : (own.fresh.map (fun _ => false))[index]? ≠ some true := by
  intro fresh
  obtain ⟨_, _, same⟩ := List.mem_map.mp (List.mem_of_getElem? fresh)
  cases same

theorem inputs_length_receiveAll (own : Leaf) (changes : List Change) :
    (changes.foldl receive own).inputs.length = own.inputs.length := by
  induction changes generalizing own with
  | nil => rfl
  | cons change rest ih => rw [List.foldl_cons, ih, (own.receive_counts change).1]

theorem inputs_receiveAll {own : Leaf} {index : Nat} (bound : index < own.inputs.length) (changes : List Change) :
    ((changes.foldl receive own).inputs[index]? = own.inputs[index]? ∧
        ∀ change ∈ changes, change.bound? ≠ some index) ∨
      ∃ binding, (.bind index binding ∈ changes ∨ .rebind index binding ∈ changes) ∧
        (changes.foldl receive own).inputs[index]? = some binding := by
  induction changes generalizing own with
  | nil => exact .inl ⟨rfl, fun _ member => absurd member List.not_mem_nil⟩
  | cons change rest ih =>
    have first : ((own.receive change).inputs[index]? = own.inputs[index]? ∧ change.bound? ≠ some index) ∨
        ∃ binding, (change = .bind index binding ∨ change = .rebind index binding) ∧
          (own.receive change).inputs[index]? = some binding := by
      cases change with
      | bind place binding | rebind place binding =>
        simp only [receive]
        by_cases here : place = index
        · subst here
          exact .inr ⟨binding, by simp, by simp [bound]⟩
        · exact .inl ⟨List.getElem?_set_ne here, fun same => here (Option.some.inj same)⟩
      | openEntry => simp only [receive]; split <;> exact .inl ⟨rfl, (Option.some_ne_none index).symm⟩
      | _ => exact .inl ⟨rfl, (Option.some_ne_none index).symm⟩
    have inside : index < (own.receive change).inputs.length := by
      rw [(own.receive_counts change).1]
      exact bound
    rcases ih inside with ⟨kept, unbound⟩ | ⟨binding, bound, held⟩
    · rcases first with ⟨same, other⟩ | ⟨binding, bound, held⟩
      · refine .inl ⟨kept.trans same, fun cause member => ?_⟩
        rcases List.mem_cons.mp member with rfl | later
        · exact other
        · exact unbound cause later
      · refine .inr ⟨binding, ?_, kept.trans held⟩
        rcases bound with rfl | rfl
        · exact .inl List.mem_cons_self
        · exact .inr List.mem_cons_self
    · refine .inr ⟨binding, ?_, held⟩
      exact bound.imp (List.mem_cons_of_mem _) (List.mem_cons_of_mem _)

end Leaf

namespace Context

theorem leaf_closed {tree : Context} {path : List Nat} {own : Leaf} (sound : tree.WellFormed)
    (located : tree.locate path = .ok (.leaf own)) : own.cache.Closed :=
  sound path _ located

theorem receive_leaf {found : Context} {changes : List Change} {rest : List Nat} {own later : Leaf}
    (inside : found.locate rest = .ok (.leaf own))
    (arrived : (found.receive changes).locate rest = .ok (.leaf later)) :
    later = (found.mailTo changes rest).foldl Leaf.receive own := by
  have received := locate_receive changes inside
  rw [arrived] at received
  cases received
  rfl

end Context
end BlockDiagram
