import BlockDiagram.Proofs.Reachable

namespace BlockDiagram

def Binding.value? (outer : Resolver) : Option Binding → Option Value
  | some (.free value) => some value
  | some (.dependent handle) => outer handle
  | none => none

namespace Context

def resolverAt (outer : Resolver) : Context → List Nat → Resolver
  | .diagram frame subsystems, system :: path =>
    match subsystems.context? system with
    | some child => child.resolverAt (.chain frame.id subsystems.output? outer) path
    | none => outer
  | _, _ => outer

-- The value an input of the leaf at a path reads, with nothing around the tree.
def reads (tree : Context) (path : List Nat) (index : Nat) : Option Value :=
  match tree.locate path with
  | .ok (.leaf own) => Binding.value? (tree.resolverAt .nowhere path) own.inputs[index]?.join
  | _ => none

theorem resolverAt_nil (outer : Resolver) (context : Context) : context.resolverAt outer [] = outer := by
  cases context <;> rfl

theorem resolverAt_cons {frame : Frame} {subsystems : Subsystems} {system : Nat} {child : Context}
    (present : subsystems.context? system = some child) (outer : Resolver) (path : List Nat) :
    (Context.diagram frame subsystems).resolverAt outer (system :: path) =
      child.resolverAt (.chain frame.id subsystems.output? outer) path := by
  simp only [resolverAt, present]

theorem resolverAt_append {tree middle : Context} {front : List Nat} (located : tree.locate front = .ok middle)
    (outer : Resolver) (back : List Nat) :
    tree.resolverAt outer (front ++ back) = middle.resolverAt (tree.resolverAt outer front) back := by
  induction front generalizing tree outer with
  | nil => rw [locate_nil] at located; cases located; rw [resolverAt_nil, List.nil_append]
  | cons system front ih =>
    cases tree with
    | leaf own => cases located
    | diagram frame subsystems =>
      obtain ⟨child, present, below⟩ := locate_cons.mp located
      rw [List.cons_append, resolverAt_cons present, resolverAt_cons present, ih below]

theorem resolverAt_foreign {tree : Context} {path : List Nat} {handle : Handle} (outer : Resolver)
    (foreign : ∀ front found, tree.locate front = .ok found → found.id ≠ handle.owner) :
    tree.resolverAt outer path handle = outer handle := by
  induction path generalizing tree outer with
  | nil => rw [resolverAt_nil]
  | cons system path ih =>
    cases tree with
    | leaf own => rfl
    | diagram frame subsystems =>
      cases present : subsystems.context? system with
      | none => simp only [resolverAt, present]
      | some child =>
        rw [resolverAt_cons present, ih]
        · have apart := foreign [] _ (locate_nil _)
          exact if_neg (fun same => apart same.symm)
        · intro front found located
          exact foreign (system :: front) found (locate_cons.mpr ⟨child, present, located⟩)

-- In a tree without duplicate ids the owner of a handle is found from anywhere inside it.
theorem resolverAt_owner {tree child : Context} {front : List Nat} {frame : Frame} {subsystems : Subsystems}
    {system : Nat} (unique : tree.Unambiguous) (located : tree.locate front = .ok (.diagram frame subsystems))
    (present : subsystems.context? system = some child) (outer : Resolver) (rest : List Nat) (source : Terminal) :
    tree.resolverAt outer (front ++ system :: rest) ⟨frame.id, source⟩ = subsystems.output? source := by
  rw [resolverAt_append located, resolverAt_cons present, resolverAt_foreign]
  · exact if_pos rfl
  · intro path found inside same
    have there : tree.locate (front ++ system :: path) = .ok found :=
      (locate_append located).mpr (locate_cons.mpr ⟨child, present, inside⟩)
    have equal := unique _ _ _ _ there located same
    have length := congrArg List.length equal
    simp at length

theorem reads_leaf {tree : Context} {path : List Nat} {own : Leaf} (located : tree.locate path = .ok (.leaf own))
    (index : Nat) :
    tree.reads path index = Binding.value? (tree.resolverAt .nowhere path) own.inputs[index]?.join := by
  simp only [reads, located]

end Context
end BlockDiagram
