namespace BlockDiagram

-- The nodes not met yet only shrink, so that a search ends on any graph.
structure Frontier (α : Type) where
  unmet : List α
  waiting : List α

namespace Frontier
variable {α : Type} [DecidableEq α]

-- A search from `nodes`, their last one explored first, that stays among `reachable`.
def starting (reachable nodes : List α) : Frontier α :=
  ⟨reachable.filter (· ∉ nodes), nodes.reverse⟩

def size (frontier : Frontier α) : Nat := frontier.unmet.length + frontier.waiting.length

def meet (frontier : Frontier α) (node : α) : Frontier α :=
  if node ∈ frontier.unmet then ⟨frontier.unmet.erase node, node :: frontier.waiting⟩ else frontier

theorem meet_size (frontier : Frontier α) (node : α) : (frontier.meet node).size = frontier.size := by
  unfold meet
  split
  · rename_i member
    have some := List.length_pos_of_mem member
    simp only [size, List.length_erase_of_mem member, List.length_cons]
    omega
  · rfl

theorem meetAll_size (frontier : Frontier α) (nodes : List α) :
    (nodes.foldl meet frontier).size = frontier.size := by
  induction nodes generalizing frontier with
  | nil => rfl
  | cons node rest ih => rw [List.foldl_cons, ih, meet_size]

@[semireducible] def explore (next : α → List α) : Frontier α → List α
  | ⟨_, []⟩ => []
  | ⟨unmet, node :: waiting⟩ => node :: explore next ((next node).foldl meet ⟨unmet, waiting⟩)
termination_by frontier => frontier.size
decreasing_by
  rw [meetAll_size]
  simp only [size, List.length_cons]
  omega

end Frontier
end BlockDiagram
