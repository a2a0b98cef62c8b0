import BlockDiagram.Terminal

namespace BlockDiagram

structure TerminalTable (α : Type) where
  entries : List (Terminal × α)
deriving DecidableEq, Repr

namespace TerminalTable
variable {α : Type}

def empty : TerminalTable α := ⟨[]⟩

def find? (table : TerminalTable α) (terminal : Terminal) : Option α :=
  (table.entries.find? (·.1 = terminal)).map (·.2)

-- An entry under the same terminal is replaced where it stands.
def place (terminal : Terminal) (value : α) : List (Terminal × α) → List (Terminal × α)
  | [] => [(terminal, value)]
  | entry :: rest =>
    if terminal < entry.1 then (terminal, value) :: entry :: rest
    else if terminal = entry.1 then (terminal, value) :: rest
    else entry :: place terminal value rest

def insert (table : TerminalTable α) (terminal : Terminal) (value : α) : TerminalTable α :=
  ⟨place terminal value table.entries⟩

def erase (table : TerminalTable α) (terminal : Terminal) : TerminalTable α :=
  ⟨table.entries.filter (·.1 ≠ terminal)⟩

def size (table : TerminalTable α) : Nat := table.entries.length

def Ascending (table : TerminalTable α) : Prop :=
  table.entries.Pairwise (fun earlier later => earlier.1 < later.1)

theorem ascending_empty : (empty : TerminalTable α).Ascending := List.Pairwise.nil

theorem mem_place {terminal : Terminal} {value : α} {entries : List (Terminal × α)} {entry : Terminal × α}
    (member : entry ∈ place terminal value entries) : entry = (terminal, value) ∨ entry ∈ entries := by
  induction entries with
  | nil => simpa [place] using member
  | cons head rest ih =>
    unfold place at member
    split at member
    · simpa using member
    · split at member
      · rcases List.mem_cons.mp member with equal | tail
        · exact .inl equal
        · exact .inr (List.mem_cons_of_mem _ tail)
      · rcases List.mem_cons.mp member with equal | tail
        · exact .inr (by simp [equal])
        · rcases ih tail with equal | old
          · exact .inl equal
          · exact .inr (List.mem_cons_of_mem _ old)

theorem ascending_insert {table : TerminalTable α} (sorted : table.Ascending) (terminal : Terminal) (value : α) :
    (table.insert terminal value).Ascending := by
  unfold Ascending insert at *
  generalize table.entries = entries at sorted
  induction entries with
  | nil => simp [place]
  | cons head rest ih =>
    obtain ⟨above, tail⟩ := List.pairwise_cons.mp sorted
    unfold place
    split
    · rename_i before
      refine List.pairwise_cons.mpr ⟨?_, sorted⟩
      intro entry member
      rcases List.mem_cons.mp member with equal | inside
      · exact equal ▸ before
      · exact Terminal.lt_trans before (above entry inside)
    · split
      · rename_i equal
        exact List.pairwise_cons.mpr ⟨fun entry member => equal ▸ above entry member, tail⟩
      · rename_i notBefore different
        refine List.pairwise_cons.mpr ⟨?_, ih tail⟩
        intro entry member
        rcases mem_place member with equal | inside
        · subst equal
          rcases Terminal.lt_or_eq_or_gt terminal head.1 with less | same | greater
          · exact absurd less notBefore
          · exact absurd same different
          · exact greater
        · exact above entry inside

theorem ascending_erase {table : TerminalTable α} (sorted : table.Ascending) (terminal : Terminal) :
    (table.erase terminal).Ascending := List.Pairwise.filter _ sorted

theorem find?_insert (table : TerminalTable α) (terminal other : Terminal) (value : α) :
    (table.insert terminal value).find? other = if other = terminal then some value else table.find? other := by
  unfold find? insert
  generalize table.entries = entries
  induction entries with
  | nil => by_cases same : terminal = other <;> simp [place, same, eq_comm]
  | cons head rest ih =>
    unfold place
    by_cases same : other = terminal
    · subst same
      split
      · simp
      · split
        · simp
        · rename_i _ different
          have apart : ¬ head.1 = other := fun equal => different equal.symm
          simpa [List.find?_cons, apart] using ih
    · have apart : ¬ terminal = other := fun equal => same equal.symm
      split
      · simp [List.find?_cons, apart]
      · split
        · rename_i _ equal
          have headApart : ¬ head.1 = other := equal ▸ apart
          simp [apart, headApart]
        · by_cases found : head.1 = other
          · simp [found]
          · simpa [List.find?_cons, found, same] using ih

theorem find?_erase (table : TerminalTable α) (terminal other : Terminal) :
    (table.erase terminal).find? other = if other = terminal then none else table.find? other := by
  unfold find? erase
  generalize table.entries = entries
  induction entries with
  | nil => simp
  | cons head rest ih =>
    by_cases removed : head.1 = terminal
    · by_cases same : other = terminal
      · simp [same]
      · have apart : ¬ terminal = other := fun equal => same equal.symm
        simpa [List.find?_cons, removed, same, apart] using ih
    · by_cases found : head.1 = other
      · have same : ¬ other = terminal := fun equal => removed (found.trans equal)
        simp [found, same]
      · simpa [List.filter_cons, List.find?_cons, removed, found] using ih

end TerminalTable
end BlockDiagram
