namespace BlockDiagram

-- Whether an input or an output is meant is settled by where the address stands.
structure Terminal where
  system : Nat
  index : Nat
deriving DecidableEq, Repr

namespace Terminal

instance : LT Terminal := ⟨fun a b => a.system < b.system ∨ (a.system = b.system ∧ a.index < b.index)⟩

instance (a b : Terminal) : Decidable (a < b) :=
  inferInstanceAs (Decidable (a.system < b.system ∨ (a.system = b.system ∧ a.index < b.index)))

def order (a b : Terminal) : Ordering :=
  if a < b then .lt else if a = b then .eq else .gt

def text (terminal : Terminal) : String := s!"{terminal.system}:{terminal.index}"

def json (terminal : Terminal) : String :=
  "\x7b\"system\":" ++ toString terminal.system ++ ",\"port\":" ++ toString terminal.index ++ "\x7d"

theorem lt_iff {a b : Terminal} :
    a < b ↔ a.system < b.system ∨ (a.system = b.system ∧ a.index < b.index) := Iff.rfl

theorem lt_irrefl (a : Terminal) : ¬ a < a := by
  simp [lt_iff]

theorem lt_trans {a b c : Terminal} (first : a < b) (second : b < c) : a < c := by
  simp only [lt_iff] at *
  omega

theorem lt_or_eq_or_gt (a b : Terminal) : a < b ∨ a = b ∨ b < a := by
  have same : a = b ↔ a.system = b.system ∧ a.index = b.index := by
    cases a; cases b; simp
  simp only [lt_iff, same]
  omega

end Terminal

def terminalsOf (system count : Nat) : List Terminal :=
  (List.range count).map (Terminal.mk system)

theorem mem_terminalsOf {system count : Nat} {terminal : Terminal} :
    terminal ∈ terminalsOf system count ↔ terminal.system = system ∧ terminal.index < count := by
  cases terminal
  simp only [terminalsOf, List.mem_map, List.mem_range, Terminal.mk.injEq]
  constructor
  · rintro ⟨index, bound, rfl, rfl⟩; exact ⟨rfl, bound⟩
  · rintro ⟨rfl, bound⟩; exact ⟨_, bound, rfl, rfl⟩

end BlockDiagram
