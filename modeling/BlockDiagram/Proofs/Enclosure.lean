import BlockDiagram.Proofs.Likeness

namespace BlockDiagram

theorem Binding.settled_independent {outer : Resolver} {binding : Option Binding} {handle : Handle} :
    Binding.settled outer binding ≠ some (.dependent handle) := by
  intro same
  cases binding with
  | none => cases same
  | some binding =>
    cases binding with
    | free => cases same
    | dependent inner =>
      obtain ⟨value, _, free⟩ := Option.map_eq_some_iff.mp same
      cases free

namespace Context

theorem backed_copied_leaf (own : Leaf) (outer : Resolver) (id : ContextId) : Context.Backed (.leaf (own.copy outer id)) := by
  intro path later index handle located held
  obtain ⟨rfl, same⟩ := locate_leaf located
  cases same
  rw [Leaf.copy, List.getElem?_map] at held
  obtain ⟨binding, _, settled⟩ := Option.map_eq_some_iff.mp held
  exact absurd settled Binding.settled_independent

theorem backs_replayed {frame : Frame} {subsystems copies : Subsystems} {outer : Resolver} {marks : Nat → Nat}
    (sound : (Context.diagram frame subsystems).WellFormed) (made : subsystems.Copies outer copies marks) (owner : ContextId)
    {output input : Terminal} {path : List Nat} {index : Nat} (member : (output, input) ∈ frame.wiring.wires)
    (home : subsystems.terminalHome? .inputs input = some ⟨path, index⟩) (mail : Mail) :
    (Context.diagram (frame.copy owner copies) (copies.receive mail)).Backs path index ⟨owner, output⟩
      ((copies.receive mail).output? output) := by
  have coherent := sound.frame.coherent
  refine ⟨[], path, _, _, input, rfl, locate_nil _, rfl, ?_, ?_, rfl⟩
  · exact (Wiring.source?_rebuilt coherent input).trans ((Wiring.mem_wires coherent).mp member)
  · exact Subsystems.terminalHome?_receive Numbering.lasting_inputs _ (Subsystems.terminalHome?_copies made home)

theorem copy_backed {context copied : Context} {outer : Resolver} {serial next : Nat} (sound : context.WellFormed)
    (done : context.copy outer serial = .ok (copied, next)) : copied.Backed := by
  induction context using Context.induct generalizing outer serial next copied with
  | leaf own =>
    cases done
    exact backed_copied_leaf own outer _
  | diagram frame subsystems ih =>
    obtain ⟨copies, marks, last, _, made, _, _, rfl, rfl⟩ := copy_diagram done
    intro path later index handle located held
    cases path with
    | nil => cases located
    | cons system path =>
      obtain ⟨_, there, below⟩ := locate_cons.mp located
      obtain ⟨copy, present, rfl⟩ := Subsystems.of_receive there
      obtain ⟨child, original, copying⟩ := made.of_copy present
      obtain ⟨found, inside, _⟩ := locate_of_receive below
      cases found with
      | diagram => cases (locate_receive _ inside).symm.trans below
      | leaf own =>
        obtain ⟨leaf, arrived, length, inputs⟩ := Subsystems.rewired_leaf sound made ⟨last⟩ present inside
        cases arrived.symm.trans below
        have bound : index < own.inputs.length := length ▸ (List.getElem?_eq_some_iff.mp held).1
        rw [inputs index bound] at held
        cases replayed : subsystems.lastInto frame.wiring.wires ⟨system :: path, index⟩ with
        | some output =>
          rw [replayed] at held
          cases held
          obtain ⟨input, member, home⟩ := Subsystems.lastInto_some replayed
          exact ⟨_, backs_replayed sound made ⟨last⟩ member home _⟩
        | none =>
          -- No wire of this diagram ends here, so the handle came about further in.
          rw [replayed] at held
          obtain ⟨value, backs⟩ := ih _ _ original (sound.child original) copying path own index handle inside held
          exact ⟨value, Backs.delivery ((sound.child original).copy copying) (fun _ => rfl) present backs⟩

-- Handles given by hand to two inputs: one that nothing in the tree owns, and one
-- owned by a diagram that is not around the input.
def intruded : Context :=
  relayed.actAll [([0, 0], .change (.bind 0 (some (.dependent ⟨⟨9⟩, ⟨0, 0⟩⟩)))),
    ([1], .change (.bind 0 (some (.dependent ⟨⟨2⟩, ⟨0, 0⟩⟩))))]

theorem intruded_built : Built .any intruded :=
  (relayed_built .any (fun _ _ => trivial)).actAll _ (fun _ _ => trivial)

def boundAt? (tree : Context) (path : List Nat) (index : Nat) : Option (Option Binding) :=
  (tree.locate path).toOption.bind (fun found => (found.input index).toOption)

end Context

namespace Built
open Context

-- Whatever the handles in a tree name and whoever answers for them, no context
-- of a copy has an id that is in use, and every handle in the copy stands for a
-- wire of a diagram of the copy that leads to the input holding it.
theorem copy_stands_alone {tree found copied : Context} {path : List Nat} {outer : Resolver} {serial next : Nat}
    (built : Built .any tree) (located : tree.locate path = .ok found)
    (unused : ∀ place context, tree.locate place = .ok context → context.id.serial < serial)
    (done : found.copy outer serial = .ok (copied, next)) :
    copied.Unambiguous ∧ tree.Apart copied ∧ copied.Backed := by
  refine ⟨unambiguous_copy done, ?_, copy_backed (Everywhere.below built.wellFormed located) done⟩
  intro place other context copy here there same
  have used := unused place context here
  have taken := (copy_range done there).1
  rw [same] at used
  exact absurd (Nat.lt_of_lt_of_le used taken) (Nat.lt_irrefl _)

-- The resolver is asked about the handle nothing owns, and its answer is all that
-- remains of it; the other gives way to the wire it had replaced.
theorem copy_stands_alone_intruded :
    ∃ copied next, intruded.copy (.fixed (.int32 8)) 5 = .ok (copied, next) ∧
      (copied.Unambiguous ∧ intruded.Apart copied ∧ copied.Backed) ∧
      copied.boundAt? [0, 0] 0 = some (some (.free (.int32 8))) ∧
      copied.boundAt? [0, 1] 0 = some (some (.dependent ⟨⟨7⟩, ⟨0, 0⟩⟩)) ∧
      copied.boundAt? [1] 0 = some (some (.dependent ⟨⟨9⟩, ⟨0, 0⟩⟩)) := by
  have used : ∀ context ∈ intruded.contexts, context.id.serial < 5 := by decide +kernel
  obtain ⟨copied, next, copies⟩ :=
    copy_succeeds intruded intruded_built.wellFormed (by decide +kernel) (.fixed (.int32 8)) 5
  refine ⟨copied, next, copies, copy_stands_alone intruded_built (locate_nil _)
    (fun place context located => used context (mem_contexts.mpr ⟨place, located⟩)) copies, ?_, ?_, ?_⟩
  · exact (copied_observed (·.boundAt? [0, 0] 0) copies).mpr (by decide +kernel)
  · exact (copied_observed (·.boundAt? [0, 1] 0) copies).mpr (by decide +kernel)
  · exact (copied_observed (·.boundAt? [1] 0) copies).mpr (by decide +kernel)

end Built
end BlockDiagram
