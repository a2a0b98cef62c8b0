import BlockDiagram.Proofs.Nesting
import BlockDiagram.Proofs.Likeness

namespace BlockDiagram

namespace Context

theorem copy_leaf {context copied : Context} {outer : Resolver} {serial next : Nat} {path : List Nat} {own : Leaf}
    (done : context.copy outer serial = .ok (copied, next)) (located : context.locate path = .ok (.leaf own)) :
    ∃ id inputs, copied.locate path = .ok (.leaf { own with id := id, inputs := inputs }) := by
  induction context using Context.induct generalizing outer serial next copied path with
  | leaf leaf =>
    obtain ⟨rfl, same⟩ := locate_leaf located
    cases same
    cases done
    exact ⟨_, _, locate_nil _⟩
  | diagram frame subsystems ih =>
    obtain ⟨copies, marks, last, _, made, _, _, rfl, rfl⟩ := copy_diagram done
    cases path with
    | nil => cases located
    | cons system path =>
      obtain ⟨child, present, below⟩ := locate_cons.mp located
      obtain ⟨copy, copying, there⟩ := made.present _ _ present
      obtain ⟨id, settled, inside⟩ := ih _ _ present copying below
      have replayed : ∀ change ∈ Mail.addressed (Subsystems.reissues ⟨last⟩ frame.wiring.wires) system,
          change.Rebinds := by
        intro change addressed
        obtain ⟨wire, _, same⟩ := List.mem_map.mp (Mail.mem_addressed.mp addressed)
        cases same
        trivial
      have arrived := locate_receive (Mail.addressed (Subsystems.reissues ⟨last⟩ frame.wiring.wires) system) inside
      obtain ⟨inputs, same, _⟩ := Leaf.receive_rebinds { own with id := id, inputs := settled }
        (@mailTo_rebinds copy _ path replayed)
      rw [receive, same] at arrived
      exact ⟨id, inputs, locate_cons.mpr ⟨_, Subsystems.context?_received there _, arrived⟩⟩

-- What copying makes of an input is no news to it: a wire played back into it
-- carries what is read there anyway, and a handle that none of the copied
-- diagrams answers for is followed to the same value as before.
structure Undisturbed (context : Context) (path : List Nat) (own : Leaf) (index : Nat) (upstream around : Resolver) :
    Prop where
  replayed : ∀ value, context.replayed? path index = some value →
    value = Binding.value? (context.resolverAt around path) own.inputs[index]?.join
  followed : context.replayed? path index = none → ∀ handle,
    own.inputs[index]? = some (some (.dependent handle)) →
      (∀ diagram ∈ context.enclosing path, ¬ diagram.Owns handle) → upstream handle = around handle

theorem resolverAt_alike {context : Context} {path : List Nat} {handle : Handle} {upstream around : Resolver} :
    context.resolverAt upstream path handle = context.resolverAt around path handle ↔
      ((∀ diagram ∈ context.enclosing path, ¬ diagram.Owns handle) → upstream handle = around handle) := by
  simp only [resolverAt_among, Binding.among]
  cases found : (context.enclosing path).find? (fun diagram => diagram.Owns handle) with
  | none =>
    have foreign : ∀ diagram ∈ context.enclosing path, ¬ diagram.Owns handle := by
      simpa using List.find?_eq_none.mp found
    exact ⟨fun same _ => same, fun same => same foreign⟩
  | some owner =>
    have owns : owner.Owns handle := by simpa using List.find?_some found
    exact ⟨fun _ foreign => absurd owns (foreign owner (List.mem_of_find?_eq_some found)), fun _ => rfl⟩

theorem undisturbed_iff {context : Context} {path : List Nat} {own : Leaf} {index : Nat} {upstream around : Resolver} :
    context.Undisturbed path own index upstream around ↔
      (context.replayed? path index).getD (Binding.value? (context.resolverAt upstream path) own.inputs[index]?.join) =
        Binding.value? (context.resolverAt around path) own.inputs[index]?.join := by
  cases replayed : context.replayed? path index with
  | some value =>
    refine ⟨fun undisturbed => undisturbed.replayed value replayed, fun same => ⟨fun other held => ?_, fun none => ?_⟩⟩
    · cases replayed.symm.trans held
      exact same
    · cases replayed.symm.trans none
  | none =>
    have settled : (∀ handle, own.inputs[index]? = some (some (.dependent handle)) →
          (∀ diagram ∈ context.enclosing path, ¬ diagram.Owns handle) → upstream handle = around handle) ↔
        Binding.value? (context.resolverAt upstream path) own.inputs[index]?.join =
          Binding.value? (context.resolverAt around path) own.inputs[index]?.join := by
      simp only [← resolverAt_alike]
      rcases own.inputs[index]? with _ | _ | _ | handle <;> simp [Binding.value?]
    refine ⟨fun undisturbed => settled.mp (undisturbed.followed replayed), fun same => ⟨fun value held => ?_, fun _ => ?_⟩⟩
    · cases replayed.symm.trans held
    · exact settled.mpr same

-- Two systems, one of which has computed its output from what the other one
-- stored, and remembers how.
def computed : Context :=
  (((Diagram.create ⟨2⟩ 2 .sequential).context.joined [] 0 (.leaf (.create ⟨0⟩ ⟨0, 1, 0, []⟩ [])) ⟨[none]⟩).joined [] 1
    (.leaf (.create ⟨1⟩ ⟨1, 1, 0, []⟩ [])) ⟨[none]⟩).actAll
    [([], .connect ⟨0, 0⟩ ⟨1, 0⟩), ([], .finishBuilding), ([], .setOutput ⟨0, 0⟩ (.int32 1)),
      ([1], .issueTicket [Leaf.inputTicket 0]), ([1], .setLine ⟨3⟩ (.int32 10)), ([1], .change (.mark 0 true))]

theorem computed_built : Built .any computed :=
  ((Built.diagram.joined .leaf (by decide) [] 0 ⟨[none]⟩).joined .leaf (by decide) [] 1 ⟨[none]⟩).actAll
    _ (fun _ _ => trivial)

end Context

def Leaf.computed : Leaf := (Context.computed.leafAt? [1]).get (by decide +kernel)

theorem Context.locate_computed : computed.locate [1] = .ok (.leaf .computed) :=
  leafAt?_eq_some.mp (by decide +kernel)

namespace Built
open Context
variable {tree found : Context} {front : List Nat}

-- What had been derived from an input of a copied leaf agrees with what the
-- input reads in the copy exactly if the input goes undisturbed, or nothing had
-- been derived from it in the first place.
theorem copy_inherits (built : Built .any tree) (located : tree.locate front = .ok found) (closed : found.Sealed)
    (upstream : Resolver) (serial : Nat) :
    ∃ copied next, found.copy upstream serial = .ok (copied, next) ∧
      ∀ path own index, found.locate path = .ok (.leaf own) → index < own.inputs.length →
        ∃ later, copied.locate path = .ok (.leaf later) ∧ later.cache = own.cache ∧ later.fresh = own.fresh ∧
          ((copied.reads path index ≠ tree.reads (front ++ path) index → later.Cleared index) ↔
            own.Cleared index ∨
              found.Undisturbed path own index upstream (tree.resolverAt .nowhere front)) := by
  have sound : found.WellFormed := Everywhere.below built.wellFormed located
  obtain ⟨copied, next, done⟩ := found.copy_succeeds sound closed upstream serial
  refine ⟨copied, next, done, fun path own index there bound => ?_⟩
  obtain ⟨later, arrived, _, reads⟩ := copy_resolves sound done there bound
  obtain ⟨id, inputs, inherited⟩ := copy_leaf done there
  obtain rfl : later = { own with id := id, inputs := inputs } := by
    cases arrived.symm.trans inherited
    rfl
  have whole : tree.locate (front ++ path) = .ok (.leaf own) := (locate_append located).mpr there
  have alike : copied.reads path index = tree.reads (front ++ path) index ↔
      found.Undisturbed path own index upstream (tree.resolverAt .nowhere front) := by
    rw [reads_leaf arrived, reads_leaf whole, reads .nowhere, resolverAt_append located, undisturbed_iff]
  refine ⟨_, arrived, rfl, rfl, ?_⟩
  rw [← alike, or_comm]
  exact Decidable.or_iff_not_imp_left.symm

-- A copy of the second system made for no diagram reads nothing, has its output
-- fresh and holds what was derived from the value of the other system.
theorem copy_inherits_orphaned :
    ∃ next later, Built .any computed ∧ computed.locate [1] = .ok (.leaf .computed) ∧
      (Context.leaf .computed).copy .nowhere 3 = .ok (.leaf later, next) ∧
      (Context.leaf later).reads [] 0 = none ∧ computed.reads [1] 0 = some (.int32 1) ∧
      later.cache.DependsOn ⟨3⟩ (Leaf.inputTicket 0) ∧ later.cache.value? ⟨3⟩ = some (.int32 10) ∧
      later.fresh = [true] := by
  have closed : Leaf.computed.cache.Closed := leaf_closed computed_built.wellFormed locate_computed
  refine ⟨4, Leaf.computed.copy .nowhere ⟨3⟩, computed_built, locate_computed, rfl, by decide +kernel,
    by decide +kernel, ?_, by decide +kernel, by decide +kernel⟩
  exact (Cache.mem_affected closed).mp (by decide +kernel)

theorem copy_inherits_settled :
    ∃ copied next later, (Context.leaf .computed).copy (computed.resolverAt .nowhere [1]) 3 = .ok (copied, next) ∧
      copied.locate [] = .ok (.leaf later) ∧ later.cache.value? ⟨3⟩ = some (.int32 10) ∧ later.fresh = [true] ∧
      (copied.reads [] 0 ≠ computed.reads [1] 0 → later.Cleared 0) := by
  have closed : (Context.leaf .computed).Sealed := everywhere_leaf.mpr trivial
  obtain ⟨copied, next, copies, inherits⟩ :=
    copy_inherits computed_built locate_computed closed (computed.resolverAt .nowhere [1]) 3
  obtain ⟨later, arrived, cache, fresh, coherent⟩ := inherits [] _ 0 (locate_nil _) (by decide +kernel)
  refine ⟨copied, next, later, copies, arrived, ?_, ?_, coherent.mpr (.inr ⟨?_, fun _ _ _ _ => rfl⟩)⟩
  · rw [cache]
    decide +kernel
  · rw [fresh]
    decide +kernel
  · exact fun value played => nomatch played

end Built
end BlockDiagram
