import Mathlib.Algebra.GroupWithZero.Nat
import BlockDiagram.Proofs.Likeness
import BlockDiagram.Proofs.Sealing

namespace BlockDiagram

mutual
-- Where each entry of one partition is at home.
def Context.survey (partition : Partition) : Context → List Endpoint
  | .leaf own => (List.range (own.state.count partition)).map (Endpoint.mk [])
  | .diagram _ subsystems => subsystems.surveyFrom partition 0
def Subsystems.surveyFrom (partition : Partition) : Subsystems → Nat → List Endpoint
  | .nil, _ => []
  | .vacant rest, system => rest.surveyFrom partition (system + 1)
  | .filled context _ rest, system =>
    (context.survey partition).map (.under system) ++ rest.surveyFrom partition (system + 1)
end

-- Subsystem by subsystem, all that is inside one before the next, and the entries
-- of a leaf in its own order.
def Endpoint.Before (earlier later : Endpoint) : Prop :=
  earlier.path < later.path ∨ earlier.path = later.path ∧ earlier.index < later.index

theorem Endpoint.Before.under {earlier later : Endpoint} (before : earlier.Before later) (system : Nat) :
    (earlier.under system).Before (later.under system) := by
  rcases before with first | ⟨same, first⟩
  · exact .inl (List.cons_lt_cons_iff.mpr (.inr ⟨rfl, first⟩))
  · exact .inr ⟨congrArg (system :: ·) same, first⟩

def Context.leaves (context : Context) : List Leaf := context.contexts.filterMap Context.leaf?

instance Partition.decidableEntry : (partition : Partition) → DecidableEq partition.Entry
  | .continuous => inferInstanceAs (DecidableEq Float)
  | .difference => inferInstanceAs (DecidableEq ScalarVector)
  | .modal => inferInstanceAs (DecidableEq Value)

def Context.entryAt? (tree : Context) (partition : Partition) (place : Endpoint) : Option partition.Entry :=
  match tree.locate place.path with
  | .ok (.leaf own) => own.state.read? partition place.index
  | _ => none

namespace Subsystems

theorem mem_surveyFrom {subsystems : Subsystems} {partition : Partition} {system : Nat} {home : Endpoint} :
    home ∈ subsystems.surveyFrom partition system ↔ ∃ place child inner, subsystems.context? place = some child ∧
      inner ∈ child.survey partition ∧ home = inner.under (system + place) := by
  induction subsystems using row_induct generalizing system with
  | nil => simp [surveyFrom, context?]
  | vacant rest ih =>
    rw [surveyFrom, ih]
    constructor
    · rintro ⟨place, child, inner, present, member, rfl⟩
      exact ⟨place + 1, child, inner, present, member, by rw [Nat.add_right_comm, Nat.add_assoc]⟩
    · rintro ⟨place, child, inner, present, member, rfl⟩
      cases place with
      | zero => cases present
      | succ place => exact ⟨place, child, inner, present, member, by rw [Nat.add_right_comm, Nat.add_assoc]⟩
  | filled first _ rest ih =>
    rw [surveyFrom, List.mem_append, List.mem_map, ih]
    constructor
    · rintro (⟨inner, member, rfl⟩ | ⟨place, child, inner, present, member, rfl⟩)
      · exact ⟨0, first, inner, rfl, member, rfl⟩
      · exact ⟨place + 1, child, inner, present, member, by rw [Nat.add_right_comm, Nat.add_assoc]⟩
    · rintro ⟨place, child, inner, present, member, rfl⟩
      cases place with
      | zero =>
        cases present
        exact .inl ⟨inner, member, rfl⟩
      | succ place =>
        exact .inr ⟨place, child, inner, present, member, by rw [Nat.add_right_comm, Nat.add_assoc]⟩

theorem surveyFrom_ascending {subsystems : Subsystems} {partition : Partition}
    (inside : ∀ place child, subsystems.context? place = some child →
      (child.survey partition).Pairwise Endpoint.Before) (system : Nat) :
    (subsystems.surveyFrom partition system).Pairwise Endpoint.Before := by
  induction subsystems using row_induct generalizing system with
  | nil => exact .nil
  | vacant rest ih => exact ih (fun place => inside (place + 1)) _
  | filled first _ rest ih =>
    refine List.pairwise_append.mpr ⟨?_, ih (fun place => inside (place + 1)) _, ?_⟩
    · exact List.pairwise_map.mpr ((inside 0 first rfl).imp (·.under system))
    · intro earlier here later there
      obtain ⟨inner, _, rfl⟩ := List.mem_map.mp here
      obtain ⟨place, child, other, _, _, rfl⟩ := mem_surveyFrom.mp there
      exact .inl (List.cons_lt_cons_iff.mpr (.inl (by omega)))

-- The slots of a row of subsystems, each followed home through all of them.
theorem homes_slotsFrom {subsystems others : Subsystems} {partition : Partition} {system : Nat}
    (inside : ∀ place child, subsystems.context? place = some child →
      others.context? (system + place) = some child ∧
        child.entryCount partition = (child.survey partition).length ∧
        ∀ index, child.home? (.entries partition) index = (child.survey partition)[index]?) :
    (subsystems.slotsFrom partition system).map
        (fun slot => others.terminalHome? (.entries partition) ⟨slot.system, slot.index⟩) =
      (subsystems.surveyFrom partition system).map some := by
  induction subsystems using row_induct generalizing system with
  | nil => rfl
  | vacant rest ih =>
    refine ih (fun place child present => ?_)
    have below := inside (place + 1) child present
    rwa [← Nat.add_assoc, Nat.add_right_comm] at below
  | filled first _ rest ih =>
    obtain ⟨present, count, homes⟩ := inside 0 first rfl
    have behind := @ih (system + 1) (fun place child held => by
      have below := inside (place + 1) child held
      rwa [← Nat.add_assoc, Nat.add_right_comm] at below)
    rw [slotsFrom, surveyFrom, List.map_append, List.map_append, behind]
    refine congrArg (· ++ _) (List.ext_getElem? (fun index => ?_))
    rw [Nat.add_zero] at present
    simp only [slotsOf, count, List.getElem?_map, List.map_map, terminalHome?, homeAt?_eq]
    by_cases bound : index < (first.survey partition).length
    · simp [bound, present, homes]
    · simp [bound]

end Subsystems

namespace Context

theorem mem_survey {context : Context} {partition : Partition} {place : Endpoint} :
    place ∈ context.survey partition ↔
      ∃ own, context.locate place.path = .ok (.leaf own) ∧ place.index < own.state.count partition := by
  induction context using Context.induct generalizing place with
  | leaf own =>
    simp only [survey, List.mem_map, List.mem_range]
    constructor
    · rintro ⟨index, bound, rfl⟩
      exact ⟨own, locate_nil _, bound⟩
    · rintro ⟨other, located, bound⟩
      obtain ⟨root, same⟩ := locate_leaf located
      cases same
      exact ⟨place.index, bound, by rw [← root]⟩
  | diagram frame subsystems ih =>
    rw [survey, Subsystems.mem_surveyFrom]
    constructor
    · rintro ⟨system, child, inner, present, member, rfl⟩
      obtain ⟨own, located, bound⟩ := (ih _ _ present).mp member
      exact ⟨own, locate_cons.mpr ⟨child, by rw [Nat.zero_add]; exact present, located⟩, bound⟩
    · rintro ⟨own, located, bound⟩
      obtain ⟨path, index⟩ := place
      cases path with
      | nil => cases located
      | cons system path =>
        obtain ⟨child, present, below⟩ := locate_cons.mp located
        exact ⟨system, child, ⟨path, index⟩, present, (ih _ _ present).mpr ⟨own, below, bound⟩,
          by rw [Nat.zero_add]; rfl⟩

theorem survey_ascending (context : Context) (partition : Partition) :
    (context.survey partition).Pairwise Endpoint.Before := by
  induction context using Context.induct with
  | leaf own =>
    exact List.pairwise_map.mpr (List.pairwise_lt_range.imp (fun less => .inr ⟨rfl, less⟩))
  | diagram frame subsystems ih => exact Subsystems.surveyFrom_ascending ih 0

end Context

mutual
theorem Context.length_survey (partition : Partition) : (context : Context) →
    (context.survey partition).length = (context.leaves.map (·.state.count partition)).sum
  | .leaf own => by simp [Context.survey, Context.leaves, Context.contexts, Context.leaf?]
  | .diagram frame subsystems => subsystems.length_surveyFrom partition 0
theorem Subsystems.length_surveyFrom (partition : Partition) : (subsystems : Subsystems) → (system : Nat) →
    (subsystems.surveyFrom partition system).length =
      ((subsystems.contexts.filterMap Context.leaf?).map (·.state.count partition)).sum
  | .nil, _ => rfl
  | .vacant rest, system => rest.length_surveyFrom partition (system + 1)
  | .filled context _ rest, system => by
    rw [Subsystems.surveyFrom, List.length_append, List.length_map, context.length_survey partition,
      rest.length_surveyFrom partition (system + 1), Subsystems.contexts, List.filterMap_append, List.map_append,
      List.sum_append]
    rfl
end

namespace Context

theorem entryAt?_under (frame : Frame) (subsystems : Subsystems) (system : Nat) (partition : Partition)
    (inner : Endpoint) :
    (Context.diagram frame subsystems).entryAt? partition (inner.under system) =
      (subsystems.context? system).bind (·.entryAt? partition inner) := by
  simp only [entryAt?, Endpoint.under, locate, Subsystems.context]
  cases subsystems.context? system <;> rfl

-- Reading an entry of a context is reading it in the leaf it belongs to.
theorem read?_home (context : Context) (partition : Partition) (index : Nat) :
    context.read? partition index =
      (context.home? (.entries partition) index).bind (context.entryAt? partition) := by
  induction context using Context.induct generalizing index with
  | leaf own =>
    by_cases bound : index < own.state.count partition
    · have home : (Context.leaf own).home? (.entries partition) index = some ⟨[], index⟩ := if_pos bound
      rw [home]
      rfl
    · have home : (Context.leaf own).home? (.entries partition) index = none := if_neg bound
      rw [home]
      exact List.getElem?_eq_none (Nat.le_of_not_lt bound)
  | diagram frame subsystems ih =>
    simp only [read?, home?, Numbering.entries, Subsystems.readAt?_eq, Subsystems.homeAt?_eq]
    cases frame.composite.slot? partition index with
    | none => rfl
    | some slot =>
      dsimp only [Option.map_some]
      cases present : subsystems.context? slot.system with
      | none => rfl
      | some child =>
        rw [Option.bind_some, ih _ _ present, Option.bind_some, Option.bind_map]
        apply congrArg
        funext inner
        rw [Function.comp, entryAt?_under, present, Option.bind_some]

-- The tables of diagrams that number their subsystems as they are now lead to the
-- entries of the leaves one after the other.
theorem home?_survey {context : Context} (surveyed : context.Everywhere Surveyed) (partition : Partition) :
    context.entryCount partition = (context.survey partition).length ∧
      ∀ index, context.home? (.entries partition) index = (context.survey partition)[index]? := by
  induction context using Context.induct with
  | leaf own =>
    refine ⟨by simp [survey, entryCount], fun index => ?_⟩
    by_cases bound : index < own.state.count partition <;> simp [survey, home?, Numbering.entries, bound]
  | diagram frame subsystems ih =>
    obtain ⟨here, below⟩ := everywhere_diagram.mp surveyed
    have slots : frame.composite.slots partition = subsystems.slotsFrom partition 0 := by
      rw [here, Subsystems.composite, CompositeState.slots_tabulate]
    have homes : (subsystems.slotsFrom partition 0).map
          (fun slot => subsystems.terminalHome? (.entries partition) ⟨slot.system, slot.index⟩) =
        (subsystems.surveyFrom partition 0).map some :=
      Subsystems.homes_slotsFrom (fun place child present =>
        ⟨by rw [Nat.zero_add]; exact present, ih _ _ present (below _ _ present)⟩)
    rw [← slots] at homes
    refine ⟨?_, fun index => ?_⟩
    · have lengths := congrArg List.length homes
      rw [List.length_map, List.length_map] at lengths
      exact lengths
    · have entry := congrArg (·[index]?) homes
      simp only [List.getElem?_map] at entry
      simp only [home?, Numbering.entries, CompositeState.slot?]
      cases held : (frame.composite.slots partition)[index]? with
      | none =>
        rw [held] at entry
        cases there : (subsystems.surveyFrom partition 0)[index]? with
        | none => exact there.symm
        | some place => rw [there] at entry; cases entry
      | some slot =>
        rw [held] at entry
        cases there : (subsystems.surveyFrom partition 0)[index]? with
        | none => rw [there] at entry; cases entry
        | some place =>
          rw [there] at entry
          exact (Option.some.inj entry).trans there.symm

end Context
end BlockDiagram
