import BlockDiagram.Proofs.FanOut

namespace BlockDiagram
namespace Wiring

def drawAll : Wiring → List (Terminal × Terminal) → List (Option Terminal) × Wiring
  | wiring, [] => ([], wiring)
  | wiring, call :: rest =>
    let (replaced, wired) := wiring.rewire call.1 call.2
    let (answers, last) := wired.drawAll rest
    (replaced :: answers, last)

def record (calls : List (Terminal × Terminal)) : Wiring := (empty.drawAll calls).2

-- The call with this number wires the input, and none after it does.
def LastCall (calls : List (Terminal × Terminal)) (number : Nat) (output input : Terminal) : Prop :=
  calls[number]? = some (output, input) ∧ ∀ call ∈ calls.drop (number + 1), call.2 ≠ input

theorem drawAll_answers (wiring : Wiring) (calls : List (Terminal × Terminal)) (number : Nat) :
    (wiring.drawAll calls).1[number]? =
      calls[number]?.map (fun call => (wiring.drawAll (calls.take number)).2.source? call.2) := by
  induction calls generalizing wiring number with
  | nil => rfl
  | cons call rest ih =>
    cases number with
    | zero => rfl
    | succ number => exact ih (wiring.connect call.1 call.2) number

theorem lastCall_bound {calls : List (Terminal × Terminal)} {number : Nat} {output input : Terminal}
    (last : LastCall calls number output input) : number < calls.length :=
  (List.getElem?_eq_some_iff.mp last.1).1

theorem lastCall_snoc {calls : List (Terminal × Terminal)} {output input : Terminal} {number : Nat}
    {source place : Terminal} :
    LastCall (calls ++ [(output, input)]) number source place ↔
      (number = calls.length ∧ source = output ∧ place = input) ∨
        (place ≠ input ∧ LastCall calls number source place) := by
  unfold LastCall
  rcases Nat.lt_trichotomy number calls.length with earlier | here | beyond
  · have apart : number ≠ calls.length := Nat.ne_of_lt earlier
    rw [List.getElem?_append_left earlier, List.drop_append_of_le_length earlier]
    simp only [List.mem_append, List.mem_singleton, or_imp, forall_and, forall_eq, apart, false_and, false_or]
    constructor
    · intro last
      exact ⟨fun same => last.2.2 same.symm, last.1, last.2.1⟩
    · intro last
      exact ⟨last.2.1, last.2.2, fun same => last.1 same.symm⟩
  · have absent : calls[number]? = none := List.getElem?_eq_none (Nat.le_of_eq here.symm)
    have nothing : (calls ++ [(output, input)]).drop (number + 1) = [] := List.drop_eq_nil_of_le (by simp [here])
    have added : (calls ++ [(output, input)])[number]? = some (output, input) := by rw [here]; simp
    rw [nothing, added, absent]
    simp [here, eq_comm]
  · have absent : calls[number]? = none := List.getElem?_eq_none (Nat.le_of_lt beyond)
    have nowhere : (calls ++ [(output, input)])[number]? = none := List.getElem?_eq_none (by simp; omega)
    have apart : number ≠ calls.length := Nat.ne_of_gt beyond
    rw [nowhere, absent]
    simp [apart]

-- An input has the source of the last call into it, and an output lists its inputs in
-- the order of their last calls.
structure Traced (calls : List (Terminal × Terminal)) (wiring : Wiring) : Prop where
  sources : ∀ output input, wiring.source? input = some output ↔ ∃ number, LastCall calls number output input
  unwired : ∀ input, wiring.source? input = none ↔ ∀ call ∈ calls, call.2 ≠ input
  ordered : ∀ output, (wiring.inputsOf output).Pairwise (fun earlier later =>
    ∃ first second, first < second ∧ LastCall calls first output earlier ∧ LastCall calls second output later)

theorem traced_empty : Traced [] empty where
  sources := by
    intro output input
    constructor
    · exact nofun
    · intro called
      obtain ⟨_, absent, _⟩ := called
      cases absent
  unwired := fun _ => ⟨fun _ => nofun, fun _ => rfl⟩
  ordered := fun _ => List.Pairwise.nil

theorem Traced.connect {calls : List (Terminal × Terminal)} {wiring : Wiring} (traced : Traced calls wiring)
    (coherent : wiring.Coherent) (output input : Terminal) :
    Traced (calls ++ [(output, input)]) (wiring.connect output input) where
  sources := by
    intro source place
    simp only [lastCall_snoc, source?_connect]
    by_cases here : place = input
    · simp [here, eq_comm]
    · simp [here, traced.sources]
  unwired := by
    intro place
    rw [source?_connect]
    by_cases here : place = input
    · simp [here]
    · have apart : ¬ input = place := fun same => here same.symm
      simp [here, apart, traced.unwired, or_imp, forall_and]
  ordered := by
    intro source
    have kept : ∀ {number : Nat} {place : Terminal}, place ≠ input → LastCall calls number source place →
        LastCall (calls ++ [(output, input)]) number source place :=
      fun apart last => lastCall_snoc.mpr (.inr ⟨apart, last⟩)
    have others : ∀ {place : Terminal}, place ∈ (wiring.inputsOf source).filter (· ≠ input) →
        place ∈ wiring.inputsOf source ∧ place ≠ input :=
      fun member => ⟨List.mem_of_mem_filter member, of_decide_eq_true (List.mem_filter.mp member).2⟩
    rw [inputsOf_connect coherent]
    refine List.pairwise_append.mpr ⟨?_, ?_, ?_⟩
    · refine List.Pairwise.imp_of_mem ?_ ((traced.ordered source).filter _)
      intro earlier later one two between
      obtain ⟨first, second, less, before, after⟩ := between
      exact ⟨first, second, less, kept (others one).2 before, kept (others two).2 after⟩
    · split <;> simp
    · -- The new wire is the last call of all, and every other was drawn before.
      intro earlier member later added
      split at added
      · rename_i same
        obtain rfl := List.mem_singleton.mp added
        obtain ⟨listed, apart⟩ := others member
        have wired := (coherent.both source earlier).mp listed
        obtain ⟨first, last⟩ := (traced.sources source earlier).mp wired
        exact ⟨first, calls.length, lastCall_bound last, kept apart last, lastCall_snoc.mpr (.inl ⟨rfl, same, rfl⟩)⟩
      · cases added

theorem Drawn.drawAll {wiring : Wiring} (drawn : wiring.Drawn) (calls : List (Terminal × Terminal)) :
    (wiring.drawAll calls).2.Drawn := by
  induction calls generalizing wiring with
  | nil => exact drawn
  | cons call rest ih => exact ih (drawn.connect call.1 call.2)

theorem Traced.drawAll {earlier : List (Terminal × Terminal)} {wiring : Wiring} (traced : Traced earlier wiring)
    (drawn : wiring.Drawn) (calls : List (Terminal × Terminal)) :
    Traced (earlier ++ calls) (wiring.drawAll calls).2 := by
  induction calls generalizing earlier wiring with
  | nil =>
    rw [List.append_nil]
    exact traced
  | cons call rest ih =>
    rw [List.append_cons]
    exact ih (traced.connect drawn.coherent call.1 call.2) (drawn.connect call.1 call.2)

theorem drawn_record (calls : List (Terminal × Terminal)) : (record calls).Drawn :=
  Drawn.empty.drawAll calls

theorem traced_record (calls : List (Terminal × Terminal)) : Traced calls (record calls) :=
  traced_empty.drawAll .empty calls

structure Records (calls : List (Terminal × Terminal)) (answers : List (Option Terminal)) (wiring : Wiring) : Prop
    extends Traced calls wiring where
  fed : ∀ output input, input ∈ wiring.inputsOf output ↔ wiring.source? input = some output
  once : ∀ output, (wiring.inputsOf output).Nodup
  answered : ∀ number, answers[number]? =
    calls[number]?.map (fun call => (record (calls.take number)).source? call.2)
  listed : ∀ output input, (output, input) ∈ wiring.wires ↔ wiring.source? input = some output
  ascending : wiring.wires.Pairwise (fun earlier later => earlier.2 < later.2)
  filled : ∀ output, wiring.fed.find? output ≠ some []

-- The two directions stay inverse to each other through any series of calls, and
-- what they answer is all there is to a wiring.
theorem directions_inverse (calls : List (Terminal × Terminal)) :
    Records calls (empty.drawAll calls).1 (record calls) ∧
      ∀ others, record calls = record others ↔
        (∀ input, (record calls).source? input = (record others).source? input) ∧
          ∀ output, (record calls).inputsOf output = (record others).inputsOf output := by
  have drawn := drawn_record calls
  have coherent := drawn.coherent
  constructor
  · exact {
      traced_record calls with
      fed := coherent.both
      once := coherent.once
      answered := drawAll_answers empty calls
      listed := fun _ _ => mem_wires coherent
      ascending := wires_ascending coherent
      filled := drawn.filled }
  · intro others
    constructor
    · intro same
      rw [same]
      exact ⟨fun _ => rfl, fun _ => rfl⟩
    · intro alike
      exact drawn.ext (drawn_record others) alike.1 alike.2

end Wiring
end BlockDiagram
