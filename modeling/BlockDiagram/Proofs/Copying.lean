import BlockDiagram.Proofs.Effect

namespace BlockDiagram
open Relation

namespace Wiring

-- A wire recorded last in a list of wires that agree on an input stays.
theorem source?_connectAll {wires : List (Terminal × Terminal)} {wiring : Wiring} {input : Terminal}
    {source : Option Terminal} (agree : ∀ wire ∈ wires, wire.2 = input → some wire.1 = source)
    (start : wiring.source? input = source ∨ ∃ wire ∈ wires, wire.2 = input) :
    (wires.foldl (fun wiring wire => wiring.connect wire.1 wire.2) wiring).source? input = source := by
  induction wires generalizing wiring with
  | nil =>
    rcases start with same | ⟨_, absent, _⟩
    · exact same
    · cases absent
  | cons wire rest ih =>
    refine ih (fun other member => agree other (List.mem_cons_of_mem _ member)) ?_
    rw [source?_connect]
    split
    · rename_i here
      exact .inl (agree wire List.mem_cons_self here.symm)
    · rename_i elsewhere
      rcases start with same | ⟨other, member, here⟩
      · exact .inl same
      · rcases List.mem_cons.mp member with rfl | later
        · exact absurd here.symm elsewhere
        · exact .inr ⟨other, later, here⟩

theorem coherent_connectAll {wiring : Wiring} (coherent : wiring.Coherent) (wires : List (Terminal × Terminal)) :
    (wires.foldl (fun wiring wire => wiring.connect wire.1 wire.2) wiring).Coherent := by
  induction wires generalizing wiring with
  | nil => exact coherent
  | cons wire rest ih => exact ih (coherent.connect wire.1 wire.2)

def rebuilt (wiring : Wiring) : Wiring :=
  wiring.wires.foldl (fun wiring wire => wiring.connect wire.1 wire.2) .empty

theorem coherent_rebuilt (wiring : Wiring) : wiring.rebuilt.Coherent :=
  coherent_connectAll coherent_empty _

theorem source?_rebuilt {wiring : Wiring} (coherent : wiring.Coherent) (input : Terminal) :
    wiring.rebuilt.source? input = wiring.source? input := by
  refine source?_connectAll ?_ ?_
  · rintro ⟨output, target⟩ member rfl
    exact ((mem_wires coherent).mp member).symm
  · cases found : wiring.source? input with
    | none => exact .inl rfl
    | some output => exact .inr ⟨(output, input), (mem_wires coherent).mpr found, rfl⟩

theorem feeds_rebuilt {wiring : Wiring} (coherent : wiring.Coherent) : wiring.rebuilt.Feeds = wiring.Feeds := by
  funext before after
  simp only [Feeds, source?_rebuilt coherent]

end Wiring

namespace Subsystems

def reissues (owner : ContextId) (wires : List (Terminal × Terminal)) : Mail :=
  wires.map (fun wire => (wire.2.system, .rebind wire.2.index (some (.dependent ⟨owner, wire.1⟩))))

theorem reissue_ok {owner : ContextId} {wires : List (Terminal × Terminal)} {subsystems rewired : Subsystems}
    (reissued : subsystems.reissue owner wires = .ok rewired) :
    rewired = subsystems.receive (reissues owner wires) := by
  induction wires generalizing subsystems with
  | nil => cases reissued; exact (receive_nil _).symm
  | cons wire rest ih =>
    obtain ⟨output, input⟩ := wire
    unfold reissue at reissued
    split at reissued
    · rename_i middle sent
      cases present : subsystems.context? input.system with
      | none =>
        have absent : subsystems.context input.system = .error (subsystems.absence input.system) := by
          rw [Subsystems.context, present]
        simp [send, absent, Change.undelivered] at sent
      | some child =>
        rw [ih reissued, send_done present sent, ← receive_append]
        rfl
    · cases reissued
    · cases reissued

end Subsystems

mutual
theorem Context.copy_serial : (context : Context) → {outer : Resolver} → {serial next : Nat} →
    {copied : Context} → context.copy outer serial = .ok (copied, next) → serial < next
  | .leaf _, _, serial, _, _, done => by cases done; exact Nat.lt_succ_self serial
  | .diagram frame subsystems, outer, serial, next, copied, done => by
    unfold Context.copy at done
    split at done
    · split at done
      · rename_i inner
        have below := subsystems.copy_serial inner
        split at done <;> cases done
        exact Nat.lt_succ_of_le below
      · cases done
    · cases done
theorem Subsystems.copy_serial : (subsystems : Subsystems) → {outer : Resolver} → {serial next : Nat} →
    {copies : Subsystems} → subsystems.copy outer serial = .ok (copies, next) → serial ≤ next
  | .nil, _, _, _, _, done => by cases done; exact Nat.le_refl _
  | .vacant rest, _, _, _, _, done => by
    unfold Subsystems.copy at done
    split at done <;> cases done
    rename_i inner
    exact rest.copy_serial inner
  | .filled context _ rest, _, _, _, _, done => by
    unfold Subsystems.copy at done
    split at done
    · rename_i first
      have before := context.copy_serial first
      split at done <;> cases done
      rename_i inner
      have behind := rest.copy_serial inner
      omega
    · cases done
end

namespace Subsystems

-- The copies of subsystems are made one after the other, from consecutive ids:
-- the copy of each takes those from one mark up to the next.
structure Copies (subsystems : Subsystems) (outer : Resolver) (copies : Subsystems) (marks : Nat → Nat) : Prop where
  size : copies.size = subsystems.size
  buffers : ∀ system, copies.buffer? system = subsystems.buffer? system
  ascending : ∀ system, marks system ≤ marks (system + 1)
  vacant : ∀ system, subsystems.context? system = none → copies.context? system = none
  present : ∀ system child, subsystems.context? system = some child → ∃ copy,
    child.copy outer (marks system) = .ok (copy, marks (system + 1)) ∧ copies.context? system = some copy

-- The marks of a row of subsystems with one more before it.
def marksFrom (serial : Nat) (marks : Nat → Nat) : Nat → Nat
  | 0 => serial
  | system + 1 => marks system

section
variable {rest copies : Subsystems} {outer : Resolver} {marks : Nat → Nat}

theorem copies_nil (outer : Resolver) (serial : Nat) : Subsystems.nil.Copies outer .nil (fun _ => serial) := by
  refine ⟨rfl, fun _ => rfl, fun _ => Nat.le_refl _, fun _ _ => rfl, fun system child found => ?_⟩
  cases found

-- A vacant place takes no id.
theorem Copies.vacated (copied : rest.Copies outer copies marks) :
    (Subsystems.vacant rest).Copies outer (.vacant copies) (fun system => marks (system - 1)) := by
  refine ⟨congrArg (· + 1) copied.size, fun system => ?_, fun system => ?_, fun system absent => ?_,
    fun system child found => ?_⟩
  · cases system with
    | zero => rfl
    | succ system => exact copied.buffers system
  · cases system with
    | zero => exact Nat.le_refl _
    | succ system => exact copied.ascending system
  · cases system with
    | zero => rfl
    | succ system => exact copied.vacant system absent
  · cases system with
    | zero => cases found
    | succ system => exact copied.present system child found

theorem Copies.filled {context copy : Context} {serial : Nat} (copied : rest.Copies outer copies marks)
    (first : context.copy outer serial = .ok (copy, marks 0)) (before : serial ≤ marks 0) (buffer : OutputBuffer) :
    (Subsystems.filled context buffer rest).Copies outer (.filled copy buffer copies) (marksFrom serial marks) := by
  refine ⟨congrArg (· + 1) copied.size, fun system => ?_, fun system => ?_, fun system absent => ?_,
    fun system child found => ?_⟩
  · cases system with
    | zero => rfl
    | succ system => exact copied.buffers system
  · cases system with
    | zero => exact before
    | succ system => exact copied.ascending system
  · cases system with
    | zero => cases absent
    | succ system => exact copied.vacant system absent
  · cases system with
    | zero => cases found; exact ⟨copy, first, rfl⟩
    | succ system => exact copied.present system child found

end

theorem copy_ok (subsystems : Subsystems) {outer : Resolver} {serial next : Nat} {copies : Subsystems}
    (done : subsystems.copy outer serial = .ok (copies, next)) :
    ∃ marks, subsystems.Copies outer copies marks ∧ marks 0 = serial ∧ ∀ system, marks system ≤ next := by
  induction subsystems using row_induct generalizing serial next copies with
  | nil =>
    cases done
    exact ⟨_, copies_nil outer serial, rfl, fun _ => Nat.le_refl _⟩
  | vacant rest ih =>
    unfold Subsystems.copy at done
    split at done <;> cases done
    rename_i inner
    obtain ⟨marks, copied, start, bound⟩ := ih inner
    exact ⟨_, copied.vacated, start, fun _ => bound _⟩
  | filled context buffer rest ih =>
    unfold Subsystems.copy at done
    split at done
    · rename_i copy middle first
      split at done <;> cases done
      rename_i inner
      obtain ⟨marks, copied, rfl, bound⟩ := ih inner
      have before := context.copy_serial first
      have behind := rest.copy_serial inner
      refine ⟨_, copied.filled first (Nat.le_of_lt before) buffer, rfl, fun system => ?_⟩
      cases system with
      | zero => exact Nat.le_trans (Nat.le_of_lt before) behind
      | succ system => exact bound system
    · cases done

theorem Copies.between {subsystems copies : Subsystems} {outer : Resolver} {marks : Nat → Nat}
    (copied : subsystems.Copies outer copies marks) {earlier later : Nat} (before : earlier ≤ later) :
    marks earlier ≤ marks later := by
  induction before with
  | refl => exact Nat.le_refl _
  | step _ ih => exact Nat.le_trans ih (copied.ascending _)

-- An id is taken from the range of one subsystem only.
theorem Copies.same_range {subsystems copies : Subsystems} {outer : Resolver} {marks : Nat → Nat}
    (copied : subsystems.Copies outer copies marks) {system other serial : Nat}
    (here : marks system ≤ serial ∧ serial < marks (system + 1))
    (there : marks other ≤ serial ∧ serial < marks (other + 1)) : system = other := by
  rcases Nat.lt_trichotomy system other with before | equal | behind
  · have gap : marks (system + 1) ≤ marks other := copied.between before
    omega
  · exact equal
  · have gap : marks (other + 1) ≤ marks system := copied.between behind
    omega

theorem Copies.of_copy {subsystems copies : Subsystems} {outer : Resolver} {marks : Nat → Nat}
    (copied : subsystems.Copies outer copies marks) {system : Nat} {copy : Context}
    (found : copies.context? system = some copy) :
    ∃ child, subsystems.context? system = some child ∧
      child.copy outer (marks system) = .ok (copy, marks (system + 1)) := by
  cases held : subsystems.context? system with
  | none => rw [copied.vacant system held] at found; cases found
  | some child =>
    obtain ⟨other, done, there⟩ := copied.present system child held
    cases found.symm.trans there
    exact ⟨child, rfl, done⟩

end Subsystems

namespace Context

theorem copy_diagram {frame : Frame} {subsystems : Subsystems} {outer : Resolver} {serial next : Nat}
    {copied : Context} (done : (Context.diagram frame subsystems).copy outer serial = .ok (copied, next)) :
    ∃ copies marks last, frame.phase = .sealed ∧
      subsystems.Copies (.chain frame.id subsystems.output? outer) copies marks ∧ marks 0 = serial ∧
      (∀ system, marks system ≤ last) ∧ next = last + 1 ∧
      copied = .diagram (frame.copy ⟨last⟩ copies)
        (copies.receive (Subsystems.reissues ⟨last⟩ frame.wiring.wires)) := by
  unfold copy at done
  split at done
  · rename_i closed
    split at done
    · rename_i copies last inner
      obtain ⟨marks, copied, start, bound⟩ := Subsystems.copy_ok subsystems inner
      split at done
      · rename_i rewired reissued
        cases done
        exact ⟨copies, marks, last, closed, copied, start, bound, rfl, by rw [Subsystems.reissue_ok reissued]⟩
      · cases done
    · cases done
  · cases done

theorem copy_counts {context copied : Context} {outer : Resolver} {serial next : Nat}
    (done : context.copy outer serial = .ok (copied, next)) :
    copied.inputCount = context.inputCount ∧ copied.outputCount = context.outputCount := by
  cases context with
  | leaf own => cases done; exact ⟨List.length_map _, rfl⟩
  | diagram frame subsystems =>
    obtain ⟨copies, marks, last, _, _, _, _, _, rfl⟩ := copy_diagram done
    exact ⟨rfl, rfl⟩

theorem copy_range {context copied : Context} {outer : Resolver} {serial next : Nat}
    (done : context.copy outer serial = .ok (copied, next)) {path : List Nat} {found : Context}
    (located : copied.locate path = .ok found) : serial ≤ found.id.serial ∧ found.id.serial < next := by
  induction context using Context.induct generalizing outer serial next copied path found with
  | leaf own =>
    cases done
    obtain ⟨_, rfl⟩ := locate_leaf located
    exact ⟨Nat.le_refl _, Nat.lt_succ_self _⟩
  | diagram frame subsystems ih =>
    obtain ⟨copies, marks, last, _, copied, start, bound, rfl, rfl⟩ := copy_diagram done
    cases path with
    | nil =>
      rw [locate_nil] at located
      cases located
      exact ⟨start ▸ bound 0, Nat.lt_succ_self _⟩
    | cons system path =>
      rw [locate_cons, Subsystems.context?_receive] at located
      obtain ⟨child, held, inside⟩ := located
      obtain ⟨copy, there, rfl⟩ := Option.map_eq_some_iff.mp held
      obtain ⟨original, present, done⟩ := copied.of_copy there
      obtain ⟨before, there, rfl⟩ := locate_of_receive inside
      obtain ⟨low, high⟩ := ih _ _ present done there
      have first := copied.between (Nat.zero_le system)
      have behind := bound (system + 1)
      rw [(grows_receive before _).id]
      omega

end Context
end BlockDiagram
