import BlockDiagram.Proofs.Directions

namespace BlockDiagram
open Relation

structure Pursuit where
  entered : List Nat
  pending : List Nat

namespace Pursuit

def setOut (origin : Nat) : Pursuit := ⟨[origin], [origin]⟩

def enter (pursuit : Pursuit) (system : Nat) : Pursuit :=
  if system ∈ pursuit.entered then pursuit else ⟨system :: pursuit.entered, system :: pursuit.pending⟩

def follow (target : Nat) (pursuit : Pursuit) : List Nat → Option Pursuit
  | [] => some pursuit
  | system :: rest => if system = target then none else (pursuit.enter system).follow target rest

theorem mem_entered_enter {pursuit : Pursuit} {system other : Nat} :
    other ∈ (pursuit.enter system).entered ↔ other ∈ pursuit.entered ∨ other = system := by
  unfold enter
  split
  · rename_i already
    exact ⟨.inl, fun either => either.elim id (fun same => same ▸ already)⟩
  · rw [List.mem_cons]
    exact or_comm

theorem mem_pending_enter {pursuit : Pursuit} {system other : Nat} :
    other ∈ (pursuit.enter system).pending ↔
      other ∈ pursuit.pending ∨ (other = system ∧ system ∉ pursuit.entered) := by
  unfold enter
  split
  · rename_i already
    simp [already]
  · rename_i new
    simp only [List.mem_cons, new, not_false_eq_true, and_true]
    exact or_comm

theorem follow_eq_none {target : Nat} {pursuit : Pursuit} {systems : List Nat} :
    pursuit.follow target systems = none ↔ target ∈ systems := by
  induction systems generalizing pursuit with
  | nil => simp [follow]
  | cons system rest ih =>
    unfold follow
    by_cases here : system = target
    · simp [here]
    · have apart : ¬ target = system := fun same => here same.symm
      simp [here, apart, ih]

theorem follow_entered {target : Nat} {pursuit later : Pursuit} {systems : List Nat}
    (done : pursuit.follow target systems = some later) (other : Nat) :
    (other ∈ later.entered ↔ other ∈ pursuit.entered ∨ other ∈ systems) ∧
      (other ∈ later.pending ↔ other ∈ pursuit.pending ∨ (other ∈ systems ∧ other ∉ pursuit.entered)) := by
  induction systems generalizing pursuit with
  | nil =>
    cases done
    simp
  | cons system rest ih =>
    unfold follow at done
    split at done
    · cases done
    · obtain ⟨entered, pending⟩ := ih done
      rw [entered, pending, mem_entered_enter, mem_pending_enter, List.mem_cons]
      by_cases here : other = system
      · subst here
        simp
      · simp [here]

-- What the search may still have to do if it stays among `reachable`.
def outstanding (reachable : List Nat) (pursuit : Pursuit) : Nat :=
  (reachable.filter (· ∉ pursuit.entered)).length + pursuit.pending.length

theorem outstanding_setOut (reachable : List Nat) (origin : Nat) :
    (setOut origin).outstanding reachable ≤ reachable.length + 1 :=
  Nat.add_le_add_right (List.length_filter_le _ _) 1

theorem outstanding_enter {reachable : List Nat} {system : Nat} (pursuit : Pursuit) (inside : system ∈ reachable) :
    (pursuit.enter system).outstanding reachable ≤ pursuit.outstanding reachable := by
  unfold enter
  split
  · exact Nat.le_refl _
  · rename_i new
    have split : reachable.filter (· ∉ system :: pursuit.entered) =
        (reachable.filter (· ∉ pursuit.entered)).filter (· ≠ system) := by
      rw [List.filter_filter]
      refine List.filter_congr (fun other _ => ?_)
      simp [not_or]
    have fewer : (reachable.filter (· ∉ system :: pursuit.entered)).length <
        (reachable.filter (· ∉ pursuit.entered)).length := by
      rw [split, List.length_filter_lt_length_iff_exists]
      exact ⟨system, List.mem_filter.mpr ⟨inside, decide_eq_true new⟩, by simp⟩
    simp only [outstanding, List.length_cons]
    omega

theorem outstanding_follow {reachable : List Nat} {target : Nat} {pursuit later : Pursuit} {systems : List Nat}
    (inside : ∀ system ∈ systems, system ∈ reachable) (done : pursuit.follow target systems = some later) :
    later.outstanding reachable ≤ pursuit.outstanding reachable := by
  induction systems generalizing pursuit with
  | nil =>
    cases done
    exact Nat.le_refl _
  | cons system rest ih =>
    unfold follow at done
    split at done
    · cases done
    · have step := pursuit.outstanding_enter (inside system List.mem_cons_self)
      have run := ih (fun other member => inside other (List.mem_cons_of_mem _ member)) done
      exact Nat.le_trans run step

-- What holds after every round: whatever is no longer pending has been followed to its end.
structure Sound (wiring : Wiring) (origin target : Nat) (pursuit : Pursuit) : Prop where
  started : origin ∈ pursuit.entered
  waiting : ∀ system ∈ pursuit.pending, system ∈ pursuit.entered
  reached : ∀ system ∈ pursuit.entered, ReflTransGen wiring.Feeds origin system
  followed : ∀ system ∈ pursuit.entered, system ∉ pursuit.pending → ∀ next, wiring.Feeds system next →
    next ∈ pursuit.entered ∧ next ≠ target

theorem sound_setOut (wiring : Wiring) (origin target : Nat) : (setOut origin).Sound wiring origin target where
  started := List.mem_singleton_self _
  waiting := fun _ => id
  reached := by
    intro system member
    rw [List.mem_singleton.mp member]
  followed := fun _ member settled => absurd member settled

theorem Sound.follow {wiring : Wiring} {origin target system : Nat} {entered rest systems : List Nat} {later : Pursuit}
    (sound : (Pursuit.mk entered (system :: rest)).Sound wiring origin target)
    (fed : ∀ next, next ∈ systems ↔ wiring.Feeds system next)
    (done : (Pursuit.mk entered rest).follow target systems = some later) : later.Sound wiring origin target := by
  have among := fun other => (follow_entered done other).1
  have left := fun other => (follow_entered done other).2
  have member : system ∈ entered := sound.waiting system List.mem_cons_self
  have missed : target ∉ systems := by
    intro met
    rw [follow_eq_none.mpr met] at done
    cases done
  constructor
  · exact (among origin).mpr (.inl sound.started)
  · intro other pending
    rcases (left other).mp pending with old | new
    · exact (among other).mpr (.inl (sound.waiting other (List.mem_cons_of_mem _ old)))
    · exact (among other).mpr (.inr new.1)
  · intro other found
    rcases (among other).mp found with old | new
    · exact sound.reached other old
    · exact (sound.reached system member).tail ((fed other).mp new)
  · intro other found settled next feeds
    by_cases here : other = system
    · rw [here] at feeds
      have entering := (fed next).mpr feeds
      exact ⟨(among next).mpr (.inr entering), fun same => missed (same ▸ entering)⟩
    · -- It was entered before this round, for what the round enters is pending.
      have old : other ∈ entered := by
        by_contra new
        rcases (among other).mp found with before | entering
        · exact new before
        · exact settled ((left other).mpr (.inr ⟨entering, new⟩))
      have done : other ∉ system :: rest := by
        intro pending
        rcases List.mem_cons.mp pending with same | waits
        · exact here same
        · exact settled ((left other).mpr (.inl waits))
      obtain ⟨inside, apart⟩ := sound.followed other old done next feeds
      exact ⟨(among next).mpr (.inl inside), apart⟩

theorem Sound.exhausted {wiring : Wiring} {origin target : Nat} {entered : List Nat}
    (sound : (Pursuit.mk entered []).Sound wiring origin target) : ¬ TransGen wiring.Feeds origin target := by
  have all : ∀ system, ReflTransGen wiring.Feeds origin system → system ∈ entered := by
    intro system path
    induction path with
    | refl => exact sound.started
    | @tail middle next _ feeds found => exact (sound.followed middle found List.not_mem_nil next feeds).1
  intro path
  obtain ⟨last, before, feeds⟩ := TransGen.tail'_iff.mp path
  exact (sound.followed last (all last before) List.not_mem_nil target feeds).2 rfl

end Pursuit

namespace Wiring

-- The subsystems fed by the outputs from the first address of `system` up to its
-- address with the index `limit`, taken as one stretch of the table.
def leaving (wiring : Wiring) (limit system : Nat) : List Nat :=
  (wiring.fed.entries.filter (fun entry => ¬ entry.1 < ⟨system, 0⟩ ∧ ¬ ⟨system, limit⟩ < entry.1)).flatMap
    (fun entry => entry.2.map Terminal.system)

def pursue (wiring : Wiring) (limit target : Nat) : Nat → Pursuit → Option Bool
  | 0, _ => none
  | _ + 1, ⟨_, []⟩ => some false
  | count + 1, ⟨entered, system :: rest⟩ =>
    match Pursuit.follow target ⟨entered, rest⟩ (wiring.leaving limit system) with
    | none => some true
    | some later => wiring.pursue limit target count later

theorem leaving_successors {wiring : Wiring} {limit : Nat}
    (bounded : ∀ entry ∈ wiring.fed.entries, entry.1.index ≤ limit) (system : Nat) :
    wiring.leaving limit system = wiring.successors system := by
  refine congrArg (List.flatMap _) (List.filter_congr (fun entry member => ?_))
  have below := bounded entry member
  simp only [Terminal.lt_iff, decide_eq_decide]
  omega

variable {wiring : Wiring} {limit origin target : Nat} {pursuit : Pursuit}

theorem pursue_ends (followed : ∀ system, wiring.leaving limit system = wiring.successors system) {count : Nat}
    (enough : pursuit.outstanding wiring.consumers < count) : ∃ answer, wiring.pursue limit target count pursuit = some answer := by
  induction count generalizing pursuit with
  | zero => exact absurd enough (Nat.not_lt_zero _)
  | succ count ih =>
    obtain ⟨entered, pending⟩ := pursuit
    cases pending with
    | nil => exact ⟨false, rfl⟩
    | cons system rest =>
      unfold pursue
      cases done : Pursuit.follow target ⟨entered, rest⟩ (wiring.leaving limit system) with
      | none => exact ⟨true, rfl⟩
      | some later =>
        have inside : ∀ next ∈ wiring.leaving limit system, next ∈ wiring.consumers := by
          intro next member
          rw [followed] at member
          exact mem_consumers_of_successors member
        have fewer := Pursuit.outstanding_follow inside done
        refine ih ?_
        simp only [Pursuit.outstanding, List.length_cons] at enough fewer ⊢
        omega

theorem pursue_decides (fed : ∀ system next, next ∈ wiring.leaving limit system ↔ wiring.Feeds system next)
    {count : Nat} {answer : Bool} (sound : pursuit.Sound wiring origin target)
    (ended : wiring.pursue limit target count pursuit = some answer) :
    answer = true ↔ TransGen wiring.Feeds origin target := by
  induction count generalizing pursuit with
  | zero => cases ended
  | succ count ih =>
    obtain ⟨entered, pending⟩ := pursuit
    cases pending with
    | nil =>
      cases ended
      simp [sound.exhausted]
    | cons system rest =>
      unfold pursue at ended
      cases done : Pursuit.follow target ⟨entered, rest⟩ (wiring.leaving limit system) with
      | none =>
        rw [done] at ended
        cases ended
        have met := (fed system target).mp (Pursuit.follow_eq_none.mp done)
        have path := sound.reached system (sound.waiting system List.mem_cons_self)
        exact ⟨fun _ => TransGen.tail' path met, fun _ => rfl⟩
      | some later =>
        rw [done] at ended
        exact ih (sound.follow (fed system) done) ended

theorem record_bounded {calls : List (Terminal × Terminal)} (bounded : ∀ call ∈ calls, call.1.index ≤ limit) :
    ∀ entry ∈ (record calls).fed.entries, entry.1.index ≤ limit := by
  intro entry member
  obtain ⟨output, inputs⟩ := entry
  have drawn := drawn_record calls
  have found := (TerminalTable.mem_entries drawn.coherent.fed).mp member
  cases inputs with
  | nil => exact absurd found (drawn.filled output)
  | cons input rest =>
    have listed : input ∈ (record calls).inputsOf output := by
      rw [inputsOf, found]
      exact List.mem_cons_self
    have wired := (drawn.coherent.both output input).mp listed
    obtain ⟨number, called, _⟩ := ((traced_record calls).sources output input).mp wired
    exact bounded (output, input) (List.mem_of_getElem? called)

-- The search ends on every wiring, and it finds a chain of wires from some output of
-- the origin to an input of the target exactly if there is one; it leads back to the
-- origin exactly if that lies on a loop.
theorem search_decides (calls : List (Terminal × Terminal)) (limit : Nat)
    (bounded : ∀ call ∈ calls, call.1.index ≤ limit) (origin target : Nat) :
    (∀ count, (record calls).consumers.length + 2 ≤ count →
      (record calls).pursue limit target count (.setOut origin) = some ((record calls).reaches origin target)) ∧
    ((record calls).reaches origin target = true ↔ TransGen (record calls).Feeds origin target) ∧
    ((record calls).reaches origin origin = true ↔
      ∃ next, (record calls).Feeds origin next ∧ ReflTransGen (record calls).Feeds next origin) := by
  have coherent := (drawn_record calls).coherent
  have followed := leaving_successors (record_bounded bounded)
  refine ⟨?_, reaches_feeds coherent, (reaches_feeds coherent).trans TransGen.head'_iff⟩
  intro count enough
  have fed : ∀ system next, next ∈ (record calls).leaving limit system ↔ (record calls).Feeds system next := by
    intro system next
    rw [followed]
    exact mem_successors_iff coherent
  have room : (Pursuit.setOut origin).outstanding (record calls).consumers < count :=
    Nat.lt_of_lt_of_le (Nat.lt_succ_of_le (Pursuit.outstanding_setOut _ origin)) enough
  have ends : ∃ answer, (record calls).pursue limit target count (.setOut origin) = some answer :=
    pursue_ends followed room
  obtain ⟨answer, ended⟩ := ends
  have right := pursue_decides fed (Pursuit.sound_setOut _ origin target) ended
  rw [ended]
  exact congrArg some (Bool.eq_iff_iff.mpr (right.trans (reaches_feeds coherent).symm))

-- Two subsystems in a loop, wired back from an output with the greatest address, and one more behind them.
def looped : List (Terminal × Terminal) :=
  [(⟨0, 0⟩, ⟨1, 0⟩), (⟨1, 18446744073709551615⟩, ⟨0, 3⟩), (⟨1, 0⟩, ⟨2, 0⟩)]

theorem search_decides_looped :
    (∀ call ∈ looped, call.1.index ≤ 18446744073709551615) ∧
      (record looped).pursue 18446744073709551615 2 5 (.setOut 0) = some true ∧
      TransGen (record looped).Feeds 0 2 ∧
      ∃ next, (record looped).Feeds 0 next ∧ ReflTransGen (record looped).Feeds next 0 := by
  have bounded : ∀ call ∈ looped, call.1.index ≤ 18446744073709551615 := by decide
  obtain ⟨run, chain, loop⟩ := search_decides looped 18446744073709551615 bounded 0 2
  have reached : (record looped).reaches 0 2 = true := by decide +kernel
  have back : (record looped).reaches 0 0 = true := by decide +kernel
  exact ⟨bounded, (run 5 (by decide)).trans (congrArg some reached), chain.mp reached, loop.mp back⟩

end Wiring
end BlockDiagram
