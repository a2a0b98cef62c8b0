import BlockDiagram.Proofs.Search

namespace BlockDiagram
open Relation

namespace TerminalTable
variable {α : Type}

theorem mem_entries {table : TerminalTable α} (sorted : table.Ascending) {terminal : Terminal} {value : α} :
    (terminal, value) ∈ table.entries ↔ table.find? terminal = some value := by
  unfold Ascending find? at *
  generalize table.entries = entries at sorted
  induction entries with
  | nil => simp
  | cons head rest ih =>
    obtain ⟨above, tail⟩ := List.pairwise_cons.mp sorted
    by_cases here : head.1 = terminal
    · simp only [List.mem_cons, List.find?_cons, here, decide_true, Option.map_some, Option.some.injEq]
      constructor
      · rintro (rfl | later)
        · rfl
        · have less := above _ later
          rw [here] at less
          exact absurd less (Terminal.lt_irrefl _)
      · rintro rfl
        exact .inl (Prod.ext here.symm rfl)
    · have apart : (terminal, value) ≠ head := fun same => here (same ▸ rfl)
      simp only [List.mem_cons, apart, false_or, List.find?_cons, here, decide_false, ih tail]

theorem ext_find? {left right : TerminalTable α} (first : left.Ascending) (second : right.Ascending)
    (same : ∀ terminal, left.find? terminal = right.find? terminal) : left = right := by
  have members : ∀ entry, entry ∈ left.entries ↔ entry ∈ right.entries := by
    intro entry
    obtain ⟨terminal, value⟩ := entry
    rw [mem_entries first, mem_entries second, same]
  have distinct : ∀ {table : TerminalTable α}, table.Ascending → table.entries.Nodup := by
    intro table sorted
    refine List.Pairwise.imp ?_ sorted
    intro earlier later less equal
    rw [equal] at less
    exact Terminal.lt_irrefl _ less
  have permuted := (List.perm_ext_iff_of_nodup (distinct first) (distinct second)).mpr members
  have equal : left.entries = right.entries := by
    refine permuted.eq_of_pairwise (fun _ _ _ _ before after => ?_) first second
    exact absurd (Terminal.lt_trans before after) (Terminal.lt_irrefl _)
  cases left
  cases right
  exact congrArg TerminalTable.mk equal

end TerminalTable

namespace Wiring

-- An input is listed once, under its source, and under nothing else.
structure Coherent (wiring : Wiring) : Prop where
  sources : wiring.sources.Ascending
  fed : wiring.fed.Ascending
  both : ∀ output input, input ∈ wiring.inputsOf output ↔ wiring.source? input = some output
  once : ∀ output, (wiring.inputsOf output).Nodup

def Feeds (wiring : Wiring) (before after : Nat) : Prop :=
  ∃ output input, wiring.source? input = some output ∧ output.system = before ∧ input.system = after

def Acyclic (wiring : Wiring) : Prop := ∀ system, ¬ TransGen wiring.Feeds system system

theorem coherent_empty : empty.Coherent where
  sources := TerminalTable.ascending_empty
  fed := TerminalTable.ascending_empty
  both := fun _ _ => ⟨fun absent => (by cases absent), fun absent => (by cases absent)⟩
  once := fun _ => List.nodup_nil

theorem acyclic_empty : empty.Acyclic := by
  intro system path
  obtain ⟨_, ⟨_, _, absent, _⟩, _⟩ := TransGen.head'_iff.mp path
  cases absent

theorem source?_connect (wiring : Wiring) (output input other : Terminal) :
    (wiring.connect output input).source? other =
      if other = input then some output else wiring.source? other := by
  unfold connect source?
  exact TerminalTable.find?_insert _ _ _ _

theorem find?_detach (fed : TerminalTable (List Terminal)) (output input other : Terminal) :
    ((detach fed output input).find? other).getD [] =
      if other = output then ((fed.find? other).getD []).filter (· ≠ input)
      else (fed.find? other).getD [] := by
  unfold detach
  split
  · rename_i found
    split
    · rename_i same; rw [same, found]; rfl
    · rfl
  · rename_i inputs found
    dsimp only
    split
    · rename_i empty
      rw [TerminalTable.find?_erase]
      split
      · rename_i same
        rw [same, found]
        exact (List.isEmpty_iff.mp empty).symm
      · rfl
    · rw [TerminalTable.find?_insert]
      split
      · rename_i same; rw [same, found]; rfl
      · rfl

def freed (wiring : Wiring) (input : Terminal) : TerminalTable (List Terminal) :=
  match wiring.source? input with
  | none => wiring.fed
  | some previous => detach wiring.fed previous input

theorem connect_eq (wiring : Wiring) (output input : Terminal) :
    wiring.connect output input =
      ⟨wiring.sources.insert input output, attach (wiring.freed input) output input⟩ := rfl

theorem find?_freed {wiring : Wiring} (coherent : wiring.Coherent) (input place : Terminal) :
    ((wiring.freed input).find? place).getD [] = (wiring.inputsOf place).filter (· ≠ input) := by
  have kept : wiring.source? input ≠ some place →
      (wiring.inputsOf place).filter (· ≠ input) = wiring.inputsOf place := by
    intro elsewhere
    refine List.filter_eq_self.mpr (fun listed member => ?_)
    refine decide_eq_true (fun same => elsewhere ?_)
    rw [same] at member
    exact (coherent.both place input).mp member
  unfold freed
  split
  · rename_i found
    rw [kept (by rw [found]; exact nofun)]
    rfl
  · rename_i previous found
    rw [find?_detach]
    split
    · rfl
    · rename_i other
      rw [kept (by rw [found]; intro same; exact other (Option.some.inj same).symm)]
      rfl

theorem inputsOf_connect {wiring : Wiring} (coherent : wiring.Coherent) (output input other : Terminal) :
    (wiring.connect output input).inputsOf other =
      (wiring.inputsOf other).filter (· ≠ input) ++ (if other = output then [input] else []) := by
  rw [connect_eq, inputsOf, attach, TerminalTable.find?_insert]
  split
  · rename_i same
    rw [Option.getD_some, find?_freed coherent, same]
  · rw [find?_freed coherent, List.append_nil]

theorem ascending_detach {fed : TerminalTable (List Terminal)} (sorted : fed.Ascending)
    (output input : Terminal) : (detach fed output input).Ascending := by
  unfold detach
  split
  · exact sorted
  · dsimp only
    split
    · exact TerminalTable.ascending_erase sorted _
    · exact TerminalTable.ascending_insert sorted _ _

theorem Coherent.connect {wiring : Wiring} (coherent : wiring.Coherent) (output input : Terminal) :
    (wiring.connect output input).Coherent where
  sources := TerminalTable.ascending_insert coherent.sources _ _
  fed := by
    refine TerminalTable.ascending_insert ?_ _ _
    split
    · exact coherent.fed
    · exact ascending_detach coherent.fed _ _
  both := by
    intro place listed
    rw [inputsOf_connect coherent, source?_connect, List.mem_append, List.mem_filter, coherent.both]
    by_cases same : listed = input
    · by_cases here : place = output
      · simp [same, here]
      · have apart : ¬ output = place := fun equal => here equal.symm
        simp [same, here, apart]
    · by_cases here : place = output <;> simp [same, here]
  once := by
    intro place
    rw [inputsOf_connect coherent]
    refine List.nodup_append.mpr ⟨(coherent.once place).filter _, ?_, ?_⟩
    · split <;> simp
    · intro listed member last added
      split at added
      · rw [List.mem_singleton.mp added]
        exact fun same => of_decide_eq_true (List.mem_filter.mp member).2 same
      · cases added

theorem mem_wires {wiring : Wiring} (coherent : wiring.Coherent) {output input : Terminal} :
    (output, input) ∈ wiring.wires ↔ wiring.source? input = some output := by
  unfold wires source?
  rw [← TerminalTable.mem_entries coherent.sources, List.mem_map]
  constructor
  · intro listed
    obtain ⟨⟨_, _⟩, member, same⟩ := listed
    cases same
    exact member
  · intro member; exact ⟨_, member, rfl⟩

theorem mem_successors_iff {wiring : Wiring} (coherent : wiring.Coherent) {before after : Nat} :
    after ∈ wiring.successors before ↔ wiring.Feeds before after := by
  rw [mem_successors]
  constructor
  · intro listed
    obtain ⟨⟨output, inputs⟩, member, leaves, input, fed, enters⟩ := listed
    have listed : input ∈ wiring.inputsOf output := by
      rw [inputsOf, (TerminalTable.mem_entries coherent.fed).mp member]
      exact fed
    exact ⟨output, input, (coherent.both output input).mp listed, leaves, enters⟩
  · intro feeds
    obtain ⟨output, input, wired, leaves, enters⟩ := feeds
    have listed := (coherent.both output input).mpr wired
    unfold inputsOf at listed
    cases found : wiring.fed.find? output with
    | none => rw [found] at listed; cases listed
    | some inputs =>
      rw [found] at listed
      exact ⟨(output, inputs), (TerminalTable.mem_entries coherent.fed).mpr found, leaves, input, listed, enters⟩

theorem reaches_feeds {wiring : Wiring} (coherent : wiring.Coherent) {origin target : Nat} :
    wiring.reaches origin target = true ↔ TransGen wiring.Feeds origin target := by
  rw [reaches_iff]
  have same : (fun before after => after ∈ wiring.successors before) = wiring.Feeds := by
    funext before after
    exact propext (mem_successors_iff coherent)
  rw [same]

-- A new wire closes no loop unless its end already led to its start.
theorem Acyclic.connect {wiring : Wiring} (acyclic : wiring.Acyclic) {output input : Terminal}
    (apart : ¬ ReflTransGen wiring.Feeds input.system output.system) :
    (wiring.connect output input).Acyclic := by
  have split : ∀ before after, (wiring.connect output input).Feeds before after →
      wiring.Feeds before after ∨ (before = output.system ∧ after = input.system) := by
    intro before after feeds
    obtain ⟨source, target, wired, leaves, enters⟩ := feeds
    rw [source?_connect] at wired
    split at wired
    · rename_i here
      cases wired
      exact .inr ⟨leaves.symm, by rw [← enters, here]⟩
    · exact .inl ⟨source, target, wired, leaves, enters⟩
  -- A chain that uses the new wire leads up to its start and on from its end.
  have old : ∀ before after, TransGen (wiring.connect output input).Feeds before after →
      TransGen wiring.Feeds before after ∨
        (ReflTransGen wiring.Feeds before output.system ∧ ReflTransGen wiring.Feeds input.system after) := by
    intro before after path
    induction path with
    | single edge =>
      rcases split _ _ edge with kept | ⟨rfl, rfl⟩
      · exact .inl (.single kept)
      · exact .inr ⟨.refl, .refl⟩
    | tail path edge ih =>
      rcases split _ _ edge with kept | ⟨rfl, rfl⟩
      · rcases ih with direct | ⟨first, second⟩
        · exact .inl (direct.tail kept)
        · exact .inr ⟨first, second.tail kept⟩
      · rcases ih with direct | ⟨_, second⟩
        · exact .inr ⟨direct.to_reflTransGen, .refl⟩
        · exact absurd second apart
  intro system path
  rcases old system system path with direct | ⟨first, second⟩
  · exact acyclic system direct
  · exact apart (second.trans first)

end Wiring
end BlockDiagram
