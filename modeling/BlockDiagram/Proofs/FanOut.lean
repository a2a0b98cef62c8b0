import BlockDiagram.Proofs.Likeness

namespace BlockDiagram

namespace Wiring

-- Whatever a series of wires leaves, earlier ones into the same input replaced.
inductive Drawn : Wiring → Prop where
  | empty : Drawn .empty
  | connect {wiring : Wiring} (drawn : Drawn wiring) (output input : Terminal) : Drawn (wiring.connect output input)

theorem Drawn.coherent {wiring : Wiring} (drawn : wiring.Drawn) : wiring.Coherent := by
  induction drawn with
  | empty => exact coherent_empty
  | connect _ output input ih => exact ih.connect output input

theorem find?_detach_filled {fed : TerminalTable (List Terminal)} {place : Terminal}
    (filled : fed.find? place ≠ some []) (output input : Terminal) : (detach fed output input).find? place ≠ some [] := by
  unfold detach
  split
  · exact filled
  · rename_i inputs found
    dsimp only
    split
    · rw [TerminalTable.find?_erase]
      split
      · exact nofun
      · exact filled
    · rename_i remaining
      rw [TerminalTable.find?_insert]
      split
      · intro empty
        exact remaining (List.isEmpty_iff.mpr (Option.some.inj empty))
      · exact filled

-- An output that feeds nothing has no entry.
theorem Drawn.filled {wiring : Wiring} (drawn : wiring.Drawn) (output : Terminal) :
    wiring.fed.find? output ≠ some [] := by
  induction drawn with
  | empty => exact nofun
  | @connect wiring _ source input ih =>
    rw [connect_eq, attach, TerminalTable.find?_insert]
    split
    · intro empty
      exact List.append_ne_nil_of_right_ne_nil _ (List.cons_ne_nil _ _) (Option.some.inj empty)
    · unfold freed
      split
      · exact ih
      · exact find?_detach_filled ih _ _

theorem Drawn.ext {left right : Wiring} (first : left.Drawn) (second : right.Drawn)
    (sources : ∀ input, left.source? input = right.source? input)
    (fed : ∀ output, left.inputsOf output = right.inputsOf output) : left = right := by
  have entries : ∀ output, left.fed.find? output = right.fed.find? output := by
    intro output
    have same := fed output
    have one := first.filled output
    have two := second.filled output
    unfold inputsOf at same
    cases here : left.fed.find? output <;> cases there : right.fed.find? output <;> simp_all
  have one := TerminalTable.ext_find? first.coherent.sources second.coherent.sources sources
  have two := TerminalTable.ext_find? first.coherent.fed second.coherent.fed entries
  cases left
  cases right
  exact congr (congrArg Wiring.mk one) two

-- Wires into inputs that are new to the wiring go to the end of the lists.
theorem inputsOf_connectAll {wires : List (Terminal × Terminal)} {wiring : Wiring} (coherent : wiring.Coherent)
    (ascending : wires.Pairwise (fun earlier later => earlier.2 < later.2))
    (unwired : ∀ wire ∈ wires, wiring.source? wire.2 = none) (output : Terminal) :
    (wires.foldl (fun wiring wire => wiring.connect wire.1 wire.2) wiring).inputsOf output =
      wiring.inputsOf output ++ (wires.filter (·.1 = output)).map (·.2) := by
  induction wires generalizing wiring with
  | nil => simp
  | cons wire rest ih =>
    obtain ⟨above, ascending⟩ := List.pairwise_cons.mp ascending
    have unlisted : (wiring.inputsOf output).filter (· ≠ wire.2) = wiring.inputsOf output := by
      refine List.filter_eq_self.mpr (fun input listed => decide_eq_true (fun same => ?_))
      have wired := (coherent.both output input).mp listed
      rw [same, unwired wire List.mem_cons_self] at wired
      cases wired
    rw [List.foldl_cons, ih (coherent.connect _ _) ascending ?_, inputsOf_connect coherent, unlisted, List.append_assoc]
    · refine congrArg (wiring.inputsOf output ++ ·) ?_
      by_cases here : wire.1 = output
      · simp [here]
      · have apart : ¬ output = wire.1 := fun same => here same.symm
        simp [here, apart]
    · intro other member
      rw [source?_connect, if_neg]
      · exact unwired other (List.mem_cons_of_mem _ member)
      · intro same
        have less := above other member
        rw [same] at less
        exact Terminal.lt_irrefl _ less

theorem wires_ascending {wiring : Wiring} (coherent : wiring.Coherent) :
    wiring.wires.Pairwise (fun earlier later => earlier.2 < later.2) :=
  List.pairwise_map.mpr coherent.sources

theorem rebuilt_ascending {wiring : Wiring} (coherent : wiring.Coherent) (output : Terminal) :
    (wiring.rebuilt.inputsOf output).Pairwise (· < ·) := by
  have listed : wiring.rebuilt.inputsOf output = (wiring.wires.filter (·.1 = output)).map (·.2) := by
    rw [rebuilt, inputsOf_connectAll coherent_empty (wires_ascending coherent) (fun _ _ => rfl)]
    rfl
  rw [listed]
  exact List.pairwise_map.mpr ((wires_ascending coherent).filter _)

theorem drawn_connectAll {wiring : Wiring} (drawn : wiring.Drawn) (wires : List (Terminal × Terminal)) :
    (wires.foldl (fun wiring wire => wiring.connect wire.1 wire.2) wiring).Drawn := by
  induction wires generalizing wiring with
  | nil => exact drawn
  | cons wire rest ih => exact ih (drawn.connect wire.1 wire.2)

theorem drawn_rebuilt (wiring : Wiring) : wiring.rebuilt.Drawn := drawn_connectAll .empty _

theorem rebuilt_eq_iff {wiring : Wiring} (drawn : wiring.Drawn) :
    wiring.rebuilt = wiring ↔ ∀ output, (wiring.inputsOf output).Pairwise (· < ·) := by
  constructor
  · intro same output
    rw [← same]
    exact rebuilt_ascending drawn.coherent output
  · intro ascending
    refine wiring.drawn_rebuilt.ext drawn (source?_rebuilt drawn.coherent) (fun output => ?_)
    refine ((alike_rebuilt drawn.coherent).fed output).eq_of_pairwise (fun _ _ _ _ before after => ?_)
      (rebuilt_ascending drawn.coherent output) (ascending output)
    exact absurd (Terminal.lt_trans before after) (Terminal.lt_irrefl _)

end Wiring

namespace Context

def Drawn : Context → Prop
  | .leaf _ => True
  | .diagram frame _ => frame.wiring.Drawn

theorem Drawn.calm {found later : Context} (drawn : found.Drawn) (calm : found.Calm later) : later.Drawn := by
  cases found <;> cases later <;> try exact calm.elim
  · trivial
  · show Wiring.Drawn _
    rw [calm.2.1]
    exact drawn

theorem drawn_receive (context : Context) (changes : List Change) (drawn : context.Drawn) :
    (context.receive changes).Drawn :=
  drawn.calm (calm_receive context changes)

theorem drawn_tables {frame later : Frame} {subsystems : Subsystems}
    (drawn : (Context.diagram frame subsystems).Everywhere Drawn) (top : later.wiring.Drawn) :
    (Context.diagram later subsystems).Everywhere Drawn :=
  everywhere_diagram.mpr ⟨top, (everywhere_diagram.mp drawn).2⟩

theorem drawn_delivery {frame later : Frame} {subsystems others : Subsystems} (mail : Mail)
    (drawn : (Context.diagram frame subsystems).Everywhere Drawn) (top : later.wiring.Drawn)
    (same : ∀ system, others.context? system = subsystems.context? system) :
    (Context.diagram later (others.receive mail)).Everywhere Drawn := by
  refine everywhere_diagram.mpr ⟨top, fun system child held => ?_⟩
  rw [Subsystems.context?_receive, same] at held
  obtain ⟨before, present, rfl⟩ := Option.map_eq_some_iff.mp held
  exact everywhere_receive drawn_receive _ ((everywhere_diagram.mp drawn).2 system before present)

-- Only drawing a wire changes wires, and it adds one.
theorem Everywhere.drawn_effect {context after : Context} {operation : Operation} (drawn : context.Everywhere Drawn)
    (effect : Effect context operation after) : after.Everywhere Drawn := by
  cases effect with
  | idle => exact drawn
  | received => exact everywhere_receive drawn_receive _ drawn
  | revised => exact everywhere_leaf.mpr trivial
  | kept =>
    cases context with
    | leaf own => exact everywhere_leaf.mpr trivial
    | diagram frame subsystems => exact drawn_tables drawn (everywhere_diagram.mp drawn).1
  | connected =>
    have before := (everywhere_diagram.mp drawn).1
    exact drawn_delivery _ drawn (before.connect _ _) (fun _ => rfl)
  | exposedInput | exposedOutput | finished => exact drawn_tables drawn (everywhere_diagram.mp drawn).1
  | stored => exact drawn_delivery _ drawn (everywhere_diagram.mp drawn).1 (Subsystems.context?_putBuffer _ _ _)
  | told => exact drawn_delivery _ drawn (everywhere_diagram.mp drawn).1 (fun _ => rfl)

theorem Everywhere.drawn_graft {tree found changed : Context} {path : List Nat} (drawn : tree.Everywhere Drawn)
    (located : tree.locate path = .ok found) (inside : changed.Everywhere Drawn) :
    (tree.graft path changed).Everywhere Drawn :=
  @everywhere_graft _ (fun _ _ => True) (fun _ _ _ _ _ _ _ top => top) (fun _ _ _ _ _ _ _ => trivial) _ _ _ _
    located drawn inside trivial

theorem drawn_copy {context copied : Context} {outer : Resolver} {serial next : Nat}
    (done : context.copy outer serial = .ok (copied, next)) : copied.Everywhere Drawn := by
  induction context using Context.induct generalizing outer serial next copied with
  | leaf own =>
    cases done
    exact everywhere_leaf.mpr trivial
  | diagram frame subsystems ih =>
    obtain ⟨copies, marks, last, _, made, _, _, rfl, rfl⟩ := copy_diagram done
    have unwired : (Context.diagram (frame.copy ⟨last⟩ copies) copies).Everywhere Drawn := by
      refine everywhere_diagram.mpr ⟨frame.wiring.drawn_rebuilt, fun system copy held => ?_⟩
      obtain ⟨child, present, copying⟩ := made.of_copy held
      exact ih _ _ present copying
    exact drawn_delivery _ unwired frame.wiring.drawn_rebuilt (fun _ => rfl)

-- The copy of a diagram anywhere in a tree has the wires played back to it.
theorem copy_rebuilt {context copied : Context} {outer : Resolver} {serial next : Nat} {front : List Nat}
    {frame : Frame} {subsystems : Subsystems} (done : context.copy outer serial = .ok (copied, next))
    (located : context.locate front = .ok (.diagram frame subsystems)) :
    ∃ later others, copied.locate front = .ok (.diagram later others) ∧ later.wiring = frame.wiring.rebuilt := by
  induction context using Context.induct generalizing outer serial next copied front with
  | leaf own => cases (locate_leaf located).2
  | diagram top places ih =>
    obtain ⟨copies, marks, last, _, made, _, _, rfl, rfl⟩ := copy_diagram done
    cases front with
    | nil =>
      rw [locate_nil] at located
      cases located
      exact ⟨_, _, locate_nil _, rfl⟩
    | cons system front =>
      obtain ⟨child, present, below⟩ := locate_cons.mp located
      obtain ⟨copy, copying, there⟩ := made.present _ _ present
      obtain ⟨later, others, inside, rebuilt⟩ := ih _ _ present copying below
      have arrived := locate_receive (Mail.addressed (Subsystems.reissues ⟨last⟩ top.wiring.wires) system) inside
      refine ⟨_, _, locate_cons.mpr ⟨_, Subsystems.context?_received there _, arrived⟩, ?_⟩
      exact (Frame.Steady.receiveAll _ _).wiring.trans rebuilt

end Context

namespace Built
open Context
variable {rules : Rules} {tree : Context}

theorem drawn (built : Built rules tree) : tree.Everywhere Drawn := by
  induction built with
  | leaf => exact everywhere_leaf.mpr trivial
  | diagram =>
    refine everywhere_diagram.mpr ⟨Wiring.Drawn.empty, fun system child present => ?_⟩
    cases (context?_vacancies _ system).symm.trans present
  | act built _ acted ih =>
    rcases built.wellFormed.act acted with ⟨_, rfl⟩ | ⟨found, changed, located, effect, rfl⟩
    · exact ih
    · exact ih.drawn_graft located ((Everywhere.below ih located).drawn_effect effect)
  | adopt _ _ _ adopted ih joining =>
    rcases adopt_left adopted with rfl | ⟨frame, subsystems, located, _, _, _, rfl⟩
    · exact ih
    · obtain ⟨here, below⟩ := everywhere_diagram.mp (Everywhere.below ih located)
      refine ih.drawn_graft located (everywhere_diagram.mpr ⟨here, fun system child held => ?_⟩)
      rw [Subsystems.context?_install] at held
      split at held
      · cases held
        exact joining
      · exact below system child held
  | copy _ _ done => exact drawn_copy done

end Built

-- One output wired to two inputs, the one with the greater address first.
def Context.fanned : Context :=
  ((((Diagram.create ⟨3⟩ 3 .sequential).context.joined [] 0 (.leaf (.create ⟨0⟩ ⟨0, 1, 0, []⟩ [])) ⟨[none]⟩).joined [] 1
    (.leaf (.create ⟨1⟩ ⟨1, 0, 0, []⟩ [])) ⟨[]⟩).joined [] 2 (.leaf (.create ⟨2⟩ ⟨1, 0, 0, []⟩ [])) ⟨[]⟩).actAll
    [([], .connect ⟨0, 0⟩ ⟨2, 0⟩), ([], .connect ⟨0, 0⟩ ⟨1, 0⟩), ([], .finishBuilding)]

theorem Context.fanned_built : Built .any fanned :=
  (((Built.diagram.joined .leaf (by decide) [] 0 ⟨[none]⟩).joined .leaf (by decide) [] 1 ⟨[]⟩).joined .leaf (by decide)
    [] 2 ⟨[]⟩).actAll _ (fun _ _ => trivial)

def Diagram.fanned : Diagram := Context.fanned.diagram?.get (by decide +kernel)

theorem Diagram.context_fanned : Diagram.fanned.context = Context.fanned := Context.context_get _

theorem Context.fanned_sealed : Context.fanned.Sealed := by decide +kernel

namespace Built
open Context

-- In a copy every input has the source it had, and every output feeds what it
-- fed, in ascending order; the wiring is the same in all exactly if that order
-- was the original's as well.
theorem copy_wiring {tree copied : Context} {outer : Resolver} {serial next : Nat} (built : Built .any tree)
    (done : tree.copy outer serial = .ok (copied, next)) {front : List Nat} {frame : Frame} {subsystems : Subsystems}
    (located : tree.locate front = .ok (.diagram frame subsystems)) :
    ∃ later others, copied.locate front = .ok (.diagram later others) ∧
      later.wiring.sources = frame.wiring.sources ∧
      (∀ output, (later.wiring.inputsOf output).Perm (frame.wiring.inputsOf output) ∧
        (later.wiring.inputsOf output).Pairwise (· < ·)) ∧
      (later.wiring = frame.wiring ↔ ∀ output, (frame.wiring.inputsOf output).Pairwise (· < ·)) := by
  have drawn : frame.wiring.Drawn := built.drawn front _ located
  have alike := Wiring.alike_rebuilt drawn.coherent
  obtain ⟨later, others, arrived, rebuilt⟩ := copy_rebuilt done located
  refine ⟨later, others, arrived, ?_⟩
  rw [rebuilt]
  exact ⟨alike.sources, fun output => ⟨alike.fed output, Wiring.rebuilt_ascending drawn.coherent output⟩,
    Wiring.rebuilt_eq_iff drawn⟩

theorem copy_wiring_reordered :
    ∃ tree frame subsystems copied next later others, Built .any tree ∧ tree.Sealed ∧ tree = .diagram frame subsystems ∧
      tree.copy .nowhere 4 = .ok (copied, next) ∧ copied = .diagram later others ∧
      frame.wiring.inputsOf ⟨0, 0⟩ = [⟨2, 0⟩, ⟨1, 0⟩] ∧ later.wiring.inputsOf ⟨0, 0⟩ = [⟨1, 0⟩, ⟨2, 0⟩] ∧
      later.wiring ≠ frame.wiring := by
  obtain ⟨copied, next, copies⟩ := copy_succeeds fanned fanned_built.wellFormed fanned_sealed .nowhere 4
  have original : Diagram.fanned.frame.wiring.inputsOf ⟨0, 0⟩ = [⟨2, 0⟩, ⟨1, 0⟩] := by decide +kernel
  have listed : copied.diagram?.map (fun diagram => diagram.frame.wiring.inputsOf ⟨0, 0⟩) = some [⟨1, 0⟩, ⟨2, 0⟩] :=
    (copied_observed (fun copied => copied.diagram?.map (fun diagram => diagram.frame.wiring.inputsOf ⟨0, 0⟩)) copies).mpr
      (by decide +kernel)
  cases copied with
  | leaf own => cases listed
  | diagram later others =>
    have changed : later.wiring.inputsOf ⟨0, 0⟩ = [⟨1, 0⟩, ⟨2, 0⟩] := Option.some.inj listed
    refine ⟨_, _, _, _, next, later, others, fanned_built, fanned_sealed, Diagram.context_fanned.symm, copies, rfl,
      original, changed, fun same => ?_⟩
    rw [same, original] at changed
    cases changed

theorem copy_wiring_fanned :
    ∃ copied next later others, fanned.copy .nowhere 4 = .ok (copied, next) ∧
      copied.locate [] = .ok (.diagram later others) ∧ later.wiring.sources = Diagram.fanned.frame.wiring.sources ∧
      later.wiring ≠ Diagram.fanned.frame.wiring := by
  obtain ⟨copied, next, copies⟩ := copy_succeeds fanned fanned_built.wellFormed fanned_sealed .nowhere 4
  have located : fanned.locate [] = .ok Diagram.fanned.context := by rw [Diagram.context_fanned, locate_nil]
  obtain ⟨later, others, arrived, sources, _, same⟩ := copy_wiring fanned_built copies located
  refine ⟨copied, next, later, others, copies, arrived, sources, fun equal => ?_⟩
  exact absurd (same.mp equal ⟨0, 0⟩) (by decide +kernel)

end Built
end BlockDiagram
