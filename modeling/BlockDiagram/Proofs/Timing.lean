import BlockDiagram.Proofs.Routes
import BlockDiagram.Proofs.Spread
import BlockDiagram.Proofs.Sweep

namespace BlockDiagram

namespace Context

def withTime (moment : Float) : Context → Context
  | .leaf own => .leaf { own with time := moment }
  | .diagram frame subsystems => .diagram { frame with time := moment } subsystems

-- A wire some diagram of the tree has on record leads to the input, through the
-- tables of the diagrams in between.
def Fed (tree : Context) (port : Endpoint) : Prop :=
  ∃ front frame subsystems output input inner, tree.locate front = .ok (.diagram frame subsystems) ∧
    frame.wiring.source? input = some output ∧ subsystems.Routes .inputs input inner ∧ port = inner.beneath front

variable {tree context found : Context} {changes : List Change} {path : List Nat} {index : Nat} {moment : Float}

theorem Fed.bound (sound : tree.WellFormed) (fed : tree.Fed ⟨path, index⟩) (located : tree.locate path = .ok found) :
    index < found.inputCount := by
  obtain ⟨front, frame, subsystems, output, input, _, around, wired, ⟨child, inner, present, onward, rfl⟩, equal⟩ := fed
  have below : (Context.diagram frame subsystems).WellFormed := Everywhere.below sound around
  obtain ⟨_, other, there, bound⟩ := below.frame.wired output input wired
  cases present.symm.trans there
  obtain ⟨rfl, rfl⟩ := Endpoint.mk.inj equal
  obtain ⟨last, held, inside⟩ := locate_cons.mp ((locate_append around).mp located)
  cases present.symm.trans held
  show inner.index < found.inputCount
  exact onward.input_bound (below.child present) bound inside

theorem mailTo_timed : ∀ change ∈ context.mailTo [.setTime moment] path, change = .setTime moment ∨ change.Quiet := by
  refine mailTo_forall ?_ (fun change quiet => .inr quiet) (by simp)
  rintro _ _ _ _ passed (rfl | quiet)
  · cases passed
    exact .inl rfl
  · cases passed with
    | invalidateInput => exact .inr trivial
    | mark => exact .inr quiet
    | _ => exact quiet.elim

theorem invalidated_timed (sound : tree.WellFormed) :
    .invalidateInput index ∈ tree.mailTo [.setTime moment] path ↔ tree.Fed ⟨path, index⟩ := by
  rw [mem_mailTo Numbering.hands_invalidateInput]
  constructor
  · rintro (⟨_, given, _⟩ | ⟨front, frame, subsystems, around, cause, _, terminal, inner, sent, routed, equal⟩)
    · cases List.mem_singleton.mp given
    · obtain ⟨output, _, stale | invalid⟩ := Frame.mem_ripple.mp sent
      · cases (Prod.mk.inj (Frame.mem_staleness.mp stale).2).2
      · obtain ⟨input, fed, _, same⟩ := Frame.mem_invalidations.mp invalid
        obtain rfl := Frame.addressed_injective .invalidateInput (fun _ _ => Change.invalidateInput.inj) same
        have below : (Context.diagram frame subsystems).WellFormed := Everywhere.below sound around
        exact ⟨front, frame, subsystems, output, _, inner, around, (below.frame.coherent.both _ _).mp fed, routed, equal⟩
  · rintro ⟨front, frame, subsystems, output, input, inner, around, wired, routed, equal⟩
    have below : (Context.diagram frame subsystems).WellFormed := Everywhere.below sound around
    have starts := Subsystems.mem_buffered.mpr (below.frame.wired output input wired).1
    refine .inr ⟨front, frame, subsystems, around, .setTime moment, mailTo_setTime List.mem_cons_self around, input, inner,
      ?_, routed, equal⟩
    exact Frame.invalidated_of_downstream below.frame (Frame.start_downstream starts) wired

theorem unmoved_timed (context : Context) (given : ∀ change ∈ changes, change = .setTime moment ∨ change.Quiet) :
    (context.withTime (context.receive changes).time).Unmoved (context.receive changes) := by
  cases context with
  | leaf own =>
    have state : (changes.foldl Leaf.receive own).state = own.state := by
      refine Leaf.state_receiveAll (fun change told => ?_)
      rcases given change told with rfl | quiet
      · exact not_false
      · exact quiet.keeps_state
    have inputs : (changes.foldl Leaf.receive own).inputs = own.inputs := by
      refine Leaf.inputs_unbound (fun change told => ?_)
      rcases given change told with rfl | quiet
      · rfl
      · exact quiet.unbound
    exact unmoved_leaf (grows_receive (.leaf own) changes).id rfl state inputs
  | diagram => exact unmoved_diagram rfl

-- What has become of the context at a path of the tree once its time is set: it has
-- the new time, nothing in it is up to date that depends on the time or on an input
-- that is fed, and the rest is as it was.
structure Timed (tree : Context) (moment : Float) (path : List Nat) (found now : Context) : Prop where
  time : now.time = moment
  unmoved : (found.withTime moment).Unmoved now
  stale : ∀ own, found = .leaf own → ∃ later, now = .leaf later ∧ later.fresh = List.replicate own.fresh.length false
  cache : found.cache.ClearedOf
    (fun root => root = timeTicket ∨ ∃ index, tree.Fed ⟨path, index⟩ ∧ found.inputTicket? index = some root) now.cache

theorem root_timed (sound : tree.WellFormed) (located : tree.locate path = .ok found) (root : Ticket) :
    (∃ change ∈ tree.mailTo [.setTime moment] path, found.root? change = some root) ↔
      root = timeTicket ∨ ∃ index, tree.Fed ⟨path, index⟩ ∧ found.inputTicket? index = some root := by
  have timed : found.root? (.setTime moment) = some timeTicket := by cases found <;> rfl
  constructor
  · rintro ⟨change, arrived, concerned⟩
    rcases mailTo_timed change arrived with rfl | quiet
    · exact .inl (Option.some.inj (concerned.symm.trans timed))
    · cases change with
      | invalidateInput index =>
        have fed := (invalidated_timed sound).mp arrived
        exact .inr ⟨index, fed, (inputTicket?_of_root (fed.bound sound located)).symm.trans concerned⟩
      | mark => cases found <;> cases concerned
      | _ => exact quiet.elim
  · rintro (rfl | ⟨index, fed, concerned⟩)
    · exact ⟨_, mailTo_setTime List.mem_cons_self located, timed⟩
    · exact ⟨_, (invalidated_timed sound).mpr fed, (inputTicket?_of_root (fed.bound sound located)).trans concerned⟩

theorem timed_receive (sound : tree.WellFormed) (located : tree.locate path = .ok found) :
    tree.Timed moment path found (found.receive (tree.mailTo [.setTime moment] path)) := by
  have given := @mailTo_timed tree path moment
  have arrives : .setTime moment ∈ tree.mailTo [.setTime moment] path := mailTo_setTime List.mem_cons_self located
  have time : (found.receive (tree.mailTo [.setTime moment] path)).time = moment := by
    refine time_receive (fun other member => ?_) (.inr arrives)
    cases List.mem_singleton.mp (setTime_of_mailTo member)
    rfl
  have unmoved := unmoved_timed found given
  rw [time] at unmoved
  refine ⟨time, unmoved, ?_, (found.cache_receive _).congr (root_timed sound located)⟩
  rintro own rfl
  refine ⟨_, rfl, List.eq_replicate_iff.mpr ⟨Leaf.outputs_receiveAll _ _, ?_⟩⟩
  refine Leaf.stale_told (fun index member => ?_) arrives rfl
  rcases given _ member with same | quiet
  · cases same
  · cases quiet

end Context

namespace Built
open Context
variable {rules : Rules} {tree after : Context} {moment : Float}

-- Setting the time does this to every context of the tree and leaves no others.
theorem setTime_exact (built : Built rules tree) (done : tree.send (.setTime moment) = .done () after) :
    tree.Covers after ∧ ∀ path found, tree.locate path = .ok found →
      ∃ now, after.locate path = .ok now ∧ tree.Timed moment path found now := by
  rw [send_done done]
  refine ⟨covers_receive tree _, fun path found located => ?_⟩
  exact ⟨_, locate_receive _ located, timed_receive built.wellFormed located⟩

-- The leaf inside the inner diagram is fed from outside that diagram.
theorem setTime_exact_cascade :
    ∃ after found now, cascade.send (.setTime 1.5) = .done () after ∧ cascade.Fed ⟨[1, 0], 0⟩ ∧
      cascade.locate [1, 0] = .ok found ∧ after.locate [1, 0] = .ok now ∧ cascade.Timed 1.5 [1, 0] found now := by
  obtain ⟨after, done, _⟩ := cascade_sealed.setTime cascade_built.wellFormed cascade_matched 1.5
  have located : ∃ found, cascade.locate [1, 0] = .ok found := ⟨_, rfl⟩
  obtain ⟨found, located⟩ := located
  obtain ⟨now, there, timed⟩ := (setTime_exact cascade_built done).2 _ _ located
  refine ⟨after, found, now, done, ?_, located, there, timed⟩
  refine ⟨[], _, _, ⟨0, 0⟩, ⟨1, 0⟩, ⟨[1, 0], 0⟩, rfl, by decide, ⟨_, ⟨[0], 0⟩, rfl, ?_, rfl⟩, rfl⟩
  exact @Routes.into _ _ _ _ ⟨0, 0⟩ _ _ rfl rfl .here

end Built
end BlockDiagram
