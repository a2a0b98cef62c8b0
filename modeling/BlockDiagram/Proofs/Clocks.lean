import BlockDiagram.Proofs.Sealing

namespace BlockDiagram

namespace Context

def timeAt? (tree : Context) (path : List Nat) : Option Float := (tree.locate path).toOption.map time

def AllAt (moment : Float) (tree : Context) : Prop := tree.Everywhere (·.time = moment)

def Synchronised (tree : Context) : Prop := tree.AllAt tree.time

theorem timeAt?_nil (tree : Context) : tree.timeAt? [] = some tree.time := by
  rw [timeAt?, locate_nil]
  rfl

theorem timeAt?_cons (frame : Frame) (subsystems : Subsystems) (system : Nat) (path : List Nat) :
    (Context.diagram frame subsystems).timeAt? (system :: path) =
      (subsystems.context? system).bind (·.timeAt? path) := by
  simp only [timeAt?, locate, Subsystems.context]
  cases subsystems.context? system <;> rfl

theorem timeAt?_leaf {own later : Leaf} (same : later.time = own.time) :
    (Context.leaf later).timeAt? = (Context.leaf own).timeAt? := by
  funext path
  cases path with
  | nil => rw [timeAt?_nil, timeAt?_nil]; exact congrArg some same
  | cons => rfl

theorem timeAt?_diagram {frame later : Frame} {subsystems others : Subsystems} (same : later.time = frame.time)
    (inside : ∀ system, (others.context? system).map timeAt? = (subsystems.context? system).map timeAt?) :
    (Context.diagram later others).timeAt? = (Context.diagram frame subsystems).timeAt? := by
  funext path
  cases path with
  | nil => rw [timeAt?_nil, timeAt?_nil]; exact congrArg some same
  | cons system path =>
    have times := congrArg (·.bind (· path)) (inside system)
    simpa only [timeAt?_cons, Option.bind_map, Function.comp_def] using times

theorem allAt_iff {tree : Context} {moment : Float} :
    tree.AllAt moment ↔ ∀ path time, tree.timeAt? path = some time → time = moment := by
  constructor
  · intro all path time held
    unfold timeAt? at held
    cases located : tree.locate path with
    | error => rw [located] at held; cases held
    | ok found =>
      rw [located] at held
      exact (Option.some.inj held).symm.trans (all path found located)
  · intro all path found located
    exact all path found.time (by rw [timeAt?, located]; rfl)

theorem allAt_congr {tree later : Context} (same : later.timeAt? = tree.timeAt?) {moment : Float} :
    later.AllAt moment ↔ tree.AllAt moment := by
  rw [allAt_iff, allAt_iff, same]

theorem time_congr {tree later : Context} (same : later.timeAt? = tree.timeAt?) : later.time = tree.time := by
  have top := congrFun same []
  rw [timeAt?_nil, timeAt?_nil] at top
  exact Option.some.inj top

theorem timeAt?_receive {tree : Context} {changes : List Change} (untimed : ∀ moment, .setTime moment ∉ changes) :
    (tree.receive changes).timeAt? = tree.timeAt? := by
  funext path
  unfold timeAt?
  cases located : tree.locate path with
  | ok found =>
    rw [locate_receive changes located]
    refine congrArg some (time_receive (fun moment member => ?_) (.inl rfl))
    exact absurd (setTime_of_mailTo member) (untimed moment)
  | error =>
    cases arrived : (tree.receive changes).locate path with
    | error => rfl
    | ok after =>
      obtain ⟨found, inside, _⟩ := locate_of_receive arrived
      cases located.symm.trans inside

theorem allAt_setTime (tree : Context) (moment : Float) : (tree.receive [.setTime moment]).AllAt moment := by
  intro path after located
  obtain ⟨found, inside, rfl⟩ := locate_of_receive located
  refine time_receive (fun other member => ?_) (.inr (mailTo_setTime List.mem_cons_self inside))
  cases List.mem_singleton.mp (setTime_of_mailTo member)
  rfl

theorem timeAt?_told {frame later : Frame} {subsystems others : Subsystems} {mail : Mail}
    (same : later.time = frame.time) (inside : ∀ system, others.context? system = subsystems.context? system)
    (untimed : ∀ item ∈ mail, ∀ moment, item.2 ≠ .setTime moment) :
    (Context.diagram later (others.receive mail)).timeAt? = (Context.diagram frame subsystems).timeAt? := by
  refine timeAt?_diagram same (fun system => ?_)
  rw [Subsystems.context?_receive, inside]
  cases subsystems.context? system with
  | none => rfl
  | some child =>
    refine congrArg some (timeAt?_receive (fun moment member => ?_))
    exact untimed _ (Mail.mem_addressed.mp member) moment rfl

theorem ripple_untimed {frame : Frame} {layout : Layout} {start : List Terminal} :
    ∀ item ∈ frame.ripple layout start, ∀ moment, item.2 ≠ .setTime moment := by
  rintro ⟨system, change⟩ member moment rfl
  exact Frame.ripple_quiet member

theorem timeAt?_effect {context after : Context} {operation : Operation} (effect : Effect context operation after)
    (untimed : ∀ moment, operation ≠ .change (.setTime moment)) : after.timeAt? = context.timeAt? := by
  cases effect with
  | idle => rfl
  | received sends =>
    refine timeAt?_receive (fun moment member => ?_)
    cases sends with
    | change =>
      cases List.mem_singleton.mp member
      exact untimed moment rfl
    | opened | edited | marked => simp at member
  | revised => exact timeAt?_leaf rfl
  | kept =>
    cases context with
    | leaf own => exact timeAt?_leaf rfl
    | diagram frame subsystems => exact timeAt?_diagram rfl (fun _ => rfl)
  | exposedInput | exposedOutput | finished => exact timeAt?_diagram rfl (fun _ => rfl)
  | connected => exact timeAt?_told rfl (fun _ => rfl) (by simp)
  | stored =>
    refine timeAt?_told rfl (Subsystems.context?_putBuffer _ _ _) (fun item member => ?_)
    rcases List.mem_append.mp member with spread | marked
    · exact ripple_untimed item spread
    · cases List.mem_singleton.mp marked
      exact nofun
  | told tells =>
    refine timeAt?_told rfl (fun _ => rfl) ?_
    cases tells with
    | propagated | propagatedMany => exact ripple_untimed
    | marked => simp

theorem finished_effect {context after : Context} {operation : Operation} (effect : Effect context operation after)
    (finished : context.Finished) : after.Finished := by
  cases effect with
  | received => exact (finished_receive _ _).mpr finished
  | revised => trivial
  | kept => cases context <;> exact finished
  | finished => rfl
  | idle | exposedInput | exposedOutput | connected | stored | told => exact finished

theorem timeAt?_copy {context copied : Context} {outer : Resolver} {serial next : Nat}
    (done : context.copy outer serial = .ok (copied, next)) : copied.timeAt? = context.timeAt? := by
  induction context using Context.induct generalizing outer serial next copied with
  | leaf own =>
    cases done
    exact timeAt?_leaf rfl
  | diagram frame subsystems ih =>
    obtain ⟨copies, marks, last, _, made, _, _, rfl, rfl⟩ := copy_diagram done
    have rewired : (Context.diagram (frame.copy ⟨last⟩ copies)
        (copies.receive (Subsystems.reissues ⟨last⟩ frame.wiring.wires))).timeAt? =
          (Context.diagram frame copies).timeAt? := by
      refine timeAt?_told rfl (fun _ => rfl) (fun item member => ?_)
      obtain ⟨wire, _, rfl⟩ := List.mem_map.mp member
      exact nofun
    refine rewired.trans (timeAt?_diagram rfl (fun system => ?_))
    cases present : subsystems.context? system with
    | none => rw [made.vacant system present]
    | some child =>
      obtain ⟨copy, copying, there⟩ := made.present system child present
      rw [there]
      exact congrArg some (ih system child present copying)

end Context

-- A diagram that has been put together, worked with and copied only from outside,
-- with the contexts that were added to it and the operations carried out on it,
-- the latest first. A copy goes on with the history of its original.
inductive Diagram.Assembled : Diagram → List Context → List Operation → Prop where
  | created {id : ContextId} {places : Nat} {concurrency : Concurrency} :
    Assembled (.create id places concurrency) [] []
  | added {diagram after : Diagram} {given : List Context} {history : List Operation} {system : Nat}
    {other : Context} {buffer : OutputBuffer} (before : Assembled diagram given history)
    (joining : Built .any other) (added : diagram.add system other buffer = .done () after) :
    Assembled after (other :: given) history
  | declined {diagram after : Diagram} {given : List Context} {history : List Operation} {system : Nat}
    {other : Context} {buffer : OutputBuffer} {refusal : Refusal} (before : Assembled diagram given history)
    (joining : Built .any other) (declined : diagram.add system other buffer = .refused refusal after) :
    Assembled after given history
  | performed {diagram : Diagram} {frame : Frame} {subsystems : Subsystems} {given : List Context}
    {history : List Operation} {operation : Operation} (before : Assembled diagram given history)
    (left : (diagram.context.perform operation).left? = some (.diagram frame subsystems)) :
    Assembled ⟨frame, subsystems⟩ given (operation :: history)
  | copied {diagram : Diagram} {frame : Frame} {subsystems : Subsystems} {given : List Context}
    {history : List Operation} {outer : Resolver} {serial next : Nat} (before : Assembled diagram given history)
    (done : diagram.context.copy outer serial = .ok (.diagram frame subsystems, next)) :
    Assembled ⟨frame, subsystems⟩ given history

namespace Diagram

def ClockSet (history : List Operation) : Prop := ∃ moment, .change (.setTime moment) ∈ history

-- What the clocks of such a diagram show. As long as its time has not been set
-- it shows the time it was created with.
structure Clocked (diagram : Diagram) (given : List Context) (history : List Operation) : Prop where
  sound : diagram.context.WellFormed
  closed : ClockSet history → diagram.context.Finished
  set : ClockSet history → diagram.context.Synchronised
  unset : ¬ ClockSet history → diagram.frame.time = 0.0 ∧
    (diagram.context.AllAt 0.0 ↔ ∀ other ∈ given, other.AllAt 0.0)

namespace Clocked
open Context
variable {diagram after : Diagram} {given : List Context} {history : List Operation}

theorem created {id : ContextId} {places : Nat} {concurrency : Concurrency} :
    Clocked (.create id places concurrency) [] [] := by
  refine ⟨(@Built.diagram .any id places concurrency).wellFormed, nofun, nofun, fun _ => ⟨rfl, fun _ => nofun, ?_⟩⟩
  intro _ path found located
  obtain ⟨rfl, rfl⟩ := Built.locate_create located
  rfl

theorem added {system : Nat} {other : Context} {buffer : OutputBuffer} (clocked : Clocked diagram given history)
    (joining : other.WellFormed) (added : diagram.add system other buffer = .done () after) :
    Clocked after (other :: given) history := by
  obtain ⟨building, bound, vacant, rfl⟩ := add_done added
  -- Once its time has been set, a diagram is past building and takes in nothing.
  have untimed : ¬ ClockSet history := fun timed => nomatch building.symm.trans (clocked.closed timed)
  obtain ⟨own, others⟩ := clocked.unset untimed
  refine ⟨wellFormed_install buffer clocked.sound joining vacant, (absurd · untimed), (absurd · untimed),
    fun _ => ⟨own, ?_⟩⟩
  rw [List.forall_mem_cons, ← others]
  have inside : ∀ place, (diagram.subsystems.install system other buffer).context? place =
      if place = system then some other else diagram.subsystems.context? place := by
    intro place
    rw [Subsystems.context?_install]
    simp only [bound, and_true]
  constructor
  · intro all
    obtain ⟨top, below⟩ := everywhere_diagram.mp all
    refine ⟨below system other ((inside system).trans (if_pos rfl)), everywhere_diagram.mpr ⟨top, ?_⟩⟩
    intro place child present
    refine below place child ((inside place).trans ((if_neg ?_).trans present))
    rintro rfl
    cases vacant.symm.trans present
  · rintro ⟨joined, all⟩
    obtain ⟨top, below⟩ := everywhere_diagram.mp all
    refine everywhere_diagram.mpr ⟨top, fun place child present => ?_⟩
    rw [inside] at present
    split at present
    · cases present
      exact joined
    · exact below place child present

theorem alike (clocked : Clocked diagram given history) (sound : after.context.WellFormed)
    (closed : diagram.context.Finished → after.context.Finished) (same : after.context.timeAt? = diagram.context.timeAt?)
    {later : List Operation} (timed : ClockSet later ↔ ClockSet history) : Clocked after given later := by
  have time : after.frame.time = diagram.frame.time := time_congr same
  refine ⟨sound, fun set => closed (clocked.closed (timed.mp set)), fun set => ?_, fun unset => ?_⟩
  · unfold Synchronised
    rw [time_congr same, allAt_congr same]
    exact clocked.set (timed.mp set)
  · rw [time, allAt_congr same]
    exact clocked.unset (mt timed.mpr unset)

theorem setTime_left {moment : Float} {found : Context} (sound : diagram.context.WellFormed)
    (left : (diagram.context.perform (.change (.setTime moment))).left? = some found) :
    diagram.frame.phase = .sealed ∧ found = diagram.context.receive [.setTime moment] := by
  simp only [perform, Outcome.left?_answering] at left
  by_cases closed : diagram.frame.phase = .sealed
  · rcases send_left sound left with ⟨⟨_, binds, _⟩, _⟩ | received
    · cases binds
    · exact ⟨closed, received⟩
  · have objection : diagram.frame.verdict (.setTime moment) = .aborted (.notSealed .setTime) := if_neg closed
    simp only [Diagram.context, send, verdict, objection] at left
    cases left

theorem performed {operation : Operation} (clocked : Clocked diagram given history)
    (left : (diagram.context.perform operation).left? = some after.context) :
    Clocked after given (operation :: history) := by
  have effect := perform_effect clocked.sound left
  have sound := clocked.sound.effect effect
  by_cases sets : ∃ moment, operation = .change (.setTime moment)
  · obtain ⟨moment, rfl⟩ := sets
    obtain ⟨closed, reached⟩ := setTime_left clocked.sound left
    have all : after.context.AllAt moment := reached ▸ allAt_setTime diagram.context moment
    have timed : ClockSet (.change (.setTime moment) :: history) := ⟨moment, List.mem_cons_self⟩
    refine ⟨sound, fun _ => finished_effect effect closed, fun _ => ?_, fun untimed => absurd timed untimed⟩
    rwa [Synchronised, all [] _ (locate_nil _)]
  · refine clocked.alike sound (finished_effect effect) (timeAt?_effect effect (fun moment same => sets ⟨moment, same⟩)) ?_
    constructor
    · rintro ⟨moment, member⟩
      rcases List.mem_cons.mp member with same | before
      · exact absurd ⟨moment, same.symm⟩ sets
      · exact ⟨moment, before⟩
    · rintro ⟨moment, member⟩
      exact ⟨moment, List.mem_cons_of_mem _ member⟩

end Clocked

namespace Assembled
open Context
variable {diagram : Diagram} {given : List Context} {history : List Operation}

theorem clocked (assembled : Assembled diagram given history) : Clocked diagram given history := by
  induction assembled with
  | created => exact .created
  | added _ joining added ih => exact ih.added joining.wellFormed added
  | declined _ _ declined ih => exact add_refused declined ▸ ih
  | performed _ left ih => exact ih.performed left
  | copied _ done ih =>
    exact @Clocked.alike _ ⟨_, _⟩ _ _ ih (ih.sound.copy done) (fun _ => (copy_sealed done).2.frame) (timeAt?_copy done)
      _ Iff.rfl

-- All clocks agree exactly if the time has been set at least once, or nothing was
-- added in which any clock had moved.
theorem synchronised_iff (assembled : Assembled diagram given history) :
    diagram.context.Synchronised ↔
      (∃ moment, .change (.setTime moment) ∈ history) ∨ ∀ other ∈ given, other.AllAt 0.0 := by
  have clocked := assembled.clocked
  by_cases timed : ClockSet history
  · exact ⟨fun _ => .inl timed, fun _ => clocked.set timed⟩
  · obtain ⟨own, others⟩ := clocked.unset timed
    have shown : diagram.context.Synchronised ↔ diagram.context.AllAt 0.0 := by
      rw [Synchronised, show diagram.context.time = 0.0 from own]
    rw [shown, others]
    exact ⟨.inr, fun either => either.resolve_left timed⟩

end Assembled
end Diagram

-- A system whose time has been moved before it is added anywhere.
def Context.ahead : Context := (Context.leaf (.create ⟨0⟩ ⟨0, 1, 0, []⟩ [])).actAll [([], .change (.setTime 1.5))]

theorem Context.ahead_built : Built .any ahead := Built.leaf.actAll _ (fun _ _ => trivial)

namespace Diagram

def lagging : Diagram :=
  (((create ⟨1⟩ 1 .sequential).context.joined [] 0 .ahead ⟨[none]⟩).actAll [([], .finishBuilding)]).diagram?.get (by decide)

theorem lagging_assembled : Assembled lagging [.ahead] [.finishBuilding] := by
  have added := @Assembled.added (create ⟨1⟩ 1 .sequential) _ [] [] 0 .ahead ⟨[none]⟩ .created Context.ahead_built rfl
  exact .performed added rfl

namespace Assembled

-- Finished without a look at the clocks.
theorem synchronised_iff_lagging :
    Assembled lagging [.ahead] [.finishBuilding] ∧ lagging.frame.phase = .sealed ∧ lagging.context.time = 0.0 ∧
      lagging.context.timeAt? [0] = some 1.5 ∧ ¬ lagging.context.Synchronised := by
  have ahead : lagging.context.timeAt? [0] = some 1.5 := by decide
  refine ⟨lagging_assembled, by decide, by decide, ahead, fun same => ?_⟩
  exact absurd (Context.allAt_iff.mp same [0] 1.5 ahead) (by decide)

theorem synchronised_iff_caughtUp :
    ∃ diagram, Assembled diagram [.ahead] [.change (.setTime 2.5), .finishBuilding] ∧
      diagram.context.Synchronised ∧ diagram.context.timeAt? [0] = some 2.5 := by
  have set : Assembled ⟨_, _⟩ [.ahead] [.change (.setTime 2.5), .finishBuilding] := .performed lagging_assembled rfl
  exact ⟨_, set, set.synchronised_iff.mpr (.inl ⟨2.5, List.mem_cons_self⟩), by decide⟩

end Assembled
end Diagram
end BlockDiagram
