import BlockDiagram.Proofs.Downstream
import BlockDiagram.Proofs.Reordering

namespace BlockDiagram

theorem Leaf.verdict_receiveAll (own : Leaf) (changes : List Change) (change : Change) :
    (changes.foldl receive own).verdict change = own.verdict change := by
  have inputs := own.inputs_length_receiveAll changes
  have outputs := own.outputs_receiveAll changes
  cases change <;> simp only [verdict, inputs, outputs]

theorem Frame.verdict_receiveAll (frame : Frame) (changes : List Change) (change : Change) :
    (changes.foldl receive frame).verdict change = frame.verdict change := by
  obtain ⟨_, _, reached⟩ := frame.receiveAll_eq changes
  rw [reached]
  cases change <;> rfl

theorem Subsystems.verdict_told {subsystems : Subsystems}
    (inside : ∀ system child, subsystems.context? system = some child → ∀ changes change,
      (child.receive changes).verdict change = child.verdict change) (mail : Mail) (system : Nat) (change : Change) :
    (subsystems.receive mail).verdict system change = subsystems.verdict system change := by
  cases present : subsystems.context? system with
  | some child =>
    rw [verdict_present present, verdict_present (context?_received present mail), inside system child present]
  | none =>
    have missing : (subsystems.receive mail).context? system = none := by
      rw [context?_receive, present]
      rfl
    rw [verdict_absent present, verdict_absent missing, absence, absence, size_receive]

theorem Context.verdict_receive (context : Context) (changes : List Change) (change : Change) :
    (context.receive changes).verdict change = context.verdict change := by
  induction context using Context.induct generalizing changes change with
  | leaf own => exact own.verdict_receiveAll changes change
  | diagram frame subsystems ih =>
    have answers : ∀ item : Nat × Change, Subsystems.verdict _ item.1 item.2 = subsystems.verdict item.1 item.2 :=
      fun item => Subsystems.verdict_told (fun system child present => ih system child present)
        (changes.flatMap (frame.mail subsystems.layout)) item.1 item.2
    rw [receive]
    cases objection : frame.verdict change with
    | accepted =>
      have again : (changes.foldl Frame.receive frame).verdict change = .accepted :=
        (frame.verdict_receiveAll changes change).trans objection
      rw [verdict_diagram _ _ _ objection, verdict_diagram _ _ _ again, Frame.mail_receiveAll,
        Subsystems.layout_receive]
      simp only [answers]
    | refused | aborted => simp only [verdict, frame.verdict_receiveAll, objection]

namespace Subsystems
variable {subsystems later : Subsystems} {mail told : Mail}

theorem verdict_receive (subsystems : Subsystems) (mail : Mail) (system : Nat) (change : Change) :
    (subsystems.receive mail).verdict system change = subsystems.verdict system change :=
  verdict_told (fun _ child _ => child.verdict_receive) mail system change

-- Sends one change after the other and stops at the first that is not carried out.
def sendAll (subsystems : Subsystems) : Mail → Outcome Subsystems Unit
  | [] => .done () subsystems
  | (system, change) :: rest =>
    match subsystems.send system change with
    | .done _ told => told.sendAll rest
    | ending => ending

theorem sendAll_done (present : ∀ item ∈ mail, ∃ child, subsystems.context? item.1 = some child) :
    subsystems.sendAll mail = .done () later ↔
      (∀ item ∈ mail, subsystems.verdict item.1 item.2 = .accepted) ∧ later = subsystems.receive mail := by
  induction mail generalizing subsystems with
  | nil =>
    rw [sendAll, receive_nil, Outcome.done.injEq]
    simp [eq_comm]
  | cons item rest ih =>
    obtain ⟨system, change⟩ := item
    obtain ⟨child, there⟩ := present _ List.mem_cons_self
    have verdict : subsystems.verdict system change = child.verdict change := verdict_present there change
    rw [List.forall_mem_cons, sendAll]
    cases answer : child.verdict change with
    | accepted =>
      -- What has been sent so far has no say in the verdict on the rest.
      have still : ∀ item ∈ rest, ∃ child, (subsystems.receive [(system, change)]).context? item.1 = some child := by
        intro item member
        obtain ⟨other, held⟩ := present item (List.mem_cons_of_mem _ member)
        exact ⟨_, context?_received held _⟩
      rw [send_eq there answer]
      simp only [ih still, verdict_receive, ← receive_append, verdict, answer, true_and, List.singleton_append]
    | refused | aborted =>
      simp [send, context_eq_ok.mpr there, Context.send, answer, Outcome.within, verdict]

theorem receive_members (quiet : ∀ item ∈ mail, item.2.Quiet) (same : ∀ item, item ∈ mail ↔ item ∈ told) :
    subsystems.receive mail = subsystems.receive told := by
  refine ext ?_ (fun system => ?_) (fun system => ?_)
  · simp only [size_receive]
  · rw [context?_receive, context?_receive]
    cases subsystems.context? system with
    | none => rfl
    | some child =>
      refine congrArg some (Context.receive_members (fun change member => ?_) (fun change => ?_))
      · exact quiet _ (Mail.mem_addressed.mp member)
      · simp only [Mail.mem_addressed, same]
  · simp only [buffer?_receive]

theorem deliver_done (sound : ∀ system child, subsystems.context? system = some child → child.WellFormed)
    (quiet : ∀ item ∈ mail, item.2.Quiet) :
    subsystems.deliver mail = .ok later ↔
      (∀ item ∈ mail, subsystems.verdict item.1 item.2 = .accepted) ∧ later = subsystems.receive mail := by
  refine ⟨fun delivered => (deliver_accepted sound quiet delivered).symm, fun accepted => ?_⟩
  have all : Verdict.all (mail.map (fun item => subsystems.verdict item.1 item.2)) = .accepted := by
    refine Verdict.all_accepted.mpr (fun verdict member => ?_)
    obtain ⟨item, sent, rfl⟩ := List.mem_map.mp member
    exact accepted.1 item sent
  simp only [deliver, all, accepted.2]

-- What can be delivered at once can be sent in any order, and the other way round.
theorem deliver_sendAll (sound : ∀ system child, subsystems.context? system = some child → child.WellFormed)
    (quiet : ∀ item ∈ mail, item.2.Quiet) (present : ∀ item ∈ mail, ∃ child, subsystems.context? item.1 = some child)
    (same : ∀ item, item ∈ mail ↔ item ∈ told) :
    subsystems.deliver mail = .ok later ↔ subsystems.sendAll told = .done () later := by
  have there : ∀ item ∈ told, ∃ child, subsystems.context? item.1 = some child :=
    fun item member => present item ((same item).mpr member)
  rw [deliver_done sound quiet, sendAll_done there, receive_members quiet same]
  simp only [same]

end Subsystems

-- The same context but for its cache and the freshness of its outputs, what is
-- inside it left aside.
def Context.Unmoved : Context → Context → Prop
  | .leaf own, later => ∃ fresh cache, later = .leaf { own with fresh := fresh, cache := cache }
  | .diagram frame subsystems, later => ∃ cache others, later = .diagram { frame with cache := cache } others ∧
    others.size = subsystems.size ∧ ∀ place, others.buffer? place = subsystems.buffer? place

theorem Change.Quiet.keeps_state {change : Change} (quiet : change.Quiet) : ¬ change.Writes := by
  cases change with
  | storeEntry => exact quiet.elim
  | _ => exact id

namespace Context

theorem unmoved_leaf {own later : Leaf} (id : later.id = own.id) (time : later.time = own.time)
    (state : later.state = own.state) (inputs : later.inputs = own.inputs) : (Context.leaf own).Unmoved (.leaf later) := by
  cases later
  cases id
  cases time
  cases state
  cases inputs
  exact ⟨_, _, rfl⟩

theorem unmoved_diagram {frame : Frame} {subsystems : Subsystems} {changes : List Change} {mail : Mail} {moment : Float}
    (time : (changes.foldl Frame.receive frame).time = moment) :
    (Context.diagram { frame with time := moment } subsystems).Unmoved
      (.diagram (changes.foldl Frame.receive frame) (subsystems.receive mail)) := by
  obtain ⟨later, cache, reached⟩ := frame.receiveAll_eq changes
  rw [reached] at time ⊢
  cases time
  refine ⟨cache, _, rfl, Subsystems.size_receive _ _, fun place => ?_⟩
  rw [Subsystems.buffer?_receive]

theorem unmoved_receive (context : Context) {changes : List Change} (quiet : ∀ change ∈ changes, change.Quiet) :
    context.Unmoved (context.receive changes) := by
  have time : (context.receive changes).time = context.time := time_receive (fun _ told => (quiet _ told).elim) (.inl rfl)
  cases context with
  | leaf own =>
    have state := @Leaf.state_receiveAll own changes (fun change told => (quiet change told).keeps_state)
    have inputs := @Leaf.inputs_unbound own changes (fun change told => (quiet change told).unbound)
    exact unmoved_leaf (grows_receive (.leaf own) changes).id time state inputs
  | diagram => exact unmoved_diagram time

theorem along_quiet (tree : Context) {changes : List Change} (quiet : ∀ change ∈ changes, change.Quiet) :
    tree.Along Unmoved (tree.receive changes) :=
  fun _ found located => ⟨_, locate_receive changes located, found.unmoved_receive (mailTo_quiet quiet)⟩

theorem along_delivered {frame : Frame} {subsystems : Subsystems} {mail : Mail} (quiet : ∀ item ∈ mail, item.2.Quiet) :
    (Context.diagram frame subsystems).Along Unmoved (.diagram frame (subsystems.receive mail)) := by
  refine along_diagram ⟨frame.cache, _, rfl, Subsystems.size_receive _ _, fun place => ?_⟩ (fun system child present => ?_)
  · rw [Subsystems.buffer?_receive]
  · refine ⟨_, Subsystems.context?_received present mail, child.along_quiet (fun change member => ?_)⟩
    exact quiet _ (Mail.mem_addressed.mp member)

end Context
end BlockDiagram
