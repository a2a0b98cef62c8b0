import BlockDiagram.Proofs.Twin

namespace BlockDiagram

-- The same verdict. Of several faults either tree may meet another one first.
def Verdict.Alike : Verdict → Verdict → Prop
  | .accepted, .accepted => True
  | .refused refusal, .refused other => other = refusal
  | .aborted _, .aborted _ => True
  | _, _ => False

namespace Verdict

theorem alike_refl (verdict : Verdict) : verdict.Alike verdict := by
  cases verdict <;> trivial

theorem Alike.accepted {verdict other : Verdict} (alike : verdict.Alike other) :
    verdict = .accepted ↔ other = .accepted := by
  cases verdict <;> cases other <;> first | exact alike.elim | simp

theorem alike_of_accepted {verdict other : Verdict} (accepted : verdict = .accepted ↔ other = .accepted)
    (first : ∀ refusal, verdict ≠ .refused refusal) (second : ∀ refusal, other ≠ .refused refusal) :
    verdict.Alike other := by
  cases verdict <;> cases other <;> simp_all [Alike]

theorem Alike.all {α : Type} {first second : α → Verdict} {items : List α}
    (alike : ∀ item ∈ items, (first item).Alike (second item)) :
    (Verdict.all (items.map first)).Alike (Verdict.all (items.map second)) := by
  induction items with
  | nil => trivial
  | cons item rest ih =>
    have here := alike item List.mem_cons_self
    have behind := ih (fun other member => alike other (List.mem_cons_of_mem _ member))
    rw [List.map_cons, List.map_cons]
    cases one : first item <;> cases two : second item <;> rw [one, two] at here <;>
      first | exact here.elim | exact here | exact behind

end Verdict

namespace Frame
variable {frame later : Frame}

theorem Alike.verdict (alike : frame.Alike later) (change : Change) : later.verdict change = frame.verdict change := by
  cases change <;> simp only [Frame.verdict, input, output, alike.phase, alike.inputs, alike.outputs]

theorem bound_accepted {change : Change} (accepted : frame.verdict change = .accepted) {index : Nat}
    (binds : change.bound? = some index) : index < frame.inputs.length := by
  refine Nat.lt_of_not_le (fun outside => ?_)
  have missing : frame.inputs[index]? = none := List.getElem?_eq_none outside
  cases change with
  | bind | rebind =>
    cases binds
    simp [Frame.verdict, input, missing] at accepted
  | _ => cases binds

end Frame

namespace Subsystems

theorem verdict_quiet {subsystems : Subsystems} {item : Nat × Change} (quiet : item.2.Quiet)
    (sound : ∀ system child, subsystems.context? system = some child → child.WellFormed) (refusal : Refusal) :
    subsystems.verdict item.1 item.2 ≠ .refused refusal := by
  obtain ⟨system, change⟩ := item
  cases present : subsystems.context? system with
  | some child =>
    rw [verdict_present present]
    refine Context.verdict_not_refused (sound _ _ present) (fun index binds => ?_) refusal
    cases change <;> first | exact quiet.elim | cases binds
  | none =>
    rw [verdict_absent present]
    cases change <;> first | exact quiet.elim | exact nofun

end Subsystems

namespace Context.Twin
variable {rename : ContextId → ContextId} {tree other : Context} {frame later : Frame} {subsystems others : Subsystems}

theorem accepted_within (twin : Twin rename (.diagram frame subsystems) (.diagram later others))
    (below : ∀ system child other, subsystems.context? system = some child → others.context? system = some other →
      Twin rename child other → ∀ change, (child.verdict change).Alike (other.verdict change)) (item : Nat × Change) :
    subsystems.verdict item.1 item.2 = .accepted ↔ others.verdict item.1 item.2 = .accepted := by
  cases found : subsystems.context? item.1 with
  | none =>
    rw [Subsystems.verdict_absent found, Subsystems.verdict_absent (twin.absent found), twin.absence]
  | some child =>
    obtain ⟨other, there, inside⟩ := twin.present found
    rw [Subsystems.verdict_present found, Subsystems.verdict_present there]
    exact (below _ _ _ found there inside item.2).accepted

theorem verdict (twin : Twin rename tree other) (sound : tree.WellFormed) (well : other.WellFormed) (change : Change) :
    (tree.verdict change).Alike (other.verdict change) := by
  induction tree using Context.induct generalizing other change with
  | leaf own =>
    rw [twin.leaf, Context.verdict, Context.verdict, Leaf.verdict_renamed]
    exact Verdict.alike_refl _
  | diagram frame subsystems ih =>
    obtain ⟨later, others, rfl, like⟩ := twin.diagram
    have same := like.alike.verdict change
    cases own : frame.verdict change with
    | refused | aborted =>
      simp only [Context.verdict, same, own]
      exact Verdict.alike_refl _
    | accepted =>
      have bound : ∀ index, change.bound? = some index → index < frame.inputs.length :=
        fun index binds => Frame.bound_accepted own binds
      refine Verdict.alike_of_accepted ?_ (verdict_not_refused sound bound) (verdict_not_refused well ?_)
      · rw [verdict_diagram _ _ _ own, verdict_diagram _ _ _ (same.trans own), twin.layout,
          Verdict.all_accepted, Verdict.all_accepted]
        simp only [List.forall_mem_map, like.alike.mem_mail]
        refine forall_congr' (fun item => imp_congr_right (fun _ => twin.accepted_within ?_ item))
        exact fun system child other found there inside change =>
          ih system child found inside (sound.child found) (well.child there) change
      · exact fun index binds => (twin.inputCount ▸ bound index binds : index < (Context.diagram later others).inputCount)

end Context.Twin

-- Endings with the same answer or refusal that leave related states, or both
-- none at all.
def Outcome.Alike {σ τ α : Type} (related : σ → τ → Prop) : Outcome σ α → Outcome τ α → Prop
  | .done value state, .done other later => other = value ∧ related state later
  | .refused refusal state, .refused other later => other = refusal ∧ related state later
  | .aborted _, .aborted _ => True
  | _, _ => False

namespace Outcome.Alike
variable {σ τ α β : Type} {related : σ → τ → Prop} {first : Outcome σ α} {second : Outcome τ α}

theorem answering (alike : first.Alike related second) (value : β) :
    (first.answering value).Alike related (second.answering value) := by
  cases first <;> cases second <;> first | exact alike.elim | exact ⟨rfl, alike.2⟩ | exact alike

theorem map (alike : first.Alike related second) (answer : α → β) :
    (first.map answer).Alike related (second.map answer) := by
  cases first <;> cases second <;> first
    | exact alike.elim | exact ⟨congrArg answer alike.1, alike.2⟩ | exact alike

theorem within {σ' τ' : Type} {around : σ' → τ' → Prop} {left : σ → σ'} {right : τ → τ'}
    (alike : first.Alike related second) (rebuilt : ∀ state later, related state later → around (left state) (right later)) :
    (first.within left).Alike around (second.within right) := by
  cases first <;> cases second <;> first
    | exact alike.elim | exact ⟨alike.1, rebuilt _ _ alike.2⟩ | exact alike

end Outcome.Alike
namespace Context.Twin
variable {rename : ContextId → ContextId} {tree other : Context} {frame later : Frame} {subsystems others : Subsystems}

theorem of_leaf {own later : Leaf} (same : later = own.renamed rename) : Twin rename (.leaf own) (.leaf later) := by
  intro path found located
  obtain ⟨rfl, rfl⟩ := locate_leaf located
  exact ⟨_, locate_nil _, same⟩

theorem putContext {system : Nat} {child changed : Context}
    (twin : Twin rename (.diagram frame subsystems) (.diagram later others)) (inside : Twin rename child changed) :
    Twin rename (.diagram frame (subsystems.putContext system child))
      (.diagram later (others.putContext system changed)) := by
  have like := twin.like
  refine along_diagram ⟨like.id, like.closed, like.alike, ?_, fun place => ?_⟩ (fun place context found => ?_)
  · simp only [Subsystems.size_putContext, like.size]
  · simp only [Subsystems.buffer?_putContext, like.buffers]
  · rw [Subsystems.context?_putContext] at found ⊢
    split at found
    · rename_i here
      obtain ⟨before, held, rfl⟩ := Option.map_eq_some_iff.mp found
      obtain ⟨after, there, _⟩ := twin.present held
      exact ⟨changed, by simp [here, there], inside⟩
    · rename_i elsewhere
      rw [if_neg elsewhere]
      exact twin.present found

theorem putBuffer (twin : Twin rename (.diagram frame subsystems) (.diagram later others)) (system : Nat)
    (buffer : OutputBuffer) :
    Twin rename (.diagram frame (subsystems.putBuffer system buffer)) (.diagram later (others.putBuffer system buffer)) := by
  have like := twin.like
  refine along_diagram ⟨like.id, like.closed, like.alike, ?_, fun place => ?_⟩ (fun place context found => ?_)
  · simp only [Subsystems.size_putBuffer, like.size]
  · simp only [Subsystems.buffer?_putBuffer, like.buffers]
  · rw [Subsystems.context?_putBuffer] at found ⊢
    exact twin.present found

theorem withCache (twin : Twin rename tree other) (cache : Cache) :
    Twin rename (tree.withCache cache) (other.withCache cache) := by
  cases tree with
  | leaf own => rw [twin.leaf]; exact of_leaf rfl
  | diagram frame subsystems =>
    obtain ⟨later, others, rfl, like⟩ := twin.diagram
    exact along_diagram ⟨like.id, like.closed, { like.alike with cache := rfl }, like.size, like.buffers⟩
      (fun system child found => twin.present found)

theorem send (twin : Twin rename tree other) (sound : tree.WellFormed) (well : other.WellFormed) {change : Change}
    (impersonal : change.Impersonal) : (tree.send change).Alike (Twin rename) (other.send change) := by
  have alike := twin.verdict sound well change
  have kept : ∀ {context : Context} {refusal : Refusal}, context.WellFormed →
      context.verdict change = .refused refusal → context.afterRefused change = context := by
    intro context refusal sound refused
    have sent : context.send change = .refused refusal (context.afterRefused change) := by
      simp only [Context.send, refused]
    exact (send_refused sound sent).2
  unfold Context.send
  cases one : tree.verdict change <;> cases two : other.verdict change <;> rw [one, two] at alike <;>
    first | exact alike.elim | skip
  · exact ⟨rfl, twin.receive (fun only member => List.mem_singleton.mp member ▸ impersonal)⟩
  · refine ⟨alike, ?_⟩
    rw [kept sound one, kept well two]
    exact twin
  · trivial

theorem markAllFresh (twin : Twin rename tree other) (sound : tree.WellFormed) (well : other.WellFormed) :
    tree.markAllFresh.Alike (Twin rename) other.markAllFresh := by
  unfold Context.markAllFresh
  rw [twin.outputCount]
  generalize marks : (List.range tree.outputCount).map (Change.mark · true) = changes
  have impersonal : ∀ change ∈ changes, change.Impersonal := by
    subst marks
    intro change member
    obtain ⟨index, _, rfl⟩ := List.mem_map.mp member
    trivial
  have alike : (Verdict.all (changes.map tree.verdict)).Alike (Verdict.all (changes.map other.verdict)) :=
    .all (fun change _ => twin.verdict sound well change)
  dsimp only
  cases one : Verdict.all (changes.map tree.verdict) <;> cases two : Verdict.all (changes.map other.verdict) <;>
    rw [one, two] at alike <;> first | exact alike.elim | skip
  · exact ⟨rfl, twin.receive impersonal⟩
  · exact ⟨alike, twin⟩
  · trivial

theorem read? (twin : Twin rename tree other) (partition : Partition) (index : Nat) :
    other.read? partition index = tree.read? partition index := by
  induction tree using Context.induct generalizing other index with
  | leaf own => rw [twin.leaf]; rfl
  | diagram frame subsystems ih =>
    obtain ⟨later, others, rfl, like⟩ := twin.diagram
    have composite : later.composite = frame.composite := like.alike.composite
    simp only [Context.read?, composite]
    cases frame.composite.slot? partition index with
    | none => rfl
    | some slot =>
      simp only [Subsystems.readAt?_eq]
      cases found : subsystems.context? slot.system with
      | none => rw [twin.absent found]
      | some child =>
        obtain ⟨other, there, inside⟩ := twin.present found
        rw [there]
        exact ih _ _ found inside slot.index

theorem edit (twin : Twin rename tree other) (sound : tree.WellFormed) (well : other.WellFormed) (partition : Partition)
    (index : Nat) (revise : partition.Entry → Outcome Unit partition.Entry) :
    (tree.edit partition index revise).Alike (Twin rename) (other.edit partition index revise) := by
  have alike := twin.send sound well (show Change.Impersonal (.openEntry partition index) from trivial)
  unfold Context.edit
  cases one : tree.send (.openEntry partition index) <;> cases two : other.send (.openEntry partition index) <;>
    rw [one, two] at alike <;> first | exact alike.elim | skip
  · rename_i opened _ after
    have inside : Twin rename opened after := alike.2
    dsimp only
    rw [inside.read?]
    cases opened.read? partition index with
    | none => exact ⟨rfl, inside⟩
    | some entry =>
      dsimp only
      cases revise entry with
      | done written =>
        have first : opened.WellFormed := send_done one ▸ sound.receive _
        have second : after.WellFormed := send_done two ▸ well.receive _
        exact (inside.send first second (show Change.Impersonal (.storeEntry partition index written) from trivial)).answering true
      | refused => exact ⟨rfl, inside⟩
      | aborted => trivial
  · exact alike
  · trivial

theorem onLeaf (twin : Twin rename tree other) {task : Leaf → Outcome Leaf Answer}
    (even : ∀ own, (task own).Alike (fun state later => later = state.renamed rename) (task (own.renamed rename))) :
    (tree.onLeaf task).Alike (Twin rename) (other.onLeaf task) := by
  cases tree with
  | leaf own =>
    rw [twin.leaf]
    exact (even own).within (fun _ _ same => of_leaf same)
  | diagram frame subsystems =>
    obtain ⟨later, others, rfl, _⟩ := twin.diagram
    exact ⟨rfl, twin⟩

theorem onCache (twin : Twin rename tree other) (task : Cache → Outcome Cache Answer) :
    (tree.onCache task).Alike (Twin rename) (other.onCache task) := by
  unfold Context.onCache
  rw [twin.cache]
  cases task tree.cache with
  | done answer cache => exact ⟨rfl, twin.withCache cache⟩
  | refused refusal cache => exact ⟨rfl, twin.withCache cache⟩
  | aborted => trivial

theorem onDiagram (twin : Twin rename tree other) (sound : tree.WellFormed) (well : other.WellFormed)
    {task : Diagram → Outcome Diagram Answer}
    (even : ∀ diagram other : Diagram, diagram.Twin rename other → diagram.context.WellFormed → other.context.WellFormed →
      (task diagram).Alike (Diagram.Twin rename) (task other)) :
    (tree.onDiagram task).Alike (Twin rename) (other.onDiagram task) := by
  cases tree with
  | leaf own => rw [twin.leaf]; exact ⟨rfl, of_leaf rfl⟩
  | diagram frame subsystems =>
    obtain ⟨later, others, rfl, _⟩ := twin.diagram
    exact (even ⟨frame, subsystems⟩ ⟨later, others⟩ twin sound well).within (fun _ _ inside => inside)

end Context.Twin

theorem Diagram.wellFormed_propagated {diagram after : Diagram} {start : List Terminal} {changed : List Nat}
    (sound : diagram.context.WellFormed) (propagated : diagram.propagateFrom start = .done changed after) :
    after.context.WellFormed := by
  rw [propagateFrom_done propagated]
  exact Context.wellFormed_delivery sound (fun _ => rfl) (sound.frame.receive _)

namespace Diagram.Twin
variable {rename : ContextId → ContextId} {diagram other : Diagram}

theorem like (twin : diagram.Twin rename other) : Diagram.Like rename diagram other := Context.Twin.like twin

theorem whileBuilding {α : Type} (twin : diagram.Twin rename other) (build later : Outcome Diagram α) :
    (diagram.whileBuilding build).Alike (Diagram.Twin rename) (other.whileBuilding later) := by
  simp only [Diagram.whileBuilding, twin.like.alike.phase, twin.like.closed]
  exact ⟨rfl, twin⟩

theorem verdicts (twin : diagram.Twin rename other) (sound : diagram.context.WellFormed)
    (well : other.context.WellFormed) (start : List Terminal) :
    (Verdict.all ((diagram.frame.ripple diagram.layout start).map
      (fun item => diagram.subsystems.verdict item.1 item.2))).Alike
      (Verdict.all ((other.frame.ripple diagram.layout start).map
        (fun item => other.subsystems.verdict item.1 item.2))) := by
  -- The items come in different orders, so the first fault may differ; whether
  -- there is one does not.
  refine Verdict.alike_of_accepted ?_ (fun refusal refused => ?_) (fun refusal refused => ?_)
  · rw [Verdict.all_accepted, Verdict.all_accepted]
    simp only [List.forall_mem_map, twin.like.alike.mem_ripple]
    refine forall_congr' (fun item => imp_congr_right (fun _ => Context.Twin.accepted_within twin ?_ item))
    exact fun system child other found there inside change =>
      inside.verdict (sound.child found) (well.child there) change
  · obtain ⟨item, sent, objection⟩ := List.mem_map.mp (Verdict.all_refused refused)
    exact Subsystems.verdict_quiet (Frame.ripple_quiet sent) (fun _ _ found => sound.child found) refusal objection
  · obtain ⟨item, sent, objection⟩ := List.mem_map.mp (Verdict.all_refused refused)
    exact Subsystems.verdict_quiet (Frame.ripple_quiet sent) (fun _ _ found => well.child found) refusal objection

theorem rippled (twin : diagram.Twin rename other) (start : List Terminal) : Diagram.Twin rename
    (diagram.withSubsystems (diagram.subsystems.receive (diagram.frame.ripple diagram.layout start)))
    (other.withSubsystems (other.subsystems.receive (other.frame.ripple diagram.layout start))) := by
  refine Context.Twin.delivery twin.like (fun system child found => ?_)
  obtain ⟨after, there, inside⟩ := Context.Twin.present twin found
  refine ⟨after, there, ?_⟩
  rw [twin.like.alike.receive_ripple]
  exact inside.receive (fun change member => (Frame.ripple_quiet (Mail.mem_addressed.mp member)).impersonal)

theorem propagateFrom (twin : diagram.Twin rename other) (sound : diagram.context.WellFormed)
    (well : other.context.WellFormed) (start : List Terminal) :
    (diagram.propagateFrom start).Alike (Diagram.Twin rename) (other.propagateFrom start) := by
  have layout : other.layout = diagram.layout := Context.Twin.layout twin
  have reached : other.frame.reachedOutputs diagram.layout start = diagram.frame.reachedOutputs diagram.layout start :=
    twin.like.alike.reachedOutputs start
  have verdicts := twin.verdicts sound well start
  have delivered := twin.rippled start
  unfold Diagram.propagateFrom Subsystems.deliver
  rw [layout, reached]
  cases one : Verdict.all ((diagram.frame.ripple diagram.layout start).map
      (fun item => diagram.subsystems.verdict item.1 item.2)) <;>
    cases two : Verdict.all ((other.frame.ripple diagram.layout start).map
      (fun item => other.subsystems.verdict item.1 item.2)) <;>
    rw [one, two] at verdicts <;> first | exact verdicts.elim | exact ⟨rfl, delivered⟩ | trivial

theorem propagateAs (twin : diagram.Twin rename other) (sound : diagram.context.WellFormed)
    (well : other.context.WellFormed) (named : SealedOnly) (system : Nat) (indices : List Nat) :
    (Diagram.propagateAs named diagram system indices).Alike (Diagram.Twin rename)
      (Diagram.propagateAs named other system indices) := by
  have output : other.subsystemOutput system = diagram.subsystemOutput system := by
    simp only [subsystemOutput, Context.Twin.buffer twin]
  simp only [Diagram.propagateAs, twin.like.alike.phase, twin.like.closed, output]
  cases diagram.subsystemOutput system with
  | error => trivial
  | ok buffer =>
    dsimp only
    cases strayOutput? buffer.count indices with
    | some => trivial
    | none => exact twin.propagateFrom sound well _

theorem sendTo (twin : diagram.Twin rename other) (sound : diagram.context.WellFormed)
    (well : other.context.WellFormed) (system : Nat) {change : Change} (impersonal : change.Impersonal) :
    (diagram.subsystems.send system change).Alike
      (fun changed after => Diagram.Twin rename (diagram.withSubsystems changed) (other.withSubsystems after))
      (other.subsystems.send system change) := by
  unfold Subsystems.send
  rcases Context.Twin.context twin system with ⟨missing, one, two⟩ | ⟨child, after, found, there, inside⟩
  · rw [one, two]
    dsimp only
    cases change.undelivered missing with
    | accepted | refused => exact ⟨rfl, twin⟩
    | aborted => trivial
  · rw [Subsystems.context_eq_ok.mpr found, Subsystems.context_eq_ok.mpr there]
    exact (inside.send (sound.child found) (well.child there) impersonal).within
      (fun _ _ changed => Context.Twin.putContext twin changed)

theorem setOutput (twin : diagram.Twin rename other) (sound : diagram.context.WellFormed)
    (well : other.context.WellFormed) (output : Terminal) (value : Value) :
    (diagram.setOutput output value).Alike (Diagram.Twin rename) (other.setOutput output value) := by
  simp only [Diagram.setOutput, twin.like.alike.phase, twin.like.closed, Context.Twin.buffer twin]
  cases held : diagram.subsystems.buffer output.system with
  | error => exact ⟨rfl, twin⟩
  | ok buffer =>
    dsimp only
    split
    · have there : other.subsystems.buffer? output.system = some buffer := by
        rw [twin.like.buffers]
        exact Subsystems.buffer_eq_ok.mp held
      have stored : Diagram.Twin rename (diagram.store output buffer value) (other.store output buffer value) :=
        Context.Twin.putBuffer twin _ _
      have first : (diagram.store output buffer value).context.WellFormed :=
        Context.wellFormed_putBuffer sound (Subsystems.buffer_eq_ok.mp held) (OutputBuffer.count_write _ _ _)
      have second : (other.store output buffer value).context.WellFormed :=
        Context.wellFormed_putBuffer well there (OutputBuffer.count_write _ _ _)
      have even := stored.propagateFrom first second [output]
      cases one : (diagram.store output buffer value).propagateFrom [output] <;>
        cases two : (other.store output buffer value).propagateFrom [output] <;> rw [one, two] at even <;>
        first | exact even.elim | skip
      · obtain ⟨rfl, rippled⟩ := even
        have impersonal : Change.Impersonal (.mark output.index true) := trivial
        have marked := rippled.sendTo (wellFormed_propagated first one) (wellFormed_propagated second two)
          output.system impersonal
        exact (marked.answering _).within (fun _ _ inside => inside)
      · exact even
      · trivial
    · exact ⟨rfl, twin⟩

theorem markEvaluated (twin : diagram.Twin rename other) (sound : diagram.context.WellFormed)
    (well : other.context.WellFormed) (system : Nat) :
    (diagram.markEvaluated system).Alike (Diagram.Twin rename) (other.markEvaluated system) := by
  unfold Diagram.markEvaluated
  rcases Context.Twin.context twin system with ⟨missing, one, two⟩ | ⟨child, after, found, there, inside⟩
  · rw [one, two]
    trivial
  · rw [Subsystems.context_eq_ok.mpr found, Subsystems.context_eq_ok.mpr there]
    exact (inside.markAllFresh (sound.child found) (well.child there)).within
      (fun _ _ marked => Context.Twin.putContext twin marked)

end Diagram.Twin
def Operation.Impersonal : Operation → Prop
  | .change asked => asked.Impersonal
  | _ => True

namespace Context.Twin
variable {rename : ContextId → ContextId} {tree other : Context}

theorem perform (twin : Twin rename tree other) (sound : tree.WellFormed) (well : other.WellFormed)
    {operation : Operation} (impersonal : operation.Impersonal) :
    (tree.perform operation).Alike (Twin rename) (other.perform operation) := by
  cases operation with
  | change asked => exact (twin.send sound well impersonal).answering _
  | edit partition index revise => exact (twin.edit sound well partition index revise).map _
  | reviseState revise =>
    refine twin.onLeaf (fun own => ?_)
    simp only [Leaf.reviseState, Leaf.renamed]
    cases revise own.state with
    | ok state => exact ⟨rfl, rfl⟩
    | error => trivial
  | markAllFresh => exact (twin.markAllFresh sound well).answering _
  | issueTicket | setLine | swapLine | invalidateLine =>
    simp only [Context.perform]
    exact twin.onCache _
  | connect | exposeInput | exposeOutput | finishBuilding =>
    simp only [Context.perform]
    refine twin.onDiagram sound well (fun diagram other inside _ _ => ?_)
    first | exact (inside.whileBuilding _ _).answering _ | exact (inside.whileBuilding _ _).map _
  | setOutput output value =>
    exact twin.onDiagram sound well (fun _ _ inside first second => (inside.setOutput first second output value).map _)
  | propagate system index =>
    exact twin.onDiagram sound well
      (fun _ _ inside first second => (inside.propagateAs first second .propagateOutput system [index]).map _)
  | propagateMany system indices =>
    exact twin.onDiagram sound well
      (fun _ _ inside first second => (inside.propagateAs first second .propagateOutputs system indices).map _)
  | markEvaluated system =>
    exact twin.onDiagram sound well (fun _ _ inside first second => (inside.markEvaluated first second system).answering _)

theorem locate (twin : Twin rename tree other) (path : List Nat) :
    (∃ misstep, tree.locate path = .error misstep ∧ other.locate path = .error misstep) ∨
      ∃ found after, tree.locate path = .ok found ∧ other.locate path = .ok after ∧ Twin rename found after := by
  induction path generalizing tree other with
  | nil => exact .inr ⟨tree, other, locate_nil _, locate_nil _, twin⟩
  | cons system path ih =>
    cases tree with
    | leaf own => rw [twin.leaf]; exact .inl ⟨.notDiagram, rfl, rfl⟩
    | diagram frame subsystems =>
      obtain ⟨later, others, rfl, _⟩ := twin.diagram
      rcases twin.context system with ⟨missing, one, two⟩ | ⟨child, after, found, there, inside⟩
      · refine .inl ⟨.absent missing, ?_, ?_⟩
        · simp only [Context.locate, one]
        · simp only [Context.locate, two]
      · simp only [Context.locate, Subsystems.context_eq_ok.mpr found, Subsystems.context_eq_ok.mpr there]
        exact ih inside

theorem graft {found after changed later : Context} {path : List Nat} (twin : Twin rename tree other)
    (located : tree.locate path = .ok found) (there : other.locate path = .ok after)
    (inside : Twin rename changed later) : Twin rename (tree.graft path changed) (other.graft path later) := by
  induction path generalizing tree other with
  | nil => rw [graft_nil, graft_nil]; exact inside
  | cons system path ih =>
    cases tree with
    | leaf own => cases located
    | diagram frame subsystems =>
      obtain ⟨top, others, rfl, _⟩ := twin.diagram
      obtain ⟨child, present, below⟩ := locate_cons.mp located
      obtain ⟨other, held, beside⟩ := locate_cons.mp there
      obtain ⟨same, again, twins⟩ := twin.present present
      cases held.symm.trans again
      rw [graft_cons path changed present, graft_cons path later held]
      exact twin.putContext (ih twins below beside)

theorem act (twin : Twin rename tree other) (sound : tree.WellFormed) (well : other.WellFormed) (path : List Nat)
    {operation : Operation} (impersonal : operation.Impersonal) :
    (tree.act path operation).Alike (Twin rename) (other.act path operation) := by
  unfold Context.act Context.carryOut Context.operate
  rcases twin.locate path with ⟨misstep, one, two⟩ | ⟨found, after, one, two, inside⟩
  · rw [one, two]
    cases misstep with
    | notDiagram => exact ⟨rfl, twin⟩
    | absent => trivial
  · rw [one, two]
    exact (inside.perform (sound.below one) (well.below two) impersonal).within
      (fun _ _ changed => twin.graft one two changed)

end Context.Twin
end BlockDiagram
