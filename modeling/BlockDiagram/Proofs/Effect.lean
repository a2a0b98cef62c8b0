import BlockDiagram.Proofs.WellFormed

namespace BlockDiagram
open Relation

mutual
theorem Context.receive_nil : (context : Context) → context.receive [] = context
  | .leaf _ => rfl
  | .diagram frame subsystems => by
    rw [Context.receive, List.foldl_nil, List.flatMap_nil, subsystems.receive_nil]
theorem Subsystems.receive_nil : (subsystems : Subsystems) → subsystems.receive [] = subsystems
  | .nil => rfl
  | .vacant rest => congrArg Subsystems.vacant rest.receive_nil
  | .filled context buffer rest => by
    show Subsystems.filled (context.receive []) buffer (rest.receive []) = _
    rw [context.receive_nil, rest.receive_nil]
end

namespace Context

theorem time_told (context : Context) (change : Change) :
    (context.receive [change]).time =
      match change with
      | .setTime moment => moment
      | _ => context.time := by
  cases context <;> cases change <;>
    simp only [receive, List.foldl_cons, List.foldl_nil, Leaf.receive, Frame.receive] <;> (try split) <;> rfl

theorem time_receive {context : Context} {changes : List Change} {moment : Float}
    (same : ∀ other, .setTime other ∈ changes → other = moment)
    (told : context.time = moment ∨ .setTime moment ∈ changes) : (context.receive changes).time = moment := by
  induction changes generalizing context with
  | nil =>
    rw [receive_nil]
    exact told.resolve_right (fun member => nomatch member)
  | cons change rest ih =>
    rw [← List.singleton_append, receive_append]
    refine ih (fun other member => same other (List.mem_cons_of_mem _ member)) ?_
    rw [time_told]
    rcases told with before | member
    · cases change with
      | setTime other => exact .inl (same other List.mem_cons_self)
      | _ => exact .inl before
    · rcases List.mem_cons.mp member with rfl | later
      · exact .inl rfl
      · exact .inr later

end Context

namespace Mail

theorem addressed_map (changes : List Change) (system other : Nat) :
    Mail.addressed (changes.map (fun change => (system, change))) other =
      if other = system then changes else [] := by
  unfold addressed
  rw [List.filterMap_map]
  show changes.filterMap (fun change => if system = other then some change else none) = _
  by_cases same : other = system
  · simp [same]
  · have flipped : ¬ system = other := fun equal => same equal.symm
    simp [same, flipped]

theorem addressed_single (place : Nat) (change : Change) (system : Nat) :
    Mail.addressed [(place, change)] system = if place = system then [change] else [] := by
  by_cases here : place = system <;> simp [addressed, here]

end Mail

namespace Subsystems

theorem putContext_receive {subsystems : Subsystems} {system : Nat} {child : Context}
    (present : subsystems.context? system = some child) (changes : List Change) :
    subsystems.putContext system (child.receive changes) =
      subsystems.receive (changes.map (fun change => (system, change))) := by
  refine ext ?_ (fun other => ?_) (fun other => ?_)
  · rw [size_putContext, size_receive]
  · rw [context?_putContext, context?_receive, Mail.addressed_map]
    split
    · rename_i same
      rw [same, present]
      rfl
    · simp only [Context.receive_nil, Option.map_id']
  · rw [buffer?_putContext, buffer?_receive]

theorem layout_putBuffer {subsystems : Subsystems} {system : Nat} {buffer : OutputBuffer}
    (same : ∀ old, subsystems.buffer? system = some old → buffer.count = old.count) :
    (subsystems.putBuffer system buffer).layout = subsystems.layout := by
  fun_induction putBuffer subsystems system buffer <;> simp_all [layout, buffer?]

theorem output?_write {subsystems : Subsystems} {output : Terminal} {buffer : OutputBuffer} (value : Option Value)
    (held : subsystems.buffer? output.system = some buffer) (bound : output.index < buffer.count) (other : Terminal) :
    (subsystems.putBuffer output.system (buffer.write output.index value)).output? other =
      if other = output then value else subsystems.output? other := by
  obtain ⟨system, index⟩ := output
  obtain ⟨place, position⟩ := other
  have inside : index < buffer.values.length := bound
  simp only [output?, buffer?_putBuffer, Terminal.mk.injEq]
  by_cases here : place = system
  · subst here
    by_cases same : position = index
    · simp [held, OutputBuffer.value?, OutputBuffer.cell?, OutputBuffer.write, same, inside]
    · have apart : ¬ index = position := fun equal => same equal.symm
      simp [held, OutputBuffer.value?, OutputBuffer.cell?, OutputBuffer.write, same, apart]
  · simp [here]

end Subsystems

inductive Operation.Sends : Operation → List Change → Prop where
  | change {change : Change} : Sends (.change change) [change]
  | opened {partition : Partition} {index : Nat} {revise : partition.Entry → Outcome Unit partition.Entry} :
    Sends (.edit partition index revise) [.openEntry partition index]
  | edited {partition : Partition} {index : Nat} {revise : partition.Entry → Outcome Unit partition.Entry}
    {entry : partition.Entry} :
    Sends (.edit partition index revise) [.openEntry partition index, .storeEntry partition index entry]
  | marked {count : Nat} : Sends .markAllFresh ((List.range count).map (.mark · true))

inductive Operation.Keeps : Operation → Cache → Cache → Prop where
  | issued {needs : List Ticket} {cache : Cache} (known : ∀ need ∈ needs, need.index < cache.size) :
    Keeps (.issueTicket needs) cache (cache.extend needs)
  | set {ticket : Ticket} {value : Value} {cache : Cache} :
    Keeps (.setLine ticket value) cache (cache.write ticket (some value))
  | swapped {ticket : Ticket} {value : Value} {cache : Cache} :
    Keeps (.swapLine ticket value) cache (cache.write ticket (some value))
  | invalidated {ticket : Ticket} {cache : Cache} :
    Keeps (.invalidateLine ticket) cache (cache.clear ticket)

-- What a diagram has its subsystems told without changing itself.
inductive Operation.Tells (frame : Frame) (subsystems : Subsystems) : Operation → Mail → Prop where
  | propagated {system index : Nat} {start : List Terminal} :
    Tells frame subsystems (.propagate system index) (frame.ripple subsystems.layout start)
  | propagatedMany {system : Nat} {indices : List Nat} {start : List Terminal} :
    Tells frame subsystems (.propagateMany system indices) (frame.ripple subsystems.layout start)
  | marked {system count : Nat} :
    Tells frame subsystems (.markEvaluated system)
      (((List.range count).map (.mark · true)).map (fun change => (system, change)))

-- Operations that may turn out to do nothing: they are refused, or not offered here.
def Operation.Idles (context : Context) : Operation → Prop
  | .change asked => asked.bound?.isSome
  | .edit .. | .issueTicket _ | .setLine .. | .swapLine .. | .invalidateLine _ => False
  | .reviseState _ => context.leaf? = none
  | _ => True

def Subsystems.Occupied (subsystems : Subsystems) : Prop :=
  ∀ system < subsystems.size, ∃ child, subsystems.context? system = some child

inductive Effect : Context → Operation → Context → Prop where
  | idle {context : Context} {operation : Operation} (idles : operation.Idles context) :
    Effect context operation context
  | received {context : Context} {operation : Operation} {changes : List Change}
    (sends : operation.Sends changes) : Effect context operation (context.receive changes)
  | revised {own : Leaf} {revise : State → Except Fault State} {state : State} :
    Effect (.leaf own) (.reviseState revise) (.leaf { own.openState with state := state })
  | kept {context : Context} {operation : Operation} {cache : Cache}
    (keeps : operation.Keeps context.cache cache) : Effect context operation (context.withCache cache)
  | connected {frame : Frame} {subsystems : Subsystems} {output input : Terminal}
    (source : subsystems.HasOutput output) (target : subsystems.HasInput input)
    (apart : ¬ ReflTransGen frame.wiring.Feeds input.system output.system) :
    Effect (.diagram frame subsystems) (.connect output input)
      (.diagram { frame with wiring := frame.wiring.connect output input }
        (subsystems.receive [(input.system, .bind input.index (some (.dependent ⟨frame.id, output⟩)))]))
  | exposedInput {frame : Frame} {subsystems : Subsystems} {input : Terminal}
    (target : subsystems.HasInput input) :
    Effect (.diagram frame subsystems) (.exposeInput input)
      (.diagram { frame with
        inputs := frame.inputs ++ [⟨input, ⟨frame.cache.size⟩⟩]
        cache := frame.cache.extend [] } subsystems)
  | exposedOutput {frame : Frame} {subsystems : Subsystems} {output : Terminal}
    (source : subsystems.HasOutput output) :
    Effect (.diagram frame subsystems) (.exposeOutput output)
      (.diagram { frame with outputs := frame.outputs ++ [output] } subsystems)
  | finished {frame : Frame} {subsystems : Subsystems} (occupied : subsystems.Occupied) :
    Effect (.diagram frame subsystems) .finishBuilding
      (.diagram { frame with phase := .sealed, composite := subsystems.composite } subsystems)
  | stored {frame : Frame} {subsystems : Subsystems} {output : Terminal} {value : Value} {buffer : OutputBuffer}
    (held : subsystems.buffer? output.system = some buffer) (bound : output.index < buffer.count) :
    Effect (.diagram frame subsystems) (.setOutput output value)
      (.diagram frame ((subsystems.putBuffer output.system (buffer.write output.index (some value))).receive
        (frame.ripple subsystems.layout [output] ++ [(output.system, .mark output.index true)])))
  | told {frame : Frame} {subsystems : Subsystems} {operation : Operation} {mail : Mail}
    (tells : operation.Tells frame subsystems mail) :
    Effect (.diagram frame subsystems) operation (.diagram frame (subsystems.receive mail))

namespace Context

theorem send_done {context after : Context} {change : Change} {answer : Unit}
    (sent : context.send change = .done answer after) : after = context.receive [change] := by
  unfold send at sent
  split at sent <;> cases sent
  rfl

theorem afterRefusedBind_outside {context : Context} {index : Nat} (outside : ¬ index < context.inputCount) :
    context.afterRefusedBind index = context := by
  cases context with
  | leaf own => rfl
  | diagram frame subsystems =>
    have missing : frame.inputs[index]? = none := List.getElem?_eq_none (Nat.le_of_not_lt outside)
    simp only [afterRefusedBind, Frame.input, missing]

theorem send_refused {context after : Context} (sound : context.WellFormed) {change : Change} {refusal : Refusal}
    (sent : context.send change = .refused refusal after) :
    (∃ index, change.bound? = some index ∧ ¬ index < context.inputCount) ∧ after = context := by
  unfold send at sent
  split at sent <;> cases sent
  rename_i objection
  have binds : ∃ index, change.bound? = some index ∧ ¬ index < context.inputCount := by
    refine Classical.byContradiction (fun none => ?_)
    refine verdict_not_refused sound (fun index binds => ?_) _ objection
    exact Classical.byContradiction (fun outside => none ⟨index, binds, outside⟩)
  refine ⟨binds, ?_⟩
  obtain ⟨index, binds, outside⟩ := binds
  cases change with
  | bind place _ => cases binds; exact afterRefusedBind_outside outside
  | rebind => rfl
  | _ => cases binds

theorem send_left {context after : Context} (sound : context.WellFormed) {change : Change}
    (left : (context.send change).left? = some after) :
    ((∃ index, change.bound? = some index ∧ ¬ index < context.inputCount) ∧ after = context) ∨
      after = context.receive [change] := by
  rcases Outcome.left?_eq_some.mp left with ⟨_, done⟩ | ⟨_, refused⟩
  · exact .inr (send_done done)
  · exact .inl (send_refused sound refused)

theorem edit_left {context after : Context} (sound : context.WellFormed) {partition : Partition} {index : Nat}
    {revise : partition.Entry → Outcome Unit partition.Entry}
    (left : (context.edit partition index revise).left? = some after) :
    after = context.receive [.openEntry partition index] ∨
      ∃ entry, after = context.receive [.openEntry partition index, .storeEntry partition index entry] := by
  unfold edit at left
  split at left
  · rename_i opened sent
    have reached := send_done sent
    split at left
    · cases left; exact .inl reached
    · split at left
      · rename_i written _ _
        rw [Outcome.left?_answering] at left
        rcases send_left (reached ▸ sound.receive _) left with ⟨⟨_, binds, _⟩, _⟩ | stored
        · cases binds
        · refine .inr ⟨written, ?_⟩
          rw [stored, reached, ← receive_append]
          rfl
      · cases left; exact .inl reached
      · cases left
  · rename_i sent
    obtain ⟨⟨_, binds, _⟩, _⟩ := send_refused sound sent
    cases binds
  · cases left

theorem markAllFresh_left {context after : Context} (sound : context.WellFormed)
    (left : context.markAllFresh.left? = some after) :
    after = context.receive ((List.range context.outputCount).map (.mark · true)) := by
  unfold markAllFresh at left
  dsimp only at left
  split at left <;> cases left
  · rfl
  · rename_i objection
    obtain ⟨change, asked, verdict⟩ := List.mem_map.mp (Verdict.all_refused objection)
    obtain ⟨index, _, rfl⟩ := List.mem_map.mp asked
    refine absurd verdict (verdict_not_refused sound ?_ _)
    exact fun _ binds => nomatch binds

theorem onCache_left {context after : Context} {operation : Cache → Outcome Cache Answer}
    (left : (context.onCache operation).left? = some after) :
    ∃ cache, (operation context.cache).left? = some cache ∧ after = context.withCache cache := by
  unfold onCache at left
  rw [Outcome.left?_within] at left
  obtain ⟨cache, performed, same⟩ := Option.map_eq_some_iff.mp left
  exact ⟨cache, performed, same.symm⟩

end Context

namespace Cache

theorem issue_left {cache later : Cache} {needs : List Ticket} (left : (cache.issue needs).left? = some later) :
    (∀ need ∈ needs, need.index < cache.size) ∧ later = cache.extend needs := by
  unfold issue at left
  split at left
  · cases left
  · rename_i none
    cases left
    refine ⟨fun need member => ?_, rfl⟩
    refine Nat.lt_of_not_le (fun unknown => ?_)
    have listed : need.index ∈ (needs.map Ticket.index).filter (cache.size ≤ ·) :=
      List.mem_filter.mpr ⟨List.mem_map_of_mem member, decide_eq_true unknown⟩
    rw [List.min?_eq_none_iff.mp none] at listed
    cases listed

theorem swap_left {cache later : Cache} {ticket : Ticket} {value : Value}
    (left : (cache.swap ticket value).left? = some later) :
    ticket.index < cache.size ∧ later = cache.write ticket (some value) := by
  unfold swap at left
  split at left <;> cases left
  rename_i found
  exact ⟨issued_of_line found, rfl⟩

theorem invalidate_left {cache later : Cache} {ticket : Ticket}
    (left : (cache.invalidate ticket).left? = some later) :
    ticket.index < cache.size ∧ later = cache.clear ticket := by
  unfold invalidate at left
  split at left <;> cases left
  rename_i found
  exact ⟨issued_of_line found, rfl⟩

end Cache

namespace Operation
variable {cache later : Cache} {needs : List Ticket} {ticket : Ticket} {value : Value}

theorem keeps_issue (left : (cache.issue needs).left? = some later) : (issueTicket needs).Keeps cache later := by
  obtain ⟨known, rfl⟩ := Cache.issue_left left
  exact .issued known

theorem keeps_set (left : (cache.set ticket value).left? = some later) : (setLine ticket value).Keeps cache later := by
  rw [Cache.set, Outcome.left?_answering] at left
  rw [(Cache.swap_left left).2]
  exact .set

theorem keeps_swap (left : (cache.swap ticket value).left? = some later) : (swapLine ticket value).Keeps cache later := by
  rw [(Cache.swap_left left).2]
  exact .swapped

theorem keeps_invalidate (left : (cache.invalidate ticket).left? = some later) :
    (invalidateLine ticket).Keeps cache later := by
  rw [(Cache.invalidate_left left).2]
  exact .invalidated

end Operation

namespace Cache

-- Conversely, a call that names issued tickets only is carried out.
theorem issue_known {cache : Cache} {needs : List Ticket} (known : ∀ need ∈ needs, need.index < cache.size) :
    cache.issue needs = .done ⟨cache.size⟩ (cache.extend needs) := by
  have none : ((needs.map Ticket.index).filter (cache.size ≤ ·)).min? = none := by
    rw [List.min?_eq_none_iff, List.filter_eq_nil_iff]
    intro index listed
    obtain ⟨need, member, rfl⟩ := List.mem_map.mp listed
    have bound := known need member
    simp only [decide_eq_true_eq]
    omega
  rw [issue, none]

theorem swap_issued {cache : Cache} {ticket : Ticket} (issued : ticket.index < cache.size) (value : Value) :
    cache.swap ticket value = .done (cache.value? ticket) (cache.write ticket (some value)) := by
  obtain ⟨line, _, found, held, _⟩ := line_issued issued
  rw [swap, found, ← held]

theorem invalidate_issued {cache : Cache} {ticket : Ticket} (issued : ticket.index < cache.size) :
    cache.invalidate ticket = .done () (cache.clear ticket) := by
  obtain ⟨line, _, found, _⟩ := line_issued issued
  rw [invalidate, found]

end Cache

namespace Subsystems
variable {subsystems after : Subsystems} {system : Nat} {child : Context} {change : Change}

theorem send_done {answer : Unit} (present : subsystems.context? system = some child)
    (sent : subsystems.send system change = .done answer after) :
    after = subsystems.receive [(system, change)] := by
  unfold send at sent
  rw [context_eq_ok.mpr present] at sent
  cases performed : child.send change with
  | done done changed =>
    simp only [performed, Outcome.within, Outcome.done.injEq] at sent
    rw [← sent.2, Context.send_done performed]
    exact putContext_receive present [change]
  | refused => simp only [performed, Outcome.within, reduceCtorEq] at sent
  | aborted => simp only [performed, Outcome.within, reduceCtorEq] at sent

theorem send_not_refused {refusal : Refusal} (present : subsystems.context? system = some child)
    (sound : child.WellFormed) (bound : ∀ index, change.bound? = some index → index < child.inputCount) :
    subsystems.send system change ≠ .refused refusal after := by
  intro sent
  unfold send at sent
  rw [context_eq_ok.mpr present] at sent
  simp only [Context.send] at sent
  split at sent
  · cases sent
  · rename_i objection
    exact Context.verdict_not_refused sound bound _ objection
  · cases sent

end Subsystems

namespace Diagram
variable {diagram after : Diagram}

theorem checkOutput_eq_ok {output : Terminal} :
    diagram.checkOutput output = .ok () ↔ diagram.subsystems.HasOutput output := by
  unfold checkOutput Subsystems.HasOutput
  cases held : diagram.subsystems.buffer output.system with
  | error => simp [← Subsystems.buffer_eq_ok, held]
  | ok buffer => simp [← Subsystems.buffer_eq_ok, held]

theorem checkInput_eq_ok {input : Terminal} :
    diagram.checkInput input = .ok () ↔ diagram.subsystems.HasInput input := by
  unfold checkInput Subsystems.HasInput
  cases held : diagram.subsystems.context input.system with
  | error => simp [← Subsystems.context_eq_ok, held]
  | ok child => simp [← Subsystems.context_eq_ok, held]

theorem closesLoop_iff (coherent : diagram.frame.wiring.Coherent) {output input : Terminal} :
    diagram.closesLoop output input = true ↔
      ReflTransGen diagram.frame.wiring.Feeds input.system output.system := by
  rw [closesLoop, Bool.or_eq_true, decide_eq_true_eq, Wiring.reaches_feeds coherent, reflTransGen_iff_eq_or_transGen]

theorem connect_done (sound : diagram.context.WellFormed) {output input : Terminal} {answer : Unit}
    (done : diagram.connect output input = .done answer after) :
    diagram.subsystems.HasOutput output ∧ diagram.subsystems.HasInput input ∧
      ¬ ReflTransGen diagram.frame.wiring.Feeds input.system output.system ∧
      after = ⟨{ diagram.frame with wiring := diagram.frame.wiring.connect output input },
        diagram.subsystems.receive [(input.system, .bind input.index (some (.dependent ⟨diagram.frame.id, output⟩)))]⟩ := by
  simp only [connect, whileBuilding] at done
  split at done
  · split at done
    · cases done
    · rename_i source
      split at done
      · cases done
      · rename_i target
        split at done
        · cases done
        · rename_i free
          obtain ⟨child, present, bound⟩ := checkInput_eq_ok.mp target
          split at done
          · rename_i sent
            cases done
            rw [Subsystems.send_done present sent]
            exact ⟨checkOutput_eq_ok.mp source, ⟨child, present, bound⟩,
              fun path => free ((closesLoop_iff sound.frame.coherent).mpr path), rfl⟩
          · cases done
          · cases done
  · cases done

-- What keeps a wire from being drawn shows before anything is touched.
theorem connect_refused (sound : diagram.context.WellFormed) {output input : Terminal} {refusal : Refusal}
    (refused : diagram.connect output input = .refused refusal after) : after = diagram := by
  simp only [connect, whileBuilding] at refused
  split at refused
  · split at refused
    · cases refused; rfl
    · split at refused
      · cases refused; rfl
      · rename_i target
        split at refused
        · cases refused; rfl
        · obtain ⟨child, present, bound⟩ := checkInput_eq_ok.mp target
          split at refused
          · cases refused
          · rename_i sent
            refine absurd sent (Subsystems.send_not_refused present (sound.child present) ?_)
            intro index binds
            cases binds
            exact bound
          · cases refused
  · cases refused; rfl

theorem connect_left (sound : diagram.context.WellFormed) {output input : Terminal}
    (left : (diagram.connect output input).left? = some after) :
    Effect diagram.context (.connect output input) after.context := by
  rcases Outcome.left?_eq_some.mp left with ⟨_, done⟩ | ⟨_, refused⟩
  · obtain ⟨source, target, apart, rfl⟩ := connect_done sound done
    exact .connected source target apart
  · rw [connect_refused sound refused]
    exact .idle trivial

theorem exposeInput_left {input : Terminal} (left : (diagram.exposeInput input).left? = some after) :
    Effect diagram.context (.exposeInput input) after.context := by
  simp only [exposeInput, whileBuilding] at left
  split at left
  · split at left
    · cases left; exact .idle trivial
    · rename_i target
      cases left
      exact .exposedInput (checkInput_eq_ok.mp target)
  · cases left; exact .idle trivial

theorem exposeOutput_left {output : Terminal} (left : (diagram.exposeOutput output).left? = some after) :
    Effect diagram.context (.exposeOutput output) after.context := by
  simp only [exposeOutput, whileBuilding] at left
  split at left
  · split at left
    · cases left; exact .idle trivial
    · rename_i source
      cases left
      exact .exposedOutput (checkOutput_eq_ok.mp source)
  · cases left; exact .idle trivial

theorem firstVacancy?_eq_none : diagram.firstVacancy? = none ↔ diagram.subsystems.Occupied := by
  simp only [firstVacancy?, List.find?_eq_none, List.mem_range, Option.isNone_iff_eq_none, ← ne_eq,
    Option.ne_none_iff_exists', Subsystems.Occupied]

theorem finishBuilding_left (left : diagram.finishBuilding.left? = some after) :
    Effect diagram.context .finishBuilding after.context := by
  simp only [finishBuilding, whileBuilding] at left
  split at left
  · split at left
    · cases left; exact .idle trivial
    · rename_i filled
      cases left
      exact .finished (firstVacancy?_eq_none.mp filled)
  · cases left; exact .idle trivial

theorem propagateFrom_done_iff {start : List Terminal} {changed : List Nat} :
    diagram.propagateFrom start = .done changed after ↔
      diagram.subsystems.deliver (diagram.frame.ripple diagram.layout start) = .ok after.subsystems ∧
        after.frame = diagram.frame ∧ changed = diagram.frame.reachedOutputs diagram.layout start := by
  obtain ⟨frame, subsystems⟩ := after
  unfold propagateFrom
  cases diagram.subsystems.deliver (diagram.frame.ripple diagram.layout start) with
  | error => simp
  | ok rippled =>
    simp only [withSubsystems, Outcome.done.injEq, mk.injEq, Except.ok.injEq]
    constructor
    · rintro ⟨rfl, rfl, rfl⟩
      exact ⟨rfl, rfl, rfl⟩
    · rintro ⟨rfl, rfl, rfl⟩
      exact ⟨rfl, rfl, rfl⟩

theorem propagateFrom_done {start : List Terminal} {changed : List Nat}
    (propagated : diagram.propagateFrom start = .done changed after) :
    after = diagram.withSubsystems (diagram.subsystems.receive (diagram.frame.ripple diagram.layout start)) := by
  obtain ⟨frame, subsystems⟩ := after
  obtain ⟨delivered, rfl, _⟩ := propagateFrom_done_iff.mp propagated
  unfold Subsystems.deliver at delivered
  split at delivered <;> cases delivered
  rfl

theorem propagateFrom_not_refused {start : List Terminal} {refusal : Refusal} :
    diagram.propagateFrom start ≠ .refused refusal after := by
  unfold propagateFrom
  split <;> exact nofun

theorem strayOutput?_eq_none {count : Nat} {indices : List Nat} :
    strayOutput? count indices = none ↔ ∀ index ∈ indices, index < count := by
  simp only [strayOutput?, List.find?_eq_none, decide_eq_true_eq, Nat.not_le]

-- The outputs of a subsystem at some indices, in the order they are declared in.
def startsOf (buffer : OutputBuffer) (system : Nat) (indices : List Nat) : List Terminal :=
  (terminalsOf system buffer.count).filter (fun output => output.index ∈ indices)

theorem mem_startsOf {buffer : OutputBuffer} {system : Nat} {indices : List Nat}
    (bound : ∀ index ∈ indices, index < buffer.count) {output : Terminal} :
    output ∈ startsOf buffer system indices ↔ output.system = system ∧ output.index ∈ indices := by
  rw [startsOf, List.mem_filter, mem_terminalsOf, decide_eq_true_eq]
  exact ⟨fun held => ⟨held.1.1, held.2⟩, fun held => ⟨⟨held.1, bound _ held.2⟩, held.2⟩⟩

theorem propagateAs_eq {buffer : OutputBuffer} {system : Nat} {indices : List Nat} (named : SealedOnly)
    (closed : diagram.frame.phase = .sealed) (held : diagram.subsystems.buffer? system = some buffer)
    (bound : ∀ index ∈ indices, index < buffer.count) :
    propagateAs named diagram system indices = diagram.propagateFrom (startsOf buffer system indices) := by
  have output : diagram.subsystemOutput system = .ok buffer := by
    rw [subsystemOutput, Subsystems.buffer_eq_ok.mpr held]
    rfl
  simp only [propagateAs, closed, output, strayOutput?_eq_none.mpr bound]
  rfl

theorem propagateAs_left {named : SealedOnly} {system : Nat} {indices : List Nat}
    (left : (propagateAs named diagram system indices).left? = some after) :
    ∃ start, (∀ index ∈ indices, ⟨system, index⟩ ∈ start) ∧ after =
      diagram.withSubsystems (diagram.subsystems.receive (diagram.frame.ripple diagram.layout start)) := by
  unfold propagateAs at left
  split at left
  · cases left
  · split at left
    · cases left
    · split at left
      · cases left
      · rename_i buffer _ _ within
        have bound := strayOutput?_eq_none.mp within
        refine ⟨startsOf buffer system indices, fun index given => (mem_startsOf bound).mpr ⟨rfl, given⟩, ?_⟩
        rcases Outcome.left?_eq_some.mp left with ⟨_, done⟩ | ⟨_, refused⟩
        · exact propagateFrom_done done
        · exact absurd refused propagateFrom_not_refused

theorem propagate_left {system index : Nat} (left : (diagram.propagate system index).left? = some after) :
    Effect diagram.context (.propagate system index) after.context := by
  obtain ⟨start, _, rfl⟩ := propagateAs_left left
  exact .told .propagated

theorem propagateMany_left {system : Nat} {indices : List Nat}
    (left : (diagram.propagateMany system indices).left? = some after) :
    Effect diagram.context (.propagateMany system indices) after.context := by
  obtain ⟨start, _, rfl⟩ := propagateAs_left left
  exact .told .propagatedMany

theorem layout_store {output : Terminal} {buffer : OutputBuffer} (value : Value)
    (held : diagram.subsystems.buffer? output.system = some buffer) :
    (diagram.store output buffer value).layout = diagram.layout := by
  refine Subsystems.layout_putBuffer (fun old there => ?_)
  rw [held] at there
  cases there
  exact OutputBuffer.count_write _ _ _

theorem context?_stored {output : Terminal} {child : Context} (buffer : OutputBuffer) (mail : Mail)
    (present : diagram.subsystems.context? output.system = some child) :
    ((diagram.subsystems.putBuffer output.system buffer).receive mail).context? output.system =
      some (child.receive (mail.addressed output.system)) :=
  Subsystems.context?_received ((Subsystems.context?_putBuffer _ _ _ _).trans present) mail

-- The mark that completes a store is sent to a context that is there and not refused.
theorem store_propagated (sound : diagram.context.WellFormed) {output : Terminal} {buffer : OutputBuffer} {value : Value}
    {changed : List Nat} {rippled : Diagram} (held : diagram.subsystems.buffer? output.system = some buffer)
    (propagated : (diagram.store output buffer value).propagateFrom [output] = .done changed rippled) :
    rippled = ⟨diagram.frame, (diagram.subsystems.putBuffer output.system
        (buffer.write output.index (some value))).receive (diagram.frame.ripple diagram.layout [output])⟩ ∧
      (∃ child, rippled.subsystems.context? output.system = some child) ∧
      ∀ refusal left, rippled.subsystems.send output.system (.mark output.index true) ≠ .refused refusal left := by
  have spread := propagateFrom_done propagated
  rw [layout_store value held] at spread
  obtain ⟨child, present⟩ := Subsystems.context?_of_buffer? held
  have there : rippled.subsystems.context? output.system =
      some (child.receive (Mail.addressed (diagram.frame.ripple diagram.layout [output]) output.system)) := by
    rw [spread]
    exact context?_stored _ _ present
  refine ⟨spread, ⟨_, there⟩, fun refusal left => ?_⟩
  exact Subsystems.send_not_refused there ((sound.child present).receive _) (fun _ binds => nomatch binds)

theorem setOutput_stored (sound : diagram.context.WellFormed) (closed : diagram.frame.phase = .sealed)
    {output : Terminal} {buffer : OutputBuffer} {value : Value}
    (held : diagram.subsystems.buffer? output.system = some buffer) (bound : output.index < buffer.count)
    (left : (diagram.setOutput output value).left? = some after) :
    after = ⟨diagram.frame, (diagram.subsystems.putBuffer output.system
      (buffer.write output.index (some value))).receive
        (diagram.frame.ripple diagram.layout [output] ++ [(output.system, .mark output.index true)])⟩ := by
  simp only [setOutput, closed, Subsystems.buffer_eq_ok.mpr held, if_pos bound] at left
  split at left
  · rename_i changed rippled propagated
    obtain ⟨spread, ⟨child, there⟩, heard⟩ := store_propagated sound held propagated
    rw [Outcome.left?_within, Outcome.left?_answering] at left
    obtain ⟨marked, sent, rfl⟩ := Option.map_eq_some_iff.mp left
    have marks : marked = rippled.subsystems.receive [(output.system, .mark output.index true)] := by
      rcases Outcome.left?_eq_some.mp sent with ⟨_, done⟩ | ⟨_, refused⟩
      · exact Subsystems.send_done there done
      · exact absurd refused (heard _ _)
    rw [marks, spread, Subsystems.receive_append]
    rfl
  · rename_i broken
    rcases Outcome.left?_eq_some.mp left with ⟨changed, done⟩ | ⟨_, refused⟩
    · exact absurd done (broken changed after)
    · exact absurd refused propagateFrom_not_refused

theorem setOutput_done (sound : diagram.context.WellFormed) {output : Terminal} {value : Value} {changed : List Nat}
    (done : diagram.setOutput output value = .done changed after) :
    ∃ buffer, diagram.subsystems.buffer? output.system = some buffer ∧ output.index < buffer.count ∧
      after = ⟨diagram.frame, (diagram.subsystems.putBuffer output.system
        (buffer.write output.index (some value))).receive
          (diagram.frame.ripple diagram.layout [output] ++ [(output.system, .mark output.index true)])⟩ := by
  have left := congrArg Outcome.left? done
  unfold setOutput at done
  split at done
  · cases done
  · rename_i closed
    split at done
    · cases done
    · rename_i buffer found
      have held := Subsystems.buffer_eq_ok.mp found
      split at done
      · rename_i bound
        exact ⟨buffer, held, bound, setOutput_stored sound closed held bound left⟩
      · cases done

theorem setOutput_refused (sound : diagram.context.WellFormed) {output : Terminal} {value : Value} {refusal : Refusal}
    (refused : diagram.setOutput output value = .refused refusal after) : after = diagram := by
  unfold setOutput at refused
  split at refused
  · cases refused; rfl
  · split at refused
    · cases refused; rfl
    · rename_i buffer found
      have held := Subsystems.buffer_eq_ok.mp found
      split at refused
      · split at refused
        · rename_i changed rippled propagated
          obtain ⟨_, _, heard⟩ := store_propagated sound held propagated
          obtain ⟨_, answered, _⟩ := Outcome.within_eq_refused.mp refused
          exact absurd (Outcome.answering_eq_refused.mp answered) (heard _ _)
        · exact absurd refused propagateFrom_not_refused
      · cases refused; rfl

theorem setOutput_left (sound : diagram.context.WellFormed) {output : Terminal} {value : Value}
    (left : (diagram.setOutput output value).left? = some after) :
    Effect diagram.context (.setOutput output value) after.context := by
  rcases Outcome.left?_eq_some.mp left with ⟨_, done⟩ | ⟨_, refused⟩
  · obtain ⟨buffer, held, bound, rfl⟩ := setOutput_done sound done
    exact .stored held bound
  · rw [setOutput_refused sound refused]
    exact .idle trivial

theorem markEvaluated_told (sound : diagram.context.WellFormed) {system : Nat}
    (left : (diagram.markEvaluated system).left? = some after) :
    ∃ child, diagram.subsystems.context? system = some child ∧
      after = diagram.withSubsystems (diagram.subsystems.receive
        (((List.range child.outputCount).map (.mark · true)).map (fun change => (system, change)))) := by
  unfold markEvaluated at left
  split at left
  · cases left
  · rename_i child found
    have present := Subsystems.context_eq_ok.mp found
    rw [Outcome.left?_within] at left
    obtain ⟨marked, performed, rfl⟩ := Option.map_eq_some_iff.mp left
    refine ⟨child, present, ?_⟩
    rw [Context.markAllFresh_left (sound.child present) performed, Subsystems.putContext_receive present]

theorem markEvaluated_left (sound : diagram.context.WellFormed) {system : Nat}
    (left : (diagram.markEvaluated system).left? = some after) :
    Effect diagram.context (.markEvaluated system) after.context := by
  obtain ⟨child, _, rfl⟩ := markEvaluated_told sound left
  exact .told .marked

end Diagram

namespace Context

variable {context after : Context} {operation : Operation} {α : Type}

theorem change_effect (sound : context.WellFormed) {asked : Change} (left : (context.send asked).left? = some after) :
    Effect context (.change asked) after := by
  rcases send_left sound left with ⟨⟨_, binds, _⟩, rfl⟩ | rfl
  · exact .idle (Option.isSome_of_eq_some binds)
  · exact .received .change

theorem edit_effect (sound : context.WellFormed) {partition : Partition} {index : Nat}
    {revise : partition.Entry → Outcome Unit partition.Entry}
    (left : (context.edit partition index revise).left? = some after) :
    Effect context (.edit partition index revise) after := by
  rcases edit_left sound left with rfl | ⟨entry, rfl⟩
  · exact .received .opened
  · exact .received .edited

theorem reviseState_effect {revise : State → Except Fault State}
    (left : (context.perform (.reviseState revise)).left? = some after) : Effect context (.reviseState revise) after := by
  cases context with
  | diagram => cases left; exact .idle rfl
  | leaf own =>
    simp only [perform, onLeaf, Outcome.left?_within, Outcome.left?_answering, Option.map_eq_some_iff] at left
    obtain ⟨revised, performed, rfl⟩ := left
    unfold Leaf.reviseState at performed
    split at performed <;> cases performed
    exact .revised

theorem markAllFresh_effect (sound : context.WellFormed) (left : context.markAllFresh.left? = some after) :
    Effect context .markAllFresh after := by
  rw [markAllFresh_left sound left]
  exact .received .marked

theorem onCache_effect {task : Cache → Outcome Cache α} {call : Cache → Outcome Cache Answer}
    (left : (context.onCache call).left? = some after) (same : ∀ cache, (call cache).left? = (task cache).left?)
    (keeps : ∀ cache, (task context.cache).left? = some cache → operation.Keeps context.cache cache) :
    Effect context operation after := by
  obtain ⟨cache, done, rfl⟩ := onCache_left left
  exact .kept (keeps cache ((same _).symm.trans done))

theorem onDiagram_effect {task : Diagram → Outcome Diagram α} {call : Diagram → Outcome Diagram Answer}
    (left : (context.onDiagram call).left? = some after) (same : ∀ diagram, (call diagram).left? = (task diagram).left?)
    (idles : operation.Idles context)
    (done : ∀ diagram changed : Diagram, context = diagram.context → (task diagram).left? = some changed →
      Effect diagram.context operation changed.context) : Effect context operation after := by
  rcases onDiagram_left left with rfl | ⟨frame, subsystems, changed, rfl, performed, rfl⟩
  · exact .idle idles
  · exact done ⟨frame, subsystems⟩ changed rfl ((same _).symm.trans performed)

theorem perform_effect (sound : context.WellFormed) (left : (context.perform operation).left? = some after) :
    Effect context operation after := by
  cases operation with
  | change => exact change_effect sound ((Outcome.left?_answering _ _).symm.trans left)
  | edit => exact edit_effect sound ((Outcome.left?_map _ _).symm.trans left)
  | reviseState => exact reviseState_effect left
  | markAllFresh => exact markAllFresh_effect sound ((Outcome.left?_answering _ _).symm.trans left)
  | issueTicket =>
    rw [perform] at left
    exact onCache_effect left (fun _ => Outcome.left?_map _ _) (fun _ => Operation.keeps_issue)
  | setLine =>
    rw [perform] at left
    exact onCache_effect left (fun _ => Outcome.left?_map _ _) (fun _ => Operation.keeps_set)
  | swapLine =>
    rw [perform] at left
    exact onCache_effect left (fun _ => Outcome.left?_map _ _) (fun _ => Operation.keeps_swap)
  | invalidateLine =>
    rw [perform] at left
    exact onCache_effect left (fun _ => Outcome.left?_answering _ _) (fun _ => Operation.keeps_invalidate)
  | connect =>
    rw [perform] at left
    refine onDiagram_effect left (fun _ => Outcome.left?_answering _ _) trivial (fun diagram changed same => ?_)
    exact Diagram.connect_left (same ▸ sound)
  | exposeInput =>
    rw [perform] at left
    exact onDiagram_effect left (fun _ => Outcome.left?_map _ _) trivial (fun _ _ _ => Diagram.exposeInput_left)
  | exposeOutput =>
    rw [perform] at left
    exact onDiagram_effect left (fun _ => Outcome.left?_map _ _) trivial (fun _ _ _ => Diagram.exposeOutput_left)
  | finishBuilding =>
    rw [perform] at left
    exact onDiagram_effect left (fun _ => Outcome.left?_answering _ _) trivial (fun _ _ _ => Diagram.finishBuilding_left)
  | setOutput =>
    rw [perform] at left
    refine onDiagram_effect left (fun _ => Outcome.left?_map _ _) trivial (fun diagram changed same => ?_)
    exact Diagram.setOutput_left (same ▸ sound)
  | propagate =>
    rw [perform] at left
    exact onDiagram_effect left (fun _ => Outcome.left?_map _ _) trivial (fun _ _ _ => Diagram.propagate_left)
  | propagateMany =>
    rw [perform] at left
    exact onDiagram_effect left (fun _ => Outcome.left?_map _ _) trivial (fun _ _ _ => Diagram.propagateMany_left)
  | markEvaluated =>
    rw [perform] at left
    refine onDiagram_effect left (fun _ => Outcome.left?_answering _ _) trivial (fun diagram changed same => ?_)
    exact Diagram.markEvaluated_left (same ▸ sound)

end Context
end BlockDiagram
