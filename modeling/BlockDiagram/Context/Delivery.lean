import BlockDiagram.Context

namespace BlockDiagram

mutual
def Context.verdict : Context → Change → Verdict
  | .leaf own, change => own.verdict change
  | .diagram frame subsystems, change =>
    match frame.verdict change with
    | .accepted =>
      .all ((frame.mail subsystems.layout change).map (fun item =>
        (subsystems.verdictAt item.1 item.2).getD (item.2.undelivered (subsystems.absence item.1))))
    | objection => objection
def Subsystems.verdictAt : Subsystems → Nat → Change → Option Verdict
  | .nil, _, _ => none
  | .vacant _, 0, _ => none
  | .filled context _ _, 0, change => some (context.verdict change)
  | .vacant rest, system + 1, change => rest.verdictAt system change
  | .filled _ _ rest, system + 1, change => rest.verdictAt system change
end

mutual
def Context.receive : Context → List Change → Context
  | .leaf own, changes => .leaf (changes.foldl Leaf.receive own)
  | .diagram frame subsystems, changes =>
    .diagram (changes.foldl Frame.receive frame)
      (subsystems.receive (changes.flatMap (frame.mail subsystems.layout)))
def Subsystems.receive : Subsystems → Mail → Subsystems
  | .nil, _ => .nil
  | .vacant rest, mail => .vacant (rest.receive mail.later)
  | .filled context buffer rest, mail =>
    .filled (context.receive mail.first) buffer (rest.receive mail.later)
end

-- What the attempt to bind an input leaves behind when it is refused further
-- down: each diagram on the way has cleared what depends on its own input.
mutual
def Context.afterRefusedBind : Context → Nat → Context
  | .leaf own, _ => .leaf own
  | .diagram frame subsystems, index =>
    match frame.input index with
    | .ok exposed =>
      .diagram (frame.clear exposed.ticket)
        (subsystems.afterRefusedBindAt exposed.terminal.system exposed.terminal.index)
    | .error _ => .diagram frame subsystems
def Subsystems.afterRefusedBindAt : Subsystems → Nat → Nat → Subsystems
  | .nil, _, _ => .nil
  | .vacant rest, 0, _ => .vacant rest
  | .filled context buffer rest, 0, index => .filled (context.afterRefusedBind index) buffer rest
  | .vacant rest, system + 1, index => .vacant (rest.afterRefusedBindAt system index)
  | .filled context buffer rest, system + 1, index =>
    .filled context buffer (rest.afterRefusedBindAt system index)
end

def Context.afterRefused (context : Context) : Change → Context
  | .bind index _ => context.afterRefusedBind index
  | _ => context

def Context.send (context : Context) (change : Change) : Outcome Context Unit :=
  match context.verdict change with
  | .accepted => .done () (context.receive [change])
  | .refused refusal => .refused refusal (context.afterRefused change)
  | .aborted fault => .aborted fault

def Context.markAllFresh (context : Context) : Outcome Context Unit :=
  let changes := (List.range context.outputCount).map (.mark · true)
  match Verdict.all (changes.map context.verdict) with
  | .accepted => .done () (context.receive changes)
  | .refused refusal => .refused refusal context
  | .aborted fault => .aborted fault

namespace Subsystems

def verdict (subsystems : Subsystems) (system : Nat) (change : Change) : Verdict :=
  (subsystems.verdictAt system change).getD (change.undelivered (subsystems.absence system))

def deliver (subsystems : Subsystems) (mail : Mail) : Except Fault Subsystems :=
  match Verdict.all (mail.map (fun item => subsystems.verdict item.1 item.2)) with
  | .aborted fault => .error fault
  | _ => .ok (subsystems.receive mail)

def send (subsystems : Subsystems) (system : Nat) (change : Change) : Outcome Subsystems Unit :=
  match subsystems.context system with
  | .ok context => (context.send change).within (subsystems.putContext system)
  | .error missing =>
    match change.undelivered missing with
    | .accepted => .done () subsystems
    | .refused refusal => .refused refusal subsystems
    | .aborted fault => .aborted fault

end Subsystems

theorem Context.verdict_diagram (frame : Frame) (subsystems : Subsystems) (change : Change)
    (accepted : frame.verdict change = .accepted) :
    (Context.diagram frame subsystems).verdict change =
      .all ((frame.mail subsystems.layout change).map
        (fun item => subsystems.verdict item.1 item.2)) := by
  simp only [Context.verdict, accepted, Subsystems.verdict]

theorem Context.outputCount_receive (context : Context) (changes : List Change) :
    (context.receive changes).outputCount = context.outputCount := by
  cases context with
  | leaf own => exact own.outputs_receiveAll changes
  | diagram frame subsystems => exact congrArg List.length (Frame.Steady.receiveAll frame changes).outputs

theorem Subsystems.layout_receive : (subsystems : Subsystems) → (mail : Mail) →
    (subsystems.receive mail).layout = subsystems.layout
  | .nil, _ => rfl
  | .vacant rest, mail => congrArg (none :: ·) (rest.layout_receive mail.later)
  | .filled context buffer rest, mail => by
    simp only [Subsystems.receive, Subsystems.layout, context.outputCount_receive,
      rest.layout_receive mail.later]

mutual
theorem Context.receive_append : (context : Context) → (earlier later : List Change) →
    context.receive (earlier ++ later) = (context.receive earlier).receive later
  | .leaf own, earlier, later => by simp only [Context.receive, List.foldl_append]
  | .diagram frame subsystems, earlier, later => by
    simp only [Context.receive, List.foldl_append, List.flatMap_append, Frame.mail_receiveAll,
      subsystems.layout_receive, subsystems.receive_append]
theorem Subsystems.receive_append : (subsystems : Subsystems) → (earlier later : Mail) →
    subsystems.receive (earlier ++ later) = (subsystems.receive earlier).receive later
  | .nil, _, _ => rfl
  | .vacant rest, earlier, later => by
    simp only [Subsystems.receive, Mail.later_append, rest.receive_append]
  | .filled context buffer rest, earlier, later => by
    simp only [Subsystems.receive, Mail.first_append, Mail.later_append, context.receive_append,
      rest.receive_append]
end

theorem Subsystems.verdictAt_eq (subsystems : Subsystems) (system : Nat) (change : Change) :
    subsystems.verdictAt system change = (subsystems.context? system).map (·.verdict change) := by
  fun_induction Subsystems.context? subsystems system <;> simp_all [Subsystems.verdictAt]

end BlockDiagram
