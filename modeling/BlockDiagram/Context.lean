import BlockDiagram.Frame

namespace BlockDiagram

mutual
inductive Context where
  | leaf (leaf : Leaf)
  | diagram (frame : Frame) (subsystems : Subsystems)
inductive Subsystems where
  | nil
  | vacant (rest : Subsystems)
  | filled (context : Context) (buffer : OutputBuffer) (rest : Subsystems)
end

deriving instance DecidableEq for Context, Subsystems

namespace Context

def id : Context → ContextId
  | .leaf own => own.id
  | .diagram frame _ => frame.id

def time : Context → Float
  | .leaf own => own.time
  | .diagram frame _ => frame.time

def cache : Context → Cache
  | .leaf own => own.cache
  | .diagram frame _ => frame.cache

def withCache (context : Context) (cache : Cache) : Context :=
  match context with
  | .leaf own => .leaf { own with cache := cache }
  | .diagram frame subsystems => .diagram { frame with cache := cache } subsystems

def inputCount : Context → Nat
  | .leaf own => own.inputs.length
  | .diagram frame _ => frame.inputs.length

def outputCount : Context → Nat
  | .leaf own => own.fresh.length
  | .diagram frame _ => frame.outputs.length

def entryCount (context : Context) (partition : Partition) : Nat :=
  match context with
  | .leaf own => own.state.count partition
  | .diagram frame _ => frame.composite.count partition

def inputTicket? (context : Context) (index : Nat) : Option Ticket :=
  match context with
  | .leaf own => if index < own.inputs.length then some (Leaf.inputTicket index) else none
  | .diagram frame _ => frame.inputs[index]?.map ExposedInput.ticket

end Context

namespace Subsystems

def vacancies : Nat → Subsystems
  | 0 => .nil
  | count + 1 => .vacant (vacancies count)

def size : Subsystems → Nat
  | .nil => 0
  | .vacant rest => rest.size + 1
  | .filled _ _ rest => rest.size + 1

def context? : Subsystems → Nat → Option Context
  | .nil, _ => none
  | .vacant _, 0 => none
  | .filled context _ _, 0 => some context
  | .vacant rest, system + 1 => rest.context? system
  | .filled _ _ rest, system + 1 => rest.context? system

def buffer? : Subsystems → Nat → Option OutputBuffer
  | .nil, _ => none
  | .vacant _, 0 => none
  | .filled _ buffer _, 0 => some buffer
  | .vacant rest, system + 1 => rest.buffer? system
  | .filled _ _ rest, system + 1 => rest.buffer? system

def install : Subsystems → Nat → Context → OutputBuffer → Subsystems
  | .nil, _, _, _ => .nil
  | .vacant rest, 0, context, buffer => .filled context buffer rest
  | .filled _ _ rest, 0, context, buffer => .filled context buffer rest
  | .vacant rest, system + 1, context, buffer => .vacant (rest.install system context buffer)
  | .filled first kept rest, system + 1, context, buffer =>
    .filled first kept (rest.install system context buffer)

def putContext : Subsystems → Nat → Context → Subsystems
  | .nil, _, _ => .nil
  | .vacant rest, 0, _ => .vacant rest
  | .filled _ buffer rest, 0, context => .filled context buffer rest
  | .vacant rest, system + 1, context => .vacant (rest.putContext system context)
  | .filled first buffer rest, system + 1, context => .filled first buffer (rest.putContext system context)

def putBuffer : Subsystems → Nat → OutputBuffer → Subsystems
  | .nil, _, _ => .nil
  | .vacant rest, 0, _ => .vacant rest
  | .filled context _ rest, 0, buffer => .filled context buffer rest
  | .vacant rest, system + 1, buffer => .vacant (rest.putBuffer system buffer)
  | .filled context kept rest, system + 1, buffer => .filled context kept (rest.putBuffer system buffer)

def absence (subsystems : Subsystems) (system : Nat) : Refusal :=
  if system < subsystems.size then .subsystemMissing system
  else .subsystemOutOfRange system subsystems.size

def context (subsystems : Subsystems) (system : Nat) : Except Refusal Context :=
  match subsystems.context? system with
  | some context => .ok context
  | none => .error (subsystems.absence system)

def buffer (subsystems : Subsystems) (system : Nat) : Except Refusal OutputBuffer :=
  match subsystems.buffer? system with
  | some buffer => .ok buffer
  | none => .error (subsystems.absence system)

def output? (subsystems : Subsystems) (output : Terminal) : Option Value :=
  (subsystems.buffer? output.system).bind (·.value? output.index)

def layout : Subsystems → Layout
  | .nil => []
  | .vacant rest => none :: rest.layout
  | .filled context buffer rest => some ⟨context.outputCount, buffer.count⟩ :: rest.layout

-- The first subsystem is number `system`.
def slotsFrom (partition : Partition) : Subsystems → Nat → List Slot
  | .nil, _ => []
  | .vacant rest, system => rest.slotsFrom partition (system + 1)
  | .filled context _ rest, system =>
    slotsOf system (context.entryCount partition) ++ rest.slotsFrom partition (system + 1)

def composite (subsystems : Subsystems) : CompositeState :=
  .tabulate (fun partition => subsystems.slotsFrom partition 0)

theorem size_putContext (subsystems : Subsystems) (system : Nat) (context : Context) :
    (subsystems.putContext system context).size = subsystems.size := by
  fun_induction putContext subsystems system context <;> simp_all [size]

theorem size_putBuffer (subsystems : Subsystems) (system : Nat) (buffer : OutputBuffer) :
    (subsystems.putBuffer system buffer).size = subsystems.size := by
  fun_induction putBuffer subsystems system buffer <;> simp_all [size]

theorem context?_putContext (subsystems : Subsystems) (system : Nat) (context : Context) (other : Nat) :
    (subsystems.putContext system context).context? other =
      if other = system then (subsystems.context? system).map (fun _ => context)
      else subsystems.context? other := by
  fun_induction putContext subsystems system context generalizing other <;> cases other <;>
    simp_all [context?]

theorem buffer?_putContext (subsystems : Subsystems) (system : Nat) (context : Context) (other : Nat) :
    (subsystems.putContext system context).buffer? other = subsystems.buffer? other := by
  fun_induction putContext subsystems system context generalizing other <;> cases other <;>
    simp_all [buffer?]

theorem context?_putBuffer (subsystems : Subsystems) (system : Nat) (buffer : OutputBuffer) (other : Nat) :
    (subsystems.putBuffer system buffer).context? other = subsystems.context? other := by
  fun_induction putBuffer subsystems system buffer generalizing other <;> cases other <;>
    simp_all [context?]

theorem buffer?_putBuffer (subsystems : Subsystems) (system : Nat) (buffer : OutputBuffer) (other : Nat) :
    (subsystems.putBuffer system buffer).buffer? other =
      if other = system then (subsystems.buffer? system).map (fun _ => buffer)
      else subsystems.buffer? other := by
  fun_induction putBuffer subsystems system buffer generalizing other <;> cases other <;>
    simp_all [buffer?]

theorem context?_install (subsystems : Subsystems) (system : Nat) (context : Context)
    (buffer : OutputBuffer) (other : Nat) :
    (subsystems.install system context buffer).context? other =
      if other = system ∧ system < subsystems.size then some context else subsystems.context? other := by
  fun_induction install subsystems system context buffer generalizing other <;> cases other <;>
    simp_all [context?, size]

theorem length_layout : (subsystems : Subsystems) → subsystems.layout.length = subsystems.size
  | .nil => rfl
  | .vacant rest => congrArg (· + 1) (length_layout rest)
  | .filled _ _ rest => congrArg (· + 1) (length_layout rest)

end Subsystems
end BlockDiagram
