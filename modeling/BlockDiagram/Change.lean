import BlockDiagram.State
import BlockDiagram.Binding

namespace BlockDiagram

inductive Change where
  | setTime (time : Float)
  | invalidateTime
  | invalidateState
  | invalidateInput (index : Nat)
  | mark (index : Nat) (fresh : Bool)
  -- `rebind` presumes that the input reads the same afterwards.
  | bind (index : Nat) (binding : Option Binding)
  | rebind (index : Nat) (binding : Option Binding)
  -- Opening an entry invalidates what depends on it, whatever is stored then.
  | openEntry (partition : Partition) (index : Nat)
  | storeEntry (partition : Partition) (index : Nat) (entry : partition.Entry)

inductive Verdict where
  | accepted
  | refused (refusal : Refusal)
  | aborted (fault : Fault)
deriving DecidableEq, Repr

def Verdict.all : List Verdict → Verdict
  | [] => .accepted
  | .accepted :: rest => all rest
  | objection :: _ => objection

def Change.undelivered (missing : Refusal) : Change → Verdict
  | .bind .. => .refused missing
  | .rebind .. => .refused missing
  | .openEntry .. => .accepted
  | .storeEntry .. => .accepted
  | _ => .aborted (.access .subsystemForWriting missing)

abbrev Mail := List (Nat × Change)

namespace Mail

def first (mail : Mail) : List Change :=
  mail.filterMap (fun item => if item.1 = 0 then some item.2 else none)

def later (mail : Mail) : Mail :=
  mail.filterMap (fun item => if item.1 = 0 then none else some (item.1 - 1, item.2))

theorem first_append (earlier later : Mail) :
    Mail.first (earlier ++ later) = earlier.first ++ later.first := List.filterMap_append

theorem later_append (earlier later : Mail) :
    Mail.later (earlier ++ later) = Mail.later earlier ++ Mail.later later := List.filterMap_append

end Mail

theorem Verdict.all_accepted {verdicts : List Verdict} :
    Verdict.all verdicts = .accepted ↔ ∀ verdict ∈ verdicts, verdict = .accepted := by
  induction verdicts with
  | nil => simp [Verdict.all]
  | cons verdict rest ih => cases verdict <;> simp [Verdict.all, ih]

end BlockDiagram
