import BlockDiagram.Frontier
import BlockDiagram.Value

namespace BlockDiagram

structure Ticket where
  index : Nat
deriving DecidableEq, Repr

def Ticket.text (ticket : Ticket) : String := s!"#{ticket.index}"

structure Line where
  value : Option Value
  dependents : List Ticket
deriving DecidableEq, Repr

structure Cache where
  lines : List Line
deriving DecidableEq, Repr

namespace Cache

def empty : Cache := ⟨[]⟩

def blank (count : Nat) : Cache := ⟨List.replicate count ⟨none, []⟩⟩

def size (cache : Cache) : Nat := cache.lines.length

def line? (cache : Cache) (ticket : Ticket) : Option Line := cache.lines[ticket.index]?

def value? (cache : Cache) (ticket : Ticket) : Option Value :=
  (cache.line? ticket).bind Line.value

def values (cache : Cache) : List (Option Value) := cache.lines.map Line.value

def tickets (cache : Cache) : List Ticket := (List.range cache.size).map Ticket.mk

def dependents (cache : Cache) (ticket : Ticket) : List Ticket :=
  ((cache.line? ticket).map Line.dependents).getD []

def extend (cache : Cache) (needs : List Ticket) : Cache :=
  ⟨cache.lines.mapIdx (fun index line =>
      if ⟨index⟩ ∈ needs then { line with dependents := line.dependents ++ [⟨cache.size⟩] } else line) ++
    [⟨none, []⟩]⟩

-- Of several needs that were never issued the lowest is reported.
def issue (cache : Cache) (needs : List Ticket) : Outcome Cache Ticket :=
  match ((needs.map Ticket.index).filter (cache.size ≤ ·)).min? with
  | some unknown => .aborted (.unknownPrerequisite cache.size unknown)
  | none => .done ⟨cache.size⟩ (cache.extend needs)

def line (cache : Cache) (ticket : Ticket) : Except Fault Line :=
  match cache.line? ticket with
  | some line => .ok line
  | none => .error (.unknownTicket ticket.index)

def get (cache : Cache) (ticket : Ticket) : Except Fault (Option Value) :=
  (cache.line ticket).map Line.value

def isValid (cache : Cache) (ticket : Ticket) : Except Fault Bool :=
  (cache.line ticket).map (·.value.isSome)

def write (cache : Cache) (ticket : Ticket) (value : Option Value) : Cache :=
  ⟨cache.lines.modify ticket.index (fun line => { line with value := value })⟩

-- Nothing is invalidated: whoever stores a value vouches that it agrees with what
-- its line depends on.
def swap (cache : Cache) (ticket : Ticket) (value : Value) : Outcome Cache (Option Value) :=
  match cache.line ticket with
  | .error fault => .aborted fault
  | .ok line => .done line.value (cache.write ticket (some value))

def set (cache : Cache) (ticket : Ticket) (value : Value) : Outcome Cache Value :=
  (cache.swap ticket value).answering value

def affected (cache : Cache) (ticket : Ticket) : List Ticket :=
  (Frontier.starting cache.tickets [ticket]).explore cache.dependents

-- Lines found empty are passed through like any other, since a line that
-- depends on them may have been filled since.
def clear (cache : Cache) (ticket : Ticket) : Cache :=
  let affected := cache.affected ticket
  ⟨cache.lines.mapIdx (fun index line =>
    if ⟨index⟩ ∈ affected then { line with value := none } else line)⟩

def invalidate (cache : Cache) (ticket : Ticket) : Outcome Cache Unit :=
  match cache.line ticket with
  | .error fault => .aborted fault
  | .ok _ => .done () (cache.clear ticket)

theorem size_extend (cache : Cache) (needs : List Ticket) :
    (cache.extend needs).size = cache.size + 1 := by
  simp [extend, size]

theorem size_write (cache : Cache) (ticket : Ticket) (value : Option Value) :
    (cache.write ticket value).size = cache.size := by
  simp [write, size]

theorem size_clear (cache : Cache) (ticket : Ticket) : (cache.clear ticket).size = cache.size := by
  simp [clear, size]

theorem dependents_write (cache : Cache) (written ticket : Ticket) (value : Option Value) :
    (cache.write written value).dependents ticket = cache.dependents ticket := by
  simp only [dependents, line?, write, List.getElem?_modify]
  split <;> cases cache.lines[ticket.index]? <;> rfl

theorem dependents_clear (cache : Cache) (cleared ticket : Ticket) :
    (cache.clear cleared).dependents ticket = cache.dependents ticket := by
  simp only [dependents, line?, clear, List.getElem?_mapIdx]
  cases cache.lines[ticket.index]? with
  | none => rfl
  | some line => simp only [Option.map_some]; split <;> rfl

theorem value?_clear (cache : Cache) (cleared ticket : Ticket) :
    (cache.clear cleared).value? ticket =
      if ticket ∈ cache.affected cleared then none else cache.value? ticket := by
  simp only [value?, line?, clear, List.getElem?_mapIdx]
  cases cache.lines[ticket.index]? with
  | none => simp
  | some line => simp only [Option.map_some, Option.bind_some]; split <;> rfl

theorem value?_write {cache : Cache} {ticket : Ticket} (issued : ticket.index < cache.size)
    (value : Option Value) : (cache.write ticket value).value? ticket = value := by
  have held : ticket.index < cache.lines.length := issued
  simp [value?, line?, write, List.getElem?_eq_getElem held]

theorem value?_write_other {cache : Cache} {written ticket : Ticket} {value : Option Value}
    (other : written ≠ ticket) : (cache.write written value).value? ticket = cache.value? ticket := by
  have apart : written.index ≠ ticket.index := by
    intro same
    cases written
    cases ticket
    exact other (congrArg Ticket.mk same)
  simp [value?, line?, write, apart]

theorem value?_extend (cache : Cache) (needs : List Ticket) (ticket : Ticket) :
    (cache.extend needs).value? ticket = cache.value? ticket := by
  unfold value? line? extend
  by_cases inside : ticket.index < cache.lines.length
  · rw [List.getElem?_append_left (by simpa using inside), List.getElem?_mapIdx, List.getElem?_eq_getElem inside]
    simp only [Option.map_some, Option.bind_some]
    split <;> rfl
  · rw [List.getElem?_append_right (by simpa using inside), List.getElem?_eq_none (Nat.le_of_not_lt inside)]
    cases gap : ticket.index - cache.lines.length <;> simp [gap]

theorem line?_clear_other {cache : Cache} {cleared ticket : Ticket} (spared : ticket ∉ cache.affected cleared) :
    (cache.clear cleared).line? ticket = cache.line? ticket := by
  simp only [line?, clear, List.getElem?_mapIdx, spared, if_false, Option.map_id_fun', id_eq]

end Cache
end BlockDiagram
