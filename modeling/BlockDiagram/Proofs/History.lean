import BlockDiagram.Proofs.Effect

namespace BlockDiagram
open Relation

-- An entry bears the mark, and all that follow it are quiet.
def Since {α : Type} (mark quiet : α → Prop) (trace : List α) : Prop :=
  ∃ earlier entry later, trace = earlier ++ entry :: later ∧ mark entry ∧ ∀ other ∈ later, quiet other

namespace Since
variable {α : Type} {mark quiet : α → Prop} {trace : List α}

theorem member (since : Since mark quiet trace) : ∃ entry ∈ trace, mark entry := by
  obtain ⟨earlier, entry, later, rfl, marked, _⟩ := since
  exact ⟨entry, List.mem_append_right _ List.mem_cons_self, marked⟩

theorem congr {calm : α → Prop} (same : ∀ entry, quiet entry ↔ calm entry) :
    Since mark quiet trace ↔ Since mark calm trace := by
  rw [funext fun entry => propext (same entry)]

theorem append_single {newest : α} :
    Since mark quiet (trace ++ [newest]) ↔ mark newest ∨ Since mark quiet trace ∧ quiet newest := by
  constructor
  · rintro ⟨earlier, entry, later, split, marked, calm⟩
    rcases List.eq_nil_or_concat later with rfl | ⟨front, last, rfl⟩
    · obtain ⟨_, same⟩ := List.append_inj' split rfl
      cases same
      exact .inl marked
    · rw [List.concat_eq_append] at split calm
      rw [← List.cons_append, ← List.append_assoc] at split
      obtain ⟨rfl, same⟩ := List.append_inj' split rfl
      cases same
      refine .inr ⟨⟨earlier, entry, front, rfl, marked, fun other listed => ?_⟩, ?_⟩
      · exact calm other (List.mem_append_left _ listed)
      · exact calm newest (List.mem_append_right _ List.mem_cons_self)
  · rintro (marked | ⟨⟨earlier, entry, later, rfl, marked, calm⟩, last⟩)
    · exact ⟨trace, newest, [], rfl, marked, fun _ none => nomatch none⟩
    · refine ⟨earlier, entry, later ++ [newest], by simp, marked, fun other listed => ?_⟩
      rcases List.mem_append.mp listed with old | new
      · exact calm other old
      · rwa [List.mem_singleton.mp new]

end Since

namespace Cache

inductive Call where
  | issue (needs : List Ticket)
  | set (ticket : Ticket) (value : Value)
  | swap (ticket : Ticket) (value : Value)
  | invalidate (ticket : Ticket)
deriving DecidableEq, Repr

namespace Call

def tickets : Call → List Ticket
  | .issue needs => needs
  | .set ticket _ | .swap ticket _ | .invalidate ticket => [ticket]

def needs? : Call → Option (List Ticket)
  | .issue needs => some needs
  | _ => none

def Stores (call : Call) (ticket : Ticket) (value : Value) : Prop :=
  call = .set ticket value ∨ call = .swap ticket value

def perform (call : Call) (cache : Cache) : Outcome Cache Unit :=
  match call with
  | .issue needs => (cache.issue needs).answering ()
  | .set ticket value => (cache.set ticket value).answering ()
  | .swap ticket value => (cache.swap ticket value).answering ()
  | .invalidate ticket => cache.invalidate ticket

theorem perform_left {call : Call} {cache later : Cache} (left : (call.perform cache).left? = some later) :
    (∃ needs, call = .issue needs ∧ (∀ need ∈ needs, need.index < cache.size) ∧ later = cache.extend needs) ∨
    (∃ ticket value, call.Stores ticket value ∧ ticket.index < cache.size ∧
      later = cache.write ticket (some value)) ∨
    (∃ root, call = .invalidate root ∧ root.index < cache.size ∧ later = cache.clear root) := by
  cases call with
  | issue needs =>
    rw [perform, Outcome.left?_answering] at left
    exact .inl ⟨needs, rfl, issue_left left⟩
  | set ticket value =>
    rw [perform, Cache.set, Outcome.left?_answering, Outcome.left?_answering] at left
    exact .inr (.inl ⟨ticket, value, .inl rfl, swap_left left⟩)
  | swap ticket value =>
    rw [perform, Outcome.left?_answering] at left
    exact .inr (.inl ⟨ticket, value, .inr rfl, swap_left left⟩)
  | invalidate root =>
    rw [perform] at left
    exact .inr (.inr ⟨root, rfl, invalidate_left left⟩)

-- Nothing but a ticket that was never issued makes a call abort.
theorem perform_granted {call : Call} {cache : Cache} :
    (call.perform cache).left?.isSome ↔ ∀ ticket ∈ call.tickets, ticket.index < cache.size := by
  constructor
  · intro granted
    obtain ⟨later, left⟩ := Option.isSome_iff_exists.mp granted
    rcases perform_left left with ⟨needs, rfl, known, _⟩ | ⟨ticket, value, stores, issued, _⟩ | ⟨root, rfl, issued, _⟩
    · exact known
    · rcases stores with rfl | rfl <;> simpa [tickets] using issued
    · simpa [tickets] using issued
  · intro known
    cases call with
    | issue needs =>
      have all : ∀ need ∈ needs, need.index < cache.size := known
      rw [perform, issue_known all]
      rfl
    | set ticket value =>
      rw [perform, Cache.set, swap_issued (known ticket List.mem_cons_self)]
      rfl
    | swap ticket value =>
      rw [perform, swap_issued (known ticket List.mem_cons_self)]
      rfl
    | invalidate root =>
      rw [perform, invalidate_issued (known root List.mem_cons_self)]
      rfl

end Call

def issues (history : List Call) : List (List Ticket) := history.filterMap Call.needs?

def Issued (history : List Call) (ticket : Ticket) : Prop := ticket.index < (issues history).length

instance (history : List Call) (ticket : Ticket) : Decidable (Issued history ticket) :=
  inferInstanceAs (Decidable (_ < _))

def Needs (history : List Call) (ticket need : Ticket) : Prop :=
  ∃ needs, (issues history)[ticket.index]? = some needs ∧ need ∈ needs

-- A ticket relies on itself, on what it was issued with, and on all that relies on.
def Relies (history : List Call) : Ticket → Ticket → Prop := ReflTransGen (Needs history)

def Call.Spares (history : List Call) (ticket : Ticket) (call : Call) : Prop :=
  (∀ value, ¬ call.Stores ticket value) ∧ ∀ root, call = .invalidate root → ¬ Relies history ticket root

-- The value was stored last, and nothing the ticket relies on was invalidated since.
def Holds (history : List Call) (ticket : Ticket) (value : Value) : Prop :=
  Since (fun call => call.Stores ticket value) (Call.Spares history ticket) history

structure Recorded where
  cache : Cache
  history : List Call
deriving DecidableEq, Repr

inductive Step where
  | call (index : Nat) (call : Call)
  | copy (index : Nat)

-- Calls name tickets that were issued by the cache they are made on. A copy is
-- made with the history of its original and has its own from then on.
def step (caches : List Recorded) : Step → Option (List Recorded)
  | .call index call =>
    caches[index]?.bind fun ⟨cache, history⟩ =>
      if ∀ ticket ∈ call.tickets, Issued history ticket then
        (call.perform cache).left?.map fun later => caches.set index ⟨later, history ++ [call]⟩
      else none
  | .copy index => caches[index]?.map fun original => caches ++ [original]

def play (steps : List Step) : Option (List Recorded) := steps.foldlM step [⟨.empty, []⟩]

-- What the calls answer, told by the history alone. None of them aborts.
structure Faithful (cache : Cache) (history : List Call) : Prop where
  gets : ∀ ticket, Issued history ticket →
    ∃ held, cache.get ticket = .ok held ∧ ∀ value, held = some value ↔ Holds history ticket value
  issue : ∀ needs, (∀ need ∈ needs, Issued history need) →
    ∃ later, cache.issue needs = .done ⟨(issues history).length⟩ later
  sets : ∀ ticket value, Issued history ticket → ∃ later, cache.set ticket value = .done value later
  swaps : ∀ ticket value, Issued history ticket →
    ∃ held later, cache.get ticket = .ok held ∧ cache.swap ticket value = .done held later
  clears : ∀ root, Issued history root → ∃ later, cache.invalidate root = .done () later ∧
    later.size = cache.size ∧ ∀ other, ¬ Relies history other root → later.line? other = cache.line? other

theorem issues_append (history : List Call) (call : Call) :
    issues (history ++ [call]) = issues history ++ call.needs?.toList := by
  simp only [issues, List.filterMap_append, List.filterMap_cons, List.filterMap_nil]
  cases call.needs? <;> rfl

theorem Issued.append {history : List Call} {ticket : Ticket} (issued : Issued history ticket) (call : Call) :
    Issued (history ++ [call]) ticket := by
  unfold Issued at *
  rw [issues_append, List.length_append]
  exact Nat.lt_add_right _ issued

theorem needs_append {history : List Call} {ticket need : Ticket} (issued : Issued history ticket) (call : Call) :
    Needs (history ++ [call]) ticket need ↔ Needs history ticket need := by
  unfold Needs
  rw [issues_append, List.getElem?_append_left issued]

theorem needs_issue {history : List Call} {needs : List Ticket} {ticket need : Ticket} :
    Needs (history ++ [.issue needs]) ticket need ↔
      Needs history ticket need ∨ ticket = ⟨(issues history).length⟩ ∧ need ∈ needs := by
  have grown : issues (history ++ [.issue needs]) = issues history ++ [needs] := issues_append history _
  unfold Needs
  rw [grown]
  constructor
  · rintro ⟨found, entry, listed⟩
    rcases Nat.lt_or_ge ticket.index (issues history).length with older | newest
    · rw [List.getElem?_append_left older] at entry
      exact .inl ⟨found, entry, listed⟩
    · rw [List.getElem?_append_right newest] at entry
      obtain ⟨gap, rfl⟩ := List.getElem?_eq_some_iff.mp entry
      have last : ticket.index = (issues history).length := by
        simp only [List.length_singleton] at gap
        omega
      exact .inr ⟨congrArg Ticket.mk last, by simpa using listed⟩
  · rintro (⟨found, entry, listed⟩ | ⟨rfl, listed⟩)
    · refine ⟨found, ?_, listed⟩
      rwa [List.getElem?_append_left (List.getElem?_eq_some_iff.mp entry).1]
    · exact ⟨needs, by simp, listed⟩

-- The cache and its history agree: on the tickets there are, on who needs whom
-- and on the values. All calls of the history name tickets it issued.
structure Agrees (cache : Cache) (history : List Call) : Prop where
  size : cache.size = (issues history).length
  linked : ∀ ticket need, ticket ∈ cache.dependents need ↔ Needs history ticket need
  known : ∀ call ∈ history, ∀ ticket ∈ call.tickets, Issued history ticket
  held : ∀ ticket value, cache.value? ticket = some value ↔ Holds history ticket value

namespace Agrees
variable {cache : Cache} {history : List Call}

theorem issued (agrees : cache.Agrees history) {ticket : Ticket} :
    Issued history ticket ↔ ticket.index < cache.size := by
  rw [agrees.size]
  rfl

theorem dependsOn_iff (agrees : cache.Agrees history) {ticket root : Ticket} :
    cache.DependsOn ticket root ↔ Relies history ticket root := by
  have same : (fun earlier later => later ∈ cache.dependents earlier) = Function.swap (Needs history) :=
    funext fun need => funext fun ticket => propext (agrees.linked ticket need)
  unfold DependsOn Relies
  rw [same]
  exact reflTransGen_swap

theorem closed (agrees : cache.Agrees history) : cache.Closed := by
  intro need ticket listed
  obtain ⟨needs, found, _⟩ := (agrees.linked ticket need).mp listed
  rw [agrees.size]
  exact (List.getElem?_eq_some_iff.mp found).1

theorem mem_affected_iff (agrees : cache.Agrees history) {ticket root : Ticket} :
    ticket ∈ cache.affected root ↔ Relies history ticket root :=
  (mem_affected agrees.closed).trans agrees.dependsOn_iff

theorem issued_of_needs (agrees : cache.Agrees history) {ticket need : Ticket}
    (needed : Needs history ticket need) : Issued history need := by
  obtain ⟨needs, found, listed⟩ := needed
  obtain ⟨call, made, same⟩ := List.mem_filterMap.mp (List.mem_of_getElem? found)
  refine agrees.known call made need ?_
  cases call with
  | issue _ => cases same; exact listed
  | _ => cases same

theorem issued_of_stored (agrees : cache.Agrees history) {ticket : Ticket} {value : Value} {quiet : Call → Prop}
    (stored : Since (fun call => call.Stores ticket value) quiet history) : Issued history ticket := by
  obtain ⟨call, made, stores⟩ := stored.member
  refine agrees.known call made ticket ?_
  rcases stores with rfl | rfl <;> exact List.mem_singleton.mpr rfl

theorem relies_append (agrees : cache.Agrees history) (call : Call) {ticket root : Ticket}
    (issued : Issued history ticket) : Relies (history ++ [call]) ticket root ↔ Relies history ticket root := by
  constructor
  · intro path
    have settled : Relies history ticket root ∧ Issued history root := by
      induction path with
      | refl => exact ⟨.refl, issued⟩
      | tail _ needed ih =>
        have before := (needs_append ih.2 call).mp needed
        exact ⟨ih.1.tail before, agrees.issued_of_needs before⟩
    exact settled.1
  · refine ReflTransGen.mono (fun before after needed => ?_) _ _
    have known : Issued history before := by
      obtain ⟨_, found, _⟩ := needed
      exact (List.getElem?_eq_some_iff.mp found).1
    exact (needs_append known call).mpr needed

theorem holds_append (agrees : cache.Agrees history) (call : Call) {ticket : Ticket} {value : Value}
    (issued : Issued history ticket) :
    Holds (history ++ [call]) ticket value ↔
      call.Stores ticket value ∨ cache.value? ticket = some value ∧ call.Spares history ticket := by
  have same : ∀ other, Call.Spares (history ++ [call]) ticket other ↔ Call.Spares history ticket other := by
    intro other
    unfold Call.Spares
    simp only [agrees.relies_append call issued]
  rw [agrees.held, Holds, Since.congr same, Since.append_single]
  rfl

theorem advance (agrees : cache.Agrees history) {call : Call} {later : Cache}
    (known : ∀ ticket ∈ call.tickets, Issued history ticket)
    (size : later.size = (issues (history ++ [call])).length)
    (linked : ∀ ticket need, ticket ∈ later.dependents need ↔ Needs (history ++ [call]) ticket need)
    (valued : ∀ ticket value, later.value? ticket = some value → Issued history ticket)
    (held : ∀ ticket value, Issued history ticket → (later.value? ticket = some value ↔
      call.Stores ticket value ∨ cache.value? ticket = some value ∧ call.Spares history ticket)) :
    later.Agrees (history ++ [call]) where
  size := size
  linked := linked
  known := by
    intro made member ticket named
    rcases List.mem_append.mp member with old | new
    · exact (agrees.known made old ticket named).append call
    · rw [List.mem_singleton.mp new] at named
      exact (known ticket named).append call
  held := by
    intro ticket value
    constructor
    · intro filled
      have issued := valued ticket value filled
      exact (agrees.holds_append call issued).mpr ((held ticket value issued).mp filled)
    · intro holds
      have issued : Issued history ticket := by
        rcases Since.append_single.mp holds with stores | ⟨stored, _⟩
        · refine known ticket ?_
          rcases stores with rfl | rfl <;> exact List.mem_singleton.mpr rfl
        · exact agrees.issued_of_stored stored
      exact (held ticket value issued).mpr ((agrees.holds_append call issued).mp holds)

theorem issue (agrees : cache.Agrees history) {needs : List Ticket}
    (known : ∀ need ∈ needs, Issued history need) :
    (cache.extend needs).Agrees (history ++ [.issue needs]) := by
  refine agrees.advance known ?_ (fun ticket need => ?_) (fun ticket value filled => ?_) (fun ticket value _ => ?_)
  · rw [size_extend, agrees.size, issues_append, List.length_append]
    rfl
  · rw [mem_dependents_extend, agrees.linked, needs_issue, agrees.size]
    refine or_congr_right (and_congr_right fun _ => and_iff_left_of_imp fun listed => ?_)
    exact known need listed
  · rw [value?_extend] at filled
    exact agrees.issued.mpr (value?_issued filled)
  · rw [value?_extend]
    simp [Call.Stores, Call.Spares]

theorem revalue (agrees : cache.Agrees history) {call : Call} {later : Cache}
    (known : ∀ ticket ∈ call.tickets, Issued history ticket) (silent : call.needs? = none)
    (size : later.size = cache.size) (linked : ∀ ticket, later.dependents ticket = cache.dependents ticket)
    (held : ∀ ticket value, Issued history ticket → (later.value? ticket = some value ↔
      call.Stores ticket value ∨ cache.value? ticket = some value ∧ call.Spares history ticket)) :
    later.Agrees (history ++ [call]) := by
  have same : issues (history ++ [call]) = issues history := by
    rw [issues_append, silent]
    exact List.append_nil _
  refine agrees.advance known ?_ (fun ticket need => ?_) (fun ticket value filled => ?_) held
  · rw [size, agrees.size, same]
  · rw [linked, agrees.linked, Needs, Needs, same]
  · exact agrees.issued.mpr (size ▸ value?_issued filled)

theorem store (agrees : cache.Agrees history) {call : Call} {ticket : Ticket} {value : Value}
    (stores : call.Stores ticket value) (issued : Issued history ticket) :
    (cache.write ticket (some value)).Agrees (history ++ [call]) := by
  have known : ∀ other ∈ call.tickets, Issued history other := by
    rcases stores with rfl | rfl <;> exact fun other named => List.mem_singleton.mp named ▸ issued
  have silent : call.needs? = none := by
    rcases stores with rfl | rfl <;> rfl
  refine agrees.revalue known silent (size_write _ _ _) (dependents_write _ _ · _) (fun other held _ => ?_)
  by_cases written : ticket = other
  · subst written
    rw [value?_write (agrees.issued.mp issued)]
    rcases stores with rfl | rfl <;> simp [Call.Stores, Call.Spares]
  · rw [value?_write_other written]
    rcases stores with rfl | rfl <;> simp [Call.Stores, Call.Spares, written]

theorem invalidate (agrees : cache.Agrees history) {root : Ticket} (issued : Issued history root) :
    (cache.clear root).Agrees (history ++ [.invalidate root]) := by
  have known : ∀ other ∈ (Call.invalidate root).tickets, Issued history other :=
    fun other named => List.mem_singleton.mp named ▸ issued
  refine agrees.revalue known rfl (size_clear _ _) (dependents_clear _ _) (fun ticket value _ => ?_)
  rw [value?_clear]
  by_cases hit : Relies history ticket root
  · rw [if_pos (agrees.mem_affected_iff.mpr hit)]
    simp [Call.Stores, Call.Spares, hit]
  · rw [if_neg (fun found => hit (agrees.mem_affected_iff.mp found))]
    simp [Call.Stores, Call.Spares, hit]

theorem performed (agrees : cache.Agrees history) {call : Call} {later : Cache}
    (left : (call.perform cache).left? = some later) : later.Agrees (history ++ [call]) := by
  rcases Call.perform_left left with ⟨needs, rfl, bound, rfl⟩ | ⟨ticket, value, stores, bound, rfl⟩ | ⟨root, rfl, bound, rfl⟩
  · exact agrees.issue (fun need member => agrees.issued.mpr (bound need member))
  · exact agrees.store stores (agrees.issued.mpr bound)
  · exact agrees.invalidate (agrees.issued.mpr bound)

theorem get (agrees : cache.Agrees history) {ticket : Ticket} (issued : Issued history ticket) :
    cache.get ticket = .ok (cache.value? ticket) := by
  obtain ⟨line, _, found, value, _⟩ := line_issued (agrees.issued.mp issued)
  rw [Cache.get, found, ← value]
  rfl

theorem faithful (agrees : cache.Agrees history) : Faithful cache history where
  gets := fun ticket issued => ⟨_, agrees.get issued, agrees.held ticket⟩
  issue := by
    intro needs known
    refine ⟨cache.extend needs, ?_⟩
    rw [issue_known (fun need member => agrees.issued.mp (known need member)), agrees.size]
  sets := by
    intro ticket value issued
    refine ⟨cache.write ticket (some value), ?_⟩
    rw [Cache.set, swap_issued (agrees.issued.mp issued)]
    rfl
  swaps := fun ticket value issued => ⟨_, _, agrees.get issued, swap_issued (agrees.issued.mp issued) value⟩
  clears := by
    intro root issued
    refine ⟨cache.clear root, invalidate_issued (agrees.issued.mp issued), size_clear _ _, fun other spared => ?_⟩
    exact line?_clear_other (fun hit => spared (agrees.mem_affected_iff.mp hit))

theorem empty : Cache.empty.Agrees [] where
  size := rfl
  linked := by
    intro ticket need
    constructor
    · intro listed
      cases listed
    · rintro ⟨_, found, _⟩
      cases found
  known := fun _ made => nomatch made
  held := by
    intro ticket value
    constructor
    · intro filled
      cases filled
    · intro stored
      obtain ⟨_, made, _⟩ := Since.member stored
      cases made

end Agrees

def Consistent (caches : List Recorded) : Prop :=
  ∀ recorded ∈ caches, recorded.cache.Agrees recorded.history

-- What no call that is carried out makes untrue.
def HandedOn (holds : Recorded → Prop) : Prop :=
  ∀ recorded call later, holds recorded → (call.perform recorded.cache).left? = some later →
    holds ⟨later, recorded.history ++ [call]⟩

-- A call concerns one cache; a copy is as good as its original.
theorem HandedOn.step {holds : Recorded → Prop} (handed : HandedOn holds) {caches later : List Recorded}
    {taken : Step} (before : ∀ recorded ∈ caches, holds recorded) (stepped : Cache.step caches taken = some later) :
    ∀ recorded ∈ later, holds recorded := by
  cases taken with
  | call index call =>
    simp only [Cache.step, Option.bind_eq_some_iff, Option.ite_none_right_eq_some, Option.map_eq_some_iff] at stepped
    obtain ⟨original, found, _, next, left, rfl⟩ := stepped
    intro recorded member
    rcases List.mem_or_eq_of_mem_set member with old | rfl
    · exact before recorded old
    · exact handed original call next (before original (List.mem_of_getElem? found)) left
  | copy index =>
    simp only [Cache.step, Option.map_eq_some_iff] at stepped
    obtain ⟨original, found, rfl⟩ := stepped
    intro recorded member
    rcases List.mem_append.mp member with old | new
    · exact before recorded old
    · rw [List.mem_singleton.mp new]
      exact before original (List.mem_of_getElem? found)

theorem HandedOn.steps {holds : Recorded → Prop} (handed : HandedOn holds) {caches later : List Recorded}
    {steps : List Step} (before : ∀ recorded ∈ caches, holds recorded)
    (played : steps.foldlM Cache.step caches = some later) : ∀ recorded ∈ later, holds recorded := by
  induction steps generalizing caches with
  | nil => cases played; exact before
  | cons taken rest ih =>
    rw [List.foldlM_cons, Option.bind_eq_bind, Option.bind_eq_some_iff] at played
    obtain ⟨next, stepped, played⟩ := played
    exact ih (handed.step before stepped) played

theorem HandedOn.play {holds : Recorded → Prop} (handed : HandedOn holds) (start : holds ⟨.empty, []⟩)
    {steps : List Step} {caches : List Recorded} (played : play steps = some caches) {recorded : Recorded}
    (member : recorded ∈ caches) : holds recorded :=
  handed.steps (fun _ listed => List.mem_singleton.mp listed ▸ start) played recorded member

theorem Agrees.handedOn : HandedOn (fun recorded => recorded.cache.Agrees recorded.history) :=
  fun _ _ _ agrees left => agrees.performed left

theorem Consistent.steps {caches later : List Recorded} {steps : List Step} (consistent : Consistent caches)
    (played : steps.foldlM Cache.step caches = some later) : Consistent later :=
  Agrees.handedOn.steps consistent played

theorem told_by_history {steps : List Step} {caches : List Recorded} (played : play steps = some caches)
    {recorded : Recorded} (member : recorded ∈ caches) : Faithful recorded.cache recorded.history := by
  have start : Consistent [⟨.empty, []⟩] := fun _ listed => List.mem_singleton.mp listed ▸ Agrees.empty
  exact ((start.steps played) recorded member).faithful

-- A diamond and an unrelated line, all filled. The copy is made before the
-- original's top is invalidated, and the line at the bottom is filled once more.
def diamond : List Step :=
  [.call 0 (.issue []), .call 0 (.issue [⟨0⟩]), .call 0 (.issue [⟨0⟩, ⟨0⟩]), .call 0 (.issue [⟨2⟩, ⟨1⟩]),
    .call 0 (.issue []), .call 0 (.set ⟨0⟩ (.size 1)), .call 0 (.set ⟨3⟩ (.size 2)),
    .call 0 (.swap ⟨4⟩ (.size 3)), .copy 0, .call 0 (.invalidate ⟨0⟩), .call 1 (.set ⟨3⟩ (.size 4))]

theorem told_by_history_diamond : ∃ caches, play diamond = some caches ∧
    caches.map (fun recorded => recorded.cache.values) =
      [[none, none, none, none, some (.size 3)],
        [some (.size 1), none, none, some (.size 4), some (.size 3)]] ∧
    ∀ recorded ∈ caches, Faithful recorded.cache recorded.history := by
  have ended : (play diamond).map (·.map fun recorded => recorded.cache.values) =
      some [[none, none, none, none, some (.size 3)],
        [some (.size 1), none, none, some (.size 4), some (.size 3)]] := by decide
  obtain ⟨caches, played, values⟩ := Option.map_eq_some_iff.mp ended
  exact ⟨caches, played, values, fun recorded member => told_by_history played member⟩

end Cache
end BlockDiagram
