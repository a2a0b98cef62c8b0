import BlockDiagram.Diagram.Propagation

namespace BlockDiagram

mutual
theorem Context.induct {motive : Context → Prop} (leaf : ∀ own, motive (.leaf own))
    (diagram : ∀ frame subsystems, (∀ system context, subsystems.context? system = some context →
      motive context) → motive (.diagram frame subsystems)) : (context : Context) → motive context
  | .leaf own => leaf own
  | .diagram frame subsystems => diagram frame subsystems (Subsystems.induct leaf diagram subsystems)
theorem Subsystems.induct {motive : Context → Prop} (leaf : ∀ own, motive (.leaf own))
    (diagram : ∀ frame subsystems, (∀ system context, subsystems.context? system = some context →
      motive context) → motive (.diagram frame subsystems)) :
    (subsystems : Subsystems) → ∀ system context, subsystems.context? system = some context → motive context
  | .nil, _, _, found => nomatch found
  | .vacant _, 0, _, found => nomatch found
  | .vacant rest, system + 1, context, found => rest.induct leaf diagram system context found
  | .filled first _ _, 0, _, found => Option.some.inj found ▸ first.induct leaf diagram
  | .filled _ _ rest, system + 1, context, found => rest.induct leaf diagram system context found
end

-- Place by place, without a look inside the contexts.
theorem Subsystems.row_induct {motive : Subsystems → Prop} (nil : motive .nil)
    (vacant : ∀ rest, motive rest → motive (.vacant rest))
    (filled : ∀ context buffer rest, motive rest → motive (.filled context buffer rest)) :
    (subsystems : Subsystems) → motive subsystems
  | .nil => nil
  | .vacant rest => vacant rest (row_induct nil vacant filled rest)
  | .filled context buffer rest => filled context buffer rest (row_induct nil vacant filled rest)

def Mail.addressed (mail : Mail) (system : Nat) : List Change :=
  mail.filterMap (fun item => if item.1 = system then some item.2 else none)

namespace Mail

theorem mem_addressed {mail : Mail} {system : Nat} {change : Change} :
    change ∈ mail.addressed system ↔ (system, change) ∈ mail := by
  simp only [addressed, List.mem_filterMap]
  constructor
  · intro listed
    obtain ⟨⟨place, kept⟩, member, same⟩ := listed
    split at same
    · rename_i here
      cases same
      exact here ▸ member
    · cases same
  · intro member
    exact ⟨(system, change), member, by simp⟩

theorem addressed_append (earlier later : Mail) (system : Nat) :
    Mail.addressed (earlier ++ later) system = Mail.addressed earlier system ++ Mail.addressed later system :=
  List.filterMap_append

theorem addressed_later (mail : Mail) (system : Nat) :
    Mail.addressed mail.later system = mail.addressed (system + 1) := by
  unfold later addressed
  rw [List.filterMap_filterMap]
  congr 1
  funext item
  obtain ⟨place, change⟩ := item
  cases place with
  | zero => simp
  | succ place => simp

end Mail

namespace Subsystems

theorem present_bound {subsystems : Subsystems} {system : Nat} {child : Context}
    (present : subsystems.context? system = some child) : system < subsystems.size := by
  fun_induction context? subsystems system <;> simp_all [size]

theorem isSome_buffer? (subsystems : Subsystems) (system : Nat) :
    (subsystems.buffer? system).isSome = (subsystems.context? system).isSome := by
  fun_induction context? subsystems system <;> simp_all [buffer?]

theorem buffer?_of_context? {subsystems : Subsystems} {system : Nat} {context : Context}
    (found : subsystems.context? system = some context) :
    ∃ buffer, subsystems.buffer? system = some buffer :=
  Option.isSome_iff_exists.mp ((isSome_buffer? subsystems system).trans (by rw [found]; rfl))

theorem context?_of_buffer? {subsystems : Subsystems} {system : Nat} {buffer : OutputBuffer}
    (found : subsystems.buffer? system = some buffer) :
    ∃ context, subsystems.context? system = some context :=
  Option.isSome_iff_exists.mp ((isSome_buffer? subsystems system).symm.trans (by rw [found]; rfl))

theorem ext : {left right : Subsystems} → left.size = right.size →
    (∀ system, left.context? system = right.context? system) →
    (∀ system, left.buffer? system = right.buffer? system) → left = right
  | .nil, .nil, _, _, _ => rfl
  | .nil, .vacant _, size, _, _ => by simp [Subsystems.size] at size
  | .nil, .filled .., size, _, _ => by simp [Subsystems.size] at size
  | .vacant _, .nil, size, _, _ => by simp [Subsystems.size] at size
  | .filled .., .nil, size, _, _ => by simp [Subsystems.size] at size
  | .vacant _, .filled .., _, contexts, _ => nomatch contexts 0
  | .filled .., .vacant _, _, contexts, _ => nomatch contexts 0
  | .vacant left, .vacant right, size, contexts, buffers =>
    congrArg Subsystems.vacant (ext (Nat.succ.inj size) (fun system => contexts (system + 1))
      (fun system => buffers (system + 1)))
  | .filled first kept left, .filled other held right, size, contexts, buffers => by
    have same : first = other := Option.some.inj (contexts 0)
    have equal : kept = held := Option.some.inj (buffers 0)
    rw [same, equal, ext (Nat.succ.inj size) (fun system => contexts (system + 1))
      (fun system => buffers (system + 1))]

theorem size_receive (subsystems : Subsystems) (mail : Mail) :
    (subsystems.receive mail).size = subsystems.size := by
  rw [← length_layout, layout_receive, length_layout]

theorem context?_receive (subsystems : Subsystems) (mail : Mail) (system : Nat) :
    (subsystems.receive mail).context? system =
      (subsystems.context? system).map (·.receive (mail.addressed system)) := by
  fun_induction context? subsystems system generalizing mail with
  | case1 => simp [receive, context?]
  | case2 => simp [receive, context?]
  | case3 => rfl
  | case4 rest system ih => simp [receive, context?, ih, Mail.addressed_later]
  | case5 context buffer rest system ih => simp [receive, context?, ih, Mail.addressed_later]

theorem context?_received {subsystems : Subsystems} {system : Nat} {child : Context}
    (present : subsystems.context? system = some child) (mail : Mail) :
    (subsystems.receive mail).context? system = some (child.receive (mail.addressed system)) := by
  rw [context?_receive, present]
  rfl

theorem of_receive {subsystems : Subsystems} {mail : Mail} {system : Nat} {found : Context}
    (held : (subsystems.receive mail).context? system = some found) :
    ∃ child, subsystems.context? system = some child ∧ found = child.receive (mail.addressed system) := by
  rw [context?_receive] at held
  obtain ⟨child, present, rfl⟩ := Option.map_eq_some_iff.mp held
  exact ⟨child, present, rfl⟩

theorem of_putContext {subsystems : Subsystems} {system place : Nat} {child other found : Context}
    (present : subsystems.context? system = some child)
    (held : (subsystems.putContext system other).context? place = some found) :
    place = system ∧ found = other ∨ subsystems.context? place = some found := by
  rw [context?_putContext] at held
  split at held
  · rw [present] at held
    cases held
    exact .inl ⟨‹_›, rfl⟩
  · exact .inr held

theorem buffer?_receive (subsystems : Subsystems) (mail : Mail) (system : Nat) :
    (subsystems.receive mail).buffer? system = subsystems.buffer? system := by
  fun_induction buffer? subsystems system generalizing mail <;> simp_all [receive, buffer?]

theorem output?_receive (subsystems : Subsystems) (mail : Mail) :
    (subsystems.receive mail).output? = subsystems.output? := by
  funext output
  simp only [output?, buffer?_receive]

theorem outline?_layout (subsystems : Subsystems) (system : Nat) :
    subsystems.layout.outline? system =
      (subsystems.context? system).bind (fun context =>
        (subsystems.buffer? system).map (fun buffer => ⟨context.outputCount, buffer.count⟩)) := by
  unfold Layout.outline?
  fun_induction context? subsystems system <;> simp_all [layout, buffer?]

theorem layout_putContext {subsystems : Subsystems} {system : Nat} {context : Context}
    (same : ∀ old, subsystems.context? system = some old → context.outputCount = old.outputCount) :
    (subsystems.putContext system context).layout = subsystems.layout := by
  fun_induction putContext subsystems system context <;> simp_all [layout, context?]

theorem putContext_present {subsystems : Subsystems} {system : Nat} {context : Context}
    (present : subsystems.context? system = some context) :
    subsystems.putContext system context = subsystems := by
  refine ext (size_putContext _ _ _) (fun other => ?_) (buffer?_putContext _ _ _)
  rw [context?_putContext]
  split
  · rename_i same; rw [same, present]; rfl
  · rfl

theorem context_eq_ok {subsystems : Subsystems} {system : Nat} {context : Context} :
    subsystems.context system = .ok context ↔ subsystems.context? system = some context := by
  unfold Subsystems.context
  cases subsystems.context? system <;> simp

theorem buffer_eq_ok {subsystems : Subsystems} {system : Nat} {buffer : OutputBuffer} :
    subsystems.buffer system = .ok buffer ↔ subsystems.buffer? system = some buffer := by
  unfold Subsystems.buffer
  cases subsystems.buffer? system <;> simp

end Subsystems

namespace Layout

theorem mem_present {layout : Layout} {system : Nat} :
    system ∈ layout.present ↔ (layout.outline? system).isSome := by
  simp only [present, List.mem_filter, List.mem_range, and_iff_right_iff_imp, outline?]
  intro found
  refine Nat.lt_of_not_le (fun outside => ?_)
  rw [List.getElem?_eq_none outside] at found
  cases found

end Layout

theorem Subsystems.mem_present {subsystems : Subsystems} {system : Nat} :
    system ∈ subsystems.layout.present ↔ ∃ context, subsystems.context? system = some context := by
  rw [Layout.mem_present, outline?_layout]
  constructor
  · intro found
    cases held : subsystems.context? system with
    | none => rw [held] at found; cases found
    | some context => exact ⟨context, rfl⟩
  · intro present
    obtain ⟨context, found⟩ := present
    obtain ⟨buffer, held⟩ := buffer?_of_context? found
    simp [found, held]

theorem Subsystems.mem_declaredBy {subsystems : Subsystems} {system : Nat} {context : Context}
    (found : subsystems.context? system = some context) {output : Terminal} :
    output ∈ subsystems.layout.declaredBy system ↔
      output.system = system ∧ output.index < context.outputCount := by
  obtain ⟨buffer, held⟩ := buffer?_of_context? found
  simp [Layout.declaredBy, outline?_layout, found, held, mem_terminalsOf]

theorem Subsystems.mem_bufferedFor {subsystems : Subsystems} {system : Nat} {buffer : OutputBuffer}
    (held : subsystems.buffer? system = some buffer) {output : Terminal} :
    output ∈ subsystems.layout.bufferedFor system ↔
      output.system = system ∧ output.index < buffer.count := by
  obtain ⟨context, found⟩ := context?_of_buffer? held
  simp [Layout.bufferedFor, outline?_layout, found, held, mem_terminalsOf]

namespace Context

theorem locate_nil (context : Context) : context.locate [] = .ok context := by
  cases context <;> rfl

theorem locate_cons {frame : Frame} {subsystems : Subsystems} {system : Nat} {path : List Nat}
    {found : Context} :
    (Context.diagram frame subsystems).locate (system :: path) = .ok found ↔
      ∃ child, subsystems.context? system = some child ∧ child.locate path = .ok found := by
  rw [locate]
  unfold Subsystems.context
  cases subsystems.context? system <;> simp

theorem locate_leaf {own : Leaf} {path : List Nat} {found : Context}
    (located : (Context.leaf own).locate path = .ok found) : path = [] ∧ found = .leaf own := by
  cases path with
  | nil => rw [locate_nil] at located; cases located; exact ⟨rfl, rfl⟩
  | cons system path => cases located

theorem locate_append {context middle found : Context} {path rest : List Nat}
    (located : context.locate path = .ok middle) :
    context.locate (path ++ rest) = .ok found ↔ middle.locate rest = .ok found := by
  induction path generalizing context with
  | nil => rw [locate_nil] at located; cases located; rfl
  | cons system path ih =>
    cases context with
    | leaf own => cases located
    | diagram frame subsystems =>
      obtain ⟨child, present, below⟩ := locate_cons.mp located
      rw [List.cons_append, locate_cons]
      constructor
      · intro found
        obtain ⟨other, held, inside⟩ := found
        cases present.symm.trans held
        exact (ih below).mp inside
      · intro inside
        exact ⟨child, present, (ih below).mpr inside⟩

-- A path that leads somewhere leads through a context at each of its places.
theorem locate_split {context found : Context} {path rest : List Nat}
    (located : context.locate (path ++ rest) = .ok found) :
    ∃ middle, context.locate path = .ok middle ∧ middle.locate rest = .ok found := by
  induction path generalizing context with
  | nil => exact ⟨context, locate_nil context, located⟩
  | cons system path ih =>
    cases context with
    | leaf own => cases located
    | diagram frame subsystems =>
      obtain ⟨child, present, below⟩ := locate_cons.mp located
      obtain ⟨middle, first, second⟩ := ih below
      exact ⟨middle, locate_cons.mpr ⟨child, present, first⟩, second⟩

theorem graft_nil (context replacement : Context) : context.graft [] replacement = replacement := by
  cases context <;> rfl

theorem graft_cons {frame : Frame} {subsystems : Subsystems} {system : Nat} {child : Context}
    (path : List Nat) (replacement : Context) (present : subsystems.context? system = some child) :
    (Context.diagram frame subsystems).graft (system :: path) replacement =
      .diagram frame (subsystems.putContext system (child.graft path replacement)) := by
  simp only [graft, present]

theorem graft_located {tree found : Context} {path : List Nat} (located : tree.locate path = .ok found) :
    tree.graft path found = tree := by
  induction path generalizing tree with
  | nil => rw [locate_nil] at located; cases located; rw [graft_nil]
  | cons system path ih =>
    cases tree with
    | leaf own => cases located
    | diagram frame subsystems =>
      obtain ⟨child, present, below⟩ := locate_cons.mp located
      rw [graft_cons path found present, ih below, Subsystems.putContext_present present]

-- A relation between a context and what becomes of it holds of a whole tree if
-- it holds of the part that is replaced and each diagram around hands it on.
theorem graft_induct (relation : List Nat → Context → Context → Prop) {tree found changed : Context}
    {path : List Nat} (located : tree.locate path = .ok found) (here : relation [] found changed)
    (outward : ∀ frame subsystems system rest child other,
      subsystems.context? system = some child → relation rest child other →
      relation (system :: rest) (.diagram frame subsystems)
        (.diagram frame (subsystems.putContext system other))) :
    relation path tree (tree.graft path changed) := by
  induction path generalizing tree with
  | nil => rw [locate_nil] at located; cases located; rw [graft_nil]; exact here
  | cons system path ih =>
    cases tree with
    | leaf own => cases located
    | diagram frame subsystems =>
      obtain ⟨child, present, below⟩ := locate_cons.mp located
      rw [graft_cons path changed present]
      exact outward _ _ _ _ _ _ present (ih below)

theorem locate_graft {tree found changed other : Context} {path rest : List Nat}
    (located : tree.locate path = .ok found) :
    (tree.graft path changed).locate (path ++ rest) = .ok other ↔ changed.locate rest = .ok other := by
  refine graft_induct (fun path _ after => after.locate (path ++ rest) = .ok other ↔
    changed.locate rest = .ok other) located Iff.rfl ?_
  intro frame subsystems system path child after present same
  rw [List.cons_append, locate_cons, Subsystems.context?_putContext, if_pos rfl, present]
  constructor
  · intro found
    obtain ⟨child, held, inside⟩ := found
    cases held
    exact same.mp inside
  · intro inside
    exact ⟨after, rfl, same.mpr inside⟩

end Context
end BlockDiagram
