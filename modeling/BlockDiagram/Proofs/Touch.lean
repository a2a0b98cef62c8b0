import BlockDiagram.Proofs.Leaves
import BlockDiagram.Proofs.Resolution

namespace BlockDiagram
open Relation

def Operation.Stores (ticket : Ticket) : Operation → Prop
  | .setLine written _ => written = ticket
  | .swapLine written _ => written = ticket
  | _ => False

inductive Leaf.Touched (own : Leaf) (operation : Operation) (direct : Prop) : List Change → Leaf → Prop where
  | received {changes : List Change} : Touched own operation direct changes (changes.foldl Leaf.receive own)
  | revised {state : State} :
    Touched own operation direct [.invalidateState] { own.openState with state := state }
  | kept {cache : Cache} (here : direct) (keeps : operation.Keeps own.cache cache) :
    Touched own operation direct [] { own with cache := cache }

namespace Cache

theorem dependsOn_extend {cache : Cache} {needs : List Ticket} {ticket root : Ticket}
    (issued : ticket.index < cache.size) (depends : (cache.extend needs).DependsOn ticket root) :
    cache.DependsOn ticket root := by
  unfold DependsOn at *
  induction depends with
  | refl => exact .refl
  | @tail middle ticket path step ih =>
    rcases mem_dependents_extend.mp step with old | ⟨rfl, _⟩
    · exact (ih (issued_of_dependents old)).tail old
    · exact absurd issued (Nat.lt_irrefl _)

end Cache

namespace Operation.Keeps
variable {operation : Operation} {cache later : Cache} {ticket : Ticket} {value : Value}

theorem value? (keeps : operation.Keeps cache later) (unstored : ¬ operation.Stores ticket)
    (held : later.value? ticket = some value) : cache.value? ticket = some value := by
  cases keeps with
  | issued => rwa [Cache.value?_extend] at held
  | set => rwa [Cache.value?_write_other unstored] at held
  | swapped => rwa [Cache.value?_write_other unstored] at held
  | invalidated =>
    rw [Cache.value?_clear] at held
    split at held
    · cases held
    · exact held

theorem dependsOn (keeps : operation.Keeps cache later) {root : Ticket} (issued : ticket.index < cache.size)
    (depends : later.DependsOn ticket root) : cache.DependsOn ticket root := by
  cases keeps with
  | issued => exact Cache.dependsOn_extend issued depends
  | set => exact (Cache.dependsOn_congr (fun other => Cache.dependents_write _ _ other _)).mp depends
  | swapped => exact (Cache.dependsOn_congr (fun other => Cache.dependents_write _ _ other _)).mp depends
  | invalidated => exact (Cache.dependsOn_congr (Cache.dependents_clear _ _)).mp depends

end Operation.Keeps

namespace Leaf.Touched
variable {own later : Leaf} {operation : Operation} {direct : Prop} {changes : List Change}

-- A line that is valid afterwards and was not stored just now was valid before,
-- and nothing it depends on has been disturbed.
theorem value? (touched : own.Touched operation direct changes later) (closed : own.cache.Closed) {ticket : Ticket}
    {value : Value} (unstored : ¬ (direct ∧ operation.Stores ticket))
    (held : later.cache.value? ticket = some value) :
    own.cache.value? ticket = some value ∧ ∀ change ∈ changes, ∀ root, own.root? change = some root →
      ¬ own.cache.DependsOn ticket root := by
  cases touched with
  | received => exact (value?_receiveAll closed changes).mp held
  | revised =>
    refine (value?_receiveAll closed [.invalidateState]).mp ?_
    exact held
  | kept here keeps =>
    exact ⟨keeps.value? (fun stores => unstored ⟨here, stores⟩) held, fun change member => nomatch member⟩

theorem dependsOn (touched : own.Touched operation direct changes later) {ticket root : Ticket}
    (issued : ticket.index < own.cache.size) (depends : later.cache.DependsOn ticket root) :
    own.cache.DependsOn ticket root := by
  cases touched with
  | received => exact (dependsOn_receiveAll own changes).mp depends
  | revised => exact (dependsOn_receiveAll own [.invalidateState]).mp depends
  | kept _ keeps => exact keeps.dependsOn issued depends

theorem inputs (touched : own.Touched operation direct changes later) {index : Nat}
    (bound : index < own.inputs.length) :
    (later.inputs[index]? = own.inputs[index]? ∧ ∀ change ∈ changes, change.bound? ≠ some index) ∨
      ∃ binding, (.bind index binding ∈ changes ∨ .rebind index binding ∈ changes) ∧
        later.inputs[index]? = some binding := by
  cases touched with
  | received => exact inputs_receiveAll bound changes
  | revised => exact .inl ⟨rfl, by simp [Change.bound?]⟩
  | kept => exact .inl ⟨rfl, by simp⟩

end Leaf.Touched

-- A diagram around the input of a leaf has a wire on record that leads to it,
-- owns the handle that stands for the wire, and has this value on its source.
def Context.Backs (tree : Context) (path : List Nat) (index : Nat) (handle : Handle) (value : Option Value) : Prop :=
  ∃ front back frame subsystems input, path = front ++ back ∧
    tree.locate front = .ok (.diagram frame subsystems) ∧ frame.id = handle.owner ∧
    frame.wiring.source? input = some handle.source ∧
    subsystems.terminalHome? .inputs input = some ⟨back, index⟩ ∧ subsystems.output? handle.source = value

def Context.Backed (tree : Context) : Prop :=
  ∀ path own index handle, tree.locate path = .ok (.leaf own) →
    own.inputs[index]? = some (some (.dependent handle)) → ∃ value, tree.Backs path index handle value

namespace Context

theorem Backs.carry {later : Context} {front back : List Nat} {frame after : Frame}
    {subsystems others : Subsystems} {input : Terminal} {index : Nat} {handle : Handle}
    (sound : frame.Sound subsystems) (there : later.locate front = .ok (.diagram after others))
    (calm : (Context.diagram frame subsystems).Calm (.diagram after others))
    (grows : (Context.diagram frame subsystems).Along Grows (.diagram after others))
    (owner : frame.id = handle.owner) (wired : frame.wiring.source? input = some handle.source)
    (home : subsystems.terminalHome? .inputs input = some ⟨back, index⟩) :
    later.Backs (front ++ back) index handle (subsystems.output? handle.source) := by
  obtain ⟨⟨buffer, held, _⟩, _⟩ := sound.wired _ _ wired
  refine ⟨front, back, after, others, input, rfl, there, calm.1.id.trans owner, by rw [calm.2.1]; exact wired,
    Subsystems.terminalHome?_along Numbering.lasting_inputs grows home, ?_⟩
  rw [Subsystems.output?, Subsystems.output?, held, calm.2.2 _ _ held]

theorem Along.below {relation : Context → Context → Prop} {tree later found after : Context} {path : List Nat}
    (along : tree.Along relation later) (located : tree.locate path = .ok found)
    (there : later.locate path = .ok after) : found.Along relation after := by
  intro rest inner inside
  obtain ⟨other, arrived, related⟩ := along (path ++ rest) inner ((locate_append located).mpr inside)
  exact ⟨other, (locate_append there).mp arrived, related⟩

theorem Backs.along {tree later : Context} {path : List Nat} {index : Nat} {handle : Handle} {value : Option Value}
    (sound : tree.WellFormed) (along : tree.Along Calm later) (backs : tree.Backs path index handle value) :
    later.Backs path index handle value := by
  obtain ⟨front, back, frame, subsystems, input, rfl, located, owner, wired, home, rfl⟩ := backs
  obtain ⟨after, there, calm⟩ := along front _ located
  cases after with
  | leaf => exact calm.elim
  | diagram later others =>
    have grows : tree.Along Grows _ := fun path found located =>
      have ⟨after, there, calm⟩ := along path found located
      ⟨after, there, calm.grows⟩
    exact Backs.carry (WellFormed.frame (Everywhere.below sound located)) there calm
      (grows.below located there) owner wired home

theorem Backs.lift {tree part : Context} {path rest : List Nat} {index : Nat} {handle : Handle} {value : Option Value}
    (located : tree.locate path = .ok part) (backs : part.Backs rest index handle value) :
    tree.Backs (path ++ rest) index handle value := by
  obtain ⟨front, back, frame, subsystems, input, rfl, there, details⟩ := backs
  exact ⟨path ++ front, back, frame, subsystems, input, by rw [List.append_assoc],
    (locate_append located).mpr there, details⟩

-- What backs an input is either the outermost diagram itself or something inside
-- the subsystem the input belongs to.
theorem Backs.innermost {frame : Frame} {subsystems : Subsystems} {system : Nat} {child : Context} {path : List Nat}
    {index : Nat} {handle : Handle} {value : Option Value} (present : subsystems.context? system = some child)
    (backs : (Context.diagram frame subsystems).Backs (system :: path) index handle value) :
    (∃ input, frame.id = handle.owner ∧ frame.wiring.source? input = some handle.source ∧
      subsystems.terminalHome? .inputs input = some ⟨system :: path, index⟩ ∧
      subsystems.output? handle.source = value) ∨ child.Backs path index handle value := by
  obtain ⟨front, back, around, places, input, split, there, details⟩ := backs
  cases front with
  | nil =>
    rw [locate_nil] at there
    cases there
    cases split
    exact .inl ⟨input, details⟩
  | cons place front =>
    obtain ⟨rfl, rfl⟩ := List.cons.inj split
    obtain ⟨other, found, deeper⟩ := locate_cons.mp there
    cases present.symm.trans found
    exact .inr ⟨front, back, around, places, input, rfl, deeper, details⟩

theorem locate_delivery {frame : Frame} {subsystems others : Subsystems} {mail : Mail} {system : Nat}
    {child found : Context} {path : List Nat} (same : ∀ place, others.context? place = subsystems.context? place)
    (present : subsystems.context? system = some child) (located : child.locate path = .ok found) :
    (Context.diagram frame (others.receive mail)).locate (system :: path) =
      .ok (found.receive (child.mailTo (mail.addressed system) path)) := by
  rw [locate_cons, Subsystems.context?_receive, same, present]
  exact ⟨_, rfl, locate_receive _ located⟩

theorem bind_of_addressed {subsystems : Subsystems} {mail : Mail} {system : Nat} {child : Context}
    {path : List Nat} {own : Leaf} {index : Nat} {binding : Option Binding}
    (present : subsystems.context? system = some child) (located : child.locate path = .ok (.leaf own))
    (bound : index < own.inputs.length) (member : .bind index binding ∈ child.mailTo (mail.addressed system) path) :
    ∃ outer, (system, .bind outer binding) ∈ mail ∧
      subsystems.terminalHome? .inputs ⟨system, outer⟩ = some ⟨system :: path, index⟩ := by
  obtain ⟨outer, addressed, home⟩ := bind_of_mailTo located bound member
  exact ⟨outer, Mail.mem_addressed.mp addressed,
    Subsystems.terminalHome?_eq_some.mpr ⟨child, _, present, home, rfl⟩⟩

theorem Backs.delivery {later : Frame} {subsystems others : Subsystems} {mail : Mail} {system : Nat} {child : Context}
    {path : List Nat} {index : Nat} {handle : Handle} {value : Option Value} (sound : child.WellFormed)
    (same : ∀ place, others.context? place = subsystems.context? place)
    (present : subsystems.context? system = some child) (backs : child.Backs path index handle value) :
    (Context.diagram later (others.receive mail)).Backs (system :: path) index handle value := by
  have calm := along_receive calm_receive child (mail.addressed system)
  have located : (Context.diagram later (others.receive mail)).locate [system] =
      .ok (child.receive (mail.addressed system)) := by
    rw [locate_cons, Subsystems.context?_receive, same, present]
    exact ⟨_, rfl, locate_nil _⟩
  exact Backs.lift located (backs.along sound calm)

end Context

namespace Effect
open Context
variable {found changed : Context} {operation : Operation} {direct : Prop} {rest : List Nat} {own : Leaf}

theorem sends_bind {changes : List Change} (sends : operation.Sends changes) {outer : Nat}
    {binding : Option Binding} :
    (.bind outer binding ∈ changes → operation = .change (.bind outer binding)) ∧
      (.rebind outer binding ∈ changes → operation = .change (.rebind outer binding)) := by
  cases sends with
  | change =>
    simp only [List.mem_singleton]
    exact ⟨fun same => by rw [same], fun same => by rw [same]⟩
  | opened => simp
  | edited => simp
  | marked => simp

theorem tells_bind {frame : Frame} {subsystems : Subsystems} {mail : Mail}
    (tells : operation.Tells frame subsystems mail) {system outer : Nat} {binding : Option Binding} :
    (system, .bind outer binding) ∉ mail ∧ (system, .rebind outer binding) ∉ mail := by
  cases tells with
  | marked => simp
  | _ => exact ⟨fun member => Frame.ripple_quiet member, fun member => Frame.ripple_quiet member⟩

-- The part of a leaf in an operation, as far as its inputs are concerned: what
-- they are bound to, and that what backs a binding stays unless the input is
-- disturbed.
structure Reaches (found changed : Context) (operation : Operation) (direct : Prop) (rest : List Nat) (own : Leaf)
    (changes : List Change) (later : Leaf) : Prop where
  located : changed.locate rest = .ok (.leaf later)
  touched : own.Touched operation direct changes later
  bound : ∀ index binding, index < own.inputs.length → .bind index binding ∈ changes →
    (∃ outer, operation = .change (.bind outer binding)) ∨
      ∃ handle value, binding = some (.dependent handle) ∧ changed.Backs rest index handle value
  rebound : ∀ index binding, .rebind index binding ∈ changes → ∃ outer, operation = .change (.rebind outer binding)
  backed : ∀ index handle value, found.Backs rest index handle value →
    (∃ other, changed.Backs rest index handle other ∧ (other = value ∨ .invalidateInput index ∈ changes)) ∨
      ∃ binding, .bind index binding ∈ changes

theorem reaches_calm {changes : List Change} {later : Leaf} (sound : found.WellFormed)
    (calm : found.Along Calm changed) (located : changed.locate rest = .ok (.leaf later))
    (touched : own.Touched operation direct changes later)
    (bound : ∀ index binding, index < own.inputs.length → .bind index binding ∈ changes →
      ∃ outer, operation = .change (.bind outer binding))
    (rebound : ∀ index binding, .rebind index binding ∈ changes →
      ∃ outer, operation = .change (.rebind outer binding)) :
    Reaches found changed operation direct rest own changes later :=
  ⟨located, touched, fun index binding inside member => .inl (bound index binding inside member), rebound,
    fun _ _ value backs => .inl ⟨value, backs.along sound calm, .inl rfl⟩⟩

theorem reaches_untouched (sound : found.WellFormed) (calm : found.Along Calm changed)
    (located : changed.locate rest = .ok (.leaf own)) : Reaches found changed operation direct rest own [] own :=
  reaches_calm sound calm located .received (fun _ _ _ member => nomatch member) (fun _ _ member => nomatch member)

theorem reaches_connected {frame : Frame} {subsystems : Subsystems} {output input : Terminal}
    (sound : (Context.diagram frame subsystems).WellFormed)
    (located : (Context.diagram frame subsystems).locate rest = .ok (.leaf own)) :
    ∃ changes later, Reaches (.diagram frame subsystems)
      (.diagram { frame with wiring := frame.wiring.connect output input }
        (subsystems.receive [(input.system, .bind input.index (some (.dependent ⟨frame.id, output⟩)))]))
      (.connect output input) direct rest own changes later := by
  cases rest with
  | nil => cases located
  | cons system path =>
    obtain ⟨child, present, inside⟩ := locate_cons.mp located
    have grows : ∀ mail, (Context.diagram frame subsystems).Along Grows
        (.diagram { frame with wiring := frame.wiring.connect output input } (subsystems.receive mail)) := by
      intro mail
      refine along_delivery grows_receive (fun _ => rfl) ⟨.of_tables rfl rfl rfl, fun place buffer held => ?_⟩
      exact ⟨buffer, by rw [Subsystems.buffer?_receive]; exact held, rfl⟩
    refine ⟨_, _, locate_delivery (fun _ => rfl) present inside, .received, ?_, ?_, ?_⟩
    · intro index binding bound member
      obtain ⟨outer, addressed, home⟩ := bind_of_addressed present inside bound member
      cases List.mem_singleton.mp addressed
      refine .inr ⟨⟨frame.id, output⟩, _, rfl, [], _, _, _, input, rfl, locate_nil _, rfl, ?_, ?_, rfl⟩
      · exact (Wiring.source?_connect _ _ _ _).trans (if_pos rfl)
      · exact Subsystems.terminalHome?_along Numbering.lasting_inputs (grows _) home
    · intro index binding member
      obtain ⟨outer, given⟩ := rebind_of_mailTo member
      cases List.mem_singleton.mp (Mail.mem_addressed.mp given)
    · intro index handle value backs
      rcases backs.innermost present with ⟨target, owner, wired, home, holds⟩ | deeper
      · by_cases here : target = input
        · refine .inr ⟨some (.dependent ⟨frame.id, output⟩), ?_⟩
          obtain ⟨host, inner, held, below, equal⟩ := Subsystems.terminalHome?_eq_some.mp home
          cases equal
          cases present.symm.trans held
          refine mailTo_bind (Mail.mem_addressed.mpr ?_) below
          rw [here]
          exact List.mem_singleton.mpr rfl
        · refine .inl ⟨value, ⟨[], _, _, _, target, rfl, locate_nil _, owner, ?_, ?_, ?_⟩, .inl rfl⟩
          · exact (Wiring.source?_connect _ _ _ _).trans ((if_neg here).trans wired)
          · exact Subsystems.terminalHome?_along Numbering.lasting_inputs (grows _) home
          · rw [Subsystems.output?_receive]
            exact holds
      · exact .inl ⟨value, Backs.delivery (sound.child present) (fun _ => rfl) present deeper, .inl rfl⟩

theorem reaches_stored {frame : Frame} {subsystems : Subsystems} {output : Terminal} {value : Value}
    {buffer : OutputBuffer} (sound : (Context.diagram frame subsystems).WellFormed)
    (held : subsystems.buffer? output.system = some buffer) (bound : output.index < buffer.count)
    (located : (Context.diagram frame subsystems).locate rest = .ok (.leaf own)) :
    ∃ changes later, Reaches (.diagram frame subsystems)
      (.diagram frame ((subsystems.putBuffer output.system (buffer.write output.index (some value))).receive
        (frame.ripple subsystems.layout [output] ++ [(output.system, .mark output.index true)])))
      (.setOutput output value) direct rest own changes later := by
  cases rest with
  | nil => cases located
  | cons system path =>
    obtain ⟨child, present, inside⟩ := locate_cons.mp located
    have same := Subsystems.context?_putBuffer subsystems output.system (buffer.write output.index (some value))
    have quiet : ∀ {place : Nat} {change : Change},
        (place, change) ∈ frame.ripple subsystems.layout [output] ++ [(output.system, .mark output.index true)] →
        change.bound? = none := by
      intro place change member
      rcases List.mem_append.mp member with spread | mark
      · exact (Frame.ripple_quiet spread).unbound
      · cases List.mem_singleton.mp mark
        rfl
    refine ⟨_, _, locate_delivery same present inside, .received, ?_, ?_, ?_⟩
    · intro index binding within member
      obtain ⟨outer, addressed, _⟩ := bind_of_addressed present inside within member
      cases quiet addressed
    · intro index binding member
      obtain ⟨outer, given⟩ := rebind_of_mailTo member
      cases quiet (Mail.mem_addressed.mp given)
    · intro index handle stored backs
      rcases backs.innermost present with ⟨input, owner, wired, home, holds⟩ | deeper
      · have effect : Effect (.diagram frame subsystems) (.setOutput output value) _ := .stored held bound
        have kept := Subsystems.terminalHome?_along Numbering.lasting_inputs effect.grows home
        refine .inl ⟨_, ⟨[], _, _, _, input, rfl, locate_nil _, owner, wired, kept, rfl⟩, ?_⟩
        by_cases here : handle.source = output
        · -- The value on the source is the new one; propagation starts there.
          refine .inr ?_
          obtain ⟨host, inner, there, below, equal⟩ := Subsystems.terminalHome?_eq_some.mp home
          cases equal
          cases present.symm.trans there
          refine mailTo_invalidateInput (Mail.mem_addressed.mpr (List.mem_append_left _ ?_)) below
          refine Frame.mem_ripple.mpr ⟨output, Frame.start_downstream (List.mem_singleton.mpr rfl), .inr ?_⟩
          refine Frame.mem_invalidations.mpr ⟨input, ?_, ?_, rfl⟩
          · rw [sound.frame.coherent.both, ← here]
            exact wired
          · exact Layout.mem_present.mp (Subsystems.mem_present.mpr ⟨child, present⟩)
        · refine .inl ?_
          rw [Subsystems.output?_receive, Subsystems.output?_write _ held bound, if_neg here]
          exact holds
      · exact .inl ⟨stored, Backs.delivery (sound.child present) same present deeper, .inl rfl⟩

theorem reaches_received {changes : List Change} (sends : operation.Sends changes) (sound : found.WellFormed)
    (calm : found.Along Calm (found.receive changes)) (located : found.locate rest = .ok (.leaf own)) :
    ∃ told later, Reaches found (found.receive changes) operation direct rest own told later := by
  refine ⟨found.mailTo changes rest, _, reaches_calm sound calm (locate_receive changes located) .received ?_ ?_⟩
  · intro index binding bound member
    obtain ⟨outer, given, _⟩ := bind_of_mailTo located bound member
    exact ⟨outer, (sends_bind sends).1 given⟩
  · intro index binding member
    obtain ⟨outer, given⟩ := rebind_of_mailTo member
    exact ⟨outer, (sends_bind sends).2 given⟩

theorem reaches_told {frame : Frame} {subsystems : Subsystems} {mail : Mail}
    (tells : operation.Tells frame subsystems mail) (sound : (Context.diagram frame subsystems).WellFormed)
    (calm : (Context.diagram frame subsystems).Along Calm (.diagram frame (subsystems.receive mail)))
    (located : (Context.diagram frame subsystems).locate rest = .ok (.leaf own)) :
    ∃ told later, Reaches (.diagram frame subsystems) (.diagram frame (subsystems.receive mail)) operation direct rest own
      told later := by
  cases rest with
  | nil => cases located
  | cons system path =>
    obtain ⟨child, present, inside⟩ := locate_cons.mp located
    refine ⟨_, _, reaches_calm sound calm (locate_delivery (fun _ => rfl) present inside) .received ?_ ?_⟩
    · intro index binding bound member
      obtain ⟨outer, addressed, _⟩ := bind_of_addressed present inside bound member
      exact absurd addressed (tells_bind tells).1
    · intro index binding member
      obtain ⟨outer, given⟩ := rebind_of_mailTo member
      exact absurd (Mail.mem_addressed.mp given) (tells_bind tells).2

-- A diagram that changes in nothing but its own frame leaves the leaves inside alone.
theorem reaches_framed {frame later : Frame} {subsystems : Subsystems} (sound : (Context.diagram frame subsystems).WellFormed)
    (calm : (Context.diagram frame subsystems).Along Calm (.diagram later subsystems))
    (located : (Context.diagram frame subsystems).locate rest = .ok (.leaf own)) :
    ∃ told after, Reaches (.diagram frame subsystems) (.diagram later subsystems) operation direct rest own told after := by
  cases rest with
  | nil => cases located
  | cons system path => exact ⟨[], own, reaches_untouched sound calm (locate_cons.mpr (locate_cons.mp located))⟩

theorem reaches (effect : Effect found operation changed) (sound : found.WellFormed)
    (located : found.locate rest = .ok (.leaf own)) :
    ∃ changes later, Reaches found changed operation (rest = []) rest own changes later := by
  rcases effect.calm with rewrites | calm
  · cases effect with
    | idle => exact ⟨[], own, reaches_untouched sound (.refl calm_refl _) located⟩
    | connected => exact reaches_connected sound located
    | stored held bound => exact reaches_stored sound held bound located
    | received sends => cases sends <;> cases rewrites
    | kept keeps => cases keeps <;> cases rewrites
    | told tells => cases tells <;> cases rewrites
    | _ => cases rewrites
  cases effect with
  | idle => exact ⟨[], own, reaches_untouched sound calm located⟩
  | received sends => exact reaches_received sends sound calm located
  | revised =>
    obtain ⟨rfl, same⟩ := locate_leaf located
    cases same
    exact ⟨[.invalidateState], _, reaches_calm sound calm (locate_nil _) .revised (by simp) (by simp)⟩
  | kept keeps =>
    cases found with
    | leaf other =>
      obtain ⟨rfl, same⟩ := locate_leaf located
      cases same
      exact ⟨[], _, reaches_calm sound calm (locate_nil _) (.kept rfl keeps) (by simp) (by simp)⟩
    | diagram => exact reaches_framed sound calm located
  | connected => exact reaches_connected sound located
  | stored held bound => exact reaches_stored sound held bound located
  | exposedInput | exposedOutput | finished => exact reaches_framed sound calm located
  | told tells => exact reaches_told tells sound calm located

theorem calm_below (effect : Effect found operation changed) {place : List Nat} {before : Context}
    (apart : place ≠ []) (there : found.locate place = .ok before) :
    ∃ after, changed.locate place = .ok after ∧ before.Calm after := by
  rcases effect.calm with rewrites | calm
  · cases place with
    | nil => exact absurd rfl apart
    | cons system path =>
      cases effect with
      | idle => exact ⟨before, there, calm_refl before⟩
      | connected =>
        obtain ⟨child, present, inside⟩ := locate_cons.mp there
        exact ⟨_, locate_delivery (fun _ => rfl) present inside, calm_receive _ _⟩
      | stored =>
        obtain ⟨child, present, inside⟩ := locate_cons.mp there
        exact ⟨_, locate_delivery (Subsystems.context?_putBuffer _ _ _) present inside, calm_receive _ _⟩
      | received sends => cases sends <;> cases rewrites
      | kept keeps => cases keeps <;> cases rewrites
      | told tells => cases tells <;> cases rewrites
      | _ => cases rewrites
  · exact calm place before there

theorem calm_elsewhere {tree : Context} {path place : List Nat} {before : Context}
    (effect : Effect found operation changed) (located : tree.locate path = .ok found) (apart : place ≠ path)
    (there : tree.locate place = .ok before) :
    ∃ after, (tree.graft path changed).locate place = .ok after ∧ before.Calm after := by
  refine graft_induct (fun path tree later => ∀ place before, place ≠ path → tree.locate place = .ok before →
    ∃ after, later.locate place = .ok after ∧ before.Calm after) located ?_ ?_ place before apart there
  · intro place before apart there
    exact effect.calm_below apart there
  · intro frame subsystems system path child other present below place before apart there
    cases place with
    | nil =>
      rw [locate_nil] at there
      cases there
      refine ⟨_, locate_nil _, ⟨.refl frame, rfl, fun place buffer held => ?_⟩⟩
      rw [Subsystems.buffer?_putContext]
      exact held
    | cons step place =>
      obtain ⟨context, held, inside⟩ := locate_cons.mp there
      by_cases same : step = system
      · subst same
        cases present.symm.trans held
        obtain ⟨after, arrived, calm⟩ := below place before (fun equal => apart (by rw [equal])) inside
        refine ⟨after, locate_cons.mpr ⟨other, ?_, arrived⟩, calm⟩
        rw [Subsystems.context?_putContext, if_pos rfl, present]
        rfl
      · refine ⟨before, locate_cons.mpr ⟨context, ?_, inside⟩, calm_refl before⟩
        rw [Subsystems.context?_putContext, if_neg same]
        exact held

end Effect

namespace Context

theorem locate_grafted {tree found : Context} {path : List Nat} (changed : Context)
    (located : tree.locate path = .ok found) : (tree.graft path changed).locate path = .ok changed := by
  have whole : (tree.graft path changed).locate (path ++ []) = .ok changed :=
    (locate_graft located).mpr (locate_nil changed)
  rwa [List.append_nil] at whole

theorem leaf_elsewhere {tree found changed : Context} {path place : List Nat} {own : Leaf}
    (located : tree.locate path = .ok found) (apart : ¬ path <+: place)
    (there : tree.locate place = .ok (.leaf own)) : (tree.graft path changed).locate place = .ok (.leaf own) := by
  refine graft_induct (fun path tree later => ∀ place, ¬ path <+: place → tree.locate place = .ok (.leaf own) →
    later.locate place = .ok (.leaf own)) located ?_ ?_ place apart there
  · intro place apart _
    exact absurd (List.nil_prefix) apart
  · intro frame subsystems system path child other present below place apart there
    cases place with
    | nil => cases there
    | cons step place =>
      obtain ⟨context, held, inside⟩ := locate_cons.mp there
      refine locate_cons.mpr ?_
      rw [Subsystems.context?_putContext]
      by_cases same : step = system
      · subst same
        cases present.symm.trans held
        rw [if_pos rfl, present]
        exact ⟨other, rfl, below place (fun shorter => apart ((List.cons_prefix_cons).mpr ⟨rfl, shorter⟩)) inside⟩
      · rw [if_neg same]
        exact ⟨context, held, inside⟩

theorem Backs.elsewhere {tree found changed : Context} {operation : Operation} {path front back : List Nat}
    {frame : Frame} {subsystems : Subsystems} {input : Terminal} {index : Nat} {handle : Handle}
    (sound : tree.WellFormed) (effect : Effect found operation changed) (located : tree.locate path = .ok found)
    (apart : front ≠ path) (there : tree.locate front = .ok (.diagram frame subsystems))
    (owner : frame.id = handle.owner) (wired : frame.wiring.source? input = some handle.source)
    (home : subsystems.terminalHome? .inputs input = some ⟨back, index⟩) :
    (tree.graft path changed).Backs (front ++ back) index handle (subsystems.output? handle.source) := by
  obtain ⟨after, arrived, calm⟩ := effect.calm_elsewhere located apart there
  have grows := along_graft grows_refl grows_outward located effect.grows
  cases after with
  | leaf => exact calm.elim
  | diagram later others =>
    exact Backs.carry (WellFormed.frame (Everywhere.below sound there)) arrived calm
      (grows.below there arrived) owner wired home

theorem act_reaches {tree after : Context} {path place : List Nat} {operation : Operation} {own : Leaf}
    (sound : tree.WellFormed) (acted : (tree.act path operation).left? = some after)
    (there : tree.locate place = .ok (.leaf own)) :
    ∃ changes later, Effect.Reaches tree after operation (place = path) place own changes later := by
  rcases sound.act acted with ⟨_, rfl⟩ | ⟨found, changed, located, effect, rfl⟩
  · exact ⟨[], own, Effect.reaches_untouched sound (.refl calm_refl _) there⟩
  by_cases below : path <+: place
  · obtain ⟨rest, rfl⟩ := below
    have inside : found.locate rest = .ok (.leaf own) := (locate_append located).mp there
    obtain ⟨changes, later, reaches⟩ := effect.reaches (Everywhere.below sound located) inside
    have arrived : (tree.graft path changed).locate path = .ok changed := locate_grafted changed located
    have lifted : ∀ {index handle value}, changed.Backs rest index handle value →
        (tree.graft path changed).Backs (path ++ rest) index handle value := fun backs => backs.lift arrived
    refine ⟨changes, later, (locate_append arrived).mpr reaches.located, ?_, ?_, reaches.rebound, ?_⟩
    · have direct : (rest = []) = (path ++ rest = path) := by simp
      exact direct ▸ reaches.touched
    · intro index binding bound member
      refine (reaches.bound index binding bound member).imp_right ?_
      intro rebinds
      obtain ⟨handle, value, same, backs⟩ := rebinds
      exact ⟨handle, value, same, lifted backs⟩
    · intro index handle value backs
      obtain ⟨front, back, frame, subsystems, input, same, there, owner, wired, home, rfl⟩ := backs
      by_cases deeper : path <+: front
      · obtain ⟨inner, rfl⟩ := deeper
        rw [List.append_assoc] at same
        have equal : rest = inner ++ back := List.append_cancel_left same
        refine (reaches.backed index handle (subsystems.output? handle.source) ?_).imp_left ?_
        · exact ⟨inner, back, frame, subsystems, input, equal, (locate_append located).mp there, owner, wired, home, rfl⟩
        · intro kept
          obtain ⟨other, backs, kept⟩ := kept
          exact ⟨other, lifted backs, kept⟩
      · rw [same]
        refine .inl ⟨_, Backs.elsewhere sound effect located ?_ there owner wired home, .inl rfl⟩
        rintro rfl
        exact deeper (List.prefix_refl _)
  · refine ⟨[], own, leaf_elsewhere located below there, .received,
      (fun _ _ _ member => nomatch member), (fun _ _ member => nomatch member), ?_⟩
    intro index handle value backs
    obtain ⟨front, back, frame, subsystems, input, rfl, there, owner, wired, home, rfl⟩ := backs
    refine .inl ⟨_, Backs.elsewhere sound effect located ?_ there owner wired home, .inl rfl⟩
    rintro rfl
    exact below (List.prefix_append _ _)

end Context
end BlockDiagram
