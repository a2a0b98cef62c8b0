import BlockDiagram.Proofs.Copying

namespace BlockDiagram
open Relation

namespace Context

theorem along_delivery {relation : Context → Context → Prop}
    (received : ∀ context changes, relation context (context.receive changes)) {frame later : Frame}
    {subsystems others : Subsystems} {mail : Mail}
    (same : ∀ system, others.context? system = subsystems.context? system)
    (here : relation (.diagram frame subsystems) (.diagram later (others.receive mail))) :
    (Context.diagram frame subsystems).Along relation (.diagram later (others.receive mail)) := by
  refine along_diagram here (fun system child present => ?_)
  refine ⟨child.receive (mail.addressed system), ?_, along_receive received child _⟩
  rw [Subsystems.context?_receive, same, present]
  rfl

theorem covers_delivery {frame later : Frame} {subsystems others : Subsystems} {mail : Mail}
    (same : ∀ system, others.context? system = subsystems.context? system) :
    (Context.diagram frame subsystems).Covers (.diagram later (others.receive mail)) := by
  refine covers_diagram (fun system other held => ?_)
  rw [Subsystems.context?_receive, same] at held
  obtain ⟨child, present, rfl⟩ := Option.map_eq_some_iff.mp held
  exact ⟨child, present, covers_receive child _⟩

theorem along_tables {relation : Context → Context → Prop} (reflexive : ∀ context, relation context context)
    {frame later : Frame} {subsystems : Subsystems}
    (here : relation (.diagram frame subsystems) (.diagram later subsystems)) :
    (Context.diagram frame subsystems).Along relation (.diagram later subsystems) :=
  along_diagram here (fun _ child present => ⟨child, present, .refl reflexive child⟩)

theorem covers_tables {frame later : Frame} {subsystems : Subsystems} :
    (Context.diagram frame subsystems).Covers (.diagram later subsystems) :=
  covers_diagram (fun _ child present => ⟨child, present, .refl child⟩)

theorem along_leaf {relation : Context → Context → Prop} {own later : Leaf}
    (here : relation (.leaf own) (.leaf later)) : (Context.leaf own).Along relation (.leaf later) := by
  intro path found located
  obtain ⟨rfl, rfl⟩ := locate_leaf located
  exact ⟨_, locate_nil _, here⟩

end Context

-- The two operations that change wires or stored outputs.
def Operation.Rewrites : Operation → Prop
  | .connect .. | .setOutput .. => True
  | _ => False

namespace Effect
open Context
variable {context after : Context} {operation : Operation}

theorem calm (effect : Effect context operation after) :
    operation.Rewrites ∨ context.Along Calm after := by
  cases effect with
  | idle => exact .inr (.refl calm_refl context)
  | received => exact .inr (along_receive calm_receive context _)
  | revised => exact .inr (along_leaf ⟨rfl, rfl, List.length_map _⟩)
  | kept =>
    cases context with
    | leaf own => exact .inr (along_leaf ⟨rfl, rfl, rfl⟩)
    | diagram frame subsystems =>
      exact .inr (along_tables calm_refl ⟨.of_tables rfl rfl rfl, rfl, fun _ _ held => held⟩)
  | connected => exact .inl trivial
  | exposedInput =>
    exact .inr (along_tables calm_refl
      ⟨⟨rfl, List.prefix_append _ _, List.prefix_refl _⟩, rfl, fun _ _ held => held⟩)
  | exposedOutput =>
    exact .inr (along_tables calm_refl
      ⟨⟨rfl, List.prefix_refl _, List.prefix_append _ _⟩, rfl, fun _ _ held => held⟩)
  | finished =>
    exact .inr (along_tables calm_refl ⟨.of_tables rfl rfl rfl, rfl, fun _ _ held => held⟩)
  | stored => exact .inl trivial
  | told =>
    refine .inr (along_delivery calm_receive (fun _ => rfl) ⟨.refl _, rfl, fun system buffer held => ?_⟩)
    rw [Subsystems.buffer?_receive]
    exact held

theorem grows (effect : Effect context operation after) : context.Along Grows after := by
  rcases effect.calm with rewrites | calm
  · cases effect with
    | idle => exact .refl grows_refl context
    | connected =>
      refine along_delivery grows_receive (fun _ => rfl) ⟨.of_tables rfl rfl rfl, fun system buffer held => ?_⟩
      exact ⟨buffer, by rw [Subsystems.buffer?_receive]; exact held, rfl⟩
    | stored held =>
      refine along_delivery grows_receive (Subsystems.context?_putBuffer _ _ _) ⟨.refl _, fun system buffer there => ?_⟩
      rw [Subsystems.buffer?_receive, Subsystems.buffer?_putBuffer]
      split
      · rename_i same
        rw [same] at there
        cases held.symm.trans there
        exact ⟨_, by rw [held]; rfl, OutputBuffer.count_write _ _ _⟩
      · exact ⟨buffer, there, rfl⟩
    | received sends => cases sends <;> cases rewrites
    | kept keeps => cases keeps <;> cases rewrites
    | told tells => cases tells <;> cases rewrites
    | _ => cases rewrites
  · intro path found located
    obtain ⟨later, there, related⟩ := calm path found located
    exact ⟨later, there, related.grows⟩

theorem covers (effect : Effect context operation after) : context.Covers after := by
  cases effect with
  | idle => exact .refl context
  | received => exact covers_receive context _
  | revised => exact covers_leaf
  | kept =>
    cases context with
    | leaf own => exact covers_leaf
    | diagram frame subsystems => exact covers_tables
  | connected => exact covers_delivery (fun _ => rfl)
  | exposedInput => exact covers_tables
  | exposedOutput => exact covers_tables
  | finished => exact covers_tables
  | stored => exact covers_delivery (Subsystems.context?_putBuffer _ _ _)
  | told => exact covers_delivery (fun _ => rfl)

end Effect

namespace Frame.Sound
variable {frame later : Frame} {subsystems others : Subsystems}

theorem receive (sound : frame.Sound subsystems) (mail : Mail) : frame.Sound (subsystems.receive mail) := by
  refine sound.carry (fun _ has => has.receive mail) (fun _ has => has.of_buffers ?_) rfl rfl rfl
  intro buffer held
  exact ⟨buffer, by rw [Subsystems.buffer?_receive]; exact held, rfl⟩

theorem connect (sound : frame.Sound subsystems) {output input : Terminal} (source : subsystems.HasOutput output)
    (target : subsystems.HasInput input)
    (apart : ¬ ReflTransGen frame.wiring.Feeds input.system output.system) :
    Frame.Sound { frame with wiring := frame.wiring.connect output input } subsystems where
  exposed := sound.exposed
  exported := sound.exported
  wired := by
    intro origin target' wired
    rw [Wiring.source?_connect] at wired
    split at wired
    · rename_i here
      cases wired
      exact ⟨source, here ▸ target⟩
    · exact sound.wired _ _ wired
  coherent := sound.coherent.connect _ _
  acyclic := sound.acyclic.connect apart

theorem exposeInput (sound : frame.Sound subsystems) {input : Terminal} (target : subsystems.HasInput input)
    (ticket : Ticket) (cache : Cache) :
    Frame.Sound { frame with inputs := frame.inputs ++ [⟨input, ticket⟩], cache := cache } subsystems where
  exposed := by
    intro exposed member
    rcases List.mem_append.mp member with old | new
    · exact sound.exposed exposed old
    · rw [List.mem_singleton.mp new]
      exact target
  exported := sound.exported
  wired := sound.wired
  coherent := sound.coherent
  acyclic := sound.acyclic

theorem exposeOutput (sound : frame.Sound subsystems) {output : Terminal}
    (source : subsystems.HasOutput output) :
    Frame.Sound { frame with outputs := frame.outputs ++ [output] } subsystems where
  exposed := sound.exposed
  exported := by
    intro other member
    rcases List.mem_append.mp member with old | new
    · exact sound.exported other old
    · rw [List.mem_singleton.mp new]
      exact source
  wired := sound.wired
  coherent := sound.coherent
  acyclic := sound.acyclic

end Frame.Sound

namespace Subsystems

theorem buffer?_install (subsystems : Subsystems) (system : Nat) (context : Context) (buffer : OutputBuffer)
    (other : Nat) :
    (subsystems.install system context buffer).buffer? other =
      if other = system ∧ system < subsystems.size then some buffer else subsystems.buffer? other := by
  fun_induction install subsystems system context buffer generalizing other <;> cases other <;>
    simp_all [buffer?, size]

end Subsystems

namespace Context

theorem wellFormed_delivery {frame later : Frame} {subsystems others : Subsystems} {mail : Mail}
    (sound : (Context.diagram frame subsystems).WellFormed)
    (same : ∀ system, others.context? system = subsystems.context? system)
    (top : later.Sound (others.receive mail)) : (Context.diagram later (others.receive mail)).WellFormed := by
  refine everywhere_diagram.mpr ⟨top, fun system context held => ?_⟩
  rw [Subsystems.context?_receive, same] at held
  obtain ⟨child, present, rfl⟩ := Option.map_eq_some_iff.mp held
  exact (sound.child present).receive _

theorem wellFormed_tables {frame later : Frame} {subsystems : Subsystems}
    (sound : (Context.diagram frame subsystems).WellFormed) (top : later.Sound subsystems) :
    (Context.diagram later subsystems).WellFormed :=
  everywhere_diagram.mpr ⟨top, fun _ _ present => sound.child present⟩

theorem wellFormed_putBuffer {frame : Frame} {subsystems : Subsystems} {system : Nat} {buffer kept : OutputBuffer}
    (sound : (Context.diagram frame subsystems).WellFormed) (held : subsystems.buffer? system = some kept)
    (size : buffer.count = kept.count) :
    (Context.diagram frame (subsystems.putBuffer system buffer)).WellFormed := by
  refine everywhere_diagram.mpr ⟨?_, fun place child present => ?_⟩
  · refine sound.frame.carry (fun _ has => ?_) (fun _ has => has.of_buffers ?_) rfl rfl rfl
    · obtain ⟨child, present, inside⟩ := has
      exact ⟨child, by rw [Subsystems.context?_putBuffer]; exact present, inside⟩
    · intro old there
      rw [Subsystems.buffer?_putBuffer]
      split
      · rename_i same
        rw [same, held] at there
        cases there
        exact ⟨buffer, by rw [held]; rfl, size⟩
      · exact ⟨old, there, rfl⟩
  · rw [Subsystems.context?_putBuffer] at present
    exact sound.child present

theorem closed_keeps {operation : Operation} {cache later : Cache} (keeps : operation.Keeps cache later)
    (closed : cache.Closed) : later.Closed := by
  cases keeps with
  | issued => exact Cache.closed_extend closed _
  | set => exact Cache.closed_write closed _ _
  | swapped => exact Cache.closed_write closed _ _
  | invalidated => exact Cache.closed_clear closed _

theorem WellFormed.effect {context after : Context} {operation : Operation} (sound : context.WellFormed)
    (effect : Effect context operation after) : after.WellFormed := by
  cases effect with
  | idle => exact sound
  | received => exact sound.receive _
  | revised =>
    rename_i own _ _
    have closed : own.cache.Closed := everywhere_leaf.mp sound
    exact everywhere_leaf.mpr (Cache.closed_clear closed _)
  | kept keeps =>
    cases context with
    | leaf own =>
      have closed : own.cache.Closed := everywhere_leaf.mp sound
      exact everywhere_leaf.mpr (closed_keeps keeps closed)
    | diagram frame subsystems =>
      exact wellFormed_tables sound (sound.frame.carry (fun _ has => has) (fun _ has => has) rfl rfl rfl)
  | connected source target apart =>
    exact wellFormed_delivery sound (fun _ => rfl) ((sound.frame.connect source target apart).receive _)
  | exposedInput target => exact wellFormed_tables sound (sound.frame.exposeInput target _ _)
  | exposedOutput source => exact wellFormed_tables sound (sound.frame.exposeOutput source)
  | finished => exact wellFormed_tables sound (sound.frame.carry (fun _ has => has) (fun _ has => has) rfl rfl rfl)
  | @stored _ _ output value buffer held _ =>
    have kept := wellFormed_putBuffer sound held (buffer.count_write output.index (some value))
    exact wellFormed_delivery sound (Subsystems.context?_putBuffer _ _ _) (kept.frame.receive _)
  | told => exact wellFormed_delivery sound (fun _ => rfl) (sound.frame.receive _)

theorem WellFormed.act {tree after : Context} {path : List Nat} {operation : Operation} (sound : tree.WellFormed)
    (acted : (tree.act path operation).left? = some after) :
    (tree.locate path = .error .notDiagram ∧ after = tree) ∨ ∃ found changed, tree.locate path = .ok found ∧
      Effect found operation changed ∧ after = tree.graft path changed := by
  rcases carryOut_left acted with same | ⟨found, changed, located, performed, rfl⟩
  · exact .inl same
  · exact .inr ⟨found, changed, located, perform_effect (Everywhere.below sound located) performed, rfl⟩

theorem along_act {tree after : Context} {path : List Nat} {operation : Operation} (sound : tree.WellFormed)
    (acted : (tree.act path operation).left? = some after) :
    tree.Along Grows after ∧ tree.Covers after := by
  rcases sound.act acted with ⟨_, rfl⟩ | ⟨found, changed, located, effect, rfl⟩
  · exact ⟨.refl grows_refl _, .refl _⟩
  · exact ⟨along_graft grows_refl grows_outward located effect.grows, covers_graft located effect.covers⟩

theorem WellFormed.acted {tree after : Context} {path : List Nat} {operation : Operation} (sound : tree.WellFormed)
    (acted : (tree.act path operation).left? = some after) : after.WellFormed := by
  rcases sound.act acted with ⟨_, rfl⟩ | ⟨found, changed, located, effect, rfl⟩
  · exact sound
  · exact sound.graft located (WellFormed.effect (Everywhere.below sound located) effect) effect.grows.here

theorem along_install {frame : Frame} {subsystems : Subsystems} {system : Nat} (other : Context)
    (buffer : OutputBuffer) (vacant : subsystems.context? system = none) :
    (Context.diagram frame subsystems).Along Still (.diagram frame (subsystems.install system other buffer)) := by
  have elsewhere : ∀ place child, subsystems.context? place = some child → ¬ (place = system ∧ system < subsystems.size) := by
    intro place child present gone
    obtain ⟨rfl, _⟩ := gone
    cases vacant.symm.trans present
  refine along_diagram ⟨⟨.refl frame, rfl, fun place kept held => ?_⟩, fun _ same => nomatch same⟩
    (fun place child present => ?_)
  · obtain ⟨child, present⟩ := Subsystems.context?_of_buffer? held
    rw [Subsystems.buffer?_install, if_neg (elsewhere place child present)]
    exact held
  · refine ⟨child, ?_, .refl still_refl child⟩
    rw [Subsystems.context?_install, if_neg (elsewhere place child present)]
    exact present

theorem wellFormed_install {frame : Frame} {subsystems : Subsystems} {system : Nat} {other : Context}
    (buffer : OutputBuffer) (sound : (Context.diagram frame subsystems).WellFormed) (inside : other.WellFormed)
    (vacant : subsystems.context? system = none) :
    (Context.diagram frame (subsystems.install system other buffer)).WellFormed := by
  have along : (Context.diagram frame subsystems).Along Still (.diagram frame (subsystems.install system other buffer)) :=
    along_install other buffer vacant
  refine everywhere_diagram.mpr ⟨?_, fun place child held => ?_⟩
  · refine sound.frame.carry (fun terminal has => ?_) (fun terminal has => has.of_buffers ?_) rfl rfl rfl
    · obtain ⟨child, present, bound⟩ := has
      obtain ⟨kept, held, still⟩ := along.child present
      exact ⟨kept, held, Nat.lt_of_lt_of_le bound still.here.1.grows.inputCount⟩
    · exact fun kept held => ⟨kept, along.here.1.2.2 _ _ held, rfl⟩
  · rw [Subsystems.context?_install] at held
    split at held
    · cases held; exact inside
    · exact sound.child held

end Context
end BlockDiagram
