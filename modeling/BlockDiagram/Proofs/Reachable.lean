import BlockDiagram.Proofs.Preservation

namespace BlockDiagram
open Relation

namespace Context

def Unambiguous (tree : Context) : Prop :=
  ∀ first second left right, tree.locate first = .ok left → tree.locate second = .ok right →
    left.id = right.id → first = second

def Apart (tree other : Context) : Prop :=
  ∀ first second left right, tree.locate first = .ok left → other.locate second = .ok right →
    left.id ≠ right.id

theorem Unambiguous.below {tree found : Context} {path : List Nat} (unique : tree.Unambiguous)
    (located : tree.locate path = .ok found) : found.Unambiguous := by
  intro first second left right one two same
  have equal := unique _ _ _ _ ((locate_append located).mpr one) ((locate_append located).mpr two) same
  exact List.append_cancel_left equal

theorem Unambiguous.along {tree later : Context} (unique : tree.Unambiguous) (along : tree.Along Grows later)
    (covers : tree.Covers later) : later.Unambiguous := by
  have before : ∀ path after, later.locate path = .ok after →
      ∃ found, tree.locate path = .ok found ∧ found.id = after.id := by
    intro path after located
    obtain ⟨found, there⟩ := covers path after located
    obtain ⟨same, arrived, grows⟩ := along path found there
    rw [located] at arrived
    cases arrived
    exact ⟨found, there, grows.id.symm⟩
  intro first second left right one two same
  obtain ⟨old, there, id⟩ := before first left one
  obtain ⟨other, here, equal⟩ := before second right two
  exact unique first second old other there here (by rw [id, equal, same])

theorem locate_graft_install {tree other : Context} {path : List Nat} {frame : Frame} {subsystems : Subsystems}
    {system : Nat} {buffer : OutputBuffer} (located : tree.locate path = .ok (.diagram frame subsystems))
    {place : List Nat} {found : Context}
    (there : (tree.graft path (.diagram frame (subsystems.install system other buffer))).locate place = .ok found) :
    (∃ rest, place = path ++ system :: rest ∧ other.locate rest = .ok found) ∨
      ∃ before, tree.locate place = .ok before := by
  refine graft_induct (fun front before after => ∀ place found, after.locate place = .ok found →
    (∃ rest, place = front ++ system :: rest ∧ other.locate rest = .ok found) ∨
      ∃ old, before.locate place = .ok old) located ?_ ?_ place found there
  · intro place found there
    cases place with
    | nil => exact .inr ⟨_, locate_nil _⟩
    | cons step rest =>
      obtain ⟨child, held, inside⟩ := locate_cons.mp there
      rw [Subsystems.context?_install] at held
      split at held
      · rename_i here
        cases held
        exact .inl ⟨rest, by rw [here.1]; rfl, inside⟩
      · exact .inr ⟨found, locate_cons.mpr ⟨child, held, inside⟩⟩
  · intro frame subsystems step front child changed present below place found there
    cases place with
    | nil => exact .inr ⟨_, locate_nil _⟩
    | cons next rest =>
      obtain ⟨context, held, inside⟩ := locate_cons.mp there
      rcases Subsystems.of_putContext present held with ⟨rfl, rfl⟩ | kept
      · rcases below rest found inside with ⟨deeper, rfl, reached⟩ | ⟨old, reached⟩
        · exact .inl ⟨deeper, rfl, reached⟩
        · exact .inr ⟨old, locate_cons.mpr ⟨child, present, reached⟩⟩
      · exact .inr ⟨found, locate_cons.mpr ⟨context, kept, inside⟩⟩

theorem along_graft_install {tree : Context} {path : List Nat} {frame : Frame} {subsystems : Subsystems}
    {system : Nat} (other : Context) (buffer : OutputBuffer)
    (located : tree.locate path = .ok (.diagram frame subsystems)) (vacant : subsystems.context? system = none) :
    tree.Along Still (tree.graft path (.diagram frame (subsystems.install system other buffer))) :=
  along_graft still_refl still_outward located (along_install other buffer vacant)

theorem Unambiguous.adopt {tree other after : Context} {path : List Nat} {system : Nat} {buffer : OutputBuffer}
    (unique : tree.Unambiguous) (inside : other.Unambiguous) (apart : tree.Apart other)
    (adopted : (tree.adopt path system other buffer).left? = some after) : after.Unambiguous := by
  rcases adopt_left adopted with rfl | ⟨frame, subsystems, located, _, _, vacant, rfl⟩
  · exact unique
  have along := along_graft_install other buffer located vacant
  have old : ∀ place before found, tree.locate place = .ok before →
      (tree.graft path (.diagram frame (subsystems.install system other buffer))).locate place = .ok found →
      before.id = found.id := by
    intro place before found there here
    obtain ⟨same, arrived, still⟩ := along place before there
    rw [here] at arrived
    cases arrived
    exact still.1.grows.id.symm
  intro first second left right one two same
  rcases locate_graft_install located one with ⟨rest, rfl, inner⟩ | ⟨before, there⟩
  · rcases locate_graft_install located two with ⟨more, rfl, deeper⟩ | ⟨before, there⟩
    · rw [inside rest more left right inner deeper same]
    · refine absurd ?_ (apart second rest before left there inner)
      rw [old second before right there two, same]
  · rcases locate_graft_install located two with ⟨more, rfl, deeper⟩ | ⟨other, here⟩
    · refine absurd ?_ (apart first more before right there deeper)
      rw [old first before left there one, same]
    · refine unique first second before other there here ?_
      rw [old first before left there one, old second other right here two, same]

theorem WellFormed.adopt {tree other after : Context} {path : List Nat} {system : Nat} {buffer : OutputBuffer}
    (sound : tree.WellFormed) (inside : other.WellFormed)
    (adopted : (tree.adopt path system other buffer).left? = some after) : after.WellFormed := by
  rcases adopt_left adopted with rfl | ⟨frame, subsystems, located, _, _, vacant, rfl⟩
  · exact sound
  refine sound.graft located (wellFormed_install buffer (Everywhere.below sound located) inside vacant) ?_
  exact (along_install other buffer vacant).here.1.grows

theorem WellFormed.copy {context copied : Context} {outer : Resolver} {serial next : Nat}
    (sound : context.WellFormed) (done : context.copy outer serial = .ok (copied, next)) : copied.WellFormed := by
  induction context using Context.induct generalizing outer serial next copied with
  | leaf own =>
    cases done
    have closed : own.cache.Closed := everywhere_leaf.mp sound
    exact everywhere_leaf.mpr closed
  | diagram frame subsystems ih =>
    obtain ⟨copies, marks, last, _, made, _, _, rfl, rfl⟩ := copy_diagram done
    have top := sound.frame
    have inputs : ∀ terminal, subsystems.HasInput terminal → copies.HasInput terminal := by
      intro terminal has
      obtain ⟨child, present, bound⟩ := has
      obtain ⟨copy, done, held⟩ := made.present _ _ present
      exact ⟨copy, held, by rw [(copy_counts done).1]; exact bound⟩
    have outputs : ∀ terminal, subsystems.HasOutput terminal → copies.HasOutput terminal := by
      intro terminal has
      exact has.of_buffers (fun buffer held => ⟨buffer, by rw [made.buffers]; exact held, rfl⟩)
    have rewired : (frame.copy ⟨last⟩ copies).Sound copies := by
      refine ⟨fun exposed member => inputs _ (top.exposed exposed member),
        fun output member => outputs _ (top.exported output member), ?_, frame.wiring.coherent_rebuilt, ?_⟩
      · intro output input wired
        have original : frame.wiring.source? input = some output := by
          rw [← Wiring.source?_rebuilt top.coherent]
          exact wired
        exact ⟨outputs _ (top.wired _ _ original).1, inputs _ (top.wired _ _ original).2⟩
      · intro system path
        refine top.acyclic system ?_
        rw [← Wiring.feeds_rebuilt top.coherent]
        exact path
    refine everywhere_diagram.mpr ⟨rewired.receive _, fun system context held => ?_⟩
    obtain ⟨copy, there, rfl⟩ := Subsystems.of_receive held
    obtain ⟨child, present, done⟩ := made.of_copy there
    exact (ih _ _ present (sound.child present) done).receive _

theorem copies_unambiguous {frame : Frame} {subsystems copies : Subsystems} {outer : Resolver} {marks : Nat → Nat}
    {last : Nat} (made : subsystems.Copies outer copies marks) (bound : ∀ system, marks system ≤ last)
    (id : frame.id = ⟨last⟩) (inside : ∀ system copy, copies.context? system = some copy → copy.Unambiguous) :
    (Context.diagram frame copies).Unambiguous := by
  have inner : ∀ system path found, (Context.diagram frame copies).locate (system :: path) = .ok found →
      marks system ≤ found.id.serial ∧ found.id.serial < marks (system + 1) := by
    intro system path found located
    obtain ⟨copy, held, below⟩ := locate_cons.mp located
    obtain ⟨child, present, done⟩ := made.of_copy held
    exact copy_range done below
  have apart : ∀ system path found, (Context.diagram frame copies).locate (system :: path) = .ok found →
      found.id ≠ frame.id := by
    intro system path found located same
    have high := (inner system path found located).2
    have low := bound (system + 1)
    rw [same, id] at high
    exact absurd (Nat.lt_of_lt_of_le high low) (Nat.lt_irrefl _)
  intro first second left right one two same
  cases first with
  | nil =>
    cases second with
    | nil => rfl
    | cons system path =>
      cases (locate_nil _).symm.trans one
      exact absurd same.symm (apart system path right two)
  | cons system path =>
    cases second with
    | nil =>
      cases (locate_nil _).symm.trans two
      exact absurd same (apart system path left one)
    | cons other rest =>
      have range := inner system path left one
      have near := inner other rest right two
      rw [same] at range
      obtain rfl : system = other := made.same_range range near
      obtain ⟨copy, held, here⟩ := locate_cons.mp one
      obtain ⟨again, there, below⟩ := locate_cons.mp two
      cases held.symm.trans there
      rw [inside system copy held path rest left right here below same]

theorem unambiguous_copy {context copied : Context} {outer : Resolver} {serial next : Nat}
    (done : context.copy outer serial = .ok (copied, next)) : copied.Unambiguous := by
  induction context using Context.induct generalizing outer serial next copied with
  | leaf own =>
    cases done
    intro first second left right one two _
    rw [(locate_leaf one).1, (locate_leaf two).1]
  | diagram frame subsystems ih =>
    obtain ⟨copies, marks, last, _, made, _, bound, rfl, rfl⟩ := copy_diagram done
    -- Rewiring moves no id, so it is enough to look at the copies as they were made.
    have unwired : (Context.diagram (frame.copy ⟨last⟩ copies) copies).Unambiguous := by
      refine copies_unambiguous made bound rfl (fun system copy held => ?_)
      obtain ⟨child, present, done⟩ := made.of_copy held
      exact ih _ _ present done
    refine unwired.along (along_delivery grows_receive (fun _ => rfl) ⟨.refl _, fun system buffer held => ?_⟩)
      (covers_delivery (fun _ => rfl))
    exact ⟨buffer, by rw [Subsystems.buffer?_receive]; exact held, rfl⟩

end Context

-- What is allowed on the way to a tree.
structure Rules where
  permits : Operation → Prop
  copies : Prop

def Rules.any : Rules := ⟨fun _ => True, True⟩

inductive Built (rules : Rules) : Context → Prop where
  | leaf {id : ContextId} {configuration : Configuration} {modal : List Value} :
    Built rules (.leaf (.create id configuration modal))
  | diagram {id : ContextId} {places : Nat} {concurrency : Concurrency} :
    Built rules (Diagram.create id places concurrency).context
  | act {tree after : Context} {path : List Nat} {operation : Operation} (built : Built rules tree)
    (permitted : rules.permits operation) (acted : (tree.act path operation).left? = some after) :
    Built rules after
  | adopt {tree other after : Context} {path : List Nat} {system : Nat} {buffer : OutputBuffer}
    (built : Built rules tree) (joining : Built rules other) (apart : tree.Apart other)
    (adopted : (tree.adopt path system other buffer).left? = some after) : Built rules after
  | copy {tree copied : Context} {outer : Resolver} {serial next : Nat} (allowed : rules.copies)
    (built : Built rules tree) (done : tree.copy outer serial = .ok (copied, next)) : Built rules copied

namespace Built
open Context
variable {rules : Rules} {tree : Context}

theorem context?_vacancies (places system : Nat) : (Subsystems.vacancies places).context? system = none := by
  induction places generalizing system with
  | zero => rfl
  | succ places ih =>
    cases system with
    | zero => rfl
    | succ system => exact ih system

theorem locate_create {id : ContextId} {places : Nat} {concurrency : Concurrency} {path : List Nat} {found : Context}
    (located : (Diagram.create id places concurrency).context.locate path = .ok found) :
    path = [] ∧ found = (Diagram.create id places concurrency).context := by
  cases path with
  | nil => rw [locate_nil] at located; cases located; exact ⟨rfl, rfl⟩
  | cons system path =>
    obtain ⟨child, present, _⟩ := locate_cons.mp located
    cases (context?_vacancies _ system).symm.trans present

theorem apart_create {id : ContextId} {places : Nat} {concurrency : Concurrency} {other : Context}
    (foreign : ∀ path found, other.locate path = .ok found → found.id ≠ id) :
    (Diagram.create id places concurrency).context.Apart other := by
  intro first second left right located there same
  obtain ⟨_, rfl⟩ := locate_create located
  exact foreign second right there same.symm

theorem wellFormed (built : Built rules tree) : tree.WellFormed := by
  induction built with
  | leaf => exact everywhere_leaf.mpr (Cache.closed_blank _)
  | diagram =>
    refine everywhere_diagram.mpr ⟨⟨nofun, nofun, nofun, Wiring.coherent_empty, Wiring.acyclic_empty⟩, ?_⟩
    intro system child present
    cases (context?_vacancies _ system).symm.trans present
  | act _ _ acted ih => exact ih.acted acted
  | adopt _ _ _ adopted ih joining => exact ih.adopt joining adopted
  | copy _ _ done ih => exact ih.copy done

theorem frame_sound {path : List Nat} {diagram : Diagram} (built : Built rules tree)
    (located : tree.locate path = .ok diagram.context) :
    diagram.context.WellFormed ∧ diagram.frame.Sound diagram.subsystems :=
  have sound := Everywhere.below built.wellFormed located
  ⟨sound, WellFormed.frame sound⟩

theorem unambiguous (built : Built rules tree) : tree.Unambiguous := by
  induction built with
  | leaf =>
    intro first second left right one two _
    rw [(locate_leaf one).1, (locate_leaf two).1]
  | diagram =>
    intro first second left right one two _
    rw [(locate_create one).1, (locate_create two).1]
  | act built _ acted ih =>
    obtain ⟨along, covers⟩ := along_act built.wellFormed acted
    exact ih.along along covers
  | adopt _ _ apart adopted ih joining => exact ih.adopt joining apart adopted
  | copy _ _ done => exact unambiguous_copy done

end Built
end BlockDiagram
