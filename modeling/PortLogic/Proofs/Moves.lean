import PortLogic.Proofs.Reachable

/-!
# PortLogic.Proofs.Moves — what can happen to a port

A port in the table goes through few kinds of *moves*, whatever the operation: its memories advance,
it takes a value that fits, its change is detected, or an edit reassigns one part of it. Every
operation is a sequence of moves for each port that it leaves in its slot (`perform_moves`), except
that a registration and a removal replace one entry, and a flush marks every port as stored. So a
property of single ports that new ports have and that moves and flushes keep is one of all ports of
reachable engines (`Reachable.port_induction`).
-/

namespace PortLogic

open Table

/-! ## Moves -/

namespace Port

variable {δ : Type}

/-- A single change of a port while it is registered. -/
inductive Move (p : Port δ) : Port δ → Prop where
  /-- Memories and filter windows advance, drivers act, and triggers are computed again. -/
  | advance {sampledAt : Option Nat} {readTransform writeTransform live : Option Expr}
      {filter : Filter} {triggers : Triggers} {driver : Option δ}
      (hread : Expr.Advances p.readTransform readTransform)
      (hwrite : Expr.Advances p.writeTransform writeTransform)
      (hlive : Expr.Advances p.live live) (hfilter : p.filter.Continues filter) :
      Move p { p with sampledAt, readTransform, writeTransform, live, filter, triggers, driver }
  /-- An enabled port takes a value that fits. -/
  | accept {x y : Number} (reason : ChangeReason) (henabled : p.enabled = true)
      (hfit : p.normalize x = some y) :
      Move p { p with value := some y, lastRead := some y, reason,
                      dirty := p.dirty || p.persisted }
  /-- An enabled port is read as the value that it has already. -/
  | confirm {x y : Number} (henabled : p.enabled = true) (hfit : p.normalize x = some y)
      (hsame : (p.value == some y) = true) : Move p { p with lastRead := some y }
  | acknowledge : Move p p.acknowledge
  | assign (source : String) (live : Option Expr) :
      Move p { p with expression := Text.trim source, live, dirty := true }
  | readTransform {source : String} {transform : Option Expr}
      (h : readTransformOf p.id source = .ok transform) :
      Move p { p with readTransform := transform, dirty := true }
  | writeTransform {source : String} {transform : Option Expr}
      (h : readTransformOf p.id source = .ok transform) :
      Move p { p with writeTransform := transform, dirty := true }
  | refilter (kind : FilterKind) (width : Nat) :
      Move p { p with filter := Filter.ofWidth kind width, dirty := true }
  /-- The value goes together with the filter that smoothed it. -/
  | forget (hdirty : p.dirty = true) : Move p p.forgetValue
  | enable (live : Option Expr) (hdisabled : p.enabled = false) :
      Move p { p with enabled := true, live, sampledAt := none, dirty := true }
  | disable (henabled : p.enabled = true) :
      Move p { p with enabled := false, value := none, lastRead := none, live := none,
                      filter := p.filter.reset, dirty := true }

/-- Any number of moves. -/
abbrev Moves (p q : Port δ) : Prop :=
  Relation.ReflTransGen Move p q

variable {p : Port δ}

theorem Moves.refl (p : Port δ) : p.Moves p :=
  Relation.ReflTransGen.refl

theorem Move.moves {q : Port δ} (h : p.Move q) : p.Moves q :=
  Relation.ReflTransGen.single h

/-- What every move keeps, any number of moves keep. -/
theorem Moves.keep {motive : Port δ → Prop} {q : Port δ}
    (hmove : ∀ {p q}, p.Move q → motive p → motive q) (h : p.Moves q) (hp : motive p) :
    motive q := by
  induction h with
  | refl => exact hp
  | tail _ hlast ih => exact hmove hlast ih

@[simp]
theorem transformText_reset (transform : Option Expr) :
    transformText (transform.map Expr.reset) = transformText transform := by
  cases transform with
  | none => rfl
  | some e => exact Expr.text_reset e

theorem move_triggers (p : Port δ) (triggers : Triggers) : p.Move { p with triggers } :=
  .advance (Expr.Advances.refl _) (Expr.Advances.refl _) (Expr.Advances.refl _)
    (Filter.Continues.refl _)

theorem move_driver (p : Port δ) (driver : Option δ) : p.Move { p with driver } :=
  .advance (Expr.Advances.refl _) (Expr.Advances.refl _) (Expr.Advances.refl _)
    (Filter.Continues.refl _)

theorem acceptSample_move {x y : Number} (henabled : p.enabled = true)
    (hfit : p.normalize x = some y) : p.Move (p.acceptSample y).port := by
  unfold acceptSample
  split
  · next hsame => exact .confirm henabled hfit hsame
  · exact .accept .native henabled hfit

variable [Power]

theorem sample_moves [Driver δ] (p : Port δ) (now : Now) : p.Moves (p.sample now).port := by
  obtain ⟨sampledAt, readTransform, filter, driver, hadvances, hcontinues, hcases⟩ :=
    p.sample_cases now
  have hadvance : p.Move { p with sampledAt, readTransform, filter, driver } :=
    .advance hadvances (Expr.Advances.refl _) (Expr.Advances.refl _) hcontinues
  rcases hcases with ⟨read, heq⟩ | ⟨x, y, hdue, hfit, heq⟩
  · rw [heq]
    exact hadvance.moves
  · have henabled : p.enabled = true := by
      unfold isDue at hdue
      simp only [Bool.and_eq_true] at hdue
      exact hdue.1.1
    rw [heq]
    exact hadvance.moves.tail (acceptSample_move henabled hfit)

end Port

namespace Table

variable {δ : Type} {t u : Table δ} {slot : Nat}

/-- Every slot holds a port that the one before has moved to, or is free as before. -/
structure Moves (t u : Table δ) : Prop where
  length : u.slots.length = t.slots.length
  port : ∀ slot, Option.Rel Port.Moves (t.get? slot) (u.get? slot)

theorem rel_refl (entry : Option (Port δ)) : Option.Rel Port.Moves entry entry := by
  cases entry with
  | none => exact Option.Rel.none
  | some p => exact Option.Rel.some (Port.Moves.refl p)

theorem Moves.refl (t : Table δ) : t.Moves t :=
  ⟨rfl, fun slot => rel_refl (t.get? slot)⟩

theorem Moves.modify {f : Port δ → Port δ} (hf : ∀ p, t.get? slot = some p → p.Moves (f p)) :
    t.Moves (t.modify slot f) := by
  refine ⟨length_modify t slot f, ?_⟩
  intro other
  rw [get?_modify]
  split
  · next heq =>
    subst heq
    cases hget : t.get? slot with
    | none => exact Option.Rel.none
    | some p => exact Option.Rel.some (hf p hget)
  · exact rel_refl _

theorem Moves.refreshTriggers (h : t.Moves u) : t.Moves u.refreshTriggers := by
  refine ⟨(length_refreshTriggers u).trans h.length, ?_⟩
  intro slot
  have hport := h.port slot
  unfold Table.refreshTriggers
  rw [get?_map]
  generalize t.get? slot = before at hport
  generalize u.get? slot = after at hport
  cases hport with
  | none => exact Option.Rel.none
  | some hmoves => exact Option.Rel.some (hmoves.tail (Port.move_triggers _ _))

theorem Moves.get? {q : Port δ} (h : t.Moves u) (hget : u.get? slot = some q) :
    ∃ p, t.get? slot = some p ∧ p.Moves q := by
  have hport := h.port slot
  rw [hget] at hport
  generalize t.get? slot = before at hport
  cases hport with
  | some hmoves => exact ⟨_, rfl, hmoves⟩

/-- What every port has, it has as well when an entry with that property takes a slot. -/
theorem Replaces.keep {motive : Port δ → Prop} {entry : Option (Port δ)}
    (hmove : ∀ {p q}, p.Move q → motive p → motive q) (h : t.Replaces slot entry u)
    (hentry : ∀ p, entry = some p → motive p)
    (hbefore : ∀ slot p, t.get? slot = some p → motive p) :
    ∀ slot p, u.get? slot = some p → motive p := by
  intro other q hq
  by_cases hslot : slot = other
  · subst hslot
    rcases h.get?_self hq with ⟨p, triggers, hp, rfl⟩
    exact hmove (p.move_triggers triggers) (hentry p hp)
  · rcases h.get?_of_ne hslot hq with ⟨p, triggers, hp, rfl⟩
    exact hmove (p.move_triggers triggers) (hbefore other p hp)

end Table

/-! ## Operations -/

namespace Engine

variable {δ : Type} {e : Engine δ}

theorem modify_moves {id : String} {slot : Nat} {p q : Port δ}
    (hentry : e.entry? id = some (slot, p)) (hmoves : p.Moves q) :
    e.table.Moves (e.table.modify slot fun _ => q) := by
  rcases entry?_eq_some hentry with ⟨-, hget, -⟩
  apply Table.Moves.modify
  intro r hr
  rwa [← Option.some.inj (hget.symm.trans hr)]

theorem setExpression_moves (e : Engine δ) (id source : String) :
    e.table.Moves (e.setExpression id source).2.table := by
  rcases setExpression_cases e id source with
    ⟨err, h⟩ | ⟨slot, p, expr?, hentry, -, -, h⟩
  · rw [h]
    exact Table.Moves.refl _
  · rw [h]
    exact (modify_moves hentry (Port.Move.assign source _).moves).refreshTriggers

theorem setTransform_moves {set : Port δ → Option Expr → Port δ}
    (hset : ∀ {p : Port δ} {transform source}, readTransformOf p.id source = .ok transform →
      p.Move { set p transform with dirty := true }) (e : Engine δ) (id source : String) :
    e.table.Moves (setTransform set e id source).2.table := by
  rcases setTransform_cases set e id source with
    ⟨err, h⟩ | ⟨slot, p, transform, hentry, hread, h⟩
  · rw [h]
    exact Table.Moves.refl _
  · rcases entry?_eq_some hentry with ⟨-, -, rfl⟩
    rw [h]
    exact modify_moves hentry (hset hread).moves

theorem setFilter_moves (e : Engine δ) (id : String) (kind : FilterKind) (width : Nat) :
    e.table.Moves (e.setFilter id kind width).2.table := by
  rcases setFilter_cases e id kind width with
    ⟨err, h⟩ | ⟨slot, p, hentry, ⟨filter, dirty, h, ⟨rfl, rfl⟩ | ⟨rfl, rfl⟩⟩ | ⟨-, h⟩⟩
  · rw [h]
    exact Table.Moves.refl _
  · have hreset : p.Move { p with filter := p.filter.reset } :=
      .advance (Expr.Advances.refl _) (Expr.Advances.refl _) (Expr.Advances.refl _)
        p.filter.reset_continues
    rw [h]
    exact modify_moves hentry hreset.moves
  · rw [h]
    exact modify_moves hentry (Port.Move.refilter kind width).moves
  · rw [h]
    exact modify_moves hentry ((Port.Move.refilter kind width).moves.tail (Port.Move.forget rfl))

theorem enable_moves (e : Engine δ) (id : String) : e.table.Moves (e.enable id).2.table := by
  rcases enable_cases e id with
    ⟨err, h⟩ | ⟨slot, p, hentry, ⟨-, h⟩ | ⟨hdisabled, live, -, h⟩⟩
  · rw [h]
    exact Table.Moves.refl _
  · rw [h]
    exact Table.Moves.refl _
  · rw [h]
    exact (modify_moves hentry (Port.Move.enable live hdisabled).moves).refreshTriggers

theorem disable_moves (e : Engine δ) (id : String) : e.table.Moves (e.disable id).2.table := by
  rcases disable_cases e id with ⟨err, h⟩ | ⟨slot, p, hentry, ⟨-, h⟩ | ⟨henabled, h⟩⟩
  · rw [h]
    exact Table.Moves.refl _
  · rw [h]
    exact Table.Moves.refl _
  · rw [h]
    exact modify_moves hentry (Port.Move.disable henabled).moves

theorem touch_moves (e : Engine δ) (id : String) : e.table.Moves (e.touch id).2.table := by
  rcases touch_cases e id with ⟨err, h⟩ | ⟨slot, -, h⟩
  · rw [h]
    exact Table.Moves.refl _
  · rw [h]
    exact Table.Moves.refl _

theorem adjustDriver_moves (e : Engine δ) (id : String) (f : δ → δ) :
    e.table.Moves (e.adjustDriver id f).table := by
  unfold adjustDriver
  split
  · exact Table.Moves.refl _
  · exact Table.Moves.modify fun p _ => (p.move_driver (p.driver.map f)).moves

variable [Driver δ] [Power]

theorem setValue_moves (e : Engine δ) (id : String) (x : Number) :
    e.table.Moves (e.setValue id x).2.table := by
  rcases setValue_cases e id x with ⟨err, h⟩ | ⟨slot, p, y, hentry, -, henabled, hfit, h⟩
  · rw [h]
    exact Table.Moves.refl _
  rcases commit_cases e slot p y .native with ⟨writeTransform, driver, hadvances, hcases⟩
  have hadvance : p.Move { p with writeTransform, driver } :=
    .advance (Expr.Advances.refl _) hadvances (Expr.Advances.refl _) (Filter.Continues.refl _)
  rcases hcases with ⟨err, -, hcommit⟩ | ⟨-, hcommit⟩
  · rw [h, hcommit]
    exact modify_moves hentry hadvance.moves
  · rw [h, hcommit]
    exact modify_moves hentry (hadvance.moves.tail (Port.Move.accept .native henabled hfit))

theorem evaluateLive_moves {slot : Nat} {p : Port δ} {expr : Expr}
    (hget : e.table.get? slot = some p) (hlive : p.live = some expr) (henabled : p.enabled = true)
    (now : Now) :
    ∃ q, (e.evaluateLive slot p expr now).2.table.get? slot = some q ∧ p.Moves q := by
  have hadvances := Expr.advances_eval ⟨e.table.source, now⟩ expr
  rw [← hlive] at hadvances
  have hadvance {writeTransform : Option Expr} (driver : Option δ)
      (hwrite : Expr.Advances p.writeTransform writeTransform) :
      p.Move { p with
        live := some (expr.eval ⟨e.table.source, now⟩).next, writeTransform, driver } :=
    .advance (Expr.Advances.refl _) hwrite hadvances (Filter.Continues.refl _)
  rcases evaluateLive_cases e slot p expr now with
    ⟨h, -⟩ | ⟨y, writeTransform, driver, hy, -, hwrite, ⟨-, h⟩ | ⟨-, h⟩⟩
  · rw [h]
    exact ⟨_, modify_get?_self hget _, (hadvance p.driver (Expr.Advances.refl _)).moves⟩
  · rw [h]
    exact ⟨_, modify_get?_self hget _, (hadvance driver hwrite).moves⟩
  · rcases Option.bind_eq_some_iff.mp hy with ⟨x, -, hfit⟩
    rw [h]
    exact ⟨_, modify_get?_self hget _,
      (hadvance driver hwrite).moves.tail (Port.Move.accept .expression henabled hfit)⟩

theorem tick_moves (e : Engine δ) (now : Now) : e.table.Moves (e.tick now).2.table := by
  refine ⟨tick_length e now, ?_⟩
  intro slot
  cases hget : e.table.get? slot with
  | none =>
    rw [tick_get?_of_none hget]
    exact Option.Rel.none
  | some p =>
    have hready := ready_get?_of_some hget now
    have hmoves : p.Moves (p.sample now).port.acknowledge :=
      (p.sample_moves now).tail Port.Move.acknowledge
    rcases tick_get?_cases hready with ⟨-, hafter⟩ | ⟨expr, hfires, hafter⟩
    · rw [hafter]
      exact Option.Rel.some hmoves
    · rcases evaluateLive_moves (atTurn_get?_self hready) hfires.live hfires.enabled now with
        ⟨q, hq, hevaluated⟩
      rw [hafter, hq]
      exact Option.Rel.some (hmoves.trans hevaluated)

/-- What changes the ports in their slots and nothing else about the table. -/
def Operation.InPlace : Operation δ → Prop
  | .addPort _ _ => False
  | .unregister _ => False
  | .takeDirtyConfigs _ _ => False
  | _ => True

/-- An operation that neither replaces a port nor flushes moves every port. -/
theorem perform_moves (e : Engine δ) {operation : Operation δ} (h : operation.InPlace) :
    e.table.Moves (e.perform operation).2.table := by
  cases operation with
  | addPort config driver => exact h.elim
  | unregister id => exact h.elim
  | setValue id x => exact setValue_moves e id x
  | setExpression id source => exact setExpression_moves e id source
  | setReadTransform id source => exact setTransform_moves Port.Move.readTransform e id source
  | setWriteTransform id source => exact setTransform_moves Port.Move.writeTransform e id source
  | setFilter id kind width => exact setFilter_moves e id kind width
  | enable id => exact enable_moves e id
  | disable id => exact disable_moves e id
  | touch id => exact touch_moves e id
  | tick now => exact tick_moves e now
  | takeNotifications => exact Table.Moves.refl _
  | takeDirtyConfigs now force => exact h.elim
  | adjustDriver id f => exact adjustDriver_moves e id f

/-- What new ports have and moves and flushes keep, every port of a reachable engine has. -/
theorem Reachable.port_induction {motive : Port δ → Prop} (h : e.Reachable)
    (hadd : ∀ (e : Engine δ) config driver, PortId.isValid config.id.toList = true →
      motive (e.portOf config driver))
    (hmove : ∀ {p q}, p.Move q → motive p → motive q)
    (hflush : ∀ {p}, motive p → motive { p with dirty := false })
    {slot : Nat} {p : Port δ} (hget : e.table.get? slot = some p) : motive p := by
  refine (Reachable.induction (motive := fun e =>
    e.table.Wired ∧ ∀ slot p, e.table.get? slot = some p → motive p) ?_ ?_ h).2 slot p hget
  · intro config
    refine ⟨wired_empty, ?_⟩
    intro slot p hp
    rw [show (start config : Engine δ).table = Table.empty from rfl, get?_empty] at hp
    cases hp
  rintro e operation ⟨hwired, hbefore⟩
  refine ⟨perform_wired hwired operation, ?_⟩
  have hinPlace (h : operation.InPlace) :
      ∀ slot p, (e.perform operation).2.table.get? slot = some p → motive p := by
    intro slot q hq
    rcases (perform_moves e h).get? hq with ⟨p, hp, hpq⟩
    exact hpq.keep hmove (hbefore slot p hp)
  cases operation with
  | addPort config driver =>
    show ∀ slot p, (e.addPort config driver).2.table.get? slot = some p → motive p
    rcases addPort_cases e config driver with ⟨err, hadded⟩ | ⟨slot, hvalid, -, hfree, hadded⟩
    · rw [hadded]
      exact hbefore
    · rw [hadded]
      refine (insert_replaces _ (freeSlot?_eq_some hfree hwired.small).1).keep hmove ?_ hbefore
      intro p hp
      rw [← Option.some.inj hp]
      exact hadd e config driver hvalid
  | unregister id =>
    show ∀ slot p, (e.unregister id).2.table.get? slot = some p → motive p
    rcases unregister_cases e id with ⟨err, hremoved⟩ | ⟨slot, p, -, -, hremoved⟩
    · rw [hremoved]
      exact hbefore
    · rw [hremoved]
      refine (free_replaces e.table slot).keep hmove ?_ hbefore
      intro p hp
      cases hp
  | takeDirtyConfigs now force =>
    show ∀ slot p, (e.takeDirtyConfigs now force).2.table.get? slot = some p → motive p
    unfold takeDirtyConfigs
    split
    · exact hbefore
    · intro slot q hq
      have hmap := (get?_map e.table (fun p => { p with dirty := false }) slot).symm.trans hq
      rcases Option.map_eq_some_iff.mp hmap with ⟨p, hp, rfl⟩
      exact hflush (hbefore slot p hp)
  | _ => exact hinPlace trivial

end Engine

end PortLogic
