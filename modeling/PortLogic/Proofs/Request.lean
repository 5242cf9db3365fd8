import PortLogic.Number.Power
import PortLogic.Proofs.Dependency

/-!
# PortLogic.Proofs.Request — evaluations that were asked for

Touching a port, assigning its expression and enabling it ask for an evaluation of the port and of
what depends on it. The next tick serves the request (`requested_evaluated`), except where the guard
against self-triggering holds a port back: a request does not overrule that. As the guard goes by a
reason that disabling leaves on record, enabling a port may not have it evaluated, and the request
is spent (`enable_is_not_served`).
-/

namespace PortLogic

open Table

namespace Engine

section

variable {δ : Type} [Driver δ] {e e' : Engine δ} {id : String} {now : Now} {slot : Nat}
  {p : Port δ} {expr : Expr}

/-- An accepted operation has asked for the evaluation of a port and left an engine. -/
inductive Requested (e : Engine δ) (id : String) (e' : Engine δ) : Prop where
  | touch (h : e.touch id = (.ok (), e'))
  | setExpression (source : String) (h : e.setExpression id source = (.ok (), e'))
  | enable (hdisabled : (e.table.find? id).any (fun p => !p.enabled) = true)
      (h : e.enable id = (.ok (), e'))

omit [Driver δ] in
/-- A request forces the slot of its port and everything that the slot triggers. -/
theorem Requested.forced (h : e.Requested id e') :
    ∃ slot, e'.table.slotOf? id = some slot ∧
      ∀ other, (e'.table.triggeredBy slot).contains other = true →
        e'.forced.contains other = true := by
  -- all three touch the slot at their end, the latter two after they have rewired the port
  have htouched {e' : Engine δ} {before : Triggers} {slot : Nat}
      (hforced : e'.forced = before ∪ e'.table.triggeredBy slot) (other : Nat)
      (hother : (e'.table.triggeredBy slot).contains other = true) :
      e'.forced.contains other = true := by
    rw [hforced, Triggers.contains_union, hother, Bool.or_true]
  have hrewired {slot : Nat} {p q : Port δ} (hentry : e.entry? id = some (slot, p))
      (hid : q.id = p.id) :
      (e.table.modify slot fun _ => q).refreshTriggers.slotOf? id = some slot := by
    rw [refreshTriggers_slotOf?, modify_slotOf? hentry hid]
    exact (entry?_eq_some hentry).1
  cases h with
  | touch h =>
    rcases touch_cases e id with ⟨err, heq⟩ | ⟨slot, hslot, heq⟩
    · rw [h] at heq
      cases (Prod.mk.inj heq).1
    · obtain rfl := (Prod.mk.inj (h.symm.trans heq)).2
      exact ⟨slot, hslot, htouched rfl⟩
  | setExpression source h =>
    rcases setExpression_cases e id source with
      ⟨err, heq⟩ | ⟨slot, p, expr?, hentry, -, -, heq⟩
    · rw [h] at heq
      cases (Prod.mk.inj heq).1
    · obtain rfl := (Prod.mk.inj (h.symm.trans heq)).2
      exact ⟨slot, hrewired hentry rfl, htouched rfl⟩
  | enable hdisabled h =>
    rcases enable_cases e id with
      ⟨err, heq⟩ | ⟨slot, p, hentry, ⟨henabled, heq⟩ | ⟨-, live, -, heq⟩⟩
    · rw [h] at heq
      cases (Prod.mk.inj heq).1
    · -- the port was disabled
      rcases entry?_eq_some hentry with ⟨hslot, hget, -⟩
      rw [Table.find?, hslot, Option.bind_some, hget, Option.any_some, henabled] at hdisabled
      cases hdisabled
    · obtain rfl := (Prod.mk.inj (h.symm.trans heq)).2
      exact ⟨slot, hrewired hentry rfl, htouched rfl⟩

variable [Power]

theorem Requested.reachable (h : e.Requested id e') (he : e.Reachable) : e'.Reachable := by
  cases h with
  | touch h =>
    have hafter := he.run [.touch id]
    rwa [show e.run [.touch id] = (e.touch id).2 from rfl, h] at hafter
  | setExpression source h =>
    have hafter := he.run [.setExpression id source]
    rwa [show e.run [.setExpression id source] = (e.setExpression id source).2 from rfl, h]
      at hafter
  | enable _ h =>
    have hafter := he.run [.enable id]
    rwa [show e.run [.enable id] = (e.enable id).2 from rfl, h] at hafter

/-- After an accepted request the next tick evaluates the port and every output that references it,
except those that are held back: they reference themselves, have a change that no tick has detected,
and have their own expression on record as the reason of their last change. -/
theorem requested_evaluated (he : e.Reachable) (h : e.Requested id e')
    (hget : e'.table.get? slot = some p) (henabled : p.enabled = true) (houtput : p.output = true)
    (hlive : p.live = some expr) (hconcerned : p.id = id ∨ id ∈ expr.ports)
    (hclear : ¬(p.hasChanged = true ∧ p.reason = .expression ∧ p.id ∈ expr.ports)) :
    slot ∈ (e'.tick now).1.evaluated := by
  have hwired := (h.reachable he).wired
  rcases h.forced with ⟨source, hsource, hforced⟩
  rcases slotOf?_eq_some hsource with ⟨q, hq, hid⟩
  -- the wiring is that of the engine after the request: a new expression already counts
  have hslot : e'.forced.contains slot = true := by
    apply hforced
    rw [contains_triggeredBy]
    rcases hconcerned with hsame | hmem
    · exact Or.inl (hwired.distinct hq hget (hid.trans hsame.symm))
    · exact Or.inr ⟨p, hget, (hwired.contains_triggers hget hlive hq).mpr (hid ▸ hmem)⟩
  rw [mem_evaluated_iff_isTriggered hget henabled houtput (by rw [hlive]; rfl),
    isTriggered_iff hget houtput (ActsOn.forced hslot) (Or.inl rfl)]
  rintro ⟨hchanged, hreason, hown⟩
  exact hclear ⟨hchanged, hreason, (hwired.contains_triggers hget hlive hget).mp hown⟩

end

attribute [local instance] Power.rounded

/-- Touching the source of a port has the port evaluated. -/
theorem requested_evaluated_of_source :
    ∃ e, adding.touch "a" = (.ok (), e) ∧ 1 ∈ (e.tick ⟨0, none⟩).1.evaluated := by
  have hslot : adding.table.slotOf? "a" = some 0 := by
    decide +kernel
  have htouch : adding.touch "a" = (.ok (), adding.touchSlot 0) := by
    unfold touch
    rw [hslot]
  have hport : (adding.table.get? 1).any (fun p => p.enabled && p.output && p.reason = .native &&
      p.live.any fun e => "a" ∈ e.ports) = true := by
    decide +kernel
  rcases (Option.any_eq_true _ _).mp hport with ⟨p, hget, hp⟩
  simp only [Bool.and_eq_true, decide_eq_true_eq] at hp
  rcases hp with ⟨⟨⟨henabled, houtput⟩, hreason⟩, hlive⟩
  rcases (Option.any_eq_true _ _).mp hlive with ⟨expr, hexpr, hsource⟩
  refine ⟨adding.touchSlot 0, htouch, ?_⟩
  refine requested_evaluated ((reachable_start _).run _) (Requested.touch htouch) hget henabled
    houtput hexpr (Or.inr (of_decide_eq_true hsource)) ?_
  rintro ⟨-, hexpression, -⟩
  rw [hreason] at hexpression
  cases hexpression

/-- Enabling a port does not have it evaluated when the change that its own expression made was not
detected before it was disabled. -/
theorem enable_is_not_served :
    ¬∀ (e e' : Engine Simulated) (id : String) (now : Now) (slot : Nat) (p : Port Simulated),
      e.Reachable → (e.table.find? id).any (fun p => !p.enabled) = true →
      e.enable id = (.ok (), e') → e'.table.get? slot = some p → p.id = id →
      p.enabled = true → p.output = true → p.live.isSome = true →
      slot ∈ (e'.tick now).1.evaluated := by
  intro h
  have hdisabled : (interrupted.table.find? "c").any (fun p => !p.enabled) = true := by
    decide +kernel
  have hok : (interrupted.enable "c").1 = .ok () := by
    decide +kernel
  have hport : ((interrupted.enable "c").2.table.get? 1).any (fun p =>
      p.id = "c" && p.enabled && p.output && p.live.isSome) = true := by
    decide +kernel
  rcases (Option.any_eq_true _ _).mp hport with ⟨p, hget, hp⟩
  simp only [Bool.and_eq_true, decide_eq_true_eq] at hp
  rcases hp with ⟨⟨⟨hid, henabled⟩, houtput⟩, hlive⟩
  have hevaluated : 1 ∈ ((interrupted.enable "c").2.tick ⟨300, none⟩).1.evaluated :=
    h interrupted _ "c" ⟨300, none⟩ 1 p ((reachable_start _).run _) hdisabled
      (Prod.ext hok rfl) hget hid henabled houtput hlive
  have hnone : ((interrupted.enable "c").2.tick ⟨300, none⟩).1.evaluated = [] := by
    decide +kernel
  rw [hnone] at hevaluated
  cases hevaluated

end Engine

end PortLogic
