import PortLogic.Proofs.Between

/-!
# PortLogic.Proofs.Evaluation — what a tick leaves of a port

When every write is accepted, an evaluation gives a port the value of its expression, if that fits
(`Evaluated`), and a new value is one that the change detection has not seen yet. So a reference to
a port without such a change reads the same at each turn of a tick as it does after the tick
(`atTurn_source`).
-/

namespace PortLogic

open Table

/-! ## Ports -/

namespace Port

variable {δ : Type} {p q : Port δ} {now : Now}

/-- The value of an enabled port is the one seen by the previous change detection. -/
def Seen (p : Port δ) : Prop :=
  p.enabled = true → Value.Alike p.value p.detected

theorem seen_of_not_hasChanged (h : p.hasChanged = false) : p.Seen := by
  intro henabled
  unfold hasChanged at h
  rw [henabled, Bool.true_and, Bool.not_eq_false'] at h
  exact Value.alike_of_beq h

theorem fit_isFinite {kind : PortKind} {low high : Option Number} {x y : Number}
    (h : fit kind low high x = some y) : y.isFinite = true := by
  have hbool (b : Bool) : (Number.ofBool b).isFinite = true := by
    cases b <;> decide +kernel
  unfold fit at h
  split at h
  · cases h
  next hfinite =>
  split at h
  · rw [← Option.some.inj h]
    exact hbool _
  · split at h
    · cases h
    · rw [← Option.some.inj h]
      simpa using hfinite

theorem fit_alike {kind : PortKind} {low high : Option Number} {x y : Number}
    (h : Number.Alike x y) : Value.Alike (fit kind low high x) (fit kind low high y) := by
  unfold fit
  simp only [h.isFinite, h.isTrue, Number.lt_iff_congr h (Number.Alike.refl _),
    Number.lt_iff_congr (Number.Alike.refl _) h]
  split
  · exact Option.Rel.none
  split
  · exact Value.Alike.refl _
  split
  · exact Option.Rel.none
  · exact Option.Rel.some h

/-- An evaluation changes the value when the fitted result does not compare equal to it. -/
theorem not_seen_of_new {x y : Number} (hseen : p.Seen) (henabled : p.enabled = true)
    (hfit : p.normalize x = some y) (hnew : (p.value == some y) = false) :
    ¬Value.Alike (some y) p.detected := by
  intro hdetected
  have halike : Value.Alike p.value (some y) := (hseen henabled).trans hdetected.symm
  rw [halike.beq (fit_isFinite hfit)] at hnew
  cases hnew

theorem sample_readable [Power] [Driver δ] (h : p.Readable) (now : Now) :
    (p.sample now).port.Readable := by
  rcases p.sample_cases now with ⟨_, _, _, _, -, -, ⟨_, heq⟩ | ⟨_, y, -, -, heq⟩⟩
  · rw [heq]
    exact h
  · rw [heq, acceptSample]
    split
    · next hsame => exact (Value.alike_of_beq hsame).symm
    · exact Value.Alike.refl (some y)

/-- A sample changes nothing but the value that matters for evaluations. -/
theorem sample_kept [Power] [Driver δ] (p : Port δ) (now : Now) : p.Kept (p.sample now).port := by
  rcases p.sample_cases now with ⟨_, _, _, _, -, -, ⟨_, heq⟩ | ⟨_, y, -, -, heq⟩⟩
  · rw [heq]
    exact ⟨rfl, rfl, rfl, rfl, rfl, rfl⟩
  · rw [heq, acceptSample]
    split
    · exact ⟨rfl, rfl, rfl, rfl, rfl, rfl⟩
    · exact ⟨rfl, rfl, rfl, rfl, rfl, rfl⟩

/-- Detecting a change leaves alone what does not look at the reason and the detected value. -/
theorem acknowledge_congr {α : Type} (f : Port δ → α)
    (hf : ∀ reason detected, f { p with reason, detected } = f p) : f p.acknowledge = f p := by
  rcases p.acknowledge_eq with ⟨reason, detected, h⟩
  rw [h, hf]

theorem sample_writeTransform [Power] [Driver δ] (p : Port δ) (now : Now) :
    (p.sample now).port.writeTransform = p.writeTransform := by
  rcases p.sample_cases now with ⟨_, _, _, _, -, -, ⟨_, heq⟩ | ⟨_, y, -, -, heq⟩⟩
  · rw [heq]
  · rw [heq, acceptSample]
    split <;> rfl

theorem acknowledge_seen (p : Port δ) : p.acknowledge.Seen := by
  unfold acknowledge
  split
  · intro _
    exact Value.Alike.refl p.value
  · next hkept => exact seen_of_not_hasChanged (by simpa using hkept)

theorem Kept.value_alike (h : p.Kept q) (hp : p.Seen) (hq : q.Seen) (henabled : q.enabled = true) :
    Value.Alike p.value q.value := by
  have hbefore : Value.Alike p.value q.detected := h.detected ▸ hp (h.enabled ▸ henabled)
  exact hbefore.trans (hq henabled).symm

theorem Kept.lastRead_alike (h : p.Kept q) (hp : p.Seen) (hq : q.Seen) (hpread : p.Readable)
    (hqread : q.Readable) (henabled : q.enabled = true) : Value.Alike p.lastRead q.lastRead :=
  hpread.trans ((h.value_alike hp hq henabled).trans hqread.symm)

theorem normalize_of_wiring (h : q.wiring = p.wiring) : q.normalize = p.normalize := by
  unfold normalize
  rw [show q.kind = p.kind from congrArg Wiring.kind h,
    show q.min = p.min from congrArg Wiring.min h, show q.max = p.max from congrArg Wiring.max h]

end Port

namespace Table

variable {δ : Type} {t : Table δ} {id : String} {slot : Nat} {p : Port δ}

theorem source_of_slotOf? (hslot : t.slotOf? id = some slot) (hget : t.get? slot = some p) :
    t.source id = if p.enabled then p.lastRead else none := by
  unfold source find?
  rw [hslot, Option.bind_some, hget, Option.bind_some]

theorem source_of_unknown (h : t.slotOf? id = none) : t.source id = none := by
  unfold source find?
  rw [h]
  rfl

end Table

/-! ## Evaluations -/

namespace Engine

variable {δ : Type} [Driver δ] {before e : Engine δ} {now : Now} {slot trigger : Nat}
  {p q : Port δ} {expr : Expr}

/-- Whether no port has a write transform. -/
def writesPlainly (e : Engine δ) : Bool :=
  e.table.ports.all fun p => p.writeTransform.isNone

variable [Power]

/-- What an evaluation of a port from a source leaves of it when writes are accepted. -/
structure Evaluated (source : Source) (now : Now) (expr : Expr) (p q : Port δ) : Prop where
  live : q.live = some (expr.eval ⟨source, now⟩).next
  lastRead : q.Seen → q.lastRead = p.lastRead
  value : ∀ x, (expr.eval ⟨source, now⟩).value.bind p.normalize = some x →
    Value.Alike q.value (some x)
  readable : p.Readable → q.Readable

theorem write_eq_ok (hwrites : ∀ (d : δ) x, (Driver.write d x).1 = .ok ())
    (htransform : p.writeTransform = none) (x : Number) : (p.write x now).1 = .ok () := by
  unfold Port.write Port.outgoing
  rw [htransform]
  simp only
  unfold Port.drive
  split
  · rfl
  · next driver _ =>
    simp only
    rw [hwrites driver x]
    rfl

theorem evaluateLive_evaluated (hwrites : ∀ (d : δ) x, (Driver.write d x).1 = .ok ())
    (hget : e.table.get? slot = some p) (htransform : p.writeTransform = none)
    (henabled : p.enabled = true) (hseen : p.Seen) (expr : Expr) (now : Now) :
    ∃ q, (e.evaluateLive slot p expr now).2.table.get? slot = some q ∧
      Evaluated e.table.source now expr p q := by
  rcases evaluateLive_cases e slot p expr now with
    ⟨h, hsame⟩ | ⟨x, writeTransform, driver, hx, hnew, -, ⟨⟨err, hwrite⟩, -⟩ | ⟨-, h⟩⟩
  · rw [h]
    refine ⟨_, modify_get?_self hget _, rfl, fun _ => rfl, ?_, fun hread => hread⟩
    intro x hx
    exact Value.alike_of_beq (hsame x hx)
  · -- a written port has no transform that could refuse the value, and its driver accepts it
    have hnone : { p with live := some (expr.eval ⟨e.table.source, now⟩).next }.writeTransform
        = none := htransform
    cases (write_eq_ok hwrites hnone x).symm.trans hwrite
  · rw [h]
    rcases Option.bind_eq_some_iff.mp hx with ⟨y, -, hfit⟩
    refine ⟨_, modify_get?_self hget _, rfl, ?_, ?_, fun _ => Value.Alike.refl (some x)⟩
    · -- the new value differs from the old one, and so from the one detected before
      intro hnext
      have hdetected : Value.Alike (some x) p.detected := hnext henabled
      exact absurd hdetected (Port.not_seen_of_new hseen henabled hfit hnew)
    · intro y hy
      rw [← Option.some.inj (hx.symm.trans hy)]
      exact Value.Alike.refl (some x)

/-- What a tick leaves of a port: the port that was ready, or what its evaluation made of it. -/
theorem tick_port (hwrites : ∀ (d : δ) x, (Driver.write d x).1 = .ok ())
    (hplain : e.writesPlainly = true) (hget : e.table.get? slot = some p) (now : Now) :
    ∃ q, (e.tick now).2.table.get? slot = some q ∧
      (slot ∉ (e.tick now).1.evaluated ∧ q = (p.sample now).port.acknowledge ∨
        slot ∈ (e.tick now).1.evaluated ∧
          ∃ expr, (p.sample now).port.acknowledge.live = some expr ∧
            Evaluated (e.atTurn now slot).table.source now expr
              (p.sample now).port.acknowledge q) := by
  have hready := ready_get?_of_some hget now
  have htransform : (p.sample now).port.acknowledge.writeTransform = none := by
    have hnone : p.writeTransform = none := by
      have hall := List.all_eq_true.mp hplain p (mem_ports.mpr ⟨slot, hget⟩)
      simpa using hall
    rw [Port.acknowledge_congr Port.writeTransform fun _ _ => rfl, Port.sample_writeTransform,
      hnone]
  rcases tick_get?_cases hready with ⟨hidle, hafter⟩ | ⟨expr, hfires, hafter⟩
  · refine ⟨_, hafter, Or.inl ⟨?_, rfl⟩⟩
    intro hevaluated
    rcases mem_tick_evaluated.mp hevaluated with ⟨q, expr, hq, hfires⟩
    rw [hready] at hq
    obtain rfl := Option.some.inj hq
    exact hidle expr hfires
  · rcases evaluateLive_evaluated hwrites (atTurn_get?_self hready) htransform hfires.enabled
      (Port.acknowledge_seen _) expr now with ⟨q, hq, hevaluated⟩
    exact ⟨q, hafter.trans hq, Or.inr ⟨mem_tick_evaluated.mpr ⟨_, expr, hready, hfires⟩,
      expr, hfires.live, hevaluated⟩⟩

/-! ## What references read during a tick -/

/-- No turn of a tick changes which port is in which slot. -/
theorem atTurn_slotOf? (e : Engine δ) (now : Now) (turns : Nat) :
    (e.atTurn now turns).table.slotOf? = e.table.slotOf? := by
  refine slotOf?_congr ?_
  intro slot
  cases hget : e.table.get? slot with
  | none =>
    rw [atTurn, turn_get?_of_none]
    rw [ready_get?, hget, Option.map_none]
  | some p =>
    rcases (tick_sameWiring e now).symm.get? hget with ⟨q, hq, hwiring⟩
    have hid : q.id = p.id := congrArg Port.Wiring.id hwiring.symm
    rcases atTurn_get? (ready_get?_of_some hget now) turns with hturn | hturn
    · rw [hturn, Option.map_some, Option.map_some, Port.acknowledge_congr Port.id fun _ _ => rfl,
        (p.sample_kept now).id]
    · rw [hturn, hq, Option.map_some, Option.map_some, hid]

/-- A reference to a port whose change, if any, is detected reads what was sampled. -/
theorem tick_source_of_seen (hwrites : ∀ (d : δ) x, (Driver.write d x).1 = .ok ())
    (hplain : e.writesPlainly = true) {id : String} (hslot : e.table.slotOf? id = some slot)
    (hget : e.table.get? slot = some p)
    (hseen : ∀ q, (e.tick now).2.table.find? id = some q → q.Seen) :
    (e.tick now).2.table.source id =
      if p.enabled then (p.sample now).port.lastRead else none := by
  rcases tick_port hwrites hplain hget now with ⟨q, hq, hcases⟩
  have hslots := (tick_sameWiring e now).slotOf?
  have hqseen : q.Seen := by
    refine hseen q ?_
    rw [Table.find?, hslots, hslot, Option.bind_some, hq]
  rcases (tick_sameWiring e now).get? hq with ⟨p', hp', hwiring⟩
  obtain rfl := Option.some.inj (hget.symm.trans hp')
  have hread : q.lastRead = (p.sample now).port.lastRead := by
    have hready : (p.sample now).port.acknowledge.lastRead = (p.sample now).port.lastRead :=
      Port.acknowledge_congr Port.lastRead fun _ _ => rfl
    rcases hcases with ⟨-, rfl⟩ | ⟨-, expr, -, hevaluated⟩
    · exact hready
    · exact (hevaluated.lastRead hqseen).trans hready
  rw [source_of_slotOf? (hslots ▸ hslot) hq, hread,
    show q.enabled = p.enabled from congrArg Port.Wiring.enabled hwiring]

/-- At each turn of a tick, a reference to a port whose change, if any, is detected afterwards reads
what it reads after the tick. -/
theorem atTurn_source (hwrites : ∀ (d : δ) x, (Driver.write d x).1 = .ok ())
    (hplain : e.writesPlainly = true) (turns : Nat) {id : String}
    (hseen : ∀ q, (e.tick now).2.table.find? id = some q → q.Seen) :
    (e.atTurn now turns).table.source id = (e.tick now).2.table.source id := by
  have hturn := atTurn_slotOf? e now turns
  have htick := (tick_sameWiring e now).slotOf?
  cases hslot : e.table.slotOf? id with
  | none => rw [source_of_unknown (hturn ▸ hslot), source_of_unknown (htick ▸ hslot)]
  | some slot =>
    rcases slotOf?_eq_some hslot with ⟨p, hget, -⟩
    rcases atTurn_get? (ready_get?_of_some hget now) turns with hheld | hheld
    · -- the port has yet to get its turn, and its turn will not change what is read
      rw [tick_source_of_seen hwrites hplain hslot hget hseen,
        source_of_slotOf? (hturn ▸ hslot) hheld, Port.acknowledge_congr Port.enabled fun _ _ => rfl,
        Port.acknowledge_congr Port.lastRead fun _ _ => rfl, (p.sample_kept now).enabled]
    · rcases tick_port hwrites hplain hget now with ⟨q, hq, -⟩
      rw [source_of_slotOf? (hturn ▸ hslot) (hheld.trans hq), source_of_slotOf? (htick ▸ hslot) hq]

end Engine

end PortLogic
