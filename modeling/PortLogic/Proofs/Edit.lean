import PortLogic.Engine.Run
import PortLogic.Proofs.Expr.Reset
import PortLogic.Proofs.Table

/-!
# PortLogic.Proofs.Edit — what each edit does

One lemma per edit lists everything that it can do: which checks a successful edit has passed, and
the engine it leaves. A rejected edit leaves the engine as it was. No later proof opens an edit.
-/

namespace PortLogic

theorem Port.outgoing_advances [Power] {δ : Type} [Driver δ] (p : Port δ) (x : Number) (now : Now) :
    Expr.Advances p.writeTransform (p.outgoing x now).2 := by
  unfold Port.outgoing
  cases p.writeTransform with
  | none => exact Expr.Advances.refl none
  | some transform => exact Expr.advances_eval _ transform

/-- A write advances the write transform and the driver of a port and changes nothing else. -/
theorem Port.write_snd [Power] {δ : Type} [Driver δ] (p : Port δ) (x : Number) (now : Now) :
    ∃ writeTransform driver, Expr.Advances p.writeTransform writeTransform ∧
      (p.write x now).2 = { p with writeTransform, driver } := by
  have hadvances := p.outgoing_advances x now
  unfold Port.write Port.drive
  generalize p.outgoing x now = sent at hadvances
  rcases sent with ⟨written, transform⟩
  cases written with
  | none => exact ⟨transform, p.driver, hadvances, rfl⟩
  | some y =>
    simp only
    split
    · exact ⟨transform, p.driver, hadvances, rfl⟩
    · exact ⟨transform, _, hadvances, rfl⟩

namespace Engine

variable {δ : Type} {e : Engine δ} {id source : String} {slot : Nat} {p : Port δ}

theorem entry?_eq_some (h : e.entry? id = some (slot, p)) :
    e.table.slotOf? id = some slot ∧ e.table.get? slot = some p ∧ p.id = id := by
  rcases Option.bind_eq_some_iff.mp h with ⟨found, hfound, hmap⟩
  rcases Option.map_eq_some_iff.mp hmap with ⟨q, hq, heq⟩
  rcases Prod.mk.inj heq with ⟨rfl, rfl⟩
  rcases Table.slotOf?_eq_some hfound with ⟨r, hr, hid⟩
  rw [hq] at hr
  obtain rfl := Option.some.inj hr
  exact ⟨hfound, hq, hid⟩

/-- A port that is found has an entry. -/
theorem exists_entry? (h : e.table.find? id = some p) : ∃ slot, e.entry? id = some (slot, p) := by
  rcases Table.find?_eq_some h with ⟨slot, hslot, hget, -⟩
  refine ⟨slot, ?_⟩
  unfold entry?
  rw [hslot, Option.bind_some, hget, Option.map_some]

theorem find?_of_entry? (h : e.entry? id = some (slot, p)) : e.table.find? id = some p := by
  rcases entry?_eq_some h with ⟨hslot, hget, -⟩
  rw [Table.find?, hslot, Option.bind_some, hget]

/-- A value expression is read when it parses and no loop leads back to its port. -/
theorem readExpression_eq_ok {expr : Expr} :
    e.readExpression id source = .ok expr ↔
      Expr.parse id source = .ok expr ∧ e.table.loopDepth id expr ≤ 1 := by
  unfold readExpression
  split
  · next err herr =>
    rw [herr]
    constructor
    · intro h
      cases h
    · rintro ⟨h, -⟩
      cases h
  · next parsed hparsed =>
    rw [hparsed]
    simp only
    split
    · next hdeep =>
      constructor
      · intro h
        cases h
      · rintro ⟨h, hle⟩
        obtain rfl := Except.ok.inj h
        omega
    · next hflat =>
      constructor
      · intro h
        obtain rfl := Except.ok.inj h
        exact ⟨rfl, Nat.le_of_not_lt hflat⟩
      · rintro ⟨h, -⟩
        obtain rfl := Except.ok.inj h
        rfl

/-! ## Registration -/

/-- A registration puts the port of the configuration into the free slot, when its identifier is
valid and new. -/
theorem addPort_cases (e : Engine δ) (config : PortConfig) (driver : Option δ) :
    (∃ err, e.addPort config driver = (.error err, e)) ∨
      ∃ slot, PortId.isValid config.id.toList = true ∧ e.table.find? config.id = none ∧
        e.table.freeSlot? = some slot ∧ e.addPort config driver =
          (.ok (), Engine.touchSlot { e with
            table := (e.table.insert slot (e.portOf config driver)).refreshTriggers } slot) := by
  unfold addPort
  split
  · exact Or.inl ⟨_, rfl⟩
  next hvalid =>
  rw [Bool.not_eq_true, Bool.not_eq_false'] at hvalid
  split
  · exact Or.inl ⟨_, rfl⟩
  · next hnew =>
    rw [Option.not_isSome_iff_eq_none] at hnew
    split
    · exact Or.inl ⟨_, rfl⟩
    · next slot hslot => exact Or.inr ⟨slot, hvalid, hnew, hslot, rfl⟩

/-- A registration works for a valid new identifier, as long as there is a free slot. -/
theorem addPort_eq_ok_iff {config : PortConfig} {driver : Option δ} :
    (e.addPort config driver).1 = .ok () ↔ PortId.isValid config.id.toList = true ∧
      e.table.find? config.id = none ∧ e.table.freeSlot?.isSome = true := by
  constructor
  · intro hok
    rcases addPort_cases e config driver with ⟨err, hadd⟩ | ⟨slot, hvalid, hnew, hfree, -⟩
    · rw [hadd] at hok
      cases hok
    · exact ⟨hvalid, hnew, Option.isSome_iff_exists.mpr ⟨slot, hfree⟩⟩
  · rintro ⟨hvalid, hnew, hroom⟩
    rcases Option.isSome_iff_exists.mp hroom with ⟨slot, hfree⟩
    unfold addPort
    rw [hvalid, hnew, hfree]
    rfl

/-- A new port is as configured, with each transform and the expression when that can be read and
without it otherwise. -/
theorem portOf_cases (e : Engine δ) (config : PortConfig) (driver : Option δ) :
    ∃ expression live, e.portOf config driver =
        { Port.ofConfig config driver with
          readTransform := (readTransformOf config.id config.readTransform).toOption.join
          writeTransform := (readTransformOf config.id config.writeTransform).toOption.join
          expression, live } ∧
      (expression = "" ∧ live = none ∨
        ∃ expr, config.output = true ∧
          e.readExpression config.id config.expression = .ok expr ∧
          expression = Text.trim config.expression ∧
          live = if config.enabled then some expr else none) := by
  unfold portOf restoreExpression
  simp only
  split
  · exact ⟨_, _, rfl, Or.inl ⟨rfl, rfl⟩⟩
  · next hkept =>
    rw [not_or, Bool.not_eq_false] at hkept
    split
    · next expr hread =>
      exact ⟨_, _, rfl, Or.inr ⟨expr, hkept.2, hread, rfl, rfl⟩⟩
    · exact ⟨_, _, rfl, Or.inl ⟨rfl, rfl⟩⟩

/-- Removing a port touches what depends on it and frees its slot. -/
theorem unregister_cases (e : Engine δ) (id : String) :
    (∃ err, e.unregister id = (.error err, e)) ∨
      ∃ slot p, e.entry? id = some (slot, p) ∧ p.isVirtual = true ∧
        e.unregister id =
          (.ok (), Engine.notify { e.touchSlot slot with
            table := (e.table.free slot).refreshTriggers } (.portUpdate id)) := by
  unfold unregister
  split
  · exact Or.inl ⟨_, rfl⟩
  · next slot p hentry =>
    split
    · exact Or.inl ⟨_, rfl⟩
    · next hvirtual => exact Or.inr ⟨slot, p, hentry, by simpa using hvirtual, rfl⟩

/-- A removal works for every virtual port. -/
theorem unregister_eq_ok_iff : (e.unregister id).1 = .ok () ↔
    ∃ slot p, e.entry? id = some (slot, p) ∧ p.isVirtual = true := by
  constructor
  · intro hok
    rcases unregister_cases e id with ⟨err, hun⟩ | ⟨slot, p, hentry, hvirtual, -⟩
    · rw [hun] at hok
      cases hok
    · exact ⟨slot, p, hentry, hvirtual⟩
  · rintro ⟨slot, p, hentry, hvirtual⟩
    unfold unregister
    rw [hentry]
    simp only
    rw [hvirtual]
    rfl

/-! ## Expressions, transforms and filters -/

/-- Assigning an expression stores it, makes it live on an enabled output, and touches the port. -/
theorem setExpression_cases (e : Engine δ) (id source : String) :
    (∃ err, e.setExpression id source = (.error err, e)) ∨
      ∃ slot p expr?, e.entry? id = some (slot, p) ∧ p.output = true ∧
        (Text.isBlankText source = true ∧ expr? = none ∨
          ∃ expr, e.readExpression id source = .ok expr ∧ expr? = some expr) ∧
        e.setExpression id source =
          (.ok (), ((e.modify slot fun _ =>
            { p with
              expression := Text.trim source
              live := if p.enabled then expr? else none
              dirty := true }).refreshTriggers).touchSlot slot) := by
  unfold setExpression
  split
  · exact Or.inl ⟨_, rfl⟩
  next slot p hentry =>
  split
  · exact Or.inl ⟨_, rfl⟩
  next houtput =>
  rw [Bool.not_eq_true, Bool.not_eq_false'] at houtput
  simp only
  split
  · next hblank => exact Or.inr ⟨slot, p, none, hentry, houtput, Or.inl ⟨hblank, rfl⟩, rfl⟩
  split
  · exact Or.inl ⟨_, rfl⟩
  · next expr hread =>
    exact Or.inr ⟨slot, p, some expr, hentry, houtput, Or.inr ⟨expr, hread, rfl⟩, rfl⟩

/-- Assigning a transform changes the transform and nothing that the scheduler looks at. -/
theorem setTransform_cases (set : Port δ → Option Expr → Port δ) (e : Engine δ)
    (id source : String) :
    (∃ err, setTransform set e id source = (.error err, e)) ∨
      ∃ slot p transform, e.entry? id = some (slot, p) ∧
        readTransformOf id source = .ok transform ∧
        setTransform set e id source =
          (.ok (), e.modify slot fun _ => { set p transform with dirty := true }) := by
  unfold setTransform
  split
  · exact Or.inl ⟨_, rfl⟩
  next transform hread =>
  split
  · exact Or.inl ⟨_, rfl⟩
  · next slot p hentry => exact Or.inr ⟨slot, p, transform, hentry, hread, rfl⟩

/-- A filter of the same kind and width is emptied; another one is put in its place, and touches the
port when it takes the value with it. -/
theorem setFilter_cases (e : Engine δ) (id : String) (kind : FilterKind) (width : Nat) :
    (∃ err, e.setFilter id kind width = (.error err, e)) ∨
      ∃ slot p, e.entry? id = some (slot, p) ∧
        ((∃ filter dirty, e.setFilter id kind width =
            (.ok (), e.modify slot fun _ => { p with filter, dirty }) ∧
            (filter = p.filter.reset ∧ dirty = p.dirty ∨
              filter = Filter.ofWidth kind width ∧ dirty = true)) ∨
          p.value.isSome = true ∧ e.setFilter id kind width =
            (.ok (), ((e.modify slot fun _ =>
              { p with filter := Filter.ofWidth kind width, dirty := true }.forgetValue).touchSlot
                slot).notify (.valueChange id none))) := by
  unfold setFilter
  split
  · exact Or.inl ⟨_, rfl⟩
  split
  · exact Or.inl ⟨_, rfl⟩
  next slot p hentry =>
  refine Or.inr ⟨slot, p, hentry, ?_⟩
  split
  · exact Or.inl ⟨_, p.dirty, rfl, Or.inl ⟨rfl, rfl⟩⟩
  simp only
  split
  · next hvalue => exact Or.inr ⟨hvalue, rfl⟩
  · exact Or.inl ⟨_, true, rfl, Or.inr ⟨rfl, rfl⟩⟩

/-- Setting a filter empties it. The value is kept with a filter of the same kind and width only. -/
theorem setFilter_modify (e : Engine δ) (id : String) (kind : FilterKind) (width : Nat) :
    (∃ err, e.setFilter id kind width = (.error err, e)) ∨
      ∃ slot p q, e.entry? id = some (slot, p) ∧ (e.setFilter id kind width).1 = .ok () ∧
        (e.setFilter id kind width).2.table = e.table.modify slot (fun _ => q) ∧
        ((p.filter.kind = kind ∧ p.filter.width = width) ∧
            q = { p with filter := p.filter.reset } ∨
          ¬(p.filter.kind = kind ∧ p.filter.width = width) ∧ ∃ lastRead reason,
            q = { p with filter := Filter.ofWidth kind width, dirty := true, value := none,
                         lastRead, reason }) := by
  unfold setFilter
  split
  · exact Or.inl ⟨_, rfl⟩
  split
  · exact Or.inl ⟨_, rfl⟩
  next slot p hentry =>
  refine Or.inr ⟨slot, p, ?_⟩
  split
  · next hsame => exact ⟨_, hentry, rfl, rfl, Or.inl ⟨hsame, rfl⟩⟩
  next hother =>
  simp only
  split
  · exact ⟨_, hentry, rfl, rfl, Or.inr ⟨hother, _, _, rfl⟩⟩
  · -- there is no value to take
    next hvalue =>
    have hnone : p.value = none := Option.not_isSome_iff_eq_none.mp hvalue
    refine ⟨_, hentry, rfl, rfl, Or.inr ⟨hother, p.lastRead, p.reason, ?_⟩⟩
    rw [← hnone]

/-! ## Enabling and disabling -/

/-- Enabling a disabled port gives it its stored expression back and touches it. -/
theorem enable_cases (e : Engine δ) (id : String) :
    (∃ err, e.enable id = (.error err, e)) ∨
      ∃ slot p, e.entry? id = some (slot, p) ∧
        ((p.enabled = true ∧ e.enable id = (.ok (), e)) ∨
          p.enabled = false ∧ ∃ live,
            (p.expression = "" ∧ live = none ∨
              ∃ expr, e.readExpression id p.expression = .ok expr ∧ live = some expr) ∧
            e.enable id =
              (.ok (), (((e.modify slot fun _ =>
                { p with enabled := true, live, sampledAt := none,
                         dirty := true }).refreshTriggers).touchSlot slot).notify
                  (.portUpdate id))) := by
  unfold enable
  split
  · exact Or.inl ⟨_, rfl⟩
  next slot p hentry =>
  split
  · next henabled => exact Or.inr ⟨slot, p, hentry, Or.inl ⟨henabled, rfl⟩⟩
  next hdisabled =>
  rw [Bool.not_eq_true] at hdisabled
  simp only
  split
  · next hempty =>
    exact Or.inr ⟨slot, p, hentry, Or.inr ⟨hdisabled, none, Or.inl ⟨hempty, rfl⟩, rfl⟩⟩
  split
  · exact Or.inl ⟨_, rfl⟩
  · next expr hread =>
    exact Or.inr ⟨slot, p, hentry, Or.inr ⟨hdisabled, some expr, Or.inr ⟨expr, hread, rfl⟩, rfl⟩⟩

/-- Enabling fails when there is no such port, or when the stored source of a disabled one is not
read. -/
theorem enable_eq_error {err : Error} (h : (e.enable id).1 = .error err) :
    (e.entry? id = none ∧ err = .notFound id) ∨
      ∃ slot p, e.entry? id = some (slot, p) ∧ p.enabled = false ∧ p.expression ≠ "" ∧
        e.readExpression id p.expression = .error err := by
  unfold enable at h
  split at h
  · next hentry => exact Or.inl ⟨hentry, (Except.error.inj h).symm⟩
  next slot p hentry =>
  split at h
  · cases h
  next hdisabled =>
  rw [Bool.not_eq_true] at hdisabled
  simp only at h
  split at h
  · cases h
  next hne =>
  split at h
  · next hread =>
    obtain rfl := Except.error.inj h
    exact Or.inr ⟨slot, p, hentry, hdisabled, hne, hread⟩
  · cases h

/-- Disabling an enabled port takes its value and its live expression and touches it. -/
theorem disable_cases (e : Engine δ) (id : String) :
    (∃ err, e.disable id = (.error err, e)) ∨
      ∃ slot p, e.entry? id = some (slot, p) ∧
        ((p.enabled = false ∧ e.disable id = (.ok (), e)) ∨
          p.enabled = true ∧ e.disable id =
            (.ok (), ((e.modify slot fun _ =>
              { p with enabled := false, value := none, lastRead := none, live := none,
                       filter := p.filter.reset, dirty := true }).touchSlot slot).notify
                (.portUpdate id))) := by
  unfold disable
  split
  · exact Or.inl ⟨_, rfl⟩
  next slot p hentry =>
  refine Or.inr ⟨slot, p, hentry, ?_⟩
  split
  · next hdisabled => exact Or.inl ⟨by simpa using hdisabled, rfl⟩
  · next henabled => exact Or.inr ⟨by simpa using henabled, rfl⟩

/-- Touching a port is nothing but touching its slot. -/
theorem touch_cases (e : Engine δ) (id : String) :
    (∃ err, e.touch id = (.error err, e)) ∨
      ∃ slot, e.table.slotOf? id = some slot ∧ e.touch id = (.ok (), e.touchSlot slot) := by
  unfold touch
  split
  · exact Or.inl ⟨_, rfl⟩
  · next slot hslot => exact Or.inr ⟨slot, hslot, rfl⟩

/-! ## Writing -/

variable [Driver δ] [Power]

/-- Committing a value either fails in the write, or stores and announces the value. -/
theorem commit_cases (e : Engine δ) (slot : Nat) (p : Port δ) (x : Number)
    (reason : ChangeReason) :
    ∃ writeTransform driver, Expr.Advances p.writeTransform writeTransform ∧
      ((∃ err, (p.write x e.now).1 = .error err ∧ e.commit slot p x reason =
        (.error err, e.modify slot fun _ => { p with writeTransform, driver })) ∨
      (p.write x e.now).1 = .ok () ∧ e.commit slot p x reason =
        (.ok (), (e.modify slot fun _ =>
          { p with writeTransform, driver }.committed x reason).notify
            (.valueChange p.id (some x)))) := by
  rcases Port.write_snd p x e.now with ⟨writeTransform, driver, hadvances, hwrite⟩
  refine ⟨writeTransform, driver, hadvances, ?_⟩
  unfold commit
  split
  · next err next heq =>
    rw [heq] at hwrite
    exact Or.inl ⟨err, by rw [heq], by rw [← hwrite]⟩
  · next next heq =>
    rw [heq] at hwrite
    exact Or.inr ⟨by rw [heq], by rw [← hwrite]⟩

/-- Writing a value from outside commits the fitted value to an enabled output. -/
theorem setValue_cases (e : Engine δ) (id : String) (x : Number) :
    (∃ err, e.setValue id x = (.error err, e)) ∨
      ∃ slot p y, e.entry? id = some (slot, p) ∧ p.output = true ∧ p.enabled = true ∧
        p.normalize x = some y ∧ e.setValue id x = e.commit slot p y .native := by
  unfold setValue
  split
  · exact Or.inl ⟨_, rfl⟩
  next slot p hentry =>
  split
  · exact Or.inl ⟨_, rfl⟩
  next houtput =>
  split
  · exact Or.inl ⟨_, rfl⟩
  next henabled =>
  split
  · exact Or.inl ⟨_, rfl⟩
  · next y hy =>
    exact Or.inr ⟨slot, p, y, hentry, by simpa using houtput, by simpa using henabled, hy, rfl⟩

end Engine

end PortLogic
