import PortLogic.Proofs.Expr.Plain
import PortLogic.Proofs.Reachable

/-!
# PortLogic.Proofs.Between — what operations do between two ticks

An operation that changes more of a port than its value forces the slot of the port. So every slot
that is not forced holds the port that the last tick left there, up to its value (`Port.Kept`), and
no port that it references has gone (`Between.unknown`). This is so after each operation other than
a tick (`perform_between`), and after any number of them.
-/

namespace PortLogic

open Table

namespace Port

variable {δ : Type} {p q r : Port δ}

/-- References to the port read its value, up to the sign of zero. -/
def Readable (p : Port δ) : Prop :=
  Value.Alike p.lastRead p.value

/-- Apart from its value, what decides when and how a port is evaluated is as before. -/
structure Kept (p q : Port δ) : Prop where
  id : q.id = p.id
  output : q.output = p.output
  enabled : q.enabled = p.enabled
  live : q.live = p.live
  detected : q.detected = p.detected
  normalize : q.normalize = p.normalize

theorem Kept.refl (p : Port δ) : p.Kept p := ⟨rfl, rfl, rfl, rfl, rfl, rfl⟩

theorem Kept.trans (h : p.Kept q) (h' : q.Kept r) : p.Kept r where
  id := h'.id.trans h.id
  output := h'.output.trans h.output
  enabled := h'.enabled.trans h.enabled
  live := h'.live.trans h.live
  detected := h'.detected.trans h.detected
  normalize := h'.normalize.trans h.normalize

end Port

namespace Table

variable {δ : Type} {t u : Table δ} {slot : Nat} {entry : Option (Port δ)}

/-- All ports are read as their values. -/
def Readable (t : Table δ) : Prop :=
  ∀ ⦃slot p⦄, t.get? slot = some p → p.Readable

/-- An identifier that is unknown was unknown when only a port of another one may have gone. -/
theorem Replaces.slotOf?_eq_none {id : String} (h : t.Replaces slot entry u)
    (hold : ∀ p, t.get? slot = some p → p.id = id → ∃ q, entry = some q ∧ q.id = id)
    (hnone : u.slotOf? id = none) : t.slotOf? id = none := by
  rw [Table.slotOf?_eq_none] at hnone ⊢
  intro other p hget hid
  by_cases hslot : slot = other
  · subst hslot
    rcases hold p hget hid with ⟨q, rfl, hqid⟩
    rcases h slot with ⟨triggers, hq⟩
    rw [if_pos rfl, Option.map_some] at hq
    exact hnone slot _ hq hqid
  · rcases h.get?_kept hslot hget with ⟨triggers, hq⟩
    exact hnone other _ hq hid

end Table

namespace Engine

variable {δ : Type} {e e' e'' : Engine δ} {slot : Nat} {p q : Port δ}

/-- What operations between two ticks may have done to an engine. -/
structure Between (e e' : Engine δ) : Prop where
  /-- A port that is not forced was there before. -/
  kept : ∀ {slot q}, e'.table.get? slot = some q →
    e'.forced.contains slot = true ∨ ∃ p, e.table.get? slot = some p ∧ p.Kept q
  forced : ∀ {slot}, e.forced.contains slot = true → e'.forced.contains slot = true
  /-- What a port that is not forced references in vain was not there before. -/
  unknown : ∀ {slot q expr id}, e'.table.get? slot = some q → e'.forced.contains slot = false →
    q.live = some expr → id ∈ expr.ports → e'.table.slotOf? id = none →
    e.table.slotOf? id = none
  readable : e.table.Readable → e'.table.Readable

namespace Between

theorem contains_of_union {before after more : Triggers} (h : after = before ∪ more) {slot : Nat}
    (hslot : before.contains slot = true) : after.contains slot = true := by
  rw [h, Triggers.contains_union, hslot, Bool.true_or]

theorem refl (e : Engine δ) : e.Between e where
  kept h := Or.inr ⟨_, h, Port.Kept.refl _⟩
  forced := id
  unknown _ _ _ _ := id
  readable := id

theorem trans (h : e.Between e') (h' : e'.Between e'') : e.Between e'' where
  kept := by
    intro slot r hr
    rcases h'.kept hr with hforced | ⟨q, hq, hqr⟩
    · exact Or.inl hforced
    rcases h.kept hq with hforced | ⟨p, hp, hpq⟩
    · exact Or.inl (h'.forced hforced)
    · exact Or.inr ⟨p, hp, hpq.trans hqr⟩
  forced hforced := h'.forced (h.forced hforced)
  unknown := by
    intro slot r expr id hr hfree hlive hmem hnone
    have hnone' := h'.unknown hr hfree hlive hmem hnone
    rcases h'.kept hr with hforced | ⟨q, hq, hqr⟩
    · rw [hfree] at hforced
      cases hforced
    · -- a slot that is not forced now was not forced before
      refine h.unknown hq ?_ (hqr.live ▸ hlive) hmem hnone'
      rw [← Bool.not_eq_true]
      intro hforced
      rw [h'.forced hforced] at hfree
      cases hfree
  readable hread := h'.readable (h.readable hread)

/-- Ports may be changed in place as far as `Port.Kept` allows. -/
theorem of_get? (hget : ∀ {slot q}, e'.table.get? slot = some q →
      ∃ p, e.table.get? slot = some p ∧ p.Kept q ∧ (p.Readable → q.Readable))
    (hslots : e'.table.slotOf? = e.table.slotOf?)
    (hforced : ∀ {slot}, e.forced.contains slot = true → e'.forced.contains slot = true) :
    e.Between e' where
  kept := by
    intro slot q hq
    rcases hget hq with ⟨p, hp, hkept, -⟩
    exact Or.inr ⟨p, hp, hkept⟩
  forced := hforced
  unknown _ _ _ _ hnone := hslots ▸ hnone
  readable := by
    intro hread slot q hq
    rcases hget hq with ⟨p, hp, -, hpq⟩
    exact hpq (hread hp)

/-- The port of an entry may be replaced by one that is kept. -/
theorem of_modify {id : String} (hentry : e.entry? id = some (slot, p))
    (htable : e'.table = e.table.modify slot fun _ => q) (hkept : p.Kept q)
    (hread : p.Readable → q.Readable)
    (hforced : ∀ {slot}, e.forced.contains slot = true → e'.forced.contains slot = true) :
    e.Between e' := by
  refine of_get? ?_ ?_ hforced
  · intro other r hr
    rw [htable, modify_get? q hentry] at hr
    split at hr
    · next heq =>
      subst heq
      obtain rfl := Option.some.inj hr
      exact ⟨p, (entry?_eq_some hentry).2.1, hkept, hread⟩
    · exact ⟨r, hr, Port.Kept.refl r, fun h => h⟩
  · rw [htable, modify_slotOf? hentry hkept.id]

/-- The entry of a slot may be replaced by any other when the slot is forced. -/
theorem of_replaces {entry : Option (Port δ)} {t : Table δ}
    (h : e.table.Replaces slot entry e'.table) (hforced : e'.forced = e.forced ∪ t.triggeredBy slot)
    (hread : e.table.Readable → ∀ q, entry = some q → q.Readable)
    (hunknown : ∀ {other q expr id}, e'.table.get? other = some q →
      e'.forced.contains other = false → q.live = some expr → id ∈ expr.ports →
      e'.table.slotOf? id = none → e.table.slotOf? id = none) : e.Between e' where
  kept := by
    intro other q hq
    by_cases hsame : slot = other
    · -- a slot is triggered by itself
      refine Or.inl ?_
      rw [hforced, Triggers.contains_union, contains_triggeredBy.mpr (Or.inl hsame), Bool.or_true]
    · rcases h.get?_of_ne hsame hq with ⟨p, triggers, hp, rfl⟩
      exact Or.inr ⟨p, hp, rfl, rfl, rfl, rfl, rfl, rfl⟩
  forced := contains_of_union hforced
  unknown := hunknown
  readable := by
    intro hall other q hq
    by_cases hsame : slot = other
    · subst hsame
      rcases h.get?_self hq with ⟨p, triggers, hp, rfl⟩
      exact hread hall p hp
    · rcases h.get?_of_ne hsame hq with ⟨p, triggers, hp, rfl⟩
      have hbefore : p.Readable := hall hp
      exact hbefore

/-- The port of an entry may be rewired when its slot is touched. -/
theorem of_rewire {id : String} (hentry : e.entry? id = some (slot, p))
    (htable : e'.table = (e.table.modify slot fun _ => q).refreshTriggers)
    (hforced : e'.forced = e.forced ∪ e'.table.triggeredBy slot)
    (hid : q.id = p.id) (hread : p.Readable → q.Readable) : e.Between e' := by
  rcases entry?_eq_some hentry with ⟨-, hget, -⟩
  have hreplaces : e.table.Replaces slot (some q) e'.table := by
    rw [htable]
    exact (modify_replaces q hentry).refreshTriggers
  refine of_replaces hreplaces hforced ?_ ?_
  · intro hall r hr
    rw [← Option.some.inj hr]
    exact hread (hall hget)
  · intro _ _ _ _ _ _ _ _ hnone
    refine hreplaces.slotOf?_eq_none ?_ hnone
    intro r hr hrid
    rw [hget] at hr
    exact ⟨q, rfl, hid.trans ((congrArg Port.id (Option.some.inj hr)).trans hrid)⟩

end Between

/-! ## Operations -/

theorem portOf_readable (e : Engine δ) (config : PortConfig) (driver : Option δ) :
    (e.portOf config driver).Readable := by
  rcases portOf_cases e config driver with ⟨_, _, hport, -⟩
  rw [hport]
  exact Value.Alike.refl _

theorem addPort_between (hsmall : e.table.slots.length ≤ Triggers.maxPorts) (config : PortConfig)
    (driver : Option δ) : e.Between (e.addPort config driver).2 := by
  rcases addPort_cases e config driver with ⟨err, hadd⟩ | ⟨slot, -, -, hfree, hadd⟩
  · rw [hadd]
    exact Between.refl e
  rw [hadd]
  rcases freeSlot?_eq_some hfree hsmall with ⟨hle, -, hempty⟩
  have hreplaces := insert_replaces (e.portOf config driver) hle
  refine Between.of_replaces hreplaces rfl ?_ ?_
  · intro _ q hq
    rw [← Option.some.inj hq]
    exact portOf_readable e config driver
  · intro _ _ _ _ _ _ _ _ hnone
    refine hreplaces.slotOf?_eq_none ?_ hnone
    intro p hp
    rw [hempty] at hp
    cases hp

/-- A port that has gone was touched before, with everything that references it. -/
theorem unregister_between (hwired : e.table.Wired) (id : String) :
    e.Between (e.unregister id).2 := by
  rcases unregister_cases e id with ⟨err, hun⟩ | ⟨slot, p, hentry, -, hun⟩
  · rw [hun]
    exact Between.refl e
  rw [hun]
  rcases entry?_eq_some hentry with ⟨-, hget, -⟩
  have hreplaces := free_replaces e.table slot
  refine Between.of_replaces hreplaces rfl ?_ ?_
  · intro _ q hq
    cases hq
  · -- whatever references the port that goes is forced
    intro other q expr name hq hfree hlive hmem hnone
    refine hreplaces.slotOf?_eq_none ?_ hnone
    intro r hr hrid
    obtain rfl := Option.some.inj (hget.symm.trans hr)
    by_cases hslot : slot = other
    · subst hslot
      rcases hreplaces.get?_self hq with ⟨_, _, hgone, -⟩
      cases hgone
    · rcases hreplaces.get?_of_ne hslot hq with ⟨q', triggers, hq', rfl⟩
      have htriggered : (e.table.triggeredBy slot).contains other = true :=
        contains_triggeredBy.mpr (Or.inr ⟨q', hq',
          (hwired.contains_triggers hq' hlive hget).mpr (hrid ▸ hmem)⟩)
      have hforced : (e.forced ∪ e.table.triggeredBy slot).contains other = true := by
        rw [Triggers.contains_union, htriggered, Bool.or_true]
      rw [show (e.forced ∪ e.table.triggeredBy slot).contains other = false from hfree] at hforced
      cases hforced

theorem setExpression_between (e : Engine δ) (id source : String) :
    e.Between (e.setExpression id source).2 := by
  rcases setExpression_cases e id source with
    ⟨err, hset⟩ | ⟨slot, p, expr?, hentry, -, -, hset⟩
  · rw [hset]
    exact Between.refl e
  · rw [hset]
    exact Between.of_rewire hentry rfl rfl rfl fun hread => hread

theorem enable_between (e : Engine δ) (id : String) : e.Between (e.enable id).2 := by
  rcases enable_cases e id with
    ⟨err, hen⟩ | ⟨slot, p, hentry, ⟨-, hen⟩ | ⟨-, live, -, hen⟩⟩
  · rw [hen]
    exact Between.refl e
  · rw [hen]
    exact Between.refl e
  · rw [hen]
    exact Between.of_rewire hentry rfl rfl rfl fun hread => hread

theorem disable_between (e : Engine δ) (id : String) : e.Between (e.disable id).2 := by
  rcases disable_cases e id with
    ⟨err, hdis⟩ | ⟨slot, p, hentry, ⟨-, hdis⟩ | ⟨-, hdis⟩⟩
  · rw [hdis]
    exact Between.refl e
  · rw [hdis]
    exact Between.refl e
  rw [hdis]
  rcases entry?_eq_some hentry with ⟨-, hget, -⟩
  have hreplaces := modify_replaces { p with
    enabled := false, value := none, lastRead := none, live := none, filter := p.filter.reset,
    dirty := true } hentry
  refine Between.of_replaces hreplaces rfl ?_ ?_
  · intro _ q hq
    rw [← Option.some.inj hq]
    exact Value.Alike.refl none
  · intro _ _ _ _ _ _ _ _ hnone
    refine hreplaces.slotOf?_eq_none ?_ hnone
    intro r hr hrid
    obtain rfl := Option.some.inj (hget.symm.trans hr)
    exact ⟨_, rfl, hrid⟩

theorem setTransform_between {set : Port δ → Option Expr → Port δ}
    (hset : ∀ p transform, p.Kept (set p transform) ∧
      (p.Readable → (set p transform).Readable)) (e : Engine δ) (id source : String) :
    e.Between (setTransform set e id source).2 := by
  rcases setTransform_cases set e id source with
    ⟨err, h⟩ | ⟨slot, p, transform, hentry, -, h⟩
  · rw [h]
    exact Between.refl e
  · rw [h]
    rcases hset p transform with ⟨hkept, hread⟩
    refine Between.of_modify hentry rfl (hkept.trans ?_) hread fun h => h
    exact ⟨rfl, rfl, rfl, rfl, rfl, rfl⟩

theorem setFilter_between (e : Engine δ) (id : String) (kind : FilterKind) (width : Nat) :
    e.Between (e.setFilter id kind width).2 := by
  rcases setFilter_cases e id kind width with
    ⟨err, h⟩ | ⟨slot, p, hentry, ⟨filter, dirty, h, -⟩ | ⟨-, h⟩⟩
  · rw [h]
    exact Between.refl e
  · rw [h]
    exact Between.of_modify hentry rfl ⟨rfl, rfl, rfl, rfl, rfl, rfl⟩ (fun hread => hread)
      fun h => h
  · rw [h]
    exact Between.of_modify hentry rfl ⟨rfl, rfl, rfl, rfl, rfl, rfl⟩
      (fun _ => Value.Alike.refl none) (Between.contains_of_union rfl)

theorem touch_between (e : Engine δ) (id : String) : e.Between (e.touch id).2 := by
  rcases touch_cases e id with ⟨err, h⟩ | ⟨slot, -, h⟩
  · rw [h]
    exact Between.refl e
  · rw [h]
    exact Between.of_get? (fun hq => ⟨_, hq, Port.Kept.refl _, fun hread => hread⟩) rfl
      (Between.contains_of_union rfl)

variable [Power]

theorem setValue_between [Driver δ] (e : Engine δ) (id : String) (x : Number) :
    e.Between (e.setValue id x).2 := by
  rcases setValue_cases e id x with ⟨err, h⟩ | ⟨slot, p, y, hentry, -, -, -, h⟩
  · rw [h]
    exact Between.refl e
  · rcases commit_cases e slot p y .native with ⟨_, _, -, ⟨err, -, hcommit⟩ | ⟨-, hcommit⟩⟩
    · rw [h, hcommit]
      exact Between.of_modify hentry rfl ⟨rfl, rfl, rfl, rfl, rfl, rfl⟩ (fun hread => hread)
        fun h => h
    · rw [h, hcommit]
      exact Between.of_modify hentry rfl ⟨rfl, rfl, rfl, rfl, rfl, rfl⟩
        (fun _ => Value.Alike.refl (some y)) fun h => h

omit [Power] in
theorem takeDirtyConfigs_between [Driver δ] (e : Engine δ) (now : Now) (force : Bool) :
    e.Between (e.takeDirtyConfigs now force).2 := by
  have hslots := (takeDirtyConfigs_sameWiring e now force).slotOf?
  -- the engine that is left has to be unfolded in this fact as well
  revert hslots
  unfold takeDirtyConfigs
  split
  · intro _
    exact Between.refl e
  · intro hslots
    refine Between.of_get? ?_ hslots fun h => h
    intro slot q hq
    have hmap := (get?_map e.table (fun p => { p with dirty := false }) slot).symm.trans hq
    rcases Option.map_eq_some_iff.mp hmap with ⟨p, hp, rfl⟩
    exact ⟨p, hp, ⟨rfl, rfl, rfl, rfl, rfl, rfl⟩, fun hread => hread⟩

omit [Power] in
theorem adjustDriver_between [Driver δ] (e : Engine δ) (id : String) (f : δ → δ) :
    e.Between (e.adjustDriver id f) := by
  have hslots := (adjustDriver_sameWiring e id f).slotOf?
  revert hslots
  unfold adjustDriver
  split
  · intro _
    exact Between.refl e
  · next slot _ =>
    intro hslots
    refine Between.of_get? ?_ hslots fun h => h
    intro other q hq
    have hmodify := (get?_modify e.table slot (fun p => { p with driver := p.driver.map f })
      other).symm.trans hq
    split at hmodify
    · rcases Option.map_eq_some_iff.mp hmodify with ⟨p, hp, rfl⟩
      exact ⟨p, hp, ⟨rfl, rfl, rfl, rfl, rfl, rfl⟩, fun hread => hread⟩
    · exact ⟨q, hmodify, Port.Kept.refl q, fun hread => hread⟩

/-- Every operation other than a tick is one between two ticks. -/
theorem perform_between [Driver δ] (hwired : e.table.Wired) {operation : Operation δ}
    (hedit : ∀ now, operation ≠ .tick now) : e.Between (e.perform operation).2 := by
  cases operation with
  | addPort config driver => exact addPort_between hwired.small config driver
  | unregister id => exact unregister_between hwired id
  | setValue id x => exact setValue_between e id x
  | setExpression id source => exact setExpression_between e id source
  | setReadTransform id source =>
    have hset (p : Port δ) (transform : Option Expr) :
        p.Kept { p with readTransform := transform } ∧
          (p.Readable → { p with readTransform := transform }.Readable) :=
      ⟨⟨rfl, rfl, rfl, rfl, rfl, rfl⟩, fun hread => hread⟩
    exact setTransform_between hset e id source
  | setWriteTransform id source =>
    have hset (p : Port δ) (transform : Option Expr) :
        p.Kept { p with writeTransform := transform } ∧
          (p.Readable → { p with writeTransform := transform }.Readable) :=
      ⟨⟨rfl, rfl, rfl, rfl, rfl, rfl⟩, fun hread => hread⟩
    exact setTransform_between hset e id source
  | setFilter id kind width => exact setFilter_between e id kind width
  | enable id => exact enable_between e id
  | disable id => exact disable_between e id
  | touch id => exact touch_between e id
  | tick now => exact absurd rfl (hedit now)
  | takeNotifications =>
    exact Between.of_get? (fun hq => ⟨_, hq, Port.Kept.refl _, fun hread => hread⟩) rfl fun h => h
  | takeDirtyConfigs now force => exact takeDirtyConfigs_between e now force
  | adjustDriver id f => exact adjustDriver_between e id f

end Engine

end PortLogic
