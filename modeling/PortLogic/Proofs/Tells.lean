import Mathlib.Logic.Function.Basic
import PortLogic.Proofs.Evaluation
import PortLogic.Proofs.History
import PortLogic.Proofs.Values

/-!
# PortLogic.Proofs.Tells — the notifications tell every change

An observer that knows the values of all ports and then hears every notification in order knows the
values at each later time. One step of an engine *tells* what it does (`Tells`): the notifications
that it queues, replayed on the values before it, give the values after it, and they carry finite
numbers. Each operation is such a step or a sequence of them, with one exception: a registration
restores a stored value and tells nobody.
-/

namespace PortLogic

open Table

/-! ## Notifications -/

namespace Notification

/-- The port that a notification is about. -/
def id : Notification → String
  | .valueChange id _ => id
  | .portUpdate id => id

/-- The value that a port has after a notification: the announced one, and none after an update. -/
def shown : Notification → Value
  | .valueChange _ value => value
  | .portUpdate _ => none

end Notification

/-- What an observer knows after a list of notifications, oldest first. -/
def replay (mirror : String → Value) (notifications : List Notification) : String → Value :=
  notifications.foldl (fun mirror n => Function.update mirror n.id n.shown) mirror

variable {mirror other : String → Value} {ns more : List Notification} {id : String} {v : Value}

theorem replay_append :
    replay mirror (ns ++ more) = replay (replay mirror ns) more :=
  List.foldl_append

@[simp]
theorem replay_portUpdate_self (mirror : String → Value) (id : String) :
    replay mirror [.portUpdate id] id = none := by
  simp [replay, Notification.id, Notification.shown]

theorem replay_cons (mirror : String → Value) (n : Notification) (ns : List Notification) :
    replay mirror (n :: ns) = replay (Function.update mirror n.id n.shown) ns := rfl

/-- What is told of a port depends on nothing else that was known. -/
theorem replay_congr (h : mirror id = other id) (ns : List Notification) :
    replay mirror ns id = replay other ns id := by
  induction ns generalizing mirror other with
  | nil => exact h
  | cons n ns ih =>
    rw [replay_cons, replay_cons]
    refine ih ?_
    rw [Function.update_apply, Function.update_apply, h]

theorem replay_of_not_mem (h : ∀ n ∈ ns, n.id ≠ id) : replay mirror ns id = mirror id := by
  induction ns generalizing mirror with
  | nil => rfl
  | cons n ns ih =>
    rw [replay_cons, ih fun other hother => h other (List.mem_cons_of_mem _ hother),
      Function.update_of_ne (h n List.mem_cons_self).symm]

/-- When all notifications about a port agree, and there is one, the port is known as they say. -/
theorem replay_of_mem (hmem : ∃ n ∈ ns, n.id = id)
    (hagree : ∀ n ∈ ns, n.id = id → n.shown = v) : replay mirror ns id = v := by
  induction ns generalizing mirror with
  | nil =>
    rcases hmem with ⟨n, hn, -⟩
    cases hn
  | cons n ns ih =>
    have hrest : ∀ n ∈ ns, n.id = id → n.shown = v := fun other hother =>
      hagree other (List.mem_cons_of_mem _ hother)
    rw [replay_cons]
    by_cases hlater : ∃ n ∈ ns, n.id = id
    · exact ih hlater hrest
    · -- the first notification is the only one about the port
      have hfirst : n.id = id := by
        rcases hmem with ⟨other, hother, hid⟩
        rcases List.mem_cons.mp hother with rfl | hother
        · exact hid
        · exact absurd ⟨other, hother, hid⟩ hlater
      rw [replay_of_not_mem fun other hother hid => hlater ⟨other, hother, hid⟩, ← hfirst,
        Function.update_self]
      exact hagree n List.mem_cons_self hfirst

/-! ## Ports and tables -/

namespace Port

variable [Power] {δ : Type}

/-- A sample keeps the value, or changes it to a finite number. -/
theorem sample_value [Driver δ] (p : Port δ) (now : Now) :
    (p.sample now).changed = false ∧ (p.sample now).port.value = p.value ∨
      (p.sample now).changed = true ∧
        ∃ x, (p.sample now).port.value = some x ∧ x.isFinite = true := by
  rcases p.sample_cases now with ⟨_, _, _, _, -, -, ⟨_, heq⟩ | ⟨_, y, -, hfit, heq⟩⟩
  · rw [heq]
    exact Or.inl ⟨rfl, rfl⟩
  · rw [heq, acceptSample]
    split
    · exact Or.inl ⟨rfl, rfl⟩
    · exact Or.inr ⟨rfl, y, rfl, fit_isFinite hfit⟩

end Port

namespace Table

variable {δ : Type} {t u : Table δ} {slot : Nat} {p q : Port δ}

/-- The value of every port, by identifier; an unknown port has none. -/
def values (t : Table δ) : String → Value :=
  fun id => (t.find? id).bind Port.value

theorem values_of_none (h : t.find? id = none) : t.values id = none := by
  rw [values, h, Option.bind_none]

theorem values_of_some (h : t.find? id = some p) : t.values id = p.value := by
  rw [values, h, Option.bind_some]

theorem Distinct.values (h : t.Distinct) (hget : t.get? slot = some p) :
    t.values p.id = p.value :=
  values_of_some (h.find? hget)

/-- Tables with the same identifiers and values in the slots have the same values. -/
theorem values_congr (h : ∀ slot, (u.get? slot).map (fun p => (p.id, p.value)) =
    (t.get? slot).map fun p => (p.id, p.value)) : u.values = t.values := by
  have hslot : u.slotOf? = t.slotOf? := by
    refine slotOf?_congr ?_
    intro slot
    have hmap := congrArg (Option.map Prod.fst) (h slot)
    rwa [Option.map_map, Option.map_map] at hmap
  funext id
  unfold values find?
  rw [hslot]
  cases t.slotOf? id with
  | none => rfl
  | some slot =>
    have hmap := h slot
    rw [Option.bind_some, Option.bind_some]
    cases hget : t.get? slot with
    | none =>
      rw [hget, Option.map_none, Option.map_eq_none_iff] at hmap
      rw [hmap]
    | some p =>
      rw [hget, Option.map_some, Option.map_eq_some_iff] at hmap
      rcases hmap with ⟨q, hq, heq⟩
      rw [hq]
      exact (Prod.mk.inj heq).2

theorem values_map {f : Port δ → Port δ} (hf : ∀ p, (f p).id = p.id ∧ (f p).value = p.value) :
    (t.map f).values = t.values := by
  refine values_congr ?_
  intro slot
  rw [get?_map, Option.map_map]
  refine congrArg (Option.map · (t.get? slot)) ?_
  funext p
  rw [Function.comp_apply, (hf p).1, (hf p).2]

@[simp]
theorem values_refreshTriggers (t : Table δ) : t.refreshTriggers.values = t.values :=
  values_map fun _ => ⟨rfl, rfl⟩

/-- An entry with an identifier that no other slot has gives the identifier its value, and takes it
when it goes. -/
theorem Replaces.values {entry : Option (Port δ)} (h : t.Replaces slot entry u) (ht : t.Distinct)
    (hold : ∀ p, t.get? slot = some p → p.id = id) (hnew : ∀ q, entry = some q → q.id = id)
    (hother : ∀ other p, slot ≠ other → t.get? other = some p → p.id ≠ id) :
    u.values = Function.update t.values id (entry.bind Port.value) := by
  have hu : u.Distinct := by
    refine ht.replace h ?_
    intro p hp other q hq hid
    by_contra hne
    exact hother other q hne hq (hid.trans (hnew p hp))
  funext name
  rw [Function.update_apply]
  split
  · next heq =>
    subst heq
    cases hentry : entry with
    | none =>
      refine values_of_none (find?_eq_none.mpr (Table.slotOf?_eq_none.mpr ?_))
      intro other q hq
      by_cases hne : slot = other
      · subst hne
        rcases h.get?_self hq with ⟨p, _, hp, -⟩
        rw [hentry] at hp
        cases hp
      · rcases h.get?_of_ne hne hq with ⟨p, _, hp, rfl⟩
        exact hother other p hne hp
    | some q =>
      rcases h slot with ⟨triggers, hget⟩
      rw [if_pos rfl, hentry, Option.map_some] at hget
      rw [← hnew q hentry]
      exact (hu.values hget :)
  · -- a port of another identifier is as it was
    next hne =>
    cases hfind : t.find? name with
    | none =>
      rw [values_of_none hfind]
      refine values_of_none (find?_eq_none.mpr (Table.slotOf?_eq_none.mpr ?_))
      intro other q hq hid
      by_cases hslot : slot = other
      · subst hslot
        rcases h.get?_self hq with ⟨p, _, hp, rfl⟩
        exact hne (hid.symm.trans (hnew p hp))
      · rcases h.get?_of_ne hslot hq with ⟨p, _, hp, rfl⟩
        exact Table.slotOf?_eq_none.mp (find?_eq_none.mp hfind) other p hp hid
    | some p =>
      rcases find?_eq_some hfind with ⟨other, -, hp, rfl⟩
      have hslot : slot ≠ other := by
        rintro rfl
        exact hne (hold p hp)
      rcases h.get?_kept hslot hp with ⟨triggers, hq⟩
      rw [values_of_some hfind]
      exact (hu.values hq :)

theorem values_modify (h : t.Distinct) (hget : t.get? slot = some p) (hid : q.id = p.id) :
    (t.modify slot fun _ => q).values = Function.update t.values p.id q.value := by
  have hreplaces : t.Replaces slot (some q) (t.modify slot fun _ => q) := by
    refine Replaces.of_get? ?_
    intro other
    rw [get?_modify]
    split
    · next heq => rw [← heq, hget, Option.map_some]
    · rfl
  refine hreplaces.values h ?_ ?_ ?_
  · intro r hr
    rw [← Option.some.inj (hget.symm.trans hr)]
  · intro r hr
    rw [← Option.some.inj hr, hid]
  · intro other r hne hr heq
    exact hne (h hget hr heq.symm)

/-- A port that changes without changing its value. -/
theorem values_modify_of_eq (h : t.Distinct) (hget : t.get? slot = some p) (hid : q.id = p.id)
    (hvalue : q.value = p.value) : (t.modify slot fun _ => q).values = t.values := by
  rw [values_modify h hget hid, hvalue, ← h.values hget, Function.update_eq_self]

end Table

/-! ## Steps that tell what they do -/

namespace Engine

variable {δ : Type} {e e' e'' : Engine δ} {slot : Nat} {p q : Port δ} {source : String}

/-- One engine becomes another, and notifications that are queued on the way tell all changes of
values. -/
structure Tells (e : Engine δ) (ns : List Notification) (e' : Engine δ) : Prop where
  queue : e'.notifications = e.notifications ++ ns
  values : e'.table.values = replay e.table.values ns
  finite : ∀ n ∈ ns, ∀ x, n.shown = some x → x.isFinite = true

/-- A step without notifications keeps every value. -/
theorem Tells.silent (hqueue : e'.notifications = e.notifications)
    (hvalues : e'.table.values = e.table.values) : e.Tells [] e' where
  queue := hqueue.trans (List.append_nil _).symm
  values := hvalues
  finite n hn := by cases hn

theorem Tells.refl (e : Engine δ) : e.Tells [] e :=
  Tells.silent rfl rfl

theorem Tells.trans (h : e.Tells ns e') (h' : e'.Tells more e'') : e.Tells (ns ++ more) e'' where
  queue := by rw [h'.queue, h.queue, List.append_assoc]
  values := by rw [h'.values, h.values, replay_append]
  finite n hn := (List.mem_append.mp hn).elim (h.finite n) (h'.finite n)

/-- A step that tells what it does brings who knew the value before up to date. -/
theorem Tells.brings (h : e.Tells ns e')
    (hmirror : replay mirror e.notifications id = e.table.values id) :
    replay mirror e'.notifications id = e'.table.values id := by
  rw [h.queue, h.values, replay_append]
  exact replay_congr hmirror ns

/-- A step with one notification changes one value. -/
theorem Tells.single {n : Notification} (hqueue : e'.notifications = e.notifications ++ [n])
    (hvalues : e'.table.values = Function.update e.table.values n.id n.shown)
    (hfinite : ∀ x, n.shown = some x → x.isFinite = true) : e.Tells [n] e' where
  queue := hqueue
  values := hvalues
  finite m hm := by
    rw [List.mem_singleton.mp hm]
    exact hfinite

theorem modify_values (h : e.table.Distinct) (hentry : e.entry? id = some (slot, p))
    (hid : q.id = p.id) :
    (e.table.modify slot fun _ => q).values = Function.update e.table.values id q.value := by
  rcases entry?_eq_some hentry with ⟨-, hget, rfl⟩
  exact values_modify h hget hid

theorem modify_values_of_eq (h : e.table.Distinct) (hentry : e.entry? id = some (slot, p))
    (hid : q.id = p.id) (hvalue : q.value = p.value) :
    (e.table.modify slot fun _ => q).values = e.table.values := by
  rcases entry?_eq_some hentry with ⟨-, hget, rfl⟩
  exact values_modify_of_eq h hget hid hvalue

/-! ### Edits -/

/-- A registration tells nothing, and gives the identifier, which had no value, the restored one. -/
theorem addPort_values (h : e.table.Wired) (config : PortConfig) (driver : Option δ) :
    (e.addPort config driver).2.notifications = e.notifications ∧
      ((e.addPort config driver).2.table.values = e.table.values ∧
          e.registers? config.id (.addPort config driver) = none ∨
        e.table.find? config.id = none ∧
          (e.addPort config driver).2.table.values =
            Function.update e.table.values config.id config.restored ∧
          e.registers? config.id (.addPort config driver) = some config) := by
  have hregisters : e.registers? config.id (.addPort config driver) =
      if config.id = config.id ∧ (e.addPort config driver).1.isOk then some config else none := rfl
  rw [hregisters]
  rcases addPort_cases e config driver with ⟨err, hadd⟩ | ⟨slot, -, hnew, hfree, hadd⟩
  · rw [hadd]
    exact ⟨rfl, Or.inl ⟨rfl, if_neg fun hok => Bool.false_ne_true hok.2⟩⟩
  rcases freeSlot?_eq_some hfree h.small with ⟨hle, -, hempty⟩
  have hid := portOf_id e config driver
  rw [hadd, ← portOf_value e config driver]
  refine ⟨rfl, Or.inr ⟨hnew, ?_, if_pos ⟨rfl, rfl⟩⟩⟩
  refine (insert_replaces (e.portOf config driver) hle).values h.distinct ?_ ?_ ?_
  · intro p hp
    rw [hempty] at hp
    cases hp
  · intro q hq
    rw [← Option.some.inj hq, hid]
  · intro other p _ hp
    exact slotOf?_eq_none.mp (find?_eq_none.mp hnew) other p hp

theorem unregister_tells (h : e.table.Distinct) (name : String) :
    (e.unregister name).2 = e ∨ e.Tells [.portUpdate name] (e.unregister name).2 := by
  rcases unregister_cases e name with ⟨err, hun⟩ | ⟨slot, p, hentry, -, hun⟩
  · rw [hun]
    exact Or.inl rfl
  rw [hun]
  rcases entry?_eq_some hentry with ⟨-, hget, rfl⟩
  refine Or.inr (Tells.single rfl ?_ (fun x hx => by cases hx))
  refine (free_replaces e.table slot).values h ?_ ?_ ?_
  · intro q hq
    exact congrArg Port.id (Option.some.inj (hq.symm.trans hget))
  · intro q hq
    cases hq
  · intro other q hne hq hid
    exact hne (h hget hq hid.symm)

theorem setExpression_tells (h : e.table.Distinct) (name source : String) :
    e.Tells [] (e.setExpression name source).2 := by
  rcases setExpression_cases e name source with ⟨err, hset⟩ | ⟨slot, p, expr?, hentry, -, -, hset⟩
  · rw [hset]
    exact Tells.refl e
  · rw [hset]
    exact Tells.silent rfl
      ((values_refreshTriggers _).trans (modify_values_of_eq h hentry rfl rfl))

theorem setTransform_tells {set : Port δ → Option Expr → Port δ}
    (hset : ∀ p transform, (set p transform).id = p.id ∧ (set p transform).value = p.value)
    (h : e.table.Distinct) (name source : String) :
    e.Tells [] (setTransform set e name source).2 := by
  rcases setTransform_cases set e name source with ⟨err, heq⟩ | ⟨slot, p, transform, hentry, -, heq⟩
  · rw [heq]
    exact Tells.refl e
  · rw [heq]
    exact Tells.silent rfl
      (modify_values_of_eq h hentry (hset p transform).1 (hset p transform).2)

theorem setFilter_tells (h : e.table.Distinct) (name : String) (kind : FilterKind) (width : Nat) :
    ∃ ns, e.Tells ns (e.setFilter name kind width).2 := by
  rcases setFilter_cases e name kind width with
    ⟨err, hset⟩ | ⟨slot, p, hentry, ⟨filter, dirty, hset, -⟩ | ⟨-, hset⟩⟩
  · rw [hset]
    exact ⟨[], Tells.refl e⟩
  · rw [hset]
    exact ⟨[], Tells.silent rfl (modify_values_of_eq h hentry rfl rfl)⟩
  · rw [hset]
    exact ⟨_, Tells.single rfl (modify_values h hentry rfl) (fun x hx => by cases hx)⟩

/-- A port that is enabled had no value, which is what an update says. -/
theorem enable_tells (h : e.table.Distinct)
    (hfitting : ∀ ⦃slot p⦄, e.table.get? slot = some p → p.Fitting) (name : String) :
    ∃ ns, e.Tells ns (e.enable name).2 := by
  rcases enable_cases e name with
    ⟨err, hen⟩ | ⟨slot, p, hentry, ⟨-, hen⟩ | ⟨hdisabled, live, -, hen⟩⟩
  · rw [hen]
    exact ⟨[], Tells.refl e⟩
  · rw [hen]
    exact ⟨[], Tells.refl e⟩
  · rcases entry?_eq_some hentry with ⟨-, hget, -⟩
    have hnone : p.value = none := ((hfitting hget).idle hdisabled).1
    rw [hen]
    refine ⟨_, Tells.single rfl ?_ (fun x hx => by cases hx)⟩
    refine (values_refreshTriggers _).trans ?_
    show (e.table.modify slot fun _ => _).values = Function.update e.table.values name none
    rw [← hnone]
    exact modify_values h hentry rfl

theorem disable_tells (h : e.table.Distinct) (name : String) :
    ∃ ns, e.Tells ns (e.disable name).2 := by
  rcases disable_cases e name with ⟨err, hdis⟩ | ⟨slot, p, hentry, ⟨-, hdis⟩ | ⟨-, hdis⟩⟩
  · rw [hdis]
    exact ⟨[], Tells.refl e⟩
  · rw [hdis]
    exact ⟨[], Tells.refl e⟩
  · rw [hdis]
    exact ⟨_, Tells.single rfl (modify_values h hentry rfl) (fun x hx => by cases hx)⟩

theorem touch_tells (e : Engine δ) (name : String) : e.Tells [] (e.touch name).2 := by
  rcases touch_cases e name with ⟨err, htouch⟩ | ⟨slot, -, htouch⟩
  · rw [htouch]
    exact Tells.refl e
  · rw [htouch]
    exact Tells.silent rfl rfl

theorem takeDirtyConfigs_tells (e : Engine δ) (now : Now) (force : Bool) :
    e.Tells [] (e.takeDirtyConfigs now force).2 := by
  unfold takeDirtyConfigs
  split
  · exact Tells.refl e
  · exact Tells.silent rfl (values_map fun _ => ⟨rfl, rfl⟩)

theorem adjustDriver_tells (e : Engine δ) (name : String) (f : δ → δ) :
    e.Tells [] (e.adjustDriver name f) := by
  unfold adjustDriver
  split
  · exact Tells.refl e
  · next slot _ =>
    refine Tells.silent rfl (values_congr ?_)
    intro other
    show ((e.table.modify slot _).get? other).map _ = _
    rw [get?_modify]
    split
    · rw [Option.map_map]
      rfl
    · rfl

variable [Driver δ] [Power]

/-- A write that is refused changes no value; one that is accepted is told. -/
theorem commit_tells (h : e.table.Distinct) (hget : e.table.get? slot = some p) (hid : q.id = p.id)
    (hvalue : q.value = p.value) {x y : Number} (hfit : p.normalize x = some y)
    (reason : ChangeReason) : ∃ ns, e.Tells ns (e.commit slot q y reason).2 := by
  obtain ⟨writeTransform, driver, -, ⟨err, -, hcommit⟩ | ⟨-, hcommit⟩⟩ :=
    commit_cases e slot q y reason
  · have hkept : ({ q with writeTransform, driver } : Port δ).id = p.id := hid
    rw [hcommit]
    exact ⟨[], Tells.silent rfl (values_modify_of_eq h hget hkept hvalue)⟩
  · have hkept : (({ q with writeTransform, driver } : Port δ).committed y reason).id = p.id := hid
    rw [hcommit]
    refine ⟨_, Tells.single rfl ?_ ?_⟩
    · refine (values_modify h hget hkept).trans ?_
      rw [← hid]
      rfl
    · intro z hz
      rw [← Option.some.inj hz]
      exact Port.fit_isFinite hfit

/-! ### Ticks -/

/-- The notifications that sampling queues. -/
def sampleNews (e : Engine δ) (now : Now) : List Notification :=
  ((e.table.entries.map fun (slot, p) => (slot, p.sample now)).filter
    fun (_, s) => s.changed).map fun (_, s) => .valueChange s.port.id s.port.value

theorem mem_sampleNews {n : Notification} {now : Now} :
    n ∈ e.sampleNews now ↔ ∃ slot p, e.table.get? slot = some p ∧
      (p.sample now).changed = true ∧ n = .valueChange p.id (p.sample now).port.value := by
  unfold sampleNews
  simp only [List.mem_map, List.mem_filter, Prod.exists]
  constructor
  · rintro ⟨slot, s, ⟨⟨_, p, hentry, heq⟩, hchanged⟩, rfl⟩
    rcases Prod.mk.inj heq with ⟨rfl, rfl⟩
    exact ⟨_, p, mem_entries.mp hentry, hchanged, by rw [(p.sample_kept now).id]⟩
  · rintro ⟨slot, p, hget, hchanged, rfl⟩
    exact ⟨slot, p.sample now, ⟨⟨slot, p, mem_entries.mpr hget, rfl⟩, hchanged⟩,
      by rw [(p.sample_kept now).id]⟩

/-- Sampling tells the new value of every input that it changes. -/
theorem sampled_tells (h : e.table.Distinct) (now : Now) :
    e.Tells (e.sampleNews now) (e.sampled now) := by
  have hids (slot : Nat) :
      ((e.sampled now).table.get? slot).map Port.id = (e.table.get? slot).map Port.id := by
    rw [sampled_get?, Option.map_map]
    refine congrArg (Option.map · (e.table.get? slot)) ?_
    funext p
    exact (p.sample_kept now).id
  refine ⟨rfl, ?_, ?_⟩
  · funext id
    cases hfind : e.table.find? id with
    | none =>
      -- nothing is told of an unknown port
      have hunknown := find?_eq_none.mp hfind
      rw [replay_of_not_mem, values_of_none hfind, values_of_none]
      · rw [find?_eq_none, slotOf?_congr hids, hunknown]
      · intro n hn hid
        rcases mem_sampleNews.mp hn with ⟨slot, p, hget, -, rfl⟩
        exact slotOf?_eq_none.mp hunknown slot p hget hid
    | some p =>
      rcases find?_eq_some hfind with ⟨slot, -, hget, rfl⟩
      have hafter : (e.sampled now).table.values p.id = (p.sample now).port.value := by
        rw [← (p.sample_kept now).id]
        refine (h.of_map_id hids).values ((sampled_get? e now slot).trans ?_)
        rw [hget, Option.map_some]
      -- what is told of the port comes from the port itself
      have hown {n : Notification} (hn : n ∈ e.sampleNews now) (hid : n.id = p.id) :
          (p.sample now).changed = true ∧ n.shown = (p.sample now).port.value := by
        rcases mem_sampleNews.mp hn with ⟨other, q, hq, hchanged, rfl⟩
        obtain rfl := h hq hget hid
        obtain rfl := Option.some.inj (hq.symm.trans hget)
        exact ⟨hchanged, rfl⟩
      rw [hafter]
      rcases p.sample_value now with ⟨hsame, hvalue⟩ | ⟨hchanged, -⟩
      · rw [replay_of_not_mem, hvalue, h.values hget]
        intro n hn hid
        rw [(hown hn hid).1] at hsame
        cases hsame
      · refine (replay_of_mem ⟨_, mem_sampleNews.mpr ⟨slot, p, hget, hchanged, rfl⟩, rfl⟩ ?_).symm
        exact fun n hn hid => (hown hn hid).2
  · intro n hn x hx
    rcases mem_sampleNews.mp hn with ⟨slot, p, -, hchanged, rfl⟩
    rcases p.sample_value now with ⟨hsame, -⟩ | ⟨-, y, hy, hfinite⟩
    · rw [hchanged] at hsame
      cases hsame
    · rw [← Option.some.inj (hy.symm.trans hx)]
      exact hfinite

/-- An evaluation tells the value that it commits. -/
theorem evaluateLive_tells (h : e.table.Distinct) (hget : e.table.get? slot = some p) (expr : Expr)
    (now : Now) : ∃ ns, e.Tells ns (e.evaluateLive slot p expr now).2 := by
  rcases evaluateLive_cases e slot p expr now with
    ⟨heq, -⟩ | ⟨x, writeTransform, driver, hx, -, -, ⟨-, heq⟩ | ⟨-, heq⟩⟩
  · rw [heq]
    exact ⟨[], Tells.silent rfl (values_modify_of_eq h hget rfl rfl)⟩
  · rw [heq]
    exact ⟨[], Tells.silent rfl (values_modify_of_eq h hget rfl rfl)⟩
  · rcases Option.bind_eq_some_iff.mp hx with ⟨y, -, hfit⟩
    rw [heq]
    refine ⟨_, Tells.single rfl (values_modify h hget rfl) ?_⟩
    intro z hz
    rw [← Option.some.inj hz]
    exact Port.fit_isFinite hfit

/-- Each turn tells what it commits, and leaves every identifier in its slot. -/
theorem turn_tells (h : e.table.Distinct) (mask caused : Triggers) (now : Now) (turns : Nat) :
    (∃ ns, e.Tells ns (e.turn mask caused now turns).engine) ∧
      (e.turn mask caused now turns).engine.table.Distinct := by
  induction turns with
  | zero => exact ⟨⟨[], Tells.refl e⟩, h⟩
  | succ turns ih =>
    rcases ih with ⟨⟨ns, htells⟩, hdistinct⟩
    rw [turn_succ]
    rcases evaluateSlot_cases mask caused now (e.turn mask caused now turns) turns with
      ⟨heq, -⟩ | ⟨p, expr, hget, hfires, heq⟩
    · rw [heq]
      exact ⟨⟨ns, htells⟩, hdistinct⟩
    · rcases evaluateLive_tells hdistinct hget expr now with ⟨more, hmore⟩
      rw [heq]
      refine ⟨⟨ns ++ more, htells.trans hmore⟩, hdistinct.of_map_id ?_⟩
      intro slot
      by_cases hslot : turns = slot
      · subst hslot
        rcases evaluateLive_wiring hget hfires.live now with ⟨q, hq, hwiring⟩
        show ((evaluateLive _ turns p expr now).2.table.get? turns).map Port.id = _
        rw [hq, hget, Option.map_some, Option.map_some]
        exact congrArg (some ∘ Port.Wiring.id) hwiring
      · let s := e.turn mask caused now turns
        have hkept : (evaluateSlot mask caused now s turns).engine.table.get? slot =
            s.engine.table.get? slot := evaluateSlot_get?_of_ne hslot
        rw [heq] at hkept
        rw [hkept]

theorem tick_tells (h : e.table.Distinct) (now : Now) : ∃ ns, e.Tells ns (e.tick now).2 := by
  have hready : (e.sampled now).Tells [] (e.ready now) := by
    refine Tells.silent rfl (values_map ?_)
    intro p
    rcases p.acknowledge_eq with ⟨_, _, heq⟩
    rw [heq]
    exact ⟨rfl, rfl⟩
  have hdistinct : (e.ready now).table.Distinct := by
    refine h.of_map_id ?_
    intro slot
    rw [ready_get?, Option.map_map]
    refine congrArg (Option.map · (e.table.get? slot)) ?_
    funext p
    exact (congrArg Port.Wiring.id (Port.acknowledge_wiring _)).trans (p.sample_kept now).id
  rcases (turn_tells hdistinct (e.tickMask now) (e.selfCaused now) now
    (e.ready now).table.slots.length).1 with ⟨ns, hturns⟩
  exact ⟨_, ((sampled_tells h now).trans hready).trans hturns⟩

/-! ### All operations -/

/-- What neither restores a value nor drains the notifications tells what it does. -/
theorem perform_tells (h : e.table.Wired)
    (hfitting : ∀ ⦃slot p⦄, e.table.get? slot = some p → p.Fitting) {operation : Operation δ}
    (hkeeps : operation.KeepsPorts) (hdrains : operation ≠ .takeNotifications) :
    ∃ ns, e.Tells ns (e.perform operation).2 := by
  have hdistinct := h.distinct
  cases operation with
  | addPort config driver => exact hkeeps.elim
  | unregister id => exact hkeeps.elim
  | setValue id x =>
    show ∃ ns, e.Tells ns (e.setValue id x).2
    rcases setValue_cases e id x with ⟨err, heq⟩ | ⟨slot, p, y, hentry, -, -, hfit, heq⟩
    · rw [heq]
      exact ⟨[], Tells.refl e⟩
    · rcases entry?_eq_some hentry with ⟨-, hget, -⟩
      rw [heq]
      exact commit_tells hdistinct hget rfl rfl hfit .native
  | setExpression id source => exact ⟨[], setExpression_tells hdistinct id source⟩
  | setReadTransform id source =>
    have hset (p : Port δ) (transform : Option Expr) :
        { p with readTransform := transform }.id = p.id ∧
          { p with readTransform := transform }.value = p.value := ⟨rfl, rfl⟩
    exact ⟨[], setTransform_tells hset hdistinct id source⟩
  | setWriteTransform id source =>
    have hset (p : Port δ) (transform : Option Expr) :
        { p with writeTransform := transform }.id = p.id ∧
          { p with writeTransform := transform }.value = p.value := ⟨rfl, rfl⟩
    exact ⟨[], setTransform_tells hset hdistinct id source⟩
  | setFilter id kind width => exact setFilter_tells hdistinct id kind width
  | enable id => exact enable_tells hdistinct hfitting id
  | disable id => exact disable_tells hdistinct id
  | touch id => exact ⟨[], touch_tells e id⟩
  | tick now => exact tick_tells hdistinct now
  | takeNotifications => exact absurd rfl hdrains
  | takeDirtyConfigs now force => exact ⟨[], takeDirtyConfigs_tells e now force⟩
  | adjustDriver id f => exact ⟨[], adjustDriver_tells e id f⟩

end Engine

end PortLogic
