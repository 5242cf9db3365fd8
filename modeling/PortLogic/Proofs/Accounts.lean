import Mathlib.Data.List.Nodup
import PortLogic.Device.Simulated
import PortLogic.Number.Power
import PortLogic.Proofs.Tells

/-!
# PortLogic.Proofs.Accounts — a tick accounts for every change

A tick changes values in two phases, sampling and evaluation, and each phase counts what it commits
and announces it. Both keep balanced books (`Table.Accounts`): every entry is a slot with a
notification of the new value of the port in it, no slot is entered twice, and no other slot changes
its value. Books of changes in different slots add up (`Accounts.trans`). Sampling changes inputs
only and evaluation changes outputs only, so the books of a whole tick are balanced as well
(`Reachable.tick_accounts`).
-/

namespace PortLogic

open Table

/-! ## Books -/

namespace Table

variable {δ : Type} {t u v : Table δ} {slot : Nat} {n : Notification}
  {book more : List (Nat × Notification)}

/-- The slot holds a port of the same identifier with the same value, or is free as before. -/
def Keeps (t u : Table δ) (slot : Nat) : Prop :=
  (u.get? slot).map (fun p => (p.id, p.value)) = (t.get? slot).map fun p => (p.id, p.value)

/-- The notification tells the value that the port in the slot has afterwards, which does not
compare equal to the one before. -/
def Announces (t u : Table δ) (slot : Nat) (n : Notification) : Prop :=
  ∃ p q x, t.get? slot = some p ∧ u.get? slot = some q ∧ q.id = p.id ∧
    n = .valueChange p.id (some x) ∧ (p.value == some x) = false ∧ q.value = some x

theorem Keeps.get? {p : Port δ} (h : t.Keeps u slot) (hget : t.get? slot = some p) :
    ∃ q, u.get? slot = some q ∧ q.id = p.id ∧ q.value = p.value := by
  unfold Keeps at h
  rw [hget, Option.map_some] at h
  rcases Option.map_eq_some_iff.mp h with ⟨q, hq, heq⟩
  rcases Prod.mk.inj heq with ⟨hid, hvalue⟩
  exact ⟨q, hq, hid, hvalue⟩

/-- An announced value still holds when the slot is left alone afterwards. -/
theorem Announces.keeps (h : t.Announces u slot n) (hkept : u.Keeps v slot) :
    t.Announces v slot n := by
  rcases h with ⟨p, q, x, hp, hq, hid, hn, hnew, hvalue⟩
  rcases hkept.get? hq with ⟨r, hr, hrid, hrvalue⟩
  exact ⟨p, r, x, hp, hr, hrid.trans hid, hn, hnew, hrvalue.trans hvalue⟩

/-- An announced value is new also when the slot was left alone before. -/
theorem Keeps.announces (h : t.Keeps u slot) (hannounced : u.Announces v slot n) :
    t.Announces v slot n := by
  rcases hannounced with ⟨q, r, x, hq, hr, hid, hn, hnew, hvalue⟩
  rcases (show u.Keeps t slot from h.symm).get? hq with ⟨p, hp, hpid, hpvalue⟩
  refine ⟨p, r, x, hp, hr, ?_, ?_, ?_, hvalue⟩
  · rw [hid, hpid]
  · rw [hn, hpid]
  · rw [hpvalue, hnew]

/-- The entries of a book are all changes of values from one table to another. -/
structure Accounts (t u : Table δ) (book : List (Nat × Notification)) : Prop where
  announced : ∀ {slot n}, (slot, n) ∈ book → t.Announces u slot n
  once : (book.map (·.1)).Nodup
  kept : ∀ {slot}, slot ∉ book.map (·.1) → t.Keeps u slot

/-- Nothing is entered when no value changes. -/
theorem Accounts.silent (h : ∀ slot, t.Keeps u slot) : t.Accounts u [] where
  announced hmem := by cases hmem
  once := List.nodup_nil
  kept _ := h _

/-- Books add up when no slot is in both of them. -/
theorem Accounts.trans (h : t.Accounts u book) (h' : u.Accounts v more)
    (hdisjoint : (book.map (·.1)).Disjoint (more.map (·.1))) : t.Accounts v (book ++ more) where
  announced := by
    intro slot n hmem
    rcases List.mem_append.mp hmem with hfirst | hsecond
    · -- the second change leaves the slot alone
      exact (h.announced hfirst).keeps (h'.kept (hdisjoint (List.mem_map_of_mem hfirst)))
    · refine Keeps.announces (h.kept ?_) (h'.announced hsecond)
      intro hbefore
      exact hdisjoint hbefore (List.mem_map_of_mem hsecond)
  once := by
    rw [List.map_append]
    exact h.once.append h'.once hdisjoint
  kept := by
    intro slot hslot
    rw [List.map_append, List.mem_append, not_or] at hslot
    exact (h'.kept hslot.2).trans (h.kept hslot.1)

/-- A port that changes without changing its value. -/
theorem accounts_modify_of_eq {p q : Port δ} (hget : t.get? slot = some p) (hid : q.id = p.id)
    (hvalue : q.value = p.value) : t.Accounts (t.modify slot fun _ => q) [] := by
  refine Accounts.silent fun other => ?_
  unfold Keeps
  rw [get?_modify]
  split
  · next heq => rw [← heq, hget, Option.map_some, Option.map_some, Option.map_some, hid, hvalue]
  · rfl

/-- A port that takes a new value. -/
theorem accounts_modify {p q : Port δ} {x : Number} (hget : t.get? slot = some p)
    (hid : q.id = p.id) (hnew : (p.value == some x) = false) (hvalue : q.value = some x) :
    t.Accounts (t.modify slot fun _ => q) [(slot, .valueChange p.id (some x))] where
  announced := by
    intro other n hmem
    rcases Prod.mk.inj (List.mem_singleton.mp hmem) with ⟨rfl, rfl⟩
    refine ⟨p, q, x, hget, ?_, hid, rfl, hnew, hvalue⟩
    rw [get?_modify, if_pos rfl, hget, Option.map_some]
  once := List.nodup_singleton slot
  kept := by
    intro other hother
    have hne : slot ≠ other := fun heq => hother (List.mem_singleton.mpr heq.symm)
    unfold Keeps
    rw [get?_modify, if_neg hne]

/-- Every slot is listed once. -/
theorem nodup_entries (t : Table δ) : (t.entries.map (·.1)).Nodup := by
  unfold entries
  rw [List.nodup_iff_pairwise_ne, List.pairwise_map, List.pairwise_filterMap,
    List.pairwise_iff_getElem]
  intro i j hi hj hlt a ha b hb
  rw [List.getElem_zipIdx] at ha hb
  rcases Option.map_eq_some_iff.mp ha with ⟨p, -, rfl⟩
  rcases Option.map_eq_some_iff.mp hb with ⟨q, -, rfl⟩
  simp only
  omega

end Table

/-! ## Sampling -/

namespace Port

variable {δ : Type} [Driver δ] [Power] {p : Port δ} {now : Now}

/-- Sampling changes the value of inputs only, to one that does not compare equal to the one
before. -/
theorem sample_new (h : (p.sample now).changed = true) :
    p.output = false ∧ ∃ x, (p.sample now).port.value = some x ∧ (p.value == some x) = false := by
  rcases p.sample_cases now with ⟨_, _, _, _, -, -, ⟨_, heq⟩ | ⟨x, y, hdue, -, heq⟩⟩
  · rw [heq] at h
    cases h
  rw [heq] at h ⊢
  refine ⟨?_, y, ?_⟩
  · unfold isDue at hdue
    simp only [Bool.and_eq_true, Bool.not_eq_true'] at hdue
    exact hdue.1.2
  · unfold acceptSample at h ⊢
    split at h
    · cases h
    · next hnew => exact ⟨by rw [if_neg hnew], by simpa using hnew⟩

end Port

namespace Engine

section

variable {δ : Type} [Driver δ] [Power] {e : Engine δ} {now : Now}

/-- The book of sampling: the inputs that it gives a new value. -/
def sampleBook (e : Engine δ) (now : Now) : List (Nat × Notification) :=
  (e.table.entries.filter fun (_, p) => (p.sample now).changed).map fun (slot, p) =>
    (slot, .valueChange p.id (p.sample now).port.value)

theorem mem_sampleBook {slot : Nat} {n : Notification} :
    (slot, n) ∈ e.sampleBook now ↔ ∃ p, e.table.get? slot = some p ∧
      (p.sample now).changed = true ∧ n = .valueChange p.id (p.sample now).port.value := by
  unfold sampleBook
  simp only [List.mem_map, List.mem_filter, Prod.exists, Prod.mk.injEq, mem_entries]
  constructor
  · rintro ⟨_, p, ⟨hget, hchanged⟩, rfl, rfl⟩
    exact ⟨p, hget, hchanged, rfl⟩
  · rintro ⟨p, hget, hchanged, rfl⟩
    exact ⟨slot, p, ⟨hget, hchanged⟩, rfl, rfl⟩

theorem sampleBook_slots (e : Engine δ) (now : Now) :
    (e.sampleBook now).map (·.1) = ((e.clock now).2.sample now).2.1 := by
  unfold sampleBook Engine.sample
  simp only
  rw [List.filter_map, List.map_map, List.map_map]
  rfl

theorem sampleBook_news (e : Engine δ) (now : Now) :
    (e.sampleBook now).map (·.2) = e.sampleNews now := by
  unfold sampleBook sampleNews
  rw [List.filter_map, List.map_map, List.map_map]
  refine List.map_congr_left ?_
  rintro ⟨slot, p⟩ -
  exact congrArg (Notification.valueChange · _) (p.sample_kept now).id.symm

/-- The book of sampling is balanced. -/
theorem sampled_accounts (e : Engine δ) (now : Now) :
    e.table.Accounts (e.sampled now).table (e.sampleBook now) where
  announced := by
    intro slot n hmem
    rcases mem_sampleBook.mp hmem with ⟨p, hget, hchanged, rfl⟩
    rcases Port.sample_new hchanged with ⟨-, x, hvalue, hnew⟩
    refine ⟨p, (p.sample now).port, x, hget, ?_, (p.sample_kept now).id, ?_, hnew, hvalue⟩
    · rw [sampled_get?, hget, Option.map_some]
    · rw [hvalue]
  once := by
    unfold sampleBook
    rw [List.map_map]
    exact e.table.nodup_entries.sublist (List.filter_sublist.map _)
  kept := by
    intro slot hslot
    unfold Keeps
    rw [sampled_get?]
    cases hget : e.table.get? slot with
    | none => rfl
    | some p =>
      rw [Option.map_some, Option.map_some, Option.map_some, (p.sample_kept now).id]
      rcases p.sample_value now with ⟨-, hvalue⟩ | ⟨hchanged, -⟩
      · rw [hvalue]
      · exact absurd (List.mem_map_of_mem (mem_sampleBook.mpr ⟨p, hget, hchanged, rfl⟩)) hslot

/-- Detecting changes changes nothing. -/
theorem ready_accounts (e : Engine δ) (now : Now) :
    (e.sampled now).table.Accounts (e.ready now).table [] := by
  refine Accounts.silent ?_
  intro slot
  show ((((e.sampled now).table.map Port.acknowledge).get? slot).map _) = _
  rw [get?_map, Option.map_map]
  refine congrArg (Option.map · ((e.sampled now).table.get? slot)) ?_
  funext p
  exact p.acknowledge_congr (fun p => (p.id, p.value)) fun _ _ => rfl

/-! ## Evaluation -/

/-- The book of one turn: the slot whose turn it is, when it commits a value. -/
theorem evaluateSlot_accounts (mask caused : Triggers) (now : Now) (s : Progress δ) (slot : Nat) :
    ∃ book, s.engine.table.Accounts (evaluateSlot mask caused now s slot).engine.table book ∧
      (evaluateSlot mask caused now s slot).committed = s.committed ++ book.map (·.1) ∧
      (evaluateSlot mask caused now s slot).engine.notifications =
        s.engine.notifications ++ book.map (·.2) ∧
      ∀ other ∈ book.map (·.1), other = slot := by
  have hempty {committed : List Nat} {notifications : List Notification} {u : Table δ}
      (haccounts : s.engine.table.Accounts u []) (hslots : committed = s.committed ++ [])
      (hnews : notifications = s.engine.notifications ++ []) :
      ∃ book, s.engine.table.Accounts u book ∧ committed = s.committed ++ book.map (·.1) ∧
        notifications = s.engine.notifications ++ book.map (·.2) ∧
        ∀ other ∈ book.map (·.1), other = slot :=
    ⟨[], haccounts, hslots, hnews, fun other hother => by cases hother⟩
  rcases evaluateSlot_cases mask caused now s slot with ⟨heq, -⟩ | ⟨p, expr, hget, hfires, heq⟩
  · rw [heq]
    exact hempty (Accounts.silent fun _ => rfl) (List.append_nil _).symm (List.append_nil _).symm
  rw [heq]
  rcases evaluateLive_cases s.engine slot p expr now with
    ⟨hlive, -⟩ | ⟨x, writeTransform, driver, -, hnew, -, ⟨-, hlive⟩ | ⟨-, hlive⟩⟩
  · rw [hlive]
    exact hempty (accounts_modify_of_eq hget rfl rfl) rfl (List.append_nil _).symm
  · -- a write that fails commits nothing
    rw [hlive]
    exact hempty (accounts_modify_of_eq hget rfl rfl) rfl (List.append_nil _).symm
  · rw [hlive]
    refine ⟨_, accounts_modify hget rfl hnew rfl, rfl, rfl, ?_⟩
    intro other hother
    exact List.mem_singleton.mp hother

/-- The book of the turns of the slots below one. -/
theorem turn_accounts (e : Engine δ) (mask caused : Triggers) (now : Now) (turns : Nat) :
    ∃ book, e.table.Accounts (e.turn mask caused now turns).engine.table book ∧
      (e.turn mask caused now turns).committed = book.map (·.1) ∧
      (e.turn mask caused now turns).engine.notifications =
        e.notifications ++ book.map (·.2) := by
  induction turns with
  | zero => exact ⟨[], Accounts.silent fun _ => rfl, rfl, (List.append_nil _).symm⟩
  | succ turns ih =>
    rcases ih with ⟨book, haccounts, hslots, hnews⟩
    rw [turn_succ]
    rcases evaluateSlot_accounts mask caused now (e.turn mask caused now turns) turns with
      ⟨more, hmore, hmoreSlots, hmoreNews, hown⟩
    refine ⟨book ++ more, haccounts.trans hmore ?_, ?_, ?_⟩
    · -- only slots whose turn was before are in the book
      intro slot hbefore hnow
      rw [← hslots] at hbefore
      have hlt := (mem_turn_evaluated.mp (turn_committed_subset e mask caused now turns hbefore)).1
      rw [hown slot hnow] at hlt
      exact Nat.lt_irrefl turns hlt
    · rw [hmoreSlots, hslots, List.map_append]
    · rw [hmoreNews, hnews, List.map_append, List.append_assoc]

/-- The books of both phases add up to one of the whole tick: the slots that are counted as
committed, and the notifications that are queued. -/
theorem tick_accounts (e : Engine δ) (now : Now) :
    ∃ book, e.table.Accounts (e.tick now).2.table book ∧
      (e.tick now).1.committed = book.map (·.1) ∧
      (e.tick now).2.notifications = e.notifications ++ book.map (·.2) := by
  rcases turn_accounts (e.ready now) (e.tickMask now) (e.selfCaused now) now
    (e.ready now).table.slots.length with ⟨book, haccounts, hslots, hnews⟩
  have hready : e.table.Accounts (e.ready now).table (e.sampleBook now ++ []) :=
    (sampled_accounts e now).trans (ready_accounts e now) (List.disjoint_nil_right _)
  rw [List.append_nil] at hready
  refine ⟨e.sampleBook now ++ book, hready.trans haccounts ?_, ?_, ?_⟩
  · -- sampling commits values of inputs, evaluation values of outputs
    intro slot hsampled hevaluated
    rcases List.mem_map.mp hsampled with ⟨⟨_, n⟩, hmem, rfl⟩
    rcases mem_sampleBook.mp hmem with ⟨p, hget, hchanged, -⟩
    rw [← hslots] at hevaluated
    rcases mem_turn_evaluated.mp (turn_committed_subset _ _ _ now _ hevaluated) with
      ⟨-, q, expr, hq, hfires⟩
    obtain rfl := Option.some.inj ((ready_get?_of_some hget now).symm.trans hq)
    have houtput := hfires.output
    rw [Port.acknowledge_congr Port.output fun _ _ => rfl, (p.sample_kept now).output,
      (Port.sample_new hchanged).1] at houtput
    cases houtput
  · rw [tick_committed, evaluate_eq_turn, hslots, ← sampleBook_slots, List.map_append]
  · rw [tick_snd, evaluate_eq_turn, hnews, List.map_append, sampleBook_news, ← List.append_assoc]
    rfl

/-! ## Values by identifier -/

omit [Driver δ] in
omit [Power] in
theorem value_of_get? {slot : Nat} {p : Port δ} (h : e.table.Distinct)
    (hget : e.table.get? slot = some p) : e.value p.id = .ok p.value := by
  unfold value
  rw [h.find? hget]

/-- In a reachable engine a tick accounts for every change: it queues as many notifications as it
counts commits, at most one about each port, and all of them tell a new value of the port. What is
not announced is as before. -/
theorem Reachable.tick_balanced (h : e.Reachable) (now : Now) :
    ∃ ns, (e.tick now).2.notifications = e.notifications ++ ns ∧
      ns.length = (e.tick now).1.committed.length ∧
      (ns.map Notification.id).Nodup ∧
      (∀ n ∈ ns, ∃ id before x, n = .valueChange id (some x) ∧ e.value id = .ok before ∧
        (before == some x) = false ∧ (e.tick now).2.value id = .ok (some x)) ∧
      ∀ id, (∀ n ∈ ns, n.id ≠ id) → (e.tick now).2.value id = e.value id := by
  have hdistinct := h.wired.distinct
  have hafter : (e.tick now).2.table.Distinct := (h.run [.tick now]).wired.distinct
  rcases e.tick_accounts now with ⟨book, haccounts, hslots, hnews⟩
  refine ⟨book.map (·.2), hnews, ?_, ?_, ?_, ?_⟩
  · rw [hslots, List.length_map, List.length_map]
  · -- notifications about one port would be entries of one slot
    rw [List.map_map, List.nodup_iff_pairwise_ne, List.pairwise_map]
    have honce := List.pairwise_map.mp (List.nodup_iff_pairwise_ne.mp haccounts.once)
    refine honce.imp_of_mem ?_
    rintro ⟨slot, n⟩ ⟨other, m⟩ hn hm hne hid
    rcases haccounts.announced hn with ⟨p, -, _, hp, -, -, rfl, -⟩
    rcases haccounts.announced hm with ⟨q, -, _, hq, -, -, rfl, -⟩
    exact hne (hdistinct hp hq hid)
  · intro n hn
    rcases List.mem_map.mp hn with ⟨⟨slot, _⟩, hmem, rfl⟩
    rcases haccounts.announced hmem with ⟨p, q, x, hp, hq, hid, rfl, hnew, hvalue⟩
    refine ⟨p.id, p.value, x, rfl, value_of_get? hdistinct hp, hnew, ?_⟩
    rw [← hid, value_of_get? hafter hq, hvalue]
  · intro id hsilent
    cases hfind : e.table.find? id with
    | none =>
      have hgone : (e.tick now).2.table.find? id = none := by
        rw [find?_eq_none, (tick_sameWiring e now).slotOf?]
        exact find?_eq_none.mp hfind
      unfold value
      rw [hfind, hgone]
    | some p =>
      rcases find?_eq_some hfind with ⟨slot, -, hget, rfl⟩
      have hslot : slot ∉ book.map (·.1) := by
        intro hmem
        rcases List.mem_map.mp hmem with ⟨⟨_, n⟩, hentry, rfl⟩
        rcases haccounts.announced hentry with ⟨q, -, _, hq, -, -, rfl, -⟩
        obtain rfl := Option.some.inj (hget.symm.trans hq)
        exact hsilent _ (List.mem_map_of_mem hentry) rfl
      rcases (haccounts.kept hslot).get? hget with ⟨q, hq, hid, hvalue⟩
      rw [value_of_get? hdistinct hget, ← hvalue, ← hid, value_of_get? hafter hq]

end

attribute [local instance] Power.rounded

/-- A sensor, a port that repeats it, and one that a device refuses to follow: the tick commits two
values of three. -/
theorem tick_balanced_of_refusal :
    let e := (start EngineConfig.initial : Engine Simulated).run [
      .addPort (PortConfig.input "a" .number) (some (.script [some 3])),
      .addPort { PortConfig.virtualOutput "b" with expression := "$a" } none,
      .addPort { PortConfig.outputOf "c" .number with expression := "$a" }
        (some (.sensor ⟨⟨none, true, []⟩, none⟩))]
    (e.tick ⟨0, none⟩).1.committed = [0, 1] ∧
      (e.tick ⟨0, none⟩).2.notifications =
        [.valueChange "a" (some 3), .valueChange "b" (some 3)] ∧
      ∃ ns, (e.tick ⟨0, none⟩).2.notifications = e.notifications ++ ns ∧
        ns.length = (e.tick ⟨0, none⟩).1.committed.length := by
  intro e
  have hreachable : e.Reachable := (reachable_start _).run _
  refine ⟨by decide +kernel, by decide +kernel, ?_⟩
  rcases Reachable.tick_balanced hreachable ⟨0, none⟩ with ⟨ns, hqueue, hcount, -⟩
  exact ⟨ns, hqueue, hcount⟩

end Engine

end PortLogic
