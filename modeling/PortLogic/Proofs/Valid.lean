import PortLogic.Device.Simulated
import PortLogic.Number.Power
import PortLogic.Proofs.Between
import PortLogic.Proofs.Exchange
import PortLogic.Proofs.Number.Order
import PortLogic.Proofs.Tells

/-!
# PortLogic.Proofs.Valid — only valid values circulate

Whatever is configured, sampled or written, a number gets into a port through its fitting alone, so
every port is `Valid`: what it remembers is undefined or a finite number in its range. Numbers leave
an engine on two ways. A notification carries a value that fits. A device is handed what the write
transform makes of such a value, which nobody fits again; that is finite as well, because every call
drops what is not (`Expr.eval_finite`) and a transform that was read has finite literals.
-/

namespace PortLogic

open Table

/-! ## Finite values -/

/-- Undefined, or a finite number. -/
def Value.Finite (v : Value) : Prop :=
  ∀ x, v = some x → x.isFinite = true

namespace Value

theorem finite_none : Finite none := by
  intro x h
  cases h

theorem finite_some {x : Number} (h : x.isFinite = true) : Finite (some x) := by
  intro y hy
  rwa [← Option.some.inj hy]

theorem finite_bind (v : Value) : Finite (v.bind Number.finite?) := by
  intro x h
  rcases Option.bind_eq_some_iff.mp h with ⟨y, -, hy⟩
  unfold Number.finite? at hy
  split at hy
  · next hfinite => rwa [← Option.some.inj hy]
  · cases hy

theorem Finite.or {v w : Value} (hv : Finite v) (hw : Finite w) : Finite (v.or w) := by
  cases v with
  | none => exact hw
  | some x => exact hv

end Value

namespace Number

theorem ofBool_isFinite (b : Bool) : (ofBool b).isFinite = true := by
  cases b <;> decide +kernel

end Number

theorem Func.run_finite [Power] (f : Func) (args : List Number) (memory : Memory) (now : Now) :
    Value.Finite (f.run args memory now).1 := by
  unfold run
  split
  · exact Value.finite_bind _
  · exact Value.finite_none

theorem Func.tolerate?_finite {f : Func} {values : List Value} {v : Value}
    (h : f.tolerate? values = some v) : Value.Finite v := by
  unfold tolerate? at h
  split at h
  · rw [← Option.some.inj h]
    exact Value.finite_some (Number.ofBool_isFinite _)
  · rw [← Option.some.inj h]
    exact (Value.finite_bind _).or (Value.finite_bind _)
  · cases h

namespace Expr

variable [Power]

/-- A call yields finite numbers only, whatever its arguments are. -/
theorem runCall_finite (func : Func) (memory : Memory) (values : List Value) (now : Now) :
    Value.Finite (runCall func memory values now).1 := by
  unfold runCall
  split
  · cases h : func.tolerate? values with
    | none => exact Value.finite_none
    | some v => exact Func.tolerate?_finite h
  · cases allDefined? values with
    | none => exact Value.finite_none
    | some args => exact func.run_finite args memory now

/-- A tree that was read, whatever its memories are by now, yields a finite number when it reads
finite numbers. -/
theorem eval_finite {room : Nat} {e : Expr} (h : Parsed room e.reset) {ctx : Context}
    (hsource : ∀ id, Value.Finite (ctx.source id)) : Value.Finite (e.eval ctx).value := by
  cases e with
  | literal x =>
    rw [reset] at h
    cases h with
    | literal hfinite => exact Value.finite_some hfinite
  | port id => exact hsource id
  | call func memory args =>
    rw [eval]
    exact runCall_finite func memory _ ctx.now

end Expr

/-! ## Ports -/

namespace Port

variable {δ : Type} {p q : Port δ}

/-- A number that the port may have: its fitting takes it as it is, and it is in the range. A bound
that is undefined bounds nothing. -/
structure Allows (p : Port δ) (x : Number) : Prop where
  finite : x.isFinite = true
  fits : p.normalize x = some x
  boolean : p.kind = .boolean → x = 0 ∨ x = 1
  low : p.kind = .number → ∀ low, p.min = some low → low.isNaN = true ∨ low ≤ x
  high : p.kind = .number → ∀ high, p.max = some high → high.isNaN = true ∨ x ≤ high

theorem not_outside_of_fit {low high : Option Number} {x y : Number}
    (h : fit .number low high x = some y) :
    ¬(low.any (fun low => y < low) = true ∨ high.any (fun high => high < y) = true) := by
  unfold fit at h
  simp only at h
  split at h
  · cases h
  split at h
  · cases h
  · next hinside => rwa [← Option.some.inj h]

theorem allows_of_normalize {x : Number} (h : p.normalize x = some x) : p.Allows x := by
  have hfinite := fit_isFinite h
  have hdefined : x.isNaN = false := by
    cases x with
    | nan => cases hfinite
    | _ => rfl
  have hinside (hkind : p.kind = .number) := by
    unfold normalize at h
    rw [hkind] at h
    exact not_outside_of_fit h
  refine ⟨hfinite, h, ?_, ?_, ?_⟩
  · intro hkind
    unfold normalize fit at h
    rw [hfinite, hkind] at h
    rw [← Option.some.inj h]
    cases x.isTrue
    · exact Or.inl rfl
    · exact Or.inr rfl
  · intro hkind low hlow
    cases hnan : low.isNaN with
    | true => exact Or.inl rfl
    | false =>
      refine Or.inr (Number.le_of_not_lt hdefined hnan fun hlt => hinside hkind (Or.inl ?_))
      rw [hlow]
      exact decide_eq_true hlt
  · intro hkind high hhigh
    cases hnan : high.isNaN with
    | true => exact Or.inl rfl
    | false =>
      refine Or.inr (Number.le_of_not_lt hnan hdefined fun hlt => hinside hkind (Or.inr ?_))
      rw [hhigh]
      exact decide_eq_true hlt

/-- Everything that the port remembers is valid, references read the value that it has, and it has
none while it is disabled. -/
structure Valid (p : Port δ) : Prop where
  value : ∀ x, p.value = some x → p.Allows x
  lastRead : ∀ x, p.lastRead = some x → p.Allows x
  detected : ∀ x, p.detected = some x → p.Allows x
  /-- Both are undefined, or both are numbers that compare equal. -/
  agree : (p.lastRead == p.value) = true
  idle : p.enabled = false → p.value = none

theorem Fitting.valid (hfitting : p.Fitting) (hreadable : p.Readable) : p.Valid where
  value x hx := allows_of_normalize (hfitting.value x hx)
  lastRead x hx := allows_of_normalize (hfitting.lastRead x hx)
  detected x hx := allows_of_normalize (hfitting.detected x hx)
  agree := by
    unfold Readable at hreadable
    cases hvalue : p.value with
    | none =>
      rw [hvalue] at hreadable
      generalize p.lastRead = v at hreadable
      cases hreadable
      rfl
    | some x =>
      rw [hvalue] at hreadable
      exact hreadable.beq (fit_isFinite (hfitting.value x hvalue))
  idle hdisabled := (hfitting.idle hdisabled).1

/-- A move that changes the value changes what references read. -/
theorem Move.readable (h : p.Move q) (hp : p.Readable) : q.Readable := by
  cases h with
  | accept reason henabled hfit => exact Value.Alike.refl _
  | confirm henabled hfit hsame =>
    -- a reading that compares equal may be the other zero
    exact (Value.alike_of_beq hsame).symm
  | acknowledge =>
    rcases p.acknowledge_eq with ⟨reason, detected, heq⟩
    rw [heq]
    exact hp
  | forget hdirty => exact Value.Alike.refl none
  | disable henabled => exact Value.Alike.refl none
  | _ => exact hp

variable [Power]

/-- What the write transform makes of a finite number is finite. -/
theorem outgoing_finite [Driver δ] (hp : p.Stored) {x : Number} (hx : x.isFinite = true)
    (now : Now) : Value.Finite (p.outgoing x now).1 := by
  unfold outgoing
  cases hwrite : p.writeTransform with
  | none => exact Value.finite_some hx
  | some transform =>
    rcases hp.writeTransform with ⟨source, hread⟩
    rw [hwrite] at hread
    rcases readTransformOf_cases hread with hnone | ⟨e, heq, hparse, -⟩
    · cases hnone
    -- the tree was read, so its literals are finite, and it sees the value of its own port alone
    have hparsed : Expr.Parsed Expr.maxNesting transform.reset := by
      rw [Option.some.inj heq]
      exact Expr.parse_parsed hp.id hparse
    refine Expr.eval_finite hparsed ?_
    intro id
    show Value.Finite (if id = p.id then some x else none)
    split
    · exact Value.finite_some hx
    · exact Value.finite_none

/-- Only finite numbers are in the record of the device. -/
def RecordsFinite (p : Port (Recorder δ)) : Prop :=
  ∀ written, p.record = some written → ∀ entry ∈ written, entry.1.isFinite = true

theorem Exchange.recordsFinite [Driver δ] {p q : Port (Recorder δ)} (h : p.Exchange q)
    (hstored : p.Stored) (hp : p.RecordsFinite) : q.RecordsFinite := by
  have hgrown {x y sent : Number} {now : Now} {accepted : Bool} (hfit : p.normalize x = some y)
      (hsent : (p.outgoing y now).1 = some sent)
      (hrecord : q.record = p.record.map (· ++ [(sent, accepted)])) : q.RecordsFinite := by
    intro written hwritten entry hentry
    rcases Option.map_eq_some_iff.mp (hrecord.symm.trans hwritten) with ⟨before, hbefore, rfl⟩
    rcases List.mem_append.mp hentry with hold | hnew
    · exact hp before hbefore entry hold
    · rw [List.mem_singleton.mp hnew]
      exact outgoing_finite hstored (fit_isFinite hfit) now sent hsent
  cases h with
  | silent houtput hrecord hvalue =>
    intro written hwritten
    exact hp written (hrecord.symm.trans hwritten)
  | accepted houtput hfit hsent hrecord hvalue => exact hgrown hfit hsent hrecord
  | refused houtput hfit hsent hrecord hvalue => exact hgrown hfit hsent hrecord

end Port

/-! ## Runs -/

namespace Engine

section

variable {δ : Type} [Driver δ] [Power] {e e' : Engine δ}

/-- In a reachable engine every port is valid. -/
theorem Reachable.valid (h : e.Reachable) {slot : Nat} {p : Port δ}
    (hget : e.table.get? slot = some p) : p.Valid := by
  refine (h.fitting hget).valid (h.port_induction ?_ Port.Move.readable ?_ hget)
  · intro e config driver _
    exact portOf_readable e config driver
  · intro p hp
    exact hp

omit [Driver δ] in
omit [Power] in
theorem Tells.finite_notifications {ns : List Notification} (h : e.Tells ns e')
    (hbefore : ∀ n ∈ e.notifications, Value.Finite n.shown) :
    ∀ n ∈ e'.notifications, Value.Finite n.shown := by
  intro n hn
  rw [h.queue] at hn
  exact (List.mem_append.mp hn).elim (hbefore n) (h.finite n)

/-- In a reachable engine only finite numbers wait to be announced. -/
theorem Reachable.finite_notifications (h : e.Reachable) :
    ∀ n ∈ e.notifications, Value.Finite n.shown := by
  refine (Reachable.induction (motive := fun e =>
    e.Reachable ∧ ∀ n ∈ e.notifications, Value.Finite n.shown) ?_ ?_ h).2
  · intro config
    refine ⟨reachable_start config, ?_⟩
    intro n hn
    cases hn
  rintro e operation ⟨hreachable, hbefore⟩
  refine ⟨hreachable.run [operation], ?_⟩
  have hkeeps (hkeeps : operation.KeepsPorts) (hdrains : operation ≠ .takeNotifications) :
      ∀ n ∈ (e.perform operation).2.notifications, Value.Finite n.shown := by
    rcases perform_tells hreachable.wired (fun _ _ hget => hreachable.fitting hget) hkeeps hdrains
      with ⟨ns, htells⟩
    exact htells.finite_notifications hbefore
  cases operation with
  | addPort config driver =>
    show ∀ n ∈ (e.addPort config driver).2.notifications, _
    rwa [(addPort_values hreachable.wired config driver).1]
  | unregister name =>
    show ∀ n ∈ (e.unregister name).2.notifications, _
    rcases unregister_tells hreachable.wired.distinct name with hsame | htells
    · rwa [hsame]
    · exact htells.finite_notifications hbefore
  | takeNotifications =>
    intro n hn
    cases hn
  | _ => exact hkeeps trivial nofun

/-- After any run, only finite numbers were ever handed to the device of a port. -/
theorem recorded_finite (settings : EngineConfig) (operations : List (Operation δ)) {name : String}
    {q : Port (Recorder δ)} (hq : recorded? settings operations name = some q) :
    q.RecordsFinite := by
  have hnew {config : PortConfig} {p : Port (Recorder δ)} (_ : p.value = config.restored)
      (hempty : ∀ {written}, p.record = some written → written = []) : p.RecordsFinite := by
    intro written hwritten entry hentry
    rw [hempty hwritten] at hentry
    cases hentry
  rcases recorded_induction (motive := fun _ p => p.RecordsFinite) hnew
    (fun hstored hexchange hp => hexchange.recordsFinite hstored hp) settings operations hq with
    ⟨_, -, hrecords⟩
  exact hrecords

/-- After any run, whatever was configured, sampled and written: every port is valid, and every
number that waits to be announced or was ever handed to the device of a port is finite. A run may
stop anywhere, so this tells as well of what is drained or removed later. -/
theorem only_valid_values (settings : EngineConfig) (operations : List (Operation δ)) :
    let e := (start settings : Engine δ).run operations
    (∀ slot p, e.table.get? slot = some p → p.Valid) ∧
      (∀ name x, .valueChange name (some x) ∈ e.notifications → x.isFinite = true) ∧
      ∀ name q, recorded? settings operations name = some q →
        ∀ written, q.record = some written → ∀ entry ∈ written, entry.1.isFinite = true := by
  intro e
  have hreachable : e.Reachable := ⟨settings, operations, rfl⟩
  refine ⟨?_, ?_, ?_⟩
  · intro slot p hget
    exact hreachable.valid hget
  · intro name x hmem
    exact hreachable.finite_notifications _ hmem x rfl
  · intro name q hq
    exact recorded_finite settings operations hq

end

attribute [local instance] Power.rounded

/-- An infinite reading is not sampled, and what has no finite reciprocal is not written. -/
theorem only_valid_values_of_reciprocal :
    let sampled := { PortConfig.input "a" .number with samplingInterval := 0 }
    let written := { PortConfig.outputOf "b" .number with writeTransform := "DIV(1, $)" }
    let operations := [
      .addPort sampled (some (.script [some (.infinite false), some 3])),
      .addPort written (some (.script [])),
      .tick ⟨0, none⟩, .setValue "b" 0, .tick ⟨1, none⟩, .setValue "b" 2]
    let e := (start EngineConfig.initial : Engine Simulated).run operations
    (e.value "a" = .ok (some 3) ∧ e.value "b" = .ok (some 2) ∧
        (recorded? EngineConfig.initial operations "b").bind Port.record = some [(1 / 2, true)]) ∧
      ∀ slot p, e.table.get? slot = some p → p.Valid := by
  intro sampled written operations e
  refine ⟨⟨by decide +kernel, by decide +kernel, by decide +kernel⟩, ?_⟩
  exact (only_valid_values EngineConfig.initial operations).1

end Engine

end PortLogic
