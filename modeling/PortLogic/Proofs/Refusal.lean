import PortLogic.Device.Simulated
import PortLogic.Number.Power
import PortLogic.Proofs.Expr.Plain
import PortLogic.Proofs.Reachable

/-!
# PortLogic.Proofs.Refusal — writes that fail

A write from outside fails before, inside or after the evaluation of the write transform
(`WriteFailure`). Before it, nothing has changed. From then on the transform has seen the number,
and its memories keep that: neither a transform without a value nor a device that refuses takes the
evaluation back, no more than a tick does that drops a sample or a result. Apart from these memories
and the device a failed write leaves no trace (`failed_write`), so that behind a transform without
memories it is as if the world had acted on the device and nothing had been written. Behind one with
memories later writes can tell (`failed_write_remembered`).
-/

namespace PortLogic

open Table

namespace Engine

variable {δ : Type} {e : Engine δ} {id : String} {slot : Nat} {p : Port δ}

/-! ## Changing one port -/

/-- Changes the port with an identifier, when there is one. -/
def adjust (e : Engine δ) (id : String) (f : Port δ → Port δ) : Engine δ :=
  match e.table.slotOf? id with
  | none => e
  | some slot => e.modify slot f

theorem adjustDriver_eq (e : Engine δ) (id : String) (f : δ → δ) :
    e.adjustDriver id f = e.adjust id fun p => { p with driver := p.driver.map f } := rfl

/-- A change is told by what it makes of the port that is there. -/
theorem adjust_eq_modify (hentry : e.entry? id = some (slot, p)) (f : Port δ → Port δ) :
    e.adjust id f = e.modify slot fun _ => f p := by
  rcases entry?_eq_some hentry with ⟨hslot, hget, -⟩
  have hslots : e.table.slots.modify slot (Option.map f) =
      e.table.slots.modify slot (Option.map fun _ => f p) := by
    refine List.ext_getElem? fun other => ?_
    rw [List.getElem?_modify, List.getElem?_modify]
    split
    · next heq => rw [← heq, get?_eq_some.mp hget]; rfl
    · rfl
  unfold adjust
  rw [hslot]
  unfold modify Table.modify
  simp only
  rw [hslots]

theorem adjust_self (e : Engine δ) (id : String) : (e.adjust id fun p => p) = e := by
  unfold adjust
  split
  · rfl
  · unfold modify Table.modify
    rw [Option.map_id_fun', List.modify_id]

/-! ## Failures -/

variable [Driver δ] {x y : Number} {err : Error}

/-- How a write from outside can fail, with its error and the engine that it leaves. -/
inductive WriteFailure [Power] (e : Engine δ) (id : String)
    (x : Number) : Error → Engine δ → Prop where
  | missing (hfind : e.table.find? id = none) : WriteFailure e id x (.notFound id) e
  | notOutput {p : Port δ} (hfind : e.table.find? id = some p) (hinput : p.output = false) :
    WriteFailure e id x (.notOutput id) e
  | disabled {p : Port δ} (hfind : e.table.find? id = some p) (houtput : p.output = true)
      (hdisabled : p.enabled = false) : WriteFailure e id x (.disabled id) e
  | unfit {p : Port δ} (hfind : e.table.find? id = some p) (houtput : p.output = true)
      (henabled : p.enabled = true) (hfit : p.normalize x = none) :
    WriteFailure e id x (.invalidValue id x) e
  /-- The transform has no value for the number. -/
  | undefined {p : Port δ} {y : Number} (hfind : e.table.find? id = some p)
      (houtput : p.output = true) (henabled : p.enabled = true) (hfit : p.normalize x = some y)
      (hsent : (p.outgoing y e.now).1 = none) :
    WriteFailure e id x (.undefinedWrite id y)
      (e.adjust id fun p => { p with writeTransform := (p.outgoing y e.now).2 })
  /-- The device refuses what the transform makes of the number. -/
  | refused {p : Port δ} {y z : Number} {device : δ} {reason : String}
      (hfind : e.table.find? id = some p) (houtput : p.output = true) (henabled : p.enabled = true)
      (hfit : p.normalize x = some y) (hsent : (p.outgoing y e.now).1 = some z)
      (hdriver : p.driver = some device) (hrefused : (Driver.write device z).1 = .error reason) :
    WriteFailure e id x (.driver reason)
      (e.adjust id fun p =>
        { p with
          writeTransform := (p.outgoing y e.now).2
          driver := p.driver.map fun device => (Driver.write device z).2 })

/-- Driving a number fails when the device refuses it. -/
theorem drive_eq_error {z : Number} (h : (p.drive z).1 = .error err) :
    ∃ device reason, p.driver = some device ∧ (Driver.write device z).1 = .error reason ∧
      err = .driver reason ∧
      (p.drive z).2 = { p with driver := some (Driver.write device z).2 } := by
  unfold Port.drive at h ⊢
  split at h
  · cases h
  · next device hdriver =>
    cases hwrite : (Driver.write device z).1 with
    | ok =>
      simp only [hwrite] at h
      cases h
    | error reason =>
      simp only [hwrite] at h
      exact ⟨device, reason, hdriver, hwrite, (Except.error.inj h).symm, rfl⟩

/-- A write of a number fails in the transform or in the device. -/
theorem write_eq_error [Power] {now : Now} (h : (p.write y now).1 = .error err) :
    ((p.outgoing y now).1 = none ∧ err = .undefinedWrite p.id y ∧
        (p.write y now).2 = { p with writeTransform := (p.outgoing y now).2 }) ∨
      ∃ z device reason, (p.outgoing y now).1 = some z ∧ p.driver = some device ∧
        (Driver.write device z).1 = .error reason ∧ err = .driver reason ∧
        (p.write y now).2 =
          { p with
            writeTransform := (p.outgoing y now).2
            driver := some (Driver.write device z).2 } := by
  unfold Port.write at h ⊢
  generalize p.outgoing y now = sent at h ⊢
  rcases sent with ⟨written, tree⟩
  cases written with
  | none => exact Or.inl ⟨rfl, (Except.error.inj h).symm, rfl⟩
  | some z =>
    rcases drive_eq_error h with ⟨device, reason, hdriver, hrefused, herr, hnext⟩
    exact Or.inr ⟨z, device, reason, rfl, hdriver, hrefused, herr, hnext⟩

theorem commit_eq_error [Power] {reason : ChangeReason}
    (h : (e.commit slot p y reason).1 = .error err) : (p.write y e.now).1 = .error err ∧
      (e.commit slot p y reason).2 = e.modify slot fun _ => (p.write y e.now).2 := by
  unfold commit at h ⊢
  split at h
  · next heq =>
    rw [heq]
    exact ⟨congrArg Except.error (Except.error.inj h), rfl⟩
  · cases h

/-- A failing write fails in one of these ways. -/
theorem setValue_failure [Power] {after : Engine δ} (h : e.setValue id x = (.error err, after)) :
    WriteFailure e id x err after := by
  have hreject {cause : Error} (h : e.reject cause = (.error err, after)) :
      err = cause ∧ after = e := by
    rcases Prod.mk.inj h with ⟨herr, hafter⟩
    exact ⟨(Except.error.inj herr).symm, hafter.symm⟩
  unfold setValue at h
  split at h
  · next hentry =>
    rcases hreject h with ⟨rfl, rfl⟩
    refine .missing ?_
    rw [Option.eq_none_iff_forall_ne_some]
    intro p hfind
    rcases exists_entry? hfind with ⟨slot, hsome⟩
    rw [hentry] at hsome
    cases hsome
  next slot p hentry =>
  have hfind := find?_of_entry? hentry
  split at h
  · next hinput =>
    rcases hreject h with ⟨rfl, rfl⟩
    exact .notOutput hfind (by simpa using hinput)
  next houtput =>
  rw [Bool.not_eq_true, Bool.not_eq_false'] at houtput
  split at h
  · next hdisabled =>
    rcases hreject h with ⟨rfl, rfl⟩
    exact .disabled hfind houtput (by simpa using hdisabled)
  next henabled =>
  rw [Bool.not_eq_true, Bool.not_eq_false'] at henabled
  split at h
  · next hfit =>
    rcases hreject h with ⟨rfl, rfl⟩
    exact .unfit hfind houtput henabled hfit
  next y hfit =>
  -- from here on the number goes through the transform to the device
  rcases commit_eq_error (congrArg Prod.fst h) with ⟨hwrite, hnext⟩
  rw [h] at hnext
  rcases entry?_eq_some hentry with ⟨-, -, rfl⟩
  rcases write_eq_error hwrite with ⟨hsent, rfl, hport⟩ |
    ⟨z, device, reason, hsent, hdriver, hrefused, rfl, hport⟩
  · have hfailure := WriteFailure.undefined hfind houtput henabled hfit hsent
    rwa [adjust_eq_modify hentry, ← hport, ← hnext] at hfailure
  · have hfailure := WriteFailure.refused hfind houtput henabled hfit hsent hdriver hrefused
    rwa [adjust_eq_modify hentry, hdriver, Option.map_some, ← hport, ← hnext] at hfailure

/-! ## What a failed write leaves -/

/-- The engines differ in the device of a port and in the memories of its write transform at
most. -/
def SameApart (e : Engine δ) (id : String) (after : Engine δ) : Prop :=
  ∃ f : Port δ → Port δ, after = e.adjust id f ∧ ∀ p, ∃ writeTransform driver,
    Expr.Advances p.writeTransform writeTransform ∧ f p = { p with writeTransform, driver }

/-- The write transform of a port, when it has one, has no memories. -/
def SendsStateless (e : Engine δ) (id : String) : Prop :=
  ∀ p transform, e.table.find? id = some p → p.writeTransform = some transform →
    transform.IsStateless

omit [Driver δ] in
theorem SameApart.refl (e : Engine δ) (id : String) : e.SameApart id e :=
  ⟨fun p => p, (adjust_self e id).symm, fun p =>
    ⟨p.writeTransform, p.driver, Expr.Advances.refl _, rfl⟩⟩

theorem WriteFailure.sameApart [Power] {after : Engine δ} (h : WriteFailure e id x err after) :
    e.SameApart id after := by
  cases h with
  | missing | notOutput | disabled | unfit => exact SameApart.refl e id
  | undefined => exact ⟨_, rfl, fun p => ⟨_, p.driver, p.outgoing_advances _ _, rfl⟩⟩
  | refused => exact ⟨_, rfl, fun p => ⟨_, _, p.outgoing_advances _ _, rfl⟩⟩

omit [Driver δ] in
/-- A transform without memories is after a write what it was before. -/
theorem outgoing_of_stateless [Power] {now : Now}
    (h : ∀ transform, p.writeTransform = some transform → transform.IsStateless) :
    (p.outgoing y now).2 = p.writeTransform := by
  unfold Port.outgoing
  cases htransform : p.writeTransform with
  | none => rfl
  | some transform => exact congrArg some (Expr.eval_stateless (h transform htransform) _)

omit [Driver δ] in
/-- A change is told by what it makes of the port that is found. -/
theorem adjust_congr {f g : Port δ → Port δ} (hfind : e.table.find? id = some p)
    (h : f p = g p) : e.adjust id f = e.adjust id g := by
  rcases exists_entry? hfind with ⟨slot, hentry⟩
  rw [adjust_eq_modify hentry, adjust_eq_modify hentry, h]

/-- Without memories behind the write, a failure is as if the world had acted on the device. -/
theorem WriteFailure.adjustDriver [Power] {after : Engine δ} (h : WriteFailure e id x err after)
    (hstateless : e.SendsStateless id) : ∃ f, after = e.adjustDriver id f := by
  have hnothing : e.adjustDriver id (fun device => device) = e := by
    rw [adjustDriver_eq]
    simp only [Option.map_id']
    exact adjust_self e id
  cases h with
  | missing | notOutput | disabled | unfit => exact ⟨_, hnothing.symm⟩
  | @undefined p y hfind _ _ _ _ =>
    refine ⟨fun device => device, ?_⟩
    rw [hnothing]
    refine (adjust_congr hfind ?_).trans (adjust_self e id)
    rw [outgoing_of_stateless fun transform => hstateless p transform hfind]
  | @refused p y z device reason hfind _ _ _ _ _ _ =>
    refine ⟨fun device => (Driver.write device z).2, ?_⟩
    rw [adjustDriver_eq]
    refine adjust_congr hfind ?_
    rw [outgoing_of_stateless fun transform => hstateless p transform hfind]

/-- A failed write leaves everything as it was, apart from the device and the memories of the write
transform, and these only when it got as far as that. Without such memories every later run is one
in which the world acted on the device instead. -/
theorem failed_write [Power] {after : Engine δ} (h : e.setValue id x = (.error err, after)) :
    WriteFailure e id x err after ∧ e.SameApart id after ∧
      (e.SendsStateless id →
        ∃ f, ∀ operations, after.run operations = e.run (.adjustDriver id f :: operations)) := by
  have hfailure := setValue_failure h
  refine ⟨hfailure, hfailure.sameApart, ?_⟩
  intro hstateless
  rcases hfailure.adjustDriver hstateless with ⟨f, rfl⟩
  exact ⟨f, fun _ => rfl⟩

/-- A device that refuses everything until it is repaired. -/
def brokenDevice : Simulated :=
  .sensor ⟨⟨none, true, []⟩, none⟩

/-- A device is broken behind a write transform. -/
def sending [Power] (transform : String) : Engine Simulated :=
  (start EngineConfig.initial).run [
    .addPort { PortConfig.outputOf "a" .number with writeTransform := transform }
      (some brokenDevice)]

attribute [local instance] Power.rounded

/-- The transform scales, so nothing remembers the write that the device refused. -/
theorem failed_write_of_scaling :
    let e := sending "MUL($, 10)"
    e.SendsStateless "a" ∧ ∃ after, e.setValue "a" 5 =
        (.error (.driver "rejected by the device"), after) ∧
      ∃ f, ∀ operations, after.run operations = e.run (.adjustDriver "a" f :: operations) := by
  intro e
  have herr : (e.setValue "a" 5).1 = .error (.driver "rejected by the device") := by
    decide +kernel
  have hport : (e.table.find? "a").any (fun p => p.writeTransform.all fun transform =>
      decide transform.IsStateless) = true := by
    decide +kernel
  have hstateless : e.SendsStateless "a" := by
    intro p transform hfind htransform
    rw [hfind, Option.any_some, htransform, Option.all_some] at hport
    exact of_decide_eq_true hport
  have hwrite : e.setValue "a" 5 =
      (.error (.driver "rejected by the device"), (e.setValue "a" 5).2) := Prod.ext herr rfl
  exact ⟨hstateless, _, hwrite, (failed_write hwrite).2.2 hstateless⟩

omit [Driver δ] in
theorem adjustDriver_writeTransform (e : Engine δ) (id : String) (f : δ → δ) (slot : Nat) :
    ((e.adjustDriver id f).table.get? slot).map Port.writeTransform =
      (e.table.get? slot).map Port.writeTransform := by
  unfold Engine.adjustDriver
  split
  · rfl
  · next adjusted _ =>
    show Option.map _
      ((e.table.modify adjusted fun p => { p with driver := p.driver.map f }).get? slot) = _
    rw [get?_modify]
    split
    · exact Option.map_map ..
    · rfl

/-- The transform adds up the changes of what is written, and the number that the device refuses
counts as written: the memory after it is not the one before. -/
theorem failed_write_remembered :
    ¬∀ (e after : Engine Simulated) (id : String) (x : Number) (err : Error), e.Reachable →
      e.setValue id x = (.error err, after) → ∃ f, after = e.adjustDriver id f := by
  intro h
  let e := sending "ACC($, 0)"
  have hreachable : e.Reachable := (reachable_start _).run _
  have hwrite : e.setValue "a" 5 =
      (.error (.driver "rejected by the device"), (e.setValue "a" 5).2) :=
    Prod.ext (by decide +kernel) rfl
  rcases h e _ "a" 5 _ hreachable hwrite with ⟨f, hafter⟩
  -- the world acts on the device and not on the transform
  have hkept := adjustDriver_writeTransform e "a" f 0
  rw [← hafter] at hkept
  have hbefore : ((e.table.get? 0).map Port.writeTransform).all
      (fun transform => transform.all fun tree => tree == tree.reset) = true := by
    decide +kernel
  have hnot : (((e.setValue "a" 5).2.table.get? 0).map Port.writeTransform).all
      (fun transform => transform.all fun tree => tree == tree.reset) = false := by
    decide +kernel
  rw [hkept, hbefore] at hnot
  cases hnot

end Engine

end PortLogic
