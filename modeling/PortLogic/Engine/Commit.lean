import PortLogic.Engine

/-!
# PortLogic.Engine.Commit — the one way an output changes its value

The write transform is applied, the driver is written, and then the value is committed and
announced. A transform without a value and a driver that refuses both stop the commit.
-/

namespace PortLogic

namespace Port

variable {δ : Type} [Driver δ] [Power]

/-- What the write transform makes of a value, and the transform with its memories advanced. -/
def outgoing (p : Port δ) (x : Number) (now : Now) : Value × Option Expr :=
  match p.writeTransform with
  | none => (some x, none)
  | some transform =>
    let outcome := transform.eval ⟨Source.own p.id x, now⟩
    (outcome.value, some outcome.next)

/-- Writes a value to the driver, when there is one. -/
def drive (p : Port δ) (x : Number) : Except Error Unit × Port δ :=
  match p.driver with
  | none => (.ok (), p)
  | some driver =>
    let (result, next) := Driver.write driver x
    (result.mapError Error.driver, { p with driver := some next })

/-- Sends a value through the write transform to the driver. -/
def write (p : Port δ) (x : Number) (now : Now) : Except Error Unit × Port δ :=
  let (written, transform) := p.outgoing x now
  let p := { p with writeTransform := transform }
  match written with
  | none => (.error (.undefinedWrite p.id x), p)
  | some y => p.drive y

/-- The port with a value that has been written. -/
def committed (p : Port δ) (x : Number) (reason : ChangeReason) : Port δ :=
  { p with value := some x, lastRead := some x, reason, dirty := p.dirty || p.persisted }

end Port

namespace Engine

variable {δ : Type} [Driver δ] [Power]

/-- Writes and commits a value of the port in a slot. -/
def commit (e : Engine δ) (slot : Nat) (p : Port δ) (x : Number) (reason : ChangeReason) :
    Except Error Unit × Engine δ :=
  match p.write x e.now with
  | (.error err, next) => (.error err, e.modify slot fun _ => next)
  | (.ok (), next) =>
    (.ok (), (e.modify slot fun _ => next.committed x reason).notify (.valueChange p.id (some x)))

end Engine

end PortLogic
