import PortLogic.Port

/-!
# PortLogic.Table — the table of ports

A port keeps its slot for as long as it is registered. A new port takes the lowest free slot, and
the table never ends in a free slot.
-/

namespace PortLogic

/-- The slots, each free or with a port. -/
structure Table (δ : Type) where
  slots : List (Option (Port δ))

namespace Table

variable {δ : Type}

/-- A table without ports. -/
def empty : Table δ := ⟨[]⟩

/-- The port in a slot. -/
def get? (t : Table δ) (slot : Nat) : Option (Port δ) :=
  t.slots[slot]?.join

/-- The slot of a port. -/
def slotOf? (t : Table δ) (id : String) : Option Nat :=
  t.slots.findIdx? fun entry => entry.any fun p => p.id = id

/-- The port with an identifier. -/
def find? (t : Table δ) (id : String) : Option (Port δ) :=
  (t.slotOf? id).bind t.get?

/-- The ports in slot order. -/
def ports (t : Table δ) : List (Port δ) :=
  t.slots.filterMap id

/-- The ports in slot order, with their slots. -/
def entries (t : Table δ) : List (Nat × Port δ) :=
  t.slots.zipIdx.filterMap fun (entry, slot) => entry.map (slot, ·)

/-- The lowest free slot, when fewer than the most ports are registered. -/
def freeSlot? (t : Table δ) : Option Nat :=
  match t.slots.findIdx? Option.isNone with
  | some slot => some slot
  | none => if t.slots.length < Triggers.maxPorts then some t.slots.length else none

/-- Puts a port into a slot. -/
def insert (t : Table δ) (slot : Nat) (p : Port δ) : Table δ :=
  if slot < t.slots.length then ⟨t.slots.set slot (some p)⟩
  else ⟨t.slots ++ List.replicate (slot - t.slots.length) none ++ [some p]⟩

/-- Frees a slot. -/
def free (t : Table δ) (slot : Nat) : Table δ :=
  ⟨((t.slots.set slot none).reverse.dropWhile Option.isNone).reverse⟩

/-- Changes every port. -/
def map (t : Table δ) (f : Port δ → Port δ) : Table δ :=
  ⟨t.slots.map (Option.map f)⟩

/-- Changes the port in a slot. -/
def modify (t : Table δ) (slot : Nat) (f : Port δ → Port δ) : Table δ :=
  ⟨t.slots.modify slot (Option.map f)⟩

/-- The values that references read: those of enabled ports. -/
def source (t : Table δ) : Source :=
  fun id => (t.find? id).bind fun p => if p.enabled then p.lastRead else none

/-- Computes again what triggers each live expression. -/
def refreshTriggers (t : Table δ) : Table δ :=
  t.map fun p =>
    { p with triggers := (p.live.map (Expr.triggers t.slotOf?)).getD Triggers.none }

/-- The slots that are triggered when a slot is: the slot itself and those of the expressions that
it triggers. -/
def triggeredBy (t : Table δ) (slot : Nat) : Triggers :=
  Triggers.only slot ∪ Triggers.unionAll (t.entries.map fun (other, p) =>
    Triggers.when (p.triggers.contains slot) (Triggers.only other))

end Table

end PortLogic
