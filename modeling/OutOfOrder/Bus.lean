import OutOfOrder.FunctionalUnit

/-!
# The result bus

All units share one bus, which carries one result at a time. A result that is on the bus is never
overwritten; another one is refused until it has been taken. When several units have finished, an
arbiter decides which of them gets the bus, by one of three policies.

## Main definitions

* `Broadcast`, `Bus` — a result on the bus, and the bus
* `Policy`, `Request`, `Arbiter.grant` — who gets the bus
-/

namespace OutOfOrder

/-- A result on the bus. -/
structure Broadcast where
  /-- The value for the destination register. -/
  result : Word
  /-- The place of the instruction in the reorder buffer, for which waiting operands look. -/
  tag : Tag
  /-- The reservation station of the instruction. -/
  slot : Slot
  /-- Where control goes, for control-flow instructions. -/
  redirect : Option Word := none
deriving DecidableEq, Repr

/-- What the bus carries of a completion: everything but the serial number. -/
def Completion.broadcast (c : Completion) : Broadcast :=
  { result := c.result, tag := c.tag, slot := c.slot, redirect := c.redirect }

/-- The result bus. -/
structure Bus where
  /-- What is on the bus. -/
  current : Option Broadcast := none
deriving DecidableEq, Repr

namespace Bus

/-- A bus with nothing on it. -/
def empty : Bus := {}

/-- Is there nothing on the bus? -/
def isEmpty (b : Bus) : Bool := b.current.isNone

/-- What is on the bus. -/
def peek? (b : Bus) : Option Broadcast := b.current

/-- Put a result on the bus, unless there is one already. -/
def publish? (b : Bus) (r : Broadcast) : Option Bus :=
  match b.current with
  | some _ => none
  | none => some { current := some r }

/-- Take the result off the bus. -/
def take? (b : Bus) : Option (Broadcast × Bus) := b.current.map fun r => (r, empty)

end Bus

/-! ### Arbitration -/

/-- Which of several finished units gets the bus. -/
inductive Policy where
  /-- The first in the order of `UnitKind.all`. -/
  | fixedPriority
  /-- The first in cyclic order after the unit that had the bus last. -/
  | roundRobin
  /-- The one with the oldest instruction. -/
  | oldestFirst
deriving DecidableEq, Repr

/-- Every policy. -/
def Policy.all : List Policy := [fixedPriority, roundRobin, oldestFirst]

/-- The name of a policy in texts. -/
def Policy.name : Policy → String
  | fixedPriority => "FixedPriority"
  | roundRobin => "RoundRobin"
  | oldestFirst => "OldestFirst"

/-- The policy of a given name. -/
def Policy.ofName? (name : String) : Option Policy := all.find? fun p => p.name == name

/-- A finished unit that asks for the bus. -/
structure Request where
  unit : UnitKind
  /-- The serial number of the instruction it has finished. -/
  uuid : Nat
deriving DecidableEq, Repr

/-- The first of the requests with the lowest serial number. -/
def Request.oldest? : List Request → Option Request
  | [] => none
  | r :: rs =>
    match oldest? rs with
    | none => some r
    | some s => if s.uuid < r.uuid then some s else some r

/-- Who decides about the bus. -/
structure Arbiter where
  policy : Policy
  /-- The unit that has precedence under the cyclic policy. -/
  first : UnitKind := .alu
deriving DecidableEq, Repr

namespace Arbiter

/-- An arbiter that has granted nothing yet. -/
def new (policy : Policy) : Arbiter := { policy }

/-- The order in which a unit is looked for under the cyclic policy. -/
def order (a : Arbiter) : List UnitKind := UnitKind.cycle a.first

/-- The unit that gets the bus. -/
def winner? (a : Arbiter) (requests : List Request) : Option UnitKind :=
  match a.policy with
  | .fixedPriority => UnitKind.all.find? fun k => requests.any fun r => r.unit == k
  | .roundRobin => a.order.find? fun k => requests.any fun r => r.unit == k
  | .oldestFirst => (Request.oldest? requests).map Request.unit

/-- Grant the bus to one of the requests, and remember whom to ask first next time. -/
def grant (a : Arbiter) (requests : List Request) : Option (UnitKind × Arbiter) :=
  (a.winner? requests).map fun k =>
    match a.policy with
    | .roundRobin => (k, { a with first := k.next })
    | _ => (k, a)

end Arbiter

end OutOfOrder
