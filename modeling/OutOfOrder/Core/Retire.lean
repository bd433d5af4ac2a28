import OutOfOrder.Core.Publish

/-!
# Retirement

At most one instruction retires in a cycle: the oldest one, if its result has arrived. Only now does
its destination register change. If it is still the youngest writer of that register, the alias
table forgets it; a younger writer keeps its place. The machine halts when an instruction that ends
the program retires.
-/

namespace OutOfOrder

namespace Core

/-- The core once an instruction with the given tag and result has left the reorder buffer. -/
def committing (c : Core) (tag : Tag) (e : Entry) : Core :=
  let counted :=
    { c with retired := c.retired + 1, halted := c.halted || e.instruction.isExit }
  match e.instruction.dest with
  | some r =>
    { counted with
      registers := c.registers.write r e.result
      aliases := c.aliases.release r tag }
  | none => counted

/-- Retire the oldest instruction, if its result has arrived. -/
def retire (c : Core) : Step :=
  match c.window.commit? with
  | none => c.quiet
  | some (tag, e, window) =>
    let after := { c with window }.committing tag e
    { core := after
      events :=
        .commit tag e ::
          if e.instruction.isExit then [.halt c.cycle after.retired e.instruction.pc] else [] }

end Core

end OutOfOrder
