/-
Natives, the functions that the host provides. The library does not fix
what they do. A native is given what can be seen of its arguments, and
says step by step what it does: it looks at the clock, prints a line, has
something called, and in the end gives a value back. It chooses each step
knowing what it has seen so far.

A native touches no scope. The values that it has in hand, its arguments
and what its calls have come to, it can only hand on; whatever happens to
the store while it runs is done by the functions that it has called.

What a clock will show is up to the host as well.
-/
namespace Lox

/-- A value that cannot be called. -/
inductive Plain where
  | nil
  | bool (b : Bool)
  | number (x : Float)
  | string (s : String)

/-- What a native sees of a value: all of it, unless it can be called.
Of one that can, it sees how it is shown and how many arguments it takes,
and it can tell it from others. -/
inductive Sight where
  | plain (p : Plain)
  | callable (stamp : Nat) (shown : String) (arity : Nat)

/-- A value that a native hands on: one of its own, or one of those that
it has in hand, which are numbered. -/
inductive Handed where
  | own (p : Plain)
  | held (place : Nat)

/-- What a native is about to do. -/
inductive Deed where
  /-- Gives the value back. -/
  | give (v : Handed)
  /-- Looks at the clock. -/
  | look (next : Float → Deed)
  | print (line : String) (next : Deed)
  /-- Has a value called, and takes what the call comes to in hand. -/
  | call (f : Handed) (args : List Handed) (next : Sight → Deed)

/-- What a native does with the arguments that it sees. -/
structure NativeAction where
  deed : List Sight → Deed

namespace NativeAction

/-- Gives back the time. -/
def clock : NativeAction :=
  ⟨fun _ => .look fun now => .give (.own (.number now))⟩

/-- Gives back the last argument, or nil if there is none. -/
def last : NativeAction :=
  ⟨fun args => .give (.held (args.length - 1))⟩

/-- Calls the first argument with the others. -/
def apply : NativeAction :=
  ⟨fun args => .call (.held 0)
    ((List.range (args.length - 1)).map fun place => .held (place + 1))
    fun _ => .give (.held args.length)⟩

end NativeAction

-- ================================================================ the clock

/-- A clock, by what it shows at each look from now on. -/
structure Clock where
  reading : Nat → Float

namespace Clock

/-- What the clock shows now. -/
def now (c : Clock) : Float := c.reading 0

/-- The clock after a look. -/
def later (c : Clock) : Clock := ⟨fun looks => c.reading (looks + 1)⟩

/-- The clock that starts at a time, in seconds, and moves on by a
microsecond with every look. -/
def ticking (start : Float) : Clock :=
  ⟨fun looks => start + 0.000001 * looks.toFloat⟩

/-- A time stands for the clock that starts there. -/
instance : Coe Float Clock := ⟨ticking⟩

instance (n : Nat) : OfNat Clock n := ⟨ticking (.ofNat n)⟩

end Clock

end Lox
