/-!
# Reading modes

Two switches change how literals are read: strict conformance turns extensions off, and backslash
escapes turn C-like escapes on.  Both are off by default.
-/

namespace FortranTokens

/-- The switches that change how literals are read. -/
structure Options where
  /-- Only the standard forms of literals are accepted. -/
  strict : Bool := false
  /-- A backslash introduces an escape in a quoted literal. -/
  escapes : Bool := false
  deriving DecidableEq, Repr

/-- The name of a switch. -/
inductive Options.Flag where
  | strict
  | escapes
  deriving DecidableEq, Repr

namespace Options

/-- Sets one switch and leaves the other. -/
def set (o : Options) (flag : Flag) (on : Bool) : Options :=
  match flag with
  | .strict => { o with strict := on }
  | .escapes => { o with escapes := on }

/-- The switches as one number: strict conformance counts one, backslash escapes two. -/
def bits (o : Options) : Nat := o.strict.toNat + 2 * o.escapes.toNat

end Options

end FortranTokens
