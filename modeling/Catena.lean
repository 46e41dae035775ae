import Catena.CommandLine.Program
import Catena.Log.Config
import Catena.Main
import Catena.Proofs.Layout.Compiled
import Catena.Proofs.Breakpoint
import Catena.Proofs.Confinement
import Catena.Proofs.Dispatch
import Catena.Proofs.Hygiene
import Catena.Proofs.Privilege
import Catena.Proofs.Resume
import Catena.Session
import Catena.Proofs.Types.Subtype
import Catena.Proofs.Types.Instance
import Catena.Proofs.Types.Preorder
import Catena.Proofs.Types.Naming
import Catena.Proofs.Types.Templates
import Catena.Proofs.Types.Join
import Catena.Proofs.Collections
import Catena.Proofs.Window
import Catena.Proofs.Coroutines
import Catena.Proofs.Fibers.Joins
import Catena.Proofs.Compiling.Noted
import Catena.Proofs.Compiling.Failed
import Catena.Proofs.Logging
import Catena.Proofs.Exits
import Catena.Proofs.Control.Units
import Catena.Proofs.Control.Ways
import Catena.Proofs.Control.Keeps
import Catena.Proofs.Control.Borders
import Catena.Proofs.Control.Exec
import Catena.Proofs.Control.Rounds
import Catena.Proofs.Control.Runs
import Catena.Proofs.Control.Histories
import Catena.Proofs.Control.Between
import Catena.Proofs.Control.Bottom
import Catena.Proofs.Balance
import Catena.Proofs.Frame
import Catena.Proofs.Unwinding
import Catena.Proofs.Resumed
import Catena.Proofs.Deferred
import Catena.Proofs.Applicable
import Catena.Proofs.Conversion
import Catena.Proofs.Captures
import Catena.Proofs.Folding
import Catena.Proofs.Yielding
import Catena.Proofs.Values.Nesting
import Catena.Proofs.Values.Equality
import Catena.Proofs.Values.Rational
import Catena.Proofs.Values.Order
import Catena.Proofs.Values.Content
import Catena.Proofs.Values.Tables
import Catena.Proofs.Iterators.Drained
import Catena.Proofs.Compiling.Rounds
import Catena.Proofs.Iterators.Polling
import Catena.Proofs.Readback
import Catena.Proofs.Types.Grammar
import Catena.Proofs.Literals.Numbers
