import PlZero.Location
import PlZero.Fault
import PlZero.ScopeTable.Basic
import PlZero.Operator
import PlZero.Expr
import PlZero.ScopeTable.Lookup
import PlZero.Assignment
import PlZero.Tree.Kind
import PlZero.Tree.Basic
import PlZero.Tree.Render
import PlZero.Tree.Slot
import PlZero.Tree.Path
import PlZero.Tree.Traversal
import PlZero.Tree.Tally
import PlZero.Tree.Writes
import PlZero.Resolver
import PlZero.Sample
import PlZero.CommandLine.Arguments
import PlZero.CommandLine.Run
import PlZero.Main
import PlZero.Proofs.Identifier
import PlZero.Proofs.ScopeTable.Run
import PlZero.Proofs.ScopeTable.WellFormed
import PlZero.Proofs.ScopeTable.Search
import PlZero.Proofs.ScopeTable.Log
import PlZero.Proofs.ScopeTable.Stability
import PlZero.Proofs.Expr.Fold
import PlZero.Proofs.Expr.Normal
import PlZero.Proofs.Expr.Leaves
import PlZero.Proofs.Expr.Substitute
import PlZero.Proofs.Tree.Site
import PlZero.Proofs.Tree.Path
import PlZero.Proofs.Tree.Sweep
import PlZero.Proofs.Tree.Arrival
import PlZero.Proofs.Tree.Fold
import PlZero.Proofs.Tree.Visit
import PlZero.Proofs.Tree.Render
import PlZero.Proofs.Tree.Room
import PlZero.Proofs.Resolver.Names
import PlZero.Proofs.Resolver.Sweep
import PlZero.Proofs.Resolver.Fold
import PlZero.Proofs.Resolver.Specification
import PlZero.Proofs.Resolver.Failure
import PlZero.Proofs.Resolver.Reuse
import PlZero.Proofs.Resolver.Lexical
import PlZero.Proofs.Resolver.Bindings
import PlZero.Proofs.Resolver.Idempotent
import PlZero.Proofs.Resolver.Meaning
import PlZero.Proofs.Frame
import PlZero.Proofs.Location
import PlZero.Proofs.ScopeTable.Atomic
import PlZero.Proofs.Tree.FoldCount
import PlZero.Proofs.Tree.Inventory
import PlZero.Proofs.Resolver.Accounting
import PlZero.Proofs.ScopeTable.Distance
import PlZero.Proofs.Tree.Tally
import PlZero.Proofs.Resolver.Rebinding
import PlZero.Proofs.Expr.Reading
import PlZero.Proofs.Operator
import PlZero.Proofs.Assignment
import PlZero.Proofs.Tree.Wording
import PlZero.Proofs.Resolver.Rendering
