import SqlTree.Schema.Catalog
import SqlTree.Query.Association
import SqlTree.Query.Key
import SqlTree.Statement.Compile
import SqlTree.Region.OfQuery
import SqlTree.Proofs.Row.Layout
import SqlTree.Proofs.Statement.Naming
import SqlTree.Proofs.Expr.Owners
import SqlTree.Proofs.Statement.Level
import SqlTree.Proofs.Alias.Fresh
import SqlTree.Proofs.Query.Qualified
import SqlTree.Proofs.Statement.ColumnNames
import SqlTree.Proofs.Row.StarWidths
import SqlTree.Proofs.Expr.Params
import SqlTree.Proofs.Query.Gathered
import SqlTree.Proofs.Statement.JoinGroups
import SqlTree.Proofs.Expr.Reading
import SqlTree.Proofs.Expr.RoundTrip
import SqlTree.Proofs.Engine.Eval
import SqlTree.Proofs.Engine.Alike
import SqlTree.Proofs.Region.Contains
import SqlTree.Proofs.Region.RowIds
import SqlTree.Proofs.Region.Lattice
import SqlTree.Proofs.Region.Given
import SqlTree.Proofs.Region.Narrowed
import SqlTree.Proofs.Region.Monotone
import SqlTree.Proofs.Region.Sound
import SqlTree.Proofs.Engine.Select
import SqlTree.Proofs.Query.Relabel
import SqlTree.Proofs.Alias.Skip
import SqlTree.Proofs.Query.Skip
import SqlTree.Proofs.Statement.Rename
import SqlTree.Proofs.Engine.Rename
import SqlTree.Proofs.Statement.NewNames
import SqlTree.Proofs.Statement.OccurrenceNames
import SqlTree.Proofs.Query.Count
import SqlTree.Proofs.Engine.Count
import SqlTree.Proofs.Statement.Count
import SqlTree.Proofs.Expr.Written
import SqlTree.Proofs.Query.Levels
import SqlTree.Proofs.Query.Spawned
import SqlTree.Proofs.Statement.SourceNames
import SqlTree.Proofs.Statement.Mentions
import SqlTree.Proofs.Statement.Scoping
import SqlTree.Proofs.Query.Unnamed
import SqlTree.Proofs.Query.MergedLinks
import SqlTree.Proofs.Statement.Obstacles
import SqlTree.Proofs.Expr.Prefixed
import SqlTree.Proofs.Query.Completed
import SqlTree.Proofs.Statement.Completed
import SqlTree.Proofs.Query.LateMerge
import SqlTree.Proofs.Query.Derivation
import SqlTree.Proofs.Statement.Derived
import SqlTree.Proofs.Alias.Entry
import SqlTree.Proofs.Alias.Agree
import SqlTree.Proofs.Alias.Pairs
import SqlTree.Proofs.Query.Meeting
import SqlTree.Proofs.Query.FailedMerge
import SqlTree.Proofs.Query.Over
import SqlTree.Proofs.Query.Places
import SqlTree.Proofs.Query.PlacedPairs
import SqlTree.Proofs.Query.Regrouped
import SqlTree.Proofs.Statement.MergedOrder
import SqlTree.Proofs.Statement.Agree
import SqlTree.Proofs.Statement.Untouched
import SqlTree.Proofs.Statement.Flat
import SqlTree.Proofs.Statement.MergeAssoc
import SqlTree.Proofs.Alias.Operations
import SqlTree.Proofs.Row.LateStars
import SqlTree.Proofs.Region.Agree
import SqlTree.Proofs.Statement.Repeatable
import SqlTree.Proofs.Sql.Lexemes
import SqlTree.Proofs.Alias.Linked
import SqlTree.Proofs.Query.Exchanged
import SqlTree.Proofs.Statement.Directions
import SqlTree.Proofs.Region.PrimaryKey
import SqlTree.Proofs.Schema.KeyLink
import SqlTree.Proofs.Query.UniqueKey
import SqlTree.Proofs.Statement.Clauses
import SqlTree.Proofs.Statement.Deletion
import SqlTree.Proofs.Expr.References
import SqlTree.Proofs.Statement.Written
import SqlTree.Proofs.Statement.WrittenNames
