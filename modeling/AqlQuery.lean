import AqlQuery.Query.Step
import AqlQuery.Query.Serial
import AqlQuery.Connection
import AqlQuery.Exec.Playback
import AqlQuery.Cursor.Client
import AqlQuery.Proofs.Binding.Simulation
import AqlQuery.Proofs.Binding.Coverage
import AqlQuery.Proofs.Filter.Meaning
import AqlQuery.Proofs.Binding.Noninterference
import AqlQuery.Proofs.Aql.Clauses
import AqlQuery.Proofs.Binding.Isolation
import AqlQuery.Proofs.Statement.Failure
import AqlQuery.Proofs.Binding.Density
import AqlQuery.Proofs.Statement.Preview
import AqlQuery.Proofs.Filter.Key
import AqlQuery.Proofs.Binding.Groups
import AqlQuery.Proofs.Cursor.Batches
import AqlQuery.Proofs.Connection.Handover
import AqlQuery.Proofs.Aql.Layout
import AqlQuery.Proofs.Column.Names
import AqlQuery.Proofs.Aql.Variables
import AqlQuery.Proofs.Aql.Grouping
import AqlQuery.Proofs.Statement.Joining
import AqlQuery.Proofs.Query.Aspects
import AqlQuery.Proofs.Query.Reload
import AqlQuery.Proofs.Binding.Renumbering
import AqlQuery.Proofs.Query.NormalForm
import AqlQuery.Proofs.Aql.Documents
import AqlQuery.Proofs.Binding.Rows
import AqlQuery.Proofs.Statement.Inserting
import AqlQuery.Proofs.Text.Words
import AqlQuery.Proofs.Column.Label
import AqlQuery.Proofs.Column.Quoting
import AqlQuery.Proofs.Column.Addressing
import AqlQuery.Proofs.Statement.Updating
import AqlQuery.Proofs.Filter.Ranges
import AqlQuery.Proofs.Filter.Nulls
import AqlQuery.Proofs.Column.Wrapping
import AqlQuery.Proofs.Statement.Source
import AqlQuery.Proofs.Aql.Aggregates
import AqlQuery.Proofs.Binding.Freshness
import AqlQuery.Proofs.Cursor.Waits
import AqlQuery.Proofs.Statement.Paging
import AqlQuery.Proofs.Statement.Spelling
