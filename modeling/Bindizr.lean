import Bindizr.Text
import Bindizr.Fallible
import Bindizr.Journal
import Bindizr.Name
import Bindizr.Ip
import Bindizr.Rfc1035
import Bindizr.Crates
import Bindizr.RecordValue
import Bindizr.Model
import Bindizr.Authorization
import Bindizr.Validation
import Bindizr.RecordService
import Bindizr.Import
import Bindizr.DynamicUpdate
import Bindizr.ExternalDns
import Bindizr.ZoneService
import Bindizr.History
import Bindizr.Operations
import Bindizr.WellFormed
import Bindizr.Commit
import Bindizr.RecordCommits
import Bindizr.UpdateCommits
import Bindizr.ZoneCommits
import Bindizr.Reachable
import Bindizr.ZoneInvariants
import Bindizr.Reconstruction
import Bindizr.Rollback
import Bindizr.Scope
import Bindizr.Reads
import Bindizr.Probing
import Bindizr.ChangeSets
import Bindizr.ImportModes
import Bindizr.Wire
import Bindizr.NsUpdate
import Bindizr.Origins
import Bindizr.RowLimits
import Bindizr.StoredTxt
import Bindizr.Encoding
import Bindizr.WireRecords
import Bindizr.Values
import Bindizr.Spelling
import Bindizr.Prerequisites
import Bindizr.Deletions
import Bindizr.OwnerForms
import Bindizr.KeyNames
import Bindizr.Patterns
import Bindizr.TxtForms
import Bindizr.TxtIndexing
import Bindizr.Framing
import Bindizr.Catalog
import Bindizr.CatalogSerial
import Bindizr.Transfer
import Bindizr.Mailbox
import Bindizr.Columns
import Bindizr.Resolution
import Bindizr.Listing
import Bindizr.Adjusting
import Bindizr.Grouping
import Bindizr.Diffs
import Bindizr.Bulk
import Bindizr.Preview
import Bindizr.WriteBack
import Bindizr.Messages
import Bindizr.UpdateGrammar
import Bindizr.NameReuse
import Bindizr.MasterFile
import Bindizr.ForeignOwners
import Bindizr.Interleaving
import Bindizr.Rfc1995
import Bindizr.LogOrder
import Bindizr.IxfrEquivalence
import Bindizr.SoaFields
import Bindizr.ExportText
import Bindizr.ExportImport
import Bindizr.Concurrent
import Bindizr.Tables
import Bindizr.Policies
import Bindizr.Registry
import Bindizr.Credentials
import Bindizr.UpdateServer
import Bindizr.Serving
import Bindizr.Authority
