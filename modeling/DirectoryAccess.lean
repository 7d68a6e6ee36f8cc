import DirectoryAccess.Aci.Decision
import DirectoryAccess.Aci.Grammar
import DirectoryAccess.Aci.Item
import DirectoryAccess.Aci.MicroOperation
import DirectoryAccess.Aci.Subtree
import DirectoryAccess.Aci.Tuple
import DirectoryAccess.Authorization.AciStage
import DirectoryAccess.Authorization.DefaultStage
import DirectoryAccess.Authorization.Modification
import DirectoryAccess.Authorization.Tuples
import DirectoryAccess.Cache.Group
import DirectoryAccess.Cache.Tuple
import DirectoryAccess.Chain.Basic
import DirectoryAccess.Chain.World
import DirectoryAccess.Configuration.Basic
import DirectoryAccess.Configuration.Document
import DirectoryAccess.Configuration.Settings
import DirectoryAccess.Entry.Attributes
import DirectoryAccess.Entry.Basic
import DirectoryAccess.Entry.Ldif
import DirectoryAccess.Error.Basic
import DirectoryAccess.Error.ResultCode
import DirectoryAccess.Filter
import DirectoryAccess.Grammar
import DirectoryAccess.Identity
import DirectoryAccess.Log
import DirectoryAccess.Modification.Basic
import DirectoryAccess.Modification.Json
import DirectoryAccess.Name.Dn
import DirectoryAccess.Name.Rdn
import DirectoryAccess.Operation
import DirectoryAccess.Ordered.Map
import DirectoryAccess.Ordered.Set
import DirectoryAccess.Proofs.Aci.Anchoring
import DirectoryAccess.Proofs.Aci.Components
import DirectoryAccess.Proofs.Aci.Decision
import DirectoryAccess.Proofs.Aci.Expressible
import DirectoryAccess.Proofs.Aci.Meaning
import DirectoryAccess.Proofs.Aci.RoundTrip
import DirectoryAccess.Proofs.Aci.Spelling
import DirectoryAccess.Proofs.Aci.Writing
import DirectoryAccess.Proofs.Authorization.Bypass
import DirectoryAccess.Proofs.Authorization.CriticalEntries
import DirectoryAccess.Proofs.Authorization.Discretion
import DirectoryAccess.Proofs.Authorization.Level
import DirectoryAccess.Proofs.Authorization.Limits
import DirectoryAccess.Proofs.Authorization.Modification
import DirectoryAccess.Proofs.Authorization.NothingGranted
import DirectoryAccess.Proofs.Authorization.ProtectedAreas
import DirectoryAccess.Proofs.Authorization.Secrecy
import DirectoryAccess.Proofs.Cache.Agreement
import DirectoryAccess.Proofs.Cache.BlankMembers
import DirectoryAccess.Proofs.Cache.Group
import DirectoryAccess.Proofs.Cache.Loading
import DirectoryAccess.Proofs.Cache.Mirror
import DirectoryAccess.Proofs.Cache.Tuple
import DirectoryAccess.Proofs.Entry.Alike
import DirectoryAccess.Proofs.Entry.Attributes
import DirectoryAccess.Proofs.Entry.Folding
import DirectoryAccess.Proofs.Entry.Lookup
import DirectoryAccess.Proofs.Entry.Rules
import DirectoryAccess.Proofs.Error.Display
import DirectoryAccess.Proofs.Grammar.Taking
import DirectoryAccess.Proofs.Name.Carry
import DirectoryAccess.Proofs.Name.CaseBlind
import DirectoryAccess.Proofs.Name.Display
import DirectoryAccess.Proofs.Name.Hierarchy
import DirectoryAccess.Proofs.Name.Key
import DirectoryAccess.Proofs.Name.Normalized
import DirectoryAccess.Proofs.Name.Rebasing
import DirectoryAccess.Proofs.Name.Rekeying
import DirectoryAccess.Proofs.Ordered.Map
import DirectoryAccess.Proofs.Ordered.Set
import DirectoryAccess.Proofs.Server.AnonymousStanding
import DirectoryAccess.Proofs.Server.Confinement
import DirectoryAccess.Proofs.Server.Destination
import DirectoryAccess.Proofs.Server.Escalation
import DirectoryAccess.Proofs.Server.FailClosed
import DirectoryAccess.Proofs.Server.GroupCoherence
import DirectoryAccess.Proofs.Server.GroupTracking
import DirectoryAccess.Proofs.Server.Hiding
import DirectoryAccess.Proofs.Server.Limits
import DirectoryAccess.Proofs.Server.Membership
import DirectoryAccess.Proofs.Server.PolicyCoherence
import DirectoryAccess.Proofs.Server.PolicyReflection
import DirectoryAccess.Proofs.Server.Reachable
import DirectoryAccess.Proofs.Server.ReadPaths
import DirectoryAccess.Proofs.Server.Reading
import DirectoryAccess.Proofs.Server.Relocation
import DirectoryAccess.Proofs.Server.Secrecy
import DirectoryAccess.Proofs.Server.Transition
import DirectoryAccess.Proofs.Server.Transparency
import DirectoryAccess.Proofs.Server.TupleTracking
import DirectoryAccess.Proofs.Store.Action
import DirectoryAccess.Proofs.Store.Alike
import DirectoryAccess.Proofs.Store.Calls
import DirectoryAccess.Proofs.Store.Looking
import DirectoryAccess.Proofs.Store.Memory
import DirectoryAccess.Proofs.Store.Projection
import DirectoryAccess.Proofs.Store.Relocation
import DirectoryAccess.Proofs.Store.Rooted
import DirectoryAccess.Proofs.Text.Blank
import DirectoryAccess.Proofs.Text.Case
import DirectoryAccess.Proofs.Text.Quoted
import DirectoryAccess.Proofs.Text.Stability
import DirectoryAccess.Sample
import DirectoryAccess.Server
import DirectoryAccess.Store.Backend
import DirectoryAccess.Store.Faulty
import DirectoryAccess.Store.Memory
import DirectoryAccess.Store.Recording
import DirectoryAccess.Text.Base64
import DirectoryAccess.Text.Blank
import DirectoryAccess.Text.CaseContext
import DirectoryAccess.Text.LowerCaseTable
import DirectoryAccess.Text.Lowercase
import DirectoryAccess.Text.Printable
import DirectoryAccess.Text.Quoted
import DirectoryAccess.Vocabulary
