import LocalChain.Store.Table
import LocalChain.Store.Index
import LocalChain.Store.IndexOrder
import LocalChain.Store.Image
import LocalChain.Store.Handled
import LocalChain.Store.Journal
import LocalChain.Store.Since
import LocalChain.Graph.Links
import LocalChain.Refine.Run
import LocalChain.Refine.Client
import LocalChain.Refine.Program
import LocalChain.Wire.Radix
import LocalChain.Wire.Format
import LocalChain.Python.Program
import LocalChain.Python.Text
import LocalChain.Inery.Core
import LocalChain.Inery.MultiIndex
import LocalChain.Inery.Pack
import LocalChain.Inery.Datastream
import LocalChain.Inery.Varint
import LocalChain.Inery.Serialize
import LocalChain.Inery.Dispatcher
import LocalChain.Inery.NameText
import LocalChain.Inery.NameRead
import LocalChain.Inery.Db
import LocalChain.Inery.TableObject
import LocalChain.Inery.TableCoherence
import LocalChain.Inery.TableView
import LocalChain.Inery.TableWalk
import LocalChain.Inery.TableWrite
import LocalChain.Inery.TableRun
import LocalChain.Inery.TableClient
import LocalChain.Inery.Singleton
import LocalChain.Inery.TableProgram
import LocalChain.Inery.Objects
import LocalChain.Inery.ObjectProgram
import LocalChain.K2ultra.State
import LocalChain.K2ultra.Actions
import LocalChain.K2ultra.ActionSpec
import LocalChain.K2ultra.Book
import LocalChain.K2ultra.Step
import LocalChain.K2ultra.Run
import LocalChain.K2ultra.ContactGraph
import LocalChain.K2ultra.Mirror
import LocalChain.K2ultra.Cascade
import LocalChain.K2ultra.Answer
import LocalChain.K2ultra.Conversation
import LocalChain.K2ultra.KeyProvenance
import LocalChain.K2ultra.Consent
import LocalChain.K2ultra.Block
import LocalChain.K2ultra.Authority
import LocalChain.K2ultra.Flags
import LocalChain.K2ultra.Commits
import LocalChain.K2ultra.Stuck
import LocalChain.K2ultra.Undo
import LocalChain.K2ultra.Commute
import LocalChain.K2ultra.Maintenance
import LocalChain.K2ultra.Uninitialised
import LocalChain.K2ultra.Recovery
import LocalChain.K2ultra.Messages
import LocalChain.K2ultra.MessageLog
import LocalChain.K2ultra.Sending
import LocalChain.K2ultra.SeenWalk
import LocalChain.K2ultra.UnseenCount
import LocalChain.K2ultra.Reading
import LocalChain.K2ultra.Draining
import LocalChain.K2ultra.CountCap
import LocalChain.K2ultra.Wire
import LocalChain.K2ultra.MessagesObject
import LocalChain.K2ultra.MessagesHosted
import LocalChain.K2ultra.MessagesRun
import LocalChain.K2ultra.ProfilesObject
import LocalChain.K2ultra.ProfilesRun
import LocalChain.K2ultra.Brief
import LocalChain.K2ultra.ContractObject
import LocalChain.K2ultra.ContractHosted
import LocalChain.K2ultra.ContractUse
import LocalChain.K2ultra.RequestsTable
import LocalChain.K2ultra.RequestsHosted
import LocalChain.K2ultra.CascadeHosted
import LocalChain.K2ultra.ContractRun
import LocalChain.Inerygui.State
import LocalChain.Inerygui.Actions
import LocalChain.Inerygui.ActionSpec
import LocalChain.Inerygui.Step
import LocalChain.Inerygui.Run
import LocalChain.Inerygui.Users
import LocalChain.Inerygui.Passwords
import LocalChain.Inerygui.Naming
import LocalChain.Inerygui.Storage
import LocalChain.Inerygui.HistoryLog
import LocalChain.Inerygui.Plugins
import LocalChain.Inerygui.Reversal
import LocalChain.Inerygui.Uninitialised
import LocalChain.Inerygui.Versions
import LocalChain.Inerygui.Wire
import LocalChain.Inerygui.Objects
import LocalChain.Inerygui.Hosted
import LocalChain.TestChain.State
import LocalChain.TestChain.Wallet
import LocalChain.TestChain.WalletList
import LocalChain.TestChain.Scripts
import LocalChain.TestChain.Masters
import LocalChain.TestChain.Ports
