import EChainLib.Support.Overlay
import EChainLib.Support.Run
import EChainLib.Support.DigitPairs
import EChainLib.Support.Checksum
import EChainLib.Support.Marks
import EChainLib.Support.Allocation
import EChainLib.Support.Effects
import EChainLib.Support.Quoted
import EChainLib.Support.Lineage
import EChainLib.Cache.EntryCache
import EChainLib.Cache.Merge
import EChainLib.Cache.WriteBack
import EChainLib.Cache.MapView
import EChainLib.Cache.NetAction
import EChainLib.Keys.KeyElement
import EChainLib.Keys.Corruption
import EChainLib.Keys.PrivateKey
import EChainLib.Keys.Cfca
import EChainLib.Keys.Signature
import EChainLib.Keys.Sm2
import EChainLib.Accounts.Database
import EChainLib.Accounts.Registration
import EChainLib.Node.Json
import EChainLib.Node.Api
import EChainLib.Node.CreateAccount
import EChainLib.Node.BusinessData
import EChainLib.Node.Chain
import EChainLib.Node.ListChain
import EChainLib.Node.Integrity
import EChainLib.Node.Records
import EChainLib.Node.Submitters
import EChainLib.Node.Calls
import EChainLib.Node.Lock
import EChainLib.Node.Statements
import EChainLib.Node.Exchanges
import EChainLib.Config.Ini
import EChainLib.Ca.Time
import EChainLib.Ca.Subject
import EChainLib.Ca.Certificate
import EChainLib.Ca.EntityCert
import EChainLib.Support.Separator
import EChainLib.Ca.RootCert
import EChainLib.Ca.MakeRoot
import EChainLib.Ca.Issue
import EChainLib.Ca.Request
import EChainLib.Node.Initialise
import EChainLib.Node.Protocol
import EChainLib.Node.Nonce
import EChainLib.Node.Mirror
import EChainLib.Node.Versions
import EChainLib.Node.Deletion
import EChainLib.Support.Simulation
import EChainLib.Support.Dependence
import EChainLib.Support.BigEndian
import EChainLib.Support.Scalars
import EChainLib.Expr.Value
import EChainLib.Expr.Lexer
import EChainLib.Expr.Parser
import EChainLib.Expr.Tree
import EChainLib.Expr.Reading
import EChainLib.Expr.Operators
import EChainLib.Expr.Operands
import EChainLib.Expr.Check
import EChainLib.Expr.Knowledge
import EChainLib.Expr.CheckFrame
import EChainLib.Expr.Acceptance
import EChainLib.Expr.Notation
import EChainLib.Expr.Precedence
import EChainLib.Expr.Arithmetic
import EChainLib.Expr.Functions
import EChainLib.Codec.Hex
import EChainLib.Support.Positional
import EChainLib.Codec.Base58
import EChainLib.Support.Chaining
import EChainLib.Codec.Aes
import EChainLib.Expr.Session
import EChainLib.Expr.Buffer
import EChainLib.Expr.Termination
import EChainLib.Expr.Literals
import EChainLib.Expr.Formula
import EChainLib.Expr.Conditions
import EChainLib.Keys.Import
import EChainLib.Keys.Address
import EChainLib.Keys.Verify
import EChainLib.Support.ShiftRegister
import EChainLib.Codec.Crc16
import EChainLib.Support.Words
import EChainLib.Support.LongDivision
import EChainLib.Number.Uint128
import EChainLib.Number.BigDivide
import EChainLib.Node.Metadata
import EChainLib.Support.BlockStream
import EChainLib.Codec.Sm3
import EChainLib.Codec.Sm3Process
import EChainLib.Codec.Hmac
import EChainLib.Node.AccountReplies
import EChainLib.Node.Nonces
import EChainLib.Node.Pages
import EChainLib.Node.StoredRows
import EChainLib.Node.Browser
import EChainLib.Config.Lookup
import EChainLib.Support.Cursor
import EChainLib.Config.Bounds
import EChainLib.Config.Loading
import EChainLib.Config.XmlLists
import EChainLib.Support.Tags
import EChainLib.Support.Strings
import EChainLib.Config.XmlText
import EChainLib.Config.XmlTags
import EChainLib.Config.XmlProperties
import EChainLib.Config.XmlRoundTrip
import EChainLib.Utils.LetterCase
import EChainLib.Support.Substitution
import EChainLib.Utils.Replace
import EChainLib.Utils.IsNumber
import EChainLib.Utils.Tokens
import EChainLib.Utils.Attributes
import EChainLib.Support.LineBlock
import EChainLib.Node.HttpRequest
import EChainLib.Keys.Sm2Texts
import EChainLib.Keys.Sm2Group
import EChainLib.Node.MetadataReaders
import EChainLib.Support.DueQueue
import EChainLib.Utils.Timer
import EChainLib.Keys.Base64
import EChainLib.Ca.CopyExtensions
import EChainLib.Ca.ExtensionBounds
import EChainLib.Codec.BaseUint
import EChainLib.Ca.Validity
import EChainLib.Utils.TimeTexts
import EChainLib.Utils.BackupNames
import EChainLib.Utils.ThreadPool
import EChainLib.Utils.LogRotation
import EChainLib.Ca.OutputFiles
import EChainLib.Support.FileTree
import EChainLib.Utils.DeleteFolder
import EChainLib.Support.Ends
import EChainLib.Utils.Trimming
import EChainLib.Utils.XorOrder
import EChainLib.Support.Runs
import EChainLib.Utils.CharacterRuns
import EChainLib.Support.LastMark
import EChainLib.Utils.LogNames
import EChainLib.MySql.ExecSql
import EChainLib.MySql.Columns
import EChainLib.Support.Walks
import EChainLib.Config.XmlMalformed
import EChainLib.Config.XmlClosing
import EChainLib.Config.XmlDoc
import EChainLib.Config.XmlRoot
import EChainLib.Support.SignedDigits
import EChainLib.Ec.Wnaf
import EChainLib.Ec.Method
import EChainLib.Ec.WnafMul
import EChainLib.Ec.Precomputation
import EChainLib.Support.CharTwoCurve
import EChainLib.Ec.Binary
import EChainLib.Ec.BinaryPoints
import EChainLib.Ec.Montgomery
import EChainLib.Ec.Octets
import EChainLib.Ec.OctetRoundTrip
import EChainLib.Ec.PrimeOctets
import EChainLib.Support.Slots
import EChainLib.Support.CriticalSection
import EChainLib.Utils.TaskQueue
import EChainLib.Utils.ReadWriteLock
import EChainLib.Support.Recency
import EChainLib.Utils.LruCache
import EChainLib.Ec.Key
import EChainLib.Keys.Sm2Points
