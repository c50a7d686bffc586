import Ebbnc.Lib.Buffer
import Ebbnc.Lib.CString
import Ebbnc.Lib.Numeral
import Ebbnc.Lib.Chaining
import Ebbnc.Lib.Runs
import Ebbnc.Lib.Machine
import Ebbnc.Lib.Program
import Ebbnc.Lib.Duty
import Ebbnc.Lib.Ledger
import Ebbnc.Lib.LeastFree
import Ebbnc.Lib.Account
import Ebbnc.Lib.Heap
import Ebbnc.Xtea
import Ebbnc.XteaBlock
import Ebbnc.XteaModes
import Ebbnc.XteaContract
import Ebbnc.Hex
import Ebbnc.HexContract
import Ebbnc.Address
import Ebbnc.AddressText
import Ebbnc.Config
import Ebbnc.ConfigLoad
import Ebbnc.FileFormat
import Ebbnc.ConfigMemory
import Ebbnc.ConfigLeaks
import Ebbnc.ConfigCrash
import Ebbnc.ConfigFormat
import Ebbnc.BouncerText
import Ebbnc.Embedded
import Ebbnc.Tampering
import Ebbnc.Editor
import Ebbnc.EditorRuns
import Ebbnc.EditorSafety
import Ebbnc.EndOfInput
import Ebbnc.Agreement
import Ebbnc.System
import Ebbnc.Ident
import Ebbnc.Client
import Ebbnc.IdntLine
import Ebbnc.Timeouts
import Ebbnc.RelayProgress
import Ebbnc.Prompt
import Ebbnc.Session
import Ebbnc.Streams
import Ebbnc.Descriptors
import Ebbnc.Server
import Ebbnc.Listen
import Ebbnc.FdSet
import Ebbnc.Accept
import Ebbnc.Connections
import Ebbnc.Isolation
import Ebbnc.Waiting
import Ebbnc.Reports
import Ebbnc.Destinations
import Ebbnc.Launch
import Ebbnc.PidFile
import Ebbnc.ConfigFiles
import Ebbnc.Main
