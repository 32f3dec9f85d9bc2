import Fortis.Edge.ReleaseSafety
import Fortis.Wallet.Selection
import Fortis.Edge.Acceptance
import Fortis.Edge.Priority
import Fortis.Index.Exactness
import Fortis.Lsp.Idempotence
import Fortis.Lsp.Replay
import Fortis.Edge.ClientKeys
import Fortis.Edge.FundingEvidence
import Fortis.Core.TermsSafety
import Fortis.Index.CatchUp
import Fortis.Edge.Strikes
import Fortis.Lsp.Crashes
import Fortis.Lsp.HeldPayments
import Fortis.Lsp.PayReplies
import Fortis.Lsp.Revenue
import Fortis.Edge.Purge
import Fortis.Edge.Reconcile
import Fortis.Edge.TowerSends
import Fortis.Phone.ScanTags
import Fortis.Phone.SwapIndex
import Fortis.Lightning.Sweep
import Fortis.Edge.HistoryReplies
import Fortis.Edge.Quota
import Fortis.Lightning.Transfer
import Fortis.Lightning.FreshPay
import Fortis.Lsp.JitChannels
import Fortis.Lsp.Onchain
