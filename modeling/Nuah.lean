import Nuah.Proofs.TowerSafety
import Nuah.Proofs.VoteRuns
import Nuah.Proofs.ForkRecompute
import Nuah.Proofs.ForkDuplicates
import Nuah.Proofs.StakeSplits
import Nuah.Proofs.StakePoints
import Nuah.Proofs.SlotConfirmation
import Nuah.Proofs.OptimisticConfirmation
import Nuah.Proofs.CacheRuns
import Nuah.Proofs.UpgradeAuthority
import Nuah.Proofs.BatchOffsets
import Nuah.Proofs.RewardPool
import Nuah.Proofs.RootedCleaning
import Nuah.Proofs.SlotLists
import Nuah.Proofs.VoterSchedule
import Nuah.Proofs.CompactUpdates
import Nuah.Proofs.ParserAgreement
import Nuah.Proofs.PartitionInverse
import Nuah.Proofs.NewestAccounts
import Nuah.Proofs.CrdsCursors
import Nuah.Proofs.StakeDistribution
import Nuah.Proofs.ShredAccessors
import Nuah.Shredder
import Nuah.Proofs.BlockCosts
import Nuah.Proofs.ThreadLocks
import Nuah.Proofs.ForkGraph
import Nuah.Proofs.RollingPrior
import Nuah.Proofs.SlotWindow
