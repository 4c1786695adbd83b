import Dice.Ports.ObserveDelivery
import Dice.Ports.ObserveDebounce
import Dice.Ports.ObserveTeardown
import Dice.Ports.ConnectionReset
import Dice.Ports.ObserveAcl
import Dice.Ports.AclRoundTrip
import Dice.Ports.ObserveFraming
import Dice.Ports.RequestTypes
import Dice.Ports.AclRevocation
import Dice.Ports.AofSafety
import Dice.Ports.AofRecovery
import Dice.Ports.KvstoreScan
import Dice.Ports.ListpackAccess
import Dice.Ports.NumberPrinting
import Dice.Ports.GlobLanguage
import Dice.Ports.SkiplistRuns
import Dice.Ports.RadixIteratorSeek
import Dice.Ports.OptimisticLocking
import Dice.Ports.BlockingListsServing
import Dice.Ports.TrackingDelivery
import Dice.Ports.TrackingBroadcast
import Dice.Ports.HashSlots
import Dice.Ports.TrackingPrefixes
import Dice.Ports.JobQueue
import Dice.Ports.ConfigSet
import Dice.Ports.PubsubDelivery
