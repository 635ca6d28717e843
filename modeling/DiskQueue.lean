import DiskQueue.Command
import DiskQueue.FileTree.Image
import DiskQueue.Main
import DiskQueue.Queue.Survey
import DiskQueue.Settings.Resolution
import DiskQueue.Proofs.ByteCount
import DiskQueue.Proofs.Claiming
import DiskQueue.Proofs.Conservation
import DiskQueue.Proofs.FirstInFirstOut
import DiskQueue.Proofs.RecordGrammar
import DiskQueue.Proofs.RecordRoundTrip
import DiskQueue.Proofs.Recovery
import DiskQueue.Proofs.Replacement
import DiskQueue.Proofs.ShortestHeader
import DiskQueue.Proofs.Renaming
import DiskQueue.Proofs.OneState
import DiskQueue.Proofs.DrainOrder
import DiskQueue.Proofs.Batches
import DiskQueue.Proofs.Draining
import DiskQueue.Proofs.AllOrNothing
import DiskQueue.Proofs.Attempts
import DiskQueue.Proofs.Capacity
import DiskQueue.Proofs.Emptiness
import DiskQueue.Proofs.Limits
import DiskQueue.Proofs.SettingsText
import DiskQueue.Proofs.Staging
import DiskQueue.Proofs.OutputDirectory
import DiskQueue.Proofs.Turns
import DiskQueue.Proofs.DrainAttempts
import DiskQueue.Proofs.DrainAccount
import DiskQueue.Proofs.IntegerTexts
import DiskQueue.Proofs.RecordExtent
import DiskQueue.Proofs.SinkWriting
import DiskQueue.Proofs.Tidiness
import DiskQueue.Proofs.CapacityGate
import DiskQueue.Proofs.JsonLists
import DiskQueue.Proofs.EmptyVariables
import DiskQueue.Proofs.SettingsLayers
import DiskQueue.Proofs.SettingsRoundTrip
import DiskQueue.Proofs.Abandoned
import DiskQueue.Proofs.NameOrder
import DiskQueue.Proofs.Announcements
import DiskQueue.Proofs.Reporting
import DiskQueue.Proofs.Snapshots
import DiskQueue.Proofs.FileStates
import DiskQueue.Proofs.Retrying
