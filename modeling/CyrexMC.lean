import CyrexMC.Protocol.RoundTrip
import CyrexMC.Session.Wrapping
import CyrexMC.Session.Confinement
import CyrexMC.Session.Effects
import CyrexMC.Session.SwitchOver
import CyrexMC.Session.Connections
import CyrexMC.ResourcePacks.Chunks
import CyrexMC.Session.Download
import CyrexMC.Session.SessionTable
import CyrexMC.Session.PackQueue
import CyrexMC.Session.Serving
import CyrexMC.Session.Containment
import CyrexMC.Session.PackDelivery
import CyrexMC.Session.SameView
import CyrexMC.Session.NonInterference
import CyrexMC.EncryptedStream
import CyrexMC.Util.Zip
import CyrexMC.Util.ZipDirectory
import CyrexMC.Util.ZipExtraction
import CyrexMC.Util.ZipBounds
import CyrexMC.Util.ZipArchive
import CyrexMC.Session.FrameBounds
import CyrexMC.Session.SendOrder
import CyrexMC.Session.VersionGate
import CyrexMC.Session.Advertised
import CyrexMC.Session.ChunkAgreement
import CyrexMC.VarUInt
import CyrexMC.Protocol.PackLists
import CyrexMC.Protocol.ClientResponse
import CyrexMC.Session.ChunkRequest
import CyrexMC.ResourcePacks.PackReads
import CyrexMC.ResourcePacks.Manifest
import CyrexMC.Session.Unwrap
import CyrexMC.Session.AcceptedPacks
import CyrexMC.Session.QueueDuplicates
import CyrexMC.Protocol.DecoderBounds
import CyrexMC.ResourcePacks.Hashing
import CyrexMC.Session.BatchLoop
import CyrexMC.Util.ServerProperties
import CyrexMC.Util.NumericSettings
import CyrexMC.Session.ChunkTransfer
import CyrexMC.Session.TransferProgress
import CyrexMC.Startup.LockFile
import CyrexMC.Console.Commands
import CyrexMC.Console.ServerLoop
import CyrexMC.Raknet.Motd
import CyrexMC.BinaryStream
import CyrexMC.Session.PackClient
import CyrexMC.Session.Restoring
import CyrexMC.EncryptedDamage
import CyrexMC.ResourcePacks.Loader
import CyrexMC.ResourcePacks.PackArchives
import CyrexMC.Session.PackFolder
import CyrexMC.Session.Recipients
import CyrexMC.Session.Clients
import CyrexMC.Session.ClientFiles
