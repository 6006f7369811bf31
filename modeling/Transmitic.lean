import Transmitic.Lib.Program
import Transmitic.Lib.Bytes
import Transmitic.Lib.Text
import Transmitic.Lib.Path
import Transmitic.ConfigPaths
import Transmitic.CoreConsts
import Transmitic.SharedFile
import Transmitic.Base64
import Transmitic.Config
import Transmitic.ConfigOps
import Transmitic.ConfigReload
import Transmitic.Lib.FileTree
import Transmitic.Listing
import Transmitic.ConfigDir
import Transmitic.EncryptedStream
import Transmitic.OutgoingDownloader
import Transmitic.QueueFile
import Transmitic.DownloaderCommands
import Transmitic.LocalPaths
import Transmitic.TransmiticStream
import Transmitic.Handshake
import Transmitic.Lib.Duplex
import Transmitic.Messages
import Transmitic.DownloaderSession
import Transmitic.DownloadFolder
import Transmitic.LocalDisk
import Transmitic.CompletedFiles
import Transmitic.CompletedDirectories
import Transmitic.TransferBound
import Transmitic.DirectoryBudget
import Transmitic.DownloaderSystem
import Transmitic.DownloaderRuns
import Transmitic.ConfigUsers
import Transmitic.Registry
import Transmitic.OneDownloader
import Transmitic.ConfigInvariant
import Transmitic.PublicIds
import Transmitic.SingleUploader
import Transmitic.UploaderMethods
import Transmitic.UploaderManager
import Transmitic.ManagerMethods
import Transmitic.SharingMode
import Transmitic.UploaderSystem
import Transmitic.Lib.Cost
import Transmitic.PromptRevocation
import Transmitic.ManagerChannels
import Transmitic.RevocationRuns
import Transmitic.FileList
import Transmitic.ManagerState
import Transmitic.DisplayedState
import Transmitic.DownloadState
import Transmitic.DisplayedDownloads
import Transmitic.UploaderConfig
import Transmitic.DownloaderHeeds
import Transmitic.DownloaderLedger
import Transmitic.DownloaderConfig
import Transmitic.FrameReader
import Transmitic.ReceivedListing
import Transmitic.SendLoop
import Transmitic.RequestHandler
import Transmitic.ConfigWrites
import Transmitic.ConfigSwitch
import Transmitic.ConfigNonce
import Transmitic.MaliciousListing
import Transmitic.CoreMethods
import Transmitic.RefreshCache
import Transmitic.FatalExits
import Transmitic.TransmiticCore
import Transmitic.RequestedFiles
import Transmitic.SharerServes
import Transmitic.Lib.Binary64
import Transmitic.FirstMessage
import Transmitic.Base64Grammar
import Transmitic.Base64Standard
import Transmitic.ConfigCodec
import Transmitic.Lib.SocketAddress
import Transmitic.PortAddresses
import Transmitic.PathSegments
import Transmitic.ListingSums
import Transmitic.AddedFiles
import Transmitic.RefreshKeys
import Transmitic.EndedUploads
import Transmitic.Logger
import Transmitic.SanitizedPaths
import Transmitic.Checksums
import Transmitic.RefreshOrder
import Transmitic.OneUploader
import Transmitic.AccessControl
import Transmitic.AuthenticChannel
import Transmitic.Lib.Turns
import Transmitic.Exchange
import Transmitic.TurnTaking
import Transmitic.ExactTransfer
