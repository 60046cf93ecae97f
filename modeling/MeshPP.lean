import MeshPP.Lib.Frame
import MeshPP.Lib.Slice
import MeshPP.Lib.Machine
import MeshPP.Lib.Unordered
import MeshPP.Lib.Transactional
import MeshPP.SystemUtility.Disk
import MeshPP.SystemUtility.BlockFile
import MeshPP.SystemUtility.Compact
import MeshPP.SystemUtility.BlockLoad
import MeshPP.SystemUtility.BlockSave
import MeshPP.SystemUtility.FileSaver
import MeshPP.SystemUtility.BlockView
import MeshPP.SystemUtility.SavedBlocks
import MeshPP.SystemUtility.Overlay
import MeshPP.SystemUtility.Container
import MeshPP.SystemUtility.Text
import MeshPP.SystemUtility.MapLoader
import MeshPP.SystemUtility.MapSave
import MeshPP.SystemUtility.MapRefinement
import MeshPP.SystemUtility.VectorLoader
import MeshPP.SystemUtility.VectorSave
import MeshPP.SystemUtility.VectorRefinement
import MeshPP.SystemUtility.FailedSave
import MeshPP.SystemUtility.FileLock
import MeshPP.SystemUtility.BlockMap
import MeshPP.SystemUtility.RepeatedSave
import MeshPP.SystemUtility.BulkClear
import MeshPP.SystemUtility.FileLoader
import MeshPP.SystemUtility.Published
import MeshPP.SystemUtility.StoppedCommit
import MeshPP.SystemUtility.MapLimit
import MeshPP.SystemUtility.FileLocker
import MeshPP.Lib.Positions
import MeshPP.SessionUtility.SessionManager
import MeshPP.SessionUtility.Offers
import MeshPP.SessionUtility.Sequence
import MeshPP.SessionUtility.SessionOrder
import MeshPP.SessionUtility.SessionShape
import MeshPP.SessionUtility.HeaderUpdate
import MeshPP.SessionUtility.Deadlines
import MeshPP.Lib.Digits
import MeshPP.Kbucket.StringDistance
import MeshPP.Kbucket.Konnection
import MeshPP.Kbucket.KBucket
import MeshPP.P2PSocket.CommunicationState
import MeshPP.P2PSocket.PeerIndices
import MeshPP.P2PSocket.PeerRemoval
import MeshPP.P2PSocket.P2PState
import MeshPP.P2PSocket.P2PSocket
import MeshPP.P2PSocket.PeerView
import MeshPP.P2PSocket.Handlers
import MeshPP.Kbucket.Representation
import MeshPP.Kbucket.XorMetric
import MeshPP.P2PSocket.Schedule
import MeshPP.P2PSocket.Moves
import MeshPP.P2PSocket.Operations
import MeshPP.P2PSocket.Speech
import MeshPP.P2PSocket.Registration
import MeshPP.P2PSocket.Rejection
import MeshPP.P2PSocket.Identity
import MeshPP.P2PSocket.Contacts
import MeshPP.P2PSocket.Presence
import MeshPP.P2PSocket.Unfailing
import MeshPP.P2PSocket.LifeCycle
import MeshPP.Lib.Radix
import MeshPP.CryptoUtility.Base58
import MeshPP.CryptoUtility.PublicKeyText
import MeshPP.CryptoUtility.PrivateKey
import MeshPP.CryptoUtility.BrainKey
import MeshPP.CryptoUtility.Encryption
import MeshPP.CryptoUtility.Signature
import MeshPP.Lib.Backoff
import MeshPP.P2PSocket.DropedNodes
import MeshPP.P2PSocket.PeersDistance
import MeshPP.Lib.Network
import MeshPP.P2PSocket.Sincere
import MeshPP.P2PSocket.Station
import MeshPP.P2PSocket.Network
import MeshPP.P2PSocket.Signed
import MeshPP.P2PSocket.TableUse
import MeshPP.P2PSocket.Silence
import MeshPP.P2PSocket.Heartbeat
import MeshPP.P2PSocket.Attentive
import MeshPP.P2PSocket.Discovery
import MeshPP.Lib.Confined
import MeshPP.SystemUtility.Confinement
import MeshPP.SystemUtility.MapConfinement
import MeshPP.SystemUtility.VectorConfinement
import MeshPP.SystemUtility.Directory
