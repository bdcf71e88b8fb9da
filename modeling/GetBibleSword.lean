import GetBibleSword.Lib.OrdMap
import GetBibleSword.Lib.Posix.Calls
import GetBibleSword.Core.NdjsonWriter
import GetBibleSword.Core.Traversal
import GetBibleSword.Core.DiscoveryOrder
import GetBibleSword.Core.Utf8Loop
import GetBibleSword.Core.Sha256Object
import GetBibleSword.Core.Segmentation
import GetBibleSword.Core.WriterFraming
import GetBibleSword.Core.Dictionary
import GetBibleSword.Core.FooterAccounting
import GetBibleSword.Tool.WriterStream
import GetBibleSword.Tool.Gate
import GetBibleSword.Tool.RecordLimit
import GetBibleSword.Tool.EntryRecord
import GetBibleSword.Tool.CanonicalStream
import GetBibleSword.Tool.LosslessCapture
import GetBibleSword.Tool.Containment
import GetBibleSword.Tool.ConfigurationCapture
import GetBibleSword.Tool.Completion
import GetBibleSword.Tool.Modes
import GetBibleSword.Tool.Links
import GetBibleSword.Tool.Truncation
import GetBibleSword.Tool.Listing
import GetBibleSword.Api.Serialization
import GetBibleSword.Cli.Publication
