import AetherArch.Analyzer
import AetherArch.Block
import AetherArch.Chunker
import AetherArch.Cli.SafeJoin
import AetherArch.Cloud.Path
import AetherArch.Cloud.Reader
import AetherArch.Cloud.Url
import AetherArch.Coding.Bcj
import AetherArch.Coding.Bwt
import AetherArch.Coding.BwtRoundTrip
import AetherArch.Coding.BytePlane
import AetherArch.Coding.BytePlaneRoundTrip
import AetherArch.Coding.Lz77
import AetherArch.Coding.Lz77Reference
import AetherArch.Coding.Lz77RoundTrip
import AetherArch.Coding.LzPreprocess
import AetherArch.Coding.MoveToFront
import AetherArch.Coding.ProbsToCdf
import AetherArch.Coding.Rans
import AetherArch.Coding.RansRoundTrip
import AetherArch.Coding.ZeroRun
import AetherArch.Coding.ZeroRunBijection
import AetherArch.Coding.ZstdFallback
import AetherArch.Crypto
import AetherArch.Dictionary
import AetherArch.Entropy.CodingRuns
import AetherArch.Entropy.ContextMixer
import AetherArch.Entropy.CountWords
import AetherArch.Entropy.DefaultRoutes
import AetherArch.Entropy.DeterminedStates
import AetherArch.Entropy.EqualCounts
import AetherArch.Entropy.ErasedHistory
import AetherArch.Entropy.LoadedWords
import AetherArch.Entropy.Lz4Aware
import AetherArch.Entropy.Lz4AwareParsing
import AetherArch.Entropy.NeuralSsm
import AetherArch.Entropy.NeuralSsmBounds
import AetherArch.Entropy.NeuralSsmContract
import AetherArch.Entropy.NeuralSsmReset
import AetherArch.Entropy.NeuralSsmStates
import AetherArch.Entropy.NeuralSsmWords
import AetherArch.Entropy.Order0
import AetherArch.Entropy.Order0Contract
import AetherArch.Entropy.Order0Words
import AetherArch.Entropy.RejectedStates
import AetherArch.Entropy.RleInvariant
import AetherArch.Entropy.RlePrediction
import AetherArch.Entropy.RlePredictor
import AetherArch.Entropy.SavedCounts
import AetherArch.Entropy.SavedStates
import AetherArch.Entropy.Traits
import AetherArch.Error
import AetherArch.Fields
import AetherArch.FileTable
import AetherArch.Format
import AetherArch.GroupRuns
import AetherArch.Grouper
import AetherArch.Header
import AetherArch.Library.BurrowsWheeler
import AetherArch.Library.ByteReader
import AetherArch.Library.Checked
import AetherArch.Library.CheckedSum
import AetherArch.Library.Crc
import AetherArch.Library.DirectoryWalk
import AetherArch.Library.ExactFormat
import AetherArch.Library.Fenwick
import AetherArch.Library.FileCursor
import AetherArch.Library.FileTree
import AetherArch.Library.FloatFormat
import AetherArch.Library.FreshNames
import AetherArch.Library.GreedyCuts
import AetherArch.Library.IntervalCoding
import AetherArch.Library.Labelled
import AetherArch.Library.Numeral
import AetherArch.Library.Output
import AetherArch.Library.PathBelow
import AetherArch.Library.PathComponents
import AetherArch.Library.PercentEncoding
import AetherArch.Library.Pointwise
import AetherArch.Library.Quantize
import AetherArch.Library.Separator
import AetherArch.Library.StableSort
import AetherArch.Library.Traced
import AetherArch.Library.UnixPath
import AetherArch.Library.UnstableSort
import AetherArch.Library.Utf8
import AetherArch.Machine.Bcj
import AetherArch.Machine.Bwt
import AetherArch.Machine.BytePlane
import AetherArch.Machine.ExactDivisor
import AetherArch.Machine.Lz77
import AetherArch.Machine.ProbsToCdf
import AetherArch.Machine.Rans
import AetherArch.Machine.Router
import AetherArch.Machine.SymbolSearch
import AetherArch.Machine.ZeroRun
import AetherArch.Pipeline.ArchiveRoundTrip
import AetherArch.Pipeline.BaselineAgreement
import AetherArch.Pipeline.BlockDecoding
import AetherArch.Pipeline.BlockWriting
import AetherArch.Pipeline.CollectedPaths
import AetherArch.Pipeline.Compress
import AetherArch.Pipeline.ConsumingReassembly
import AetherArch.Pipeline.DecodedSize
import AetherArch.Pipeline.Decompress
import AetherArch.Pipeline.DecompressSeekable
import AetherArch.Pipeline.DecompressStreaming
import AetherArch.Pipeline.ExtractedSize
import AetherArch.Pipeline.ExtractionPaths
import AetherArch.Pipeline.ExtractionTree
import AetherArch.Pipeline.FileAgreement
import AetherArch.Pipeline.ForgedTables
import AetherArch.Pipeline.GroupCompression
import AetherArch.Pipeline.HeaderIntegrity
import AetherArch.Pipeline.Layout
import AetherArch.Pipeline.MemoryCaps
import AetherArch.Pipeline.Metadata
import AetherArch.Pipeline.Metering
import AetherArch.Pipeline.Migrate
import AetherArch.Pipeline.MigratedContents
import AetherArch.Pipeline.OneBlockArchive
import AetherArch.Pipeline.Operations
import AetherArch.Pipeline.PlainArchive
import AetherArch.Pipeline.ReaderAgreement
import AetherArch.Pipeline.ReadingCaps
import AetherArch.Pipeline.Reassembly
import AetherArch.Pipeline.RefusedTables
import AetherArch.Pipeline.Router
import AetherArch.Pipeline.RouterRoundTrip
import AetherArch.Pipeline.ShortFiles
import AetherArch.Pipeline.StreamVerification
import AetherArch.Pipeline.ThreadAgreement
import AetherArch.Pipeline.UnneededDictionary
import AetherArch.Pipeline.Verification
import AetherArch.Pipeline.VerificationAgreement
import AetherArch.Pipeline.WriterLayout
import AetherArch.Pipeline.WriterPaths
import AetherArch.Pipeline.WriterTiling
import AetherArch.Pipeline.WrittenArchive
import AetherArch.Pipeline.WrittenContents
import AetherArch.RecordCanonical
import AetherArch.RecordRoundTrip
import AetherArch.Server.Extract
import AetherArch.Server.Filenames
import AetherArch.Server.Uploads
