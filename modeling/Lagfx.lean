import Lagfx.Lib.ByteMemory
import Lagfx.Lib.Bits
import Lagfx.Lib.Runs
import Lagfx.State
import Lagfx.StampCell
import Lagfx.Lib.SlotTable
import Lagfx.ResourceRegistry
import Lagfx.TaskTable
import Lagfx.Iosurface
import Lagfx.Display
import Lagfx.ObjectResolver
import Lagfx.InnerWalk
import Lagfx.Dispatch
import Lagfx.Lib.Fifo
import Lagfx.Lib.Lru
import Lagfx.ShaderCache
import Lagfx.Timer
import Lagfx.Metallib
import Lagfx.MetallibFile
import Lagfx.Ring
import Lagfx.ChannelDrain
import Lagfx.ChannelFifo
import Lagfx.RootDrain
import Lagfx.RootFifo
import Lagfx.StampOrder
import Lagfx.Bitstream
import Lagfx.BitstreamCodec
import Lagfx.BitstreamTree
import Lagfx.PendingPipeline
import Lagfx.InnerOps
import Lagfx.BindingTables
import Lagfx.Lib.GpuQueue
import Lagfx.GpuLifetime
import Lagfx.Lib.ImageLayout
import Lagfx.SurfaceLayout
import Lagfx.DrawDescriptors
import Lagfx.ResourceBinding
import Lagfx.Lib.Ssa
import Lagfx.Spirv
import Lagfx.SignatureTransform
import Lagfx.SpirvRun
import Lagfx.SignatureRewrite
import Lagfx.SignatureScan
import Lagfx.SignatureIds
import Lagfx.SignatureUses
import Lagfx.SignatureOrder
import Lagfx.SignatureRuns
import Lagfx.BitcodeArena
import Lagfx.BitcodeReader
import Lagfx.BitcodeProgress
import Lagfx.BitcodeFunctions
import Lagfx.BitcodeBody
import Lagfx.BitcodeMoves
import Lagfx.BitcodePointers
import Lagfx.BitcodeStale
import Lagfx.BitcodeBodyRead
import Lagfx.BitcodeBodies
import Lagfx.BitcodeAttach
import Lagfx.BitcodeReopen
import Lagfx.ValueNumbering
import Lagfx.TypeCaches
import Lagfx.TypeDecls
import Lagfx.ExecReads
import Lagfx.TaskLeaves
import Lagfx.RegistryMap
import Lagfx.TaskMemory
import Lagfx.BlitSurfaces
import Lagfx.SpvBuilder
import Lagfx.SpvBuilderRuns
import Lagfx.EntrySelection
import Lagfx.HelperPlan
import Lagfx.SignatureDecls
import Lagfx.SignatureCalls
import Lagfx.SignatureEntry
import Lagfx.SignatureSound
import Lagfx.SignatureSlack
import Lagfx.Lib.Renumber
import Lagfx.TypeLayout
import Lagfx.ShaderInterface
import Lagfx.TypeNumbering
import Lagfx.InterfaceNumbering
import Lagfx.BitstreamVbr
import Lagfx.AbbrevStores
import Lagfx.Lib.Descent
import Lagfx.TypeRecursion
import Lagfx.MetadataStrings
import Lagfx.ConstantBlocks
import Lagfx.ConstantBinding
import Lagfx.BlockLayout
import Lagfx.OperandTypes
import Lagfx.PlacementReads
import Lagfx.VertexSource
import Lagfx.VertexStaging
import Lagfx.DescriptorBuild
import Lagfx.PipelineCache
import Lagfx.VertexFetch
import Lagfx.Lib.Raster
import Lagfx.Lib.Places
import Lagfx.TextureRealize
import Lagfx.VertexNames
import Lagfx.DrawParams
import Lagfx.ThreadParams
import Lagfx.ThreadCalls
import Lagfx.SpvReflect
import Lagfx.SpvOffset
import Lagfx.IntrinsicDispatch
import Lagfx.IntegerLowering
import Lagfx.Lib.InsertionSort
import Lagfx.Lib.WriteTable
import Lagfx.Lib.Greedy
import Lagfx.PsoAttrs
import Lagfx.Lib.Leftmost
import Lagfx.BitcodeRetarget
import Lagfx.EntryPointModules
import Lagfx.StampNotify
import Lagfx.Doorbell
import Lagfx.DispatchReturns
import Lagfx.FramePixels
