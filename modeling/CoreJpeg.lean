import CoreJpeg.Clocked
import CoreJpeg.InputModel
import CoreJpeg.InputSegment
import CoreJpeg.InputStructure
import CoreJpeg.InputOpacity
import CoreJpeg.InputScan
import CoreJpeg.EntropyCode
import CoreJpeg.BitBuffer
import CoreJpeg.McuEnd
import CoreJpeg.McuPosition
import CoreJpeg.SoftwareRead
import CoreJpeg.SoftwarePlacement
import CoreJpeg.SoftwareBlock
import CoreJpeg.SoftwareRecovery
import CoreJpeg.SchedulerProgress
import CoreJpeg.FrameWords
import CoreJpeg.OutputFlush
import CoreJpeg.OutputColour
import CoreJpeg.RgbRepacker
import CoreJpeg.OutputChroma
import CoreJpeg.TopReturn
import CoreJpeg.TopRelease
import CoreJpeg.DhtProgress
import CoreJpeg.DhtHistory
import CoreJpeg.DhtRefinement
import CoreJpeg.SoftwareTermination
import CoreJpeg.SoftwareReads
import CoreJpeg.SoftwareFaults
import CoreJpeg.SoftwareWrites
import CoreJpeg.TopAxiRead
import CoreJpeg.DqtLoad
import CoreJpeg.CoefficientSlots
import CoreJpeg.SoftwareCanonical
import CoreJpeg.SoftwareBuffer
import CoreJpeg.SoftwareOverflow
import CoreJpeg.SoftwareConvert
import CoreJpeg.DmaAllocator
import CoreJpeg.TopAxiWrite
import CoreJpeg.TopFifos
import CoreJpeg.FrameAgreement
import CoreJpeg.InputGaps
import CoreJpeg.CoreProgress
import CoreJpeg.OutputBlocks
import CoreJpeg.OutputPixels
import CoreJpeg.CoreLiveness
