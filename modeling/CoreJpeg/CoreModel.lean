import CoreJpeg.CoefficientTransform
import CoreJpeg.McuTables

namespace CoreJpeg.JpegCore

open Clocked CoefficientChain

/-!
# The decoder between its parser and its output

`jpeg_core` wires the bit buffer, the entropy decoder, the Huffman tables, the
dequantiser and the inverse transform to each other.  This module closes the
five with each other as they are wired there.  `jpeg_input` in front of them
and `jpeg_output` behind them are the surroundings: they hand over the bytes of
a scan and stall the samples.
-/

/-- What the surroundings do in one clock cycle. -/
structure Cycle where
  rst : Bool
  imgStart : Bool
  imgEnd : Bool
  /-- The next byte of the scan is offered, and the scan ends. -/
  sourceValid : Bool
  sourceLast : Bool
  /-- The configuration port of `jpeg_dht`. -/
  dhtCfgValid : Bool
  dhtCfgData : Byte
  dhtCfgLast : Bool
  /-- The configuration port of `jpeg_dqt`. -/
  dqtCfgValid : Bool
  dqtCfgData : Byte
  dqtCfgLast : Bool
  /-- `inport_accept_o` of `jpeg_output`. -/
  outportAccept : Bool
  deriving Repr, DecidableEq

/-- The registers of the modules, with the bytes of the scan to come. -/
structure State where
  decoder : McuProc.System
  dht : JpegDht.Circuit
  dqt : JpegDqt.State
  idct : JpegIdct.State

namespace State

variable (frame : Frame) (s : State) (cycle : Cycle)

/-- The registers from the entropy decoder to the coefficient buffer. -/
def chain : CoefficientChain.State where
  mcu := s.decoder.mcu
  dqt := s.dqt
  ram := s.idct.ram

/-- What the neighbours of these three do in a cycle. -/
def chainCycle : CoefficientChain.Cycle where
  rst := cycle.rst
  imgStart := cycle.imgStart
  imgEnd := cycle.imgEnd
  inportValid := BitBuffer.outportValid s.decoder.buffer
  inportData := BitBuffer.outportData s.decoder.buffer
  lookupValid := s.dht.answer.isSome
  lookupWidth := (s.dht.answer.map Prod.fst).getD 0
  lookupValue := (s.dht.answer.map Prod.snd).getD 0
  cfgValid := cycle.dqtCfgValid
  cfgData := cycle.dqtCfgData
  cfgLast := cycle.dqtCfgLast
  outportReady := cycle.outportAccept

/-- The pins of `jpeg_dqt`. -/
def dqtInput : JpegDqt.Input := s.chain.dqtInput frame (s.chainCycle cycle)

/-- What the neighbours of the bit buffer and the entropy decoder do. -/
def decoderCycle : McuProc.Cycle where
  rst := cycle.rst
  imgStart := cycle.imgStart
  imgEnd := cycle.imgEnd
  imgWidth := frame.imgWidth
  imgMode := frame.imgMode
  sourceValid := cycle.sourceValid
  sourceLast := cycle.sourceLast
  answer := s.dht.answer
  outportBlkSpace := JpegDqt.inportBlkSpace s.dqt (s.dqtInput frame cycle)

/-- The pins of `jpeg_mcu_proc`. -/
def mcuInput : McuProc.Input :=
  s.decoder.mcuInput (s.decoderCycle frame cycle)

/-- The pins of `jpeg_dht`. -/
def dhtInput : JpegDht.Input where
  rst := cycle.rst
  cfgValid := cycle.dhtCfgValid
  cfgData := cycle.dhtCfgData
  cfgLast := cycle.dhtCfgLast
  lookupReq := McuProc.lookupReq s.decoder.mcu (s.mcuInput frame cycle)
  lookupTable := JpegDht.tableIndex (McuProc.lookupTable s.decoder.mcu)
  lookupInput := McuProc.lookupInput (s.mcuInput frame cycle)

/-- The pins of `jpeg_idct`. -/
def idctInput : JpegIdct.Input where
  rst := cycle.rst
  imgStart := cycle.imgStart
  inportValid := s.dqt.outport.validQ
  inportData := s.dqt.outport.dataQ
  inportIdx := s.dqt.outport.idxQ
  inportEob := s.dqt.outport.eobQ
  inportId := s.dqt.outport.idQ
  outportAccept := cycle.outportAccept

/-- The registers after the clock edge. -/
def step : State where
  decoder := s.decoder.step (s.decoderCycle frame cycle)
  dht := s.dht.step (s.dhtInput frame cycle)
  dqt := JpegDqt.step s.dqt (s.dqtInput frame cycle)
  idct := s.idct.step (s.idctInput cycle)

/-- The three modules of the chain step as they do alone. -/
theorem chain_step :
    (s.step frame cycle).chain =
      s.chain.step frame (s.chainCycle cycle) := rfl

end State

/-- The headers are over, and nothing of the scan is under way. -/
structure State.Ready (s : State) (source : List Byte) : Prop where
  decoder : ∃ ramQ, s.decoder = .initial ramQ source
  dht : s.dht.Quiet
  inportEmpty : s.dqt.inport.validQ = false ∧ s.dqt.inport.eobQ = false
  outportEmpty : s.dqt.outport.validQ = false ∧ s.dqt.outport.eobQ = false
  idct : s.idct.Empty

/--
A run over the bytes of a scan: `rst_i` and `img_start_i` are low, no table is
defined, and the end of the scan is marked with its last byte or later.
-/
structure Run where
  frame : Frame
  source : List Byte
  first : State
  cycles : Nat → Cycle
  ready : first.Ready source
  noReset : ∀ n, (cycles n).rst = false
  noStart : ∀ n, (cycles n).imgStart = false
  noDht : ∀ n, (cycles n).dhtCfgValid = false
  noDqt : ∀ n, (cycles n).dqtCfgValid = false
  lastAfterAll :
    ∀ n, (cycles n).sourceLast = true →
      let s := trace (State.step frame) first cycles n
      s.decoder.sourceNext (s.decoderCycle frame (cycles n)) = []

namespace Run

variable (run : Run)

/-- The registers before the `n`-th cycle. -/
def stateAt (n : Nat) : State :=
  trace (State.step run.frame) run.first run.cycles n

/-- What the neighbours of the entropy decoder do in the `n`-th cycle. -/
def decoderCycle (n : Nat) : McuProc.Cycle :=
  (run.stateAt n).decoderCycle run.frame (run.cycles n)

/-- The run from the entropy decoder to the coefficient buffer. -/
def chain : CoefficientChain.Scan where
  frame := run.frame
  first := run.first.chain
  cycles n := (run.stateAt n).chainCycle (run.cycles n)
  clean := by
    obtain ⟨ramQ, isInitial⟩ := run.ready.decoder
    have idct := run.ready.idct.ram
    constructor <;>
      simp only [State.chain, isInitial, McuProc.System.initial]
    · rfl
    · rfl
    · rfl
    · rfl
    · exact run.ready.inportEmpty
    · exact run.ready.outportEmpty
    · exact idct.noneReady
    · exact idct.noneStored
    · exact idct.notReading
  noReset := run.noReset
  noStart := run.noStart
  noWrite n := by
    simp [JpegDqt.dqtWrite, CoefficientChain.State.dqtInput,
      State.chainCycle, run.noDqt]

theorem chain_stateAt (n : Nat) :
    run.chain.stateAt n = (run.stateAt n).chain := by
  induction n with
  | zero => rfl
  | succ n inductionHypothesis =>
      have next : run.chain.stateAt (n + 1) =
          (run.chain.stateAt n).step run.frame
            ((run.stateAt n).chainCycle (run.cycles n)) := rfl
      rw [next, inductionHypothesis]
      exact (State.chain_step run.frame (run.stateAt n) (run.cycles n)).symm

/-- The inverse transform behind that run is the one of the decoder. -/
theorem chain_idctAt (n : Nat) :
    run.chain.idctAt run.first.idct n = (run.stateAt n).idct := by
  induction n with
  | zero => rfl
  | succ n inductionHypothesis =>
      have next : run.chain.idctAt run.first.idct (n + 1) =
          (run.chain.idctAt run.first.idct n).step (run.chain.idctPins n) :=
        rfl
      rw [next, inductionHypothesis, Scan.idctPins, chain_stateAt]
      rfl

/-- The samples that left before the `n`-th cycle. -/
def samplesAt (n : Nat) : List JpegIdct.Sample :=
  JpegIdct.samplesAt (fun m => (run.stateAt m).idct) n

/-- The blocks that the entropy decoder has ended before the `n`-th cycle. -/
def blocksEnded : Nat → Nat
  | 0 => 0
  | n + 1 =>
      blocksEnded n + (McuProc.outportEob (run.stateAt n).decoder.mcu).toNat

/-- No block began at the end of the image before the `n`-th cycle. -/
def ImageOpen (n : Nat) : Prop :=
  ∀ m < n, McuProc.OpenAtStart (run.stateAt m).decoder

end Run

end CoreJpeg.JpegCore
