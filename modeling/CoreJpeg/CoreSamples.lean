import CoreJpeg.CoreProgress
import CoreJpeg.IdctTiming
import CoreJpeg.McuPosition

namespace CoreJpeg.JpegCore

open Clocked CoefficientChain McuProc

/-!
# The samples of an image and those behind it

Each sample of the image leaves with the row and the column of its block.
Behind the last block the decoder sends end pulses of its own in every cycle.
Most of them find no slot, yet their ids are queued; since it is always the same
id, of the type `BLOCK_EOF`, whatever leaves behind the image can be told from
it.
-/

/-- The transform in the decoder runs as it does alone. -/
theorem idct_runs (run : Run) :
    JpegIdct.Run (fun n => (run.stateAt n).idct) run.chain.idctPins := by
  have same : run.chain.idctAt run.first.idct =
      fun n => (run.stateAt n).idct :=
    funext run.chain_idctAt
  exact same ▸ idctRun run

/-- A sample leaves only when its block was ended. -/
theorem ended_of_leaves
    {run : Run}
    {n : Nat}
    (leaves : (run.stateAt n).idct.outportValid = true) :
    (run.samplesAt n).length / 64 < run.blocksEnded n := by
  have closed := (idct_runs run).closed_of_leaves leaves
  obtain ⟨before, rfl, -⟩ := (idct_runs run).sample_leaves leaves
  have same : run.chain.idctAt run.first.idct =
      fun n => (run.stateAt n).idct :=
    funext run.chain_idctAt
  have counted : (JpegIdct.blocksAt (run.chain.idctAt run.first.idct)
      run.chain.idctPins (before + 86 + 2)).length ≤
        run.chain.endsBefore (before + 86) :=
    Scan.blocks_le (before + 86)
  rw [same, endsBefore_eq] at counted
  have later : run.blocksEnded (before + 86) ≤ run.blocksEnded (before + 88) :=
    blocksEnded_mono (by omega)
  exact Nat.lt_of_lt_of_le closed (counted.trans later)

section Image

variable {run : Run} {image : Image} {scan : EntropyCode.Scan}
variable {padding : List Bool}

/-! ## The samples of the image -/

/-- The id that the decoder shows at the end of a block gives its place. -/
theorem CarriesImage.id_eq
    (carriesImage : CarriesImage run image scan padding)
    (full : image.mode ≠ .ycbcr420)
    {sent index : Nat}
    (ends : Ends run scan sent index) :
    outportId (run.stateAt sent).decoder.mcu =
      idOf (scan.order index) (index / mcuBlocks image.mode / image.columns)
        (index / mcuBlocks image.mode % image.columns) := by
  have inScan := ends.inScan
  rw [← ends.counted] at inScan
  obtain ⟨-, here, coded, atBlock⟩ := carriesImage.atBlock inScan
  obtain ⟨bits, frame⟩ := atBlock.decoding.frame
  have counted := frame.counted
  rw [finished_length, ends.counted] at counted
  subst counted
  have order := carriesImage.carries.inOrder
  rw [carriesImage.modeKept] at order
  have isRow : (run.stateAt sent).decoder.mcu.id.blockYQ.setWidth 14 =
      BitVec.ofNat 14 (index / mcuBlocks image.mode / image.columns) := by
    rw [← atBlock.placed.row full]
    simp
  rw [outportId, IdState.blockId, idOf, frame.atBlock.typed, isRow, order,
    ← atBlock.placed.column full, BitVec.ofNat_toNat, BitVec.setWidth_eq]

/-- What a sample of the image shows when it leaves. -/
theorem CarriesImage.sample_shows
    (carriesImage : CarriesImage run image scan padding)
    (full : image.mode ≠ .ycbcr420)
    {n index : Nat}
    (leaves : (run.stateAt n).idct.outportValid = true)
    (isIndex : (run.samplesAt n).length / 64 = index)
    (inScan : index < scan.blocks.length) :
    (run.stateAt n).idct.outportId =
        idOf (scan.order index) (index / mcuBlocks image.mode / image.columns)
          (index / mcuBlocks image.mode % image.columns) ∧
      (run.stateAt n).idct.outportData =
        Software.idctProcessWrap (Scan.wordOf (run.blockOf scan index))
          (run.stateAt n).idct.outportIdx.toNat := by
  have counted := ended_of_leaves leaves
  rw [isIndex] at counted
  obtain ⟨sent, ends⟩ := carriesImage.ends_of_counted inScan counted
  have isSample : (run.samplesAt (n + 1))[(run.samplesAt n).length]? = _ :=
    JpegIdct.Run.samplesAt_kept (s := fun m => (run.stateAt m).idct) leaves
      (Nat.lt_succ_self n)
  rw [← Nat.div_add_mod (run.samplesAt n).length 64, isIndex] at isSample
  obtain ⟨here, -, data⟩ := ends.sample carriesImage.carries
    (Nat.mod_lt _ (by decide)) isSample
  exact ⟨here.trans (carriesImage.id_eq full ends), data⟩

/-! ## The decoder behind the image -/

/-- The decoder begins no block any more, and its counters stay. -/
structure Rested (row column : BitVec 16) (s : McuProc.State) : Prop where
  state : s.stateQ = .idle ∨ s.stateQ = .eof
  ended : s.id.endOfImageQ = true
  first : s.coeffIdxQ = 0
  row : s.id.blockYQ = row
  column : s.id.blockXQ = column
  typed : s.stateQ = .eof → s.id.blockTypeQ = .eof

/-- The id that the decoder shows behind the image. -/
def eofId (row column : BitVec 16) : BitVec 32 :=
  BlockType.eof.code ++ row.setWidth 14 ++ column

theorem typeOf_eofId (row column : BitVec 16) :
    JpegOutput.typeOf (eofId row column) = BlockType.eof.code :=
  code_of_id _ _ _

/-- In 4:4:4 a decoder that rests goes on resting. -/
theorem Rested.step
    {row column : BitVec 16} {s : McuProc.State} {i : McuProc.Input}
    (rested : Rested row column s)
    (running : i.rst = false ∧ i.imgStart = false)
    (colour : i.imgMode = .ycbcr444) :
    Rested row column (McuProc.step s i) := by
  obtain ⟨noReset, noStart⟩ := running
  have noEnd : nextBlock s = false := by
    rcases rested.state with state | state <;> simp [nextBlock, state]
  have ended := rested.ended
  have id : (McuProc.step s i).id =
      { s.id with
        blockTypeQ := (s.id.typeNext (idInput s i)).1
        typeIdxQ := (s.id.typeNext (idInput s i)).2 } := by
    simp [McuProc.step, noReset, IdState.step, idInput, noStart, noEnd,
      IdState.endsPosition, colour]
  have next : (McuProc.step s i).stateQ = nextStateR s i := by
    simp [McuProc.step, noReset]
  refine ⟨?_, by rw [id]; exact ended, ?_, by rw [id]; exact rested.row,
    by rw [id]; exact rested.column, fun isEof => ?_⟩
  · rw [next]
    rcases rested.state with state | state
    · simp [nextStateR, noStart, state, ended]
      cases i.outportBlkSpace <;> simp
    · simp [nextStateR, noStart, state]
  · have first := rested.first
    rcases rested.state with state | state <;>
      simp [McuProc.step, noReset, coeffIdxNext, noStart, state, first]
  · rw [next] at isEof
    rw [id]
    rcases rested.state with state | state
    · simp [IdState.typeNext, idInput, startBlock, state, isEof, ended]
    · have typed := rested.typed state
      simp [IdState.typeNext, idInput, startBlock, state, typed, colour,
        nextBlock]

/-- The decoder rests behind the last block. -/
theorem CarriesImage.rests
    (carriesImage : CarriesImage run image scan padding)
    (colour : image.mode = .ycbcr444)
    {sent index : Nat}
    (ends : Ends run scan sent index)
    (last : index + 1 = scan.blocks.length)
    {n : Nat}
    (after : sent < n) :
    Rested (run.stateAt (sent + 1)).decoder.mcu.id.blockYQ
      (run.stateAt (sent + 1)).decoder.mcu.id.blockXQ
      (run.stateAt n).decoder.mcu := by
  induction after with
  | refl =>
      have counted := finished_length run sent
      have inScan := ends.inScan
      rw [← ends.counted] at inScan
      obtain ⟨-, here, coded, atBlock⟩ := carriesImage.atBlock inScan
      have allowed := atBlock.allowed carriesImage
      have inOrder := carriesImage.carries.inOrder
      rw [carriesImage.modeKept] at inOrder
      have ending : (run.stateAt sent).decoder.mcu.stateQ = .eob := by
        have ended := ends.ended
        rw [outportEob, Bool.or_eq_true, Bool.and_eq_true, beq_iff_eq,
          beq_iff_eq] at ended
        exact ended.resolve_right fun both =>
          atBlock.decoding.notEof both.1
      have emitting : Emitting scan image padding
          (run.stateAt (sent + 1)).decoder (run.recordAt (sent + 1)) :=
        Emitting.advance
          (.under_way here coded atBlock.here atBlock.decoding atBlock.placed)
          inOrder carriesImage.whole allowed
      have all : (run.recordAt (sent + 1)).finished.length =
          scan.blocks.length := by
        rw [finished_length, Run.blocksEnded, ends.counted, ends.ended,
          Bool.toNat_true, last]
      have next : (run.stateAt (sent + 1)).decoder.mcu.stateQ =
          nextStateR (run.stateAt sent).decoder.mcu
            ((run.stateAt sent).decoder.mcuInput (run.decoderCycle sent)) :=
        step_stateQ allowed.promised
      have isIdle : (run.stateAt (sent + 1)).decoder.mcu.stateQ = .idle := by
        rw [next]
        simp [nextStateR, ending, System.mcuInput, allowed.promised.noStart]
      refine ⟨.inl isIdle, ?_, ?_, rfl, rfl, by simp [isIdle]⟩
      · cases emitting with
        | done done => exact done.ended
        | under_way other following here decoding placed =>
            obtain ⟨bits, frame⟩ := decoding.frame
            have inside := (List.getElem?_eq_some_iff.mp here).1
            have same := frame.counted
            omega
      · have first : (run.stateAt (sent + 1)).decoder.mcu.coeffIdxQ =
            coeffIdxNext (run.stateAt sent).decoder.mcu
              ((run.stateAt sent).decoder.mcuInput
                (run.decoderCycle sent)) :=
          step_coeffIdxQ allowed.promised
        rw [first]
        simp [coeffIdxNext, ending]
  | step later inductionHypothesis =>
      rename_i m
      exact inductionHypothesis.step ⟨run.noReset m, run.noStart m⟩
        (carriesImage.modeKept.trans colour)

/-- What is sent behind the image comes with the id of no block. -/
theorem Rested.sends
    {row column : BitVec 16}
    {n : Nat}
    (rested : Rested row column (run.stateAt n).decoder.mcu)
    (ended : outportEob (run.stateAt n).decoder.mcu = true) :
    (run.chain.idctPins (n + 2)).inportId = eofId row column := by
  have both : (run.stateAt n).decoder.mcu.stateQ = .eof ∧
      (run.stateAt n).decoder.mcu.pushQ = true := by
    rw [outportEob, Bool.or_eq_true, Bool.and_eq_true, beq_iff_eq, beq_iff_eq]
      at ended
    refine ended.resolve_left fun state => ?_
    rcases rested.state with isIdle | isEof
    · simp [isIdle] at state
    · simp [isEof] at state
  have emits : run.chain.emits n = true := by
    rw [Scan.emits, run.chain_stateAt, State.chain, outportValid, both.2,
      rested.first]
    rfl
  have id : (run.chain.idctPins (n + 2)).inportId =
      outportId (run.stateAt n).decoder.mcu := by
    rw [Scan.idctPins, Scan.outport_succ, Scan.inport_succ, emits,
      run.chain_stateAt]
    rfl
  rw [id, outportId, IdState.blockId, rested.typed both.1, rested.row,
    rested.column, eofId]

/-- The samples behind the image leave with one id that is of no block. -/
theorem CarriesImage.behind
    (carriesImage : CarriesImage run image scan padding)
    (colour : image.mode = .ycbcr444) :
    ∃ id, JpegOutput.typeOf id = BlockType.eof.code ∧
      ∀ n, (run.stateAt n).idct.outportValid = true →
        64 * scan.blocks.length ≤ (run.samplesAt n).length →
          (run.stateAt n).idct.outportId = id := by
  by_cases reached : ∃ n, scan.blocks.length ≤ run.blocksEnded n
  · obtain ⟨n, all⟩ := reached
    have blocks := image.blockCount_pos
    rw [← carriesImage.whole] at blocks
    obtain ⟨sent, ends⟩ := carriesImage.ends_of_counted
      (show scan.blocks.length - 1 < scan.blocks.length by omega)
      (show scan.blocks.length - 1 < run.blocksEnded n by omega)
    have last : scan.blocks.length - 1 + 1 = scan.blocks.length := by omega
    obtain ⟨block, isBlock, heeds, -⟩ := ends.closed carriesImage.carries
    have same : run.chain.idctAt run.first.idct =
        fun n => (run.stateAt n).idct :=
      funext run.chain_idctAt
    have counted : (JpegIdct.blocksAt (run.chain.idctAt run.first.idct)
        run.chain.idctPins (sent + 1 + 2)).length ≤
          run.chain.endsBefore (sent + 1) :=
      Scan.blocks_le (sent + 1)
    rw [endsBefore_eq, Run.blocksEnded, ends.counted, ends.ended,
      Bool.toNat_true, last] at counted
    rw [same] at isBlock heeds counted
    refine ⟨eofId (run.stateAt (sent + 1)).decoder.mcu.id.blockYQ
      (run.stateAt (sent + 1)).decoder.mcu.id.blockXQ, typeOf_eofId _ _,
      fun time leaves after => ?_⟩
    refine (idct_runs run).outportId_behind heeds ?_ leaves
      ((Nat.mul_le_mul_left 64 counted).trans after)
    intro m later pulse
    obtain ⟨k, rfl⟩ := Nat.exists_eq_add_of_le' (show 2 ≤ m by omega)
    refine (carriesImage.rests colour ends last (by omega)).sends ?_
    have isPulse : (run.chain.stateAt (k + 2)).dqt.outport.eobQ = true := pulse
    rw [(run.chain.arrives k).2, Scan.ends, run.chain_stateAt] at isPulse
    exact isPulse
  · simp only [not_exists, Nat.not_le] at reached
    refine ⟨eofId 0 0, typeOf_eofId 0 0, fun n leaves after => ?_⟩
    have ended := ended_of_leaves leaves
    have few := reached n
    omega

end Image

end CoreJpeg.JpegCore
