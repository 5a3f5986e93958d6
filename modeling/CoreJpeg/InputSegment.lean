import CoreJpeg.InputModel
import Mathlib.Tactic.NormNum
import Mathlib.Data.List.TakeDrop

namespace CoreJpeg.JpegInput

open Clocked

/-!
# Segment lengths at the front end

A segment after its marker is a 16-bit length field followed by its payload.
The front end walks it through a length/length/data triple of states and one
shared counter.  The counter loses the high length byte when the low one is
loaded, so the number of payload bytes depends on the low byte alone:
`payloadCount` states it for every value, and the segment is walked as the
software decoder walks it exactly for lengths from 3 to 255.
-/

/-- The segment kinds that own a length/length/data state triple. -/
inductive SegmentKind where
  | skipped
  | dqt
  | dht
  | frame
  | scan
  deriving Repr, DecidableEq

namespace SegmentKind

/-- The state that waits for the high length byte. -/
def lenh : SegmentKind → FsmState
  | .skipped => .uxpLenh
  | .dqt => .dqtLenh
  | .dht => .dhtLenh
  | .frame => .sofLenh
  | .scan => .imgLenh

/-- The state that waits for the low length byte. -/
def lenl : SegmentKind → FsmState
  | .skipped => .uxpLenl
  | .dqt => .dqtLenl
  | .dht => .dhtLenl
  | .frame => .sofLenl
  | .scan => .imgLenl

/-- The state that consumes the payload. -/
def data : SegmentKind → FsmState
  | .skipped => .uxpData
  | .dqt => .dqtData
  | .dht => .dhtData
  | .frame => .sofData
  | .scan => .imgSos

/-- The state entered after the payload. -/
def exit : SegmentKind → FsmState
  | .skipped | .dqt | .dht | .frame => .active
  | .scan => .imgData

/-- The transfers of the kind's configuration port, if it has one. -/
def transfer : SegmentKind → State → Input → List (Byte × Bool)
  | .dqt => dqtTransfer
  | .dht => dhtTransfer
  | _ => fun _ _ => []

/-- A marker code that opens a segment of the kind. -/
def marker : SegmentKind → Byte
  | .skipped => 0xE0
  | .dqt => 0xDB
  | .dht => 0xC4
  | .frame => 0xC0
  | .scan => 0xDA

/-- What the kind's configuration port delivers for one payload byte. -/
def delivered : SegmentKind → Byte × Bool → List (Byte × Bool)
  | .dqt => fun flagged => [flagged]
  | .dht => fun flagged => [flagged]
  | _ => fun _ => []

end SegmentKind

/-- A cycle in which neither the reset nor the end-of-stream pin is raised. -/
def Streaming (_ : State) (i : Input) : Prop :=
  i.rst = false ∧ i.inportLast = false

instance (s : State) (i : Input) : Decidable (Streaming s i) :=
  inferInstanceAs (Decidable (_ ∧ _))

/-- The bytes consumed along a run. -/
abbrev acceptedBytes : State → List Input → List Byte :=
  observe step acceptedByte

/-- Payload bytes with a raised flag on the last one. -/
def flagLast : List Byte → List (Byte × Bool)
  | [] => []
  | [byte] => [(byte, true)]
  | byte :: next :: rest => (byte, false) :: flagLast (next :: rest)

/-- The configuration port carries exactly these flagged bytes. -/
def PortCarries
    (kind : SegmentKind) (s : State) (cycles : List Input)
    (flagged : List (Byte × Bool)) : Prop :=
  observe step kind.transfer s cycles = flagged.flatMap kind.delivered

/-- A state some run from reset leads to. -/
def Reachable (s : State) : Prop :=
  ∃ before, run step reset before = s

/--
The front end walks a segment whose length field is `length` as the software
decoder does.  While fewer bytes were consumed than `SkipSegment` advances
over it is in the data state; with the byte that completes the segment it
leaves.  The configuration port has carried exactly the payload bytes, with
the last flag on the completing one.
-/
def WalksSegment (kind : SegmentKind) (length : Nat) : Prop :=
  ∀ (src : List Byte) (stop count : Nat) (s : State) (cycles : List Input),
    SoftwareDecoder.getWord src 0 = length →
    SoftwareDecoder.skipSegment src 0 = some stop →
    Reachable s →
    s.stateQ = kind.lenh →
    Along step Streaming s cycles →
    acceptedBytes s cycles = src.take count →
    2 ≤ count →
      (count < stop →
        (run step s cycles).stateQ = kind.data ∧
          PortCarries kind s cycles
            (((src.take count).drop 2).map fun byte => (byte, false))) ∧
      (count = stop →
        ∀ past now,
          cycles = past ++ [now] →
          accepts (run step s past) now = true →
            (run step s cycles).stateQ = kind.exit ∧
              PortCarries kind s cycles
                (flagLast ((src.take count).drop 2)))

/-! ## One cycle inside a segment -/

section Cycle

variable {kind : SegmentKind} {s : State} {i : Input}

/-- The high length byte moves the walk to the low one. -/
theorem lenh_step
    (atLenh : s.stateQ = kind.lenh)
    (streaming : Streaming s i) :
    (step s i).stateQ = if accepts s i then kind.lenl else kind.lenh := by
  obtain ⟨running, notLast⟩ := streaming
  cases kind <;>
    simp_all [step, nextStateR, caseNextR, accepts, inportAcceptW,
      SegmentKind.lenh, SegmentKind.lenl]

/-- The low length byte moves the walk to the payload and loads the counter. -/
theorem lenl_step
    (atLenl : s.stateQ = kind.lenl)
    (streaming : Streaming s i) :
    (step s i).stateQ = (if accepts s i then kind.data else kind.lenl) ∧
      (step s i).lengthQ = (dataR s i).setWidth 16 - 2 := by
  obtain ⟨running, notLast⟩ := streaming
  cases kind <;>
    simp_all [step, nextStateR, caseNextR, accepts, inportAcceptW,
      lengthNext, SegmentKind.lenl, SegmentKind.data]

/-- A payload byte decrements the counter and leaves when it was at most one. -/
theorem data_step
    (atData : s.stateQ = kind.data)
    (streaming : Streaming s i) :
    (step s i).stateQ =
        (if accepts s i ∧ s.lengthQ ≤ 1 then kind.exit else kind.data) ∧
      (step s i).lengthQ =
        (if accepts s i then s.lengthQ - 1 else s.lengthQ) := by
  obtain ⟨running, notLast⟩ := streaming
  cases kind <;>
    simp_all [step, nextStateR, caseNextR, accepts, inportAcceptW,
      lengthNext, SegmentKind.data, SegmentKind.exit]

/-- The configuration port delivers nothing before the payload. -/
theorem transfer_before_data
    (before : s.stateQ = kind.lenh ∨ s.stateQ = kind.lenl) :
    kind.transfer s i = [] := by
  cases kind <;> rcases before with atLenh | atLenl <;>
    simp_all [SegmentKind.transfer, dqtTransfer, dhtTransfer,
      dqtCfgValidO, dhtCfgValidO, SegmentKind.lenh, SegmentKind.lenl]

/-- The configuration port delivers each payload byte as it is consumed. -/
theorem transfer_data
    (atData : s.stateQ = kind.data)
    (streaming : Streaming s i) :
    kind.transfer s i =
      if accepts s i then
        kind.delivered (dataR s i, s.lengthQ == 1)
      else [] := by
  obtain ⟨running, notLast⟩ := streaming
  cases kind <;>
    simp_all [SegmentKind.transfer, SegmentKind.delivered, dqtTransfer,
      dhtTransfer, dqtCfgValidO, dhtCfgValidO, dqtCfgDataO, dhtCfgDataO,
      dqtCfgLastO, dhtCfgLastO, accepts, inportAcceptW, SegmentKind.data]

end Cycle

/-! ## The length counter -/

/-- The payload bytes the counter waits for after a low length byte. -/
def payloadCount (low : Byte) : Nat :=
  if low.toNat < 2 then 65534 + low.toNat else max (low.toNat - 2) 1

/-- The counter after a low length byte and some payload bytes. -/
def counterAfter (low : Byte) (consumed : Nat) : BitVec 16 :=
  low.setWidth 16 - 2 - BitVec.ofNat 16 consumed

/-- The counter reads at most one exactly before the completing byte. -/
theorem counterAfter_le_one
    {low : Byte} {consumed : Nat}
    (inside : consumed < payloadCount low) :
    counterAfter low consumed ≤ 1 ↔
      consumed + 1 = payloadCount low := by
  simp only [payloadCount] at inside ⊢
  simp only [counterAfter]
  split at inside <;> split <;> bv_omega

/-- The counter reads one before the completing byte, unless the low byte is 2. -/
theorem counterAfter_eq_one
    {low : Byte} {consumed : Nat}
    (inside : consumed < payloadCount low) :
    counterAfter low consumed = 1 ↔
      consumed + 1 = payloadCount low ∧ low ≠ 2 := by
  simp only [payloadCount] at inside ⊢
  simp only [counterAfter]
  split at inside <;> split <;> bv_omega

/-- A consumed payload byte decrements the counter. -/
theorem counterAfter_succ (low : Byte) (consumed : Nat) :
    counterAfter low consumed - 1 = counterAfter low (consumed + 1) := by
  simp only [counterAfter, BitVec.ofNat_add]
  bv_omega

/-! ## Runs through a segment -/

/--
What a run from the first length state has established, by the bytes consumed
so far: the length states before two bytes, then the data state with the
counter still to run down.
-/
def Walked
    (kind : SegmentKind) (consumed : List Byte)
    (carried : List (Byte × Bool)) (now : State) : Prop :=
  match consumed with
  | [] => now.stateQ = kind.lenh ∧ carried = []
  | [_] => now.stateQ = kind.lenl ∧ carried = []
  | _ :: low :: payload =>
      payload.length < payloadCount low →
        now.stateQ = kind.data ∧
          now.lengthQ = counterAfter low payload.length ∧
          carried =
            (payload.map fun byte => (byte, false)).flatMap kind.delivered

/-- One streaming cycle extends the established walk. -/
theorem Walked.step
    {kind : SegmentKind} {consumed : List Byte}
    {carried : List (Byte × Bool)} {now : State} {cycle : Input}
    (walked : Walked kind consumed carried now)
    (streaming : Streaming now cycle) :
    Walked kind (consumed ++ acceptedByte now cycle)
      (carried ++ kind.transfer now cycle)
      (JpegInput.step now cycle) := by
  match consumed with
  | [] =>
      obtain ⟨atLenh, nothing⟩ := walked
      have next := lenh_step atLenh streaming
      have silent := transfer_before_data (i := cycle) (.inl atLenh)
      cases taken : accepts now cycle <;>
        simp_all [Walked, acceptedByte]
  | [high] =>
      obtain ⟨atLenl, nothing⟩ := walked
      have next := lenl_step atLenl streaming
      have silent := transfer_before_data (i := cycle) (.inr atLenl)
      cases taken : accepts now cycle <;>
        simp_all [Walked, acceptedByte, counterAfter]
  | high :: low :: payload =>
      cases taken : accepts now cycle with
      | false =>
          intro inside
          simp only [acceptedByte, taken] at inside ⊢
          have before := walked (by simpa using inside)
          have next := data_step before.1 streaming
          have silent := transfer_data before.1 streaming
          simp_all
      | true =>
          simp only [acceptedByte, taken, if_true, List.cons_append]
          intro inside
          rw [List.length_append, List.length_singleton] at inside ⊢
          have before := walked (by omega)
          have next := data_step before.1 streaming
          have transfer := transfer_data before.1 streaming
          have staying : ¬ now.lengthQ ≤ 1 := by
            rw [before.2.1, counterAfter_le_one (by omega)]
            omega
          have unflagged : (now.lengthQ == 1) = false := by
            rw [before.2.1, beq_eq_false_iff_ne, ne_eq,
              counterAfter_eq_one (by omega)]
            omega
          refine ⟨?_, ?_, ?_⟩
          · rw [next.1, if_neg fun leaving => staying leaving.2]
          · rw [next.2, taken, if_pos rfl, before.2.1, counterAfter_succ]
          · rw [transfer, taken, if_pos rfl, before.2.2, unflagged]
            simp [List.flatMap_append]

/-- Every streaming run from the first length state walks the segment. -/
theorem run_walked
    {kind : SegmentKind} {s : State}
    (atLenh : s.stateQ = kind.lenh)
    {cycles : List Input}
    (streaming : Along step Streaming s cycles) :
    Walked kind (acceptedBytes s cycles)
      (observe step kind.transfer s cycles) (run step s cycles) := by
  refine run_induction
    (motive := fun past now =>
      Walked kind (acceptedBytes s past)
        (observe step kind.transfer s past) now)
    ⟨atLenh, rfl⟩ ?_ cycles streaming
  intro past cycle _ cycleStreaming walked
  simpa using walked.step cycleStreaming

/-- The counter always waits for at least one payload byte. -/
theorem payloadCount_pos (low : Byte) : 0 < payloadCount low := by
  simp only [payloadCount]
  split <;> omega

/-- The byte that runs the counter down leaves the segment. -/
theorem run_leaves
    {kind : SegmentKind} {s : State}
    (atLenh : s.stateQ = kind.lenh)
    {past : List Input} {now : Input}
    (streaming : Along step Streaming s (past ++ [now]))
    (taken : accepts (run step s past) now = true)
    {high low final : Byte} {payload : List Byte}
    (consumed :
      acceptedBytes s (past ++ [now]) =
        high :: low :: (payload ++ [final]))
    (complete : payload.length + 1 = payloadCount low) :
    (run step s (past ++ [now])).stateQ = kind.exit ∧
      PortCarries kind s (past ++ [now])
        (payload.map (fun byte => (byte, false)) ++
          [(final, decide (low ≠ 2))]) := by
  rw [along_append] at streaming
  have nowStreaming : Streaming (run step s past) now := streaming.2.1
  have split :
      acceptedBytes s past ++ [dataR (run step s past) now] =
        (high :: low :: payload) ++ [final] := by
    simpa [acceptedBytes, acceptedByte, taken] using consumed
  obtain ⟨before, sameByte⟩ := List.append_inj' split rfl
  have walked := run_walked atLenh streaming.1
  rw [before] at walked
  obtain ⟨atData, counter, carried⟩ := walked (by omega)
  have lastByte : (run step s past).lengthQ ≤ 1 := by
    rw [counter, counterAfter_le_one (by omega)]
    exact complete
  have flagged :
      ((run step s past).lengthQ == 1) = decide (low ≠ 2) := by
    rw [counter, Bool.beq_eq_decide_eq, decide_eq_decide,
      counterAfter_eq_one (by omega)]
    exact ⟨And.right, fun notTwo => ⟨complete, notTwo⟩⟩
  have next := data_step atData nowStreaming
  have transfer := transfer_data atData nowStreaming
  refine ⟨?_, ?_⟩
  · rw [run_append, run_cons, run_nil, next.1, if_pos ⟨taken, lastByte⟩]
  · simp only [PortCarries, observe_append, observe_cons, observe_nil,
      List.append_nil, List.flatMap_append]
    rw [carried, transfer, taken, if_pos rfl, flagged,
      List.singleton_inj.mp sameByte]
    simp

/-! ## Presenting given bytes -/

/-- A cycle that presents one byte in every lane, with every port ready. -/
def present (byte : Byte) : Input where
  rst := false
  inportValid := true
  inportData := byte ++ byte ++ byte ++ byte
  inportStrb := 15
  inportLast := false
  dqtCfgAccept := true
  dhtCfgAccept := true
  dataAccept := true

/-- Every lane of a repeated byte holds that byte. -/
theorem getLsbD_repeated
    (byte : Byte)
    {bit : Nat}
    (inByte : bit < 8)
    (lane : Nat)
    (inWord : lane < 4) :
    (byte ++ byte ++ byte ++ byte).getLsbD (8 * lane + bit) = byte[bit] := by
  have below (number : Nat) : ¬ 8 * (number + 1) + bit < 8 := by
    omega
  have down (number : Nat) :
      8 * (number + 1) + bit - 8 = 8 * number + bit := by
    omega
  have lowest : 8 * 0 + bit < 8 := by
    omega
  rw [← BitVec.getLsbD_eq_getElem]
  simp only [BitVec.getLsbD_append]
  rcases lane with _ | _ | _ | _ | lane
  · rw [if_pos lowest, Nat.mul_zero, Nat.zero_add]
  · simp only [below, down, if_false, if_pos inByte, Nat.mul_zero,
      Nat.zero_add]
  · simp only [below, down, if_false, if_pos inByte, Nat.mul_zero,
      Nat.zero_add]
  · simp only [below, down, if_false, Nat.mul_zero, Nat.zero_add]
  · omega

theorem dataR_present (s : State) (byte : Byte) :
    dataR s (present byte) = byte := by
  have lanes :
      (byte ++ byte ++ byte ++ byte).extractLsb' 0 8 = byte ∧
        (byte ++ byte ++ byte ++ byte).extractLsb' 8 8 = byte ∧
        (byte ++ byte ++ byte ++ byte).extractLsb' 16 8 = byte ∧
        (byte ++ byte ++ byte ++ byte).extractLsb' 24 8 = byte := by
    refine ⟨?_, ?_, ?_, ?_⟩ <;>
      (ext bit inByte
       rw [BitVec.getElem_extractLsb'])
    · exact getLsbD_repeated byte inByte 0 (by decide)
    · exact getLsbD_repeated byte inByte 1 (by decide)
    · exact getLsbD_repeated byte inByte 2 (by decide)
    · exact getLsbD_repeated byte inByte 3 (by decide)
  simp only [dataR, present]
  split <;> simp [lanes]

theorem accepts_present (s : State) (byte : Byte) :
    accepts s (present byte) = true := by
  simp only [accepts, inportAcceptW, present]
  split <;> simp

/-- Presented bytes are consumed one per cycle. -/
theorem acceptedBytes_present (s : State) (bytes : List Byte) :
    acceptedBytes s (bytes.map present) = bytes := by
  induction bytes generalizing s with
  | nil =>
      rfl
  | cons byte rest inductionHypothesis =>
      simp [acceptedByte, accepts_present, dataR_present,
        inductionHypothesis]

theorem streaming_present (s : State) (bytes : List Byte) :
    Along step Streaming s (bytes.map present) := by
  induction bytes generalizing s with
  | nil =>
      trivial
  | cons byte rest inductionHypothesis =>
      exact ⟨⟨rfl, rfl⟩, inductionHypothesis _⟩

/-! ## The exact lengths -/

theorem flagLast_append (payload : List Byte) (final : Byte) :
    flagLast (payload ++ [final]) =
      payload.map (fun byte => (byte, false)) ++ [(final, true)] := by
  induction payload with
  | nil =>
      rfl
  | cons byte rest inductionHypothesis =>
      cases rest with
      | nil =>
          rfl
      | cons next later =>
          simpa [flagLast] using inductionHypothesis

/--
The software decoder advances by the length field of a whole segment, whose
two bytes lead the source.
-/
theorem skipSegment_eq_some
    {src : List Byte} {length stop : Nat}
    (lengthField : SoftwareDecoder.getWord src 0 = length)
    (skipped : SoftwareDecoder.skipSegment src 0 = some stop) :
    stop = length ∧ 2 ≤ length ∧ length ≤ src.length ∧
      ∃ high low rest,
        src = high :: low :: rest ∧
          high.toNat * 256 + low.toNat = length := by
  simp only [SoftwareDecoder.skipSegment, lengthField] at skipped
  split at skipped
  · cases skipped
  · split at skipped
    · cases skipped
    · split at skipped
      · cases skipped
      · simp only [Option.some.injEq] at skipped
        refine ⟨by omega, by omega, by omega, ?_⟩
        rcases src with _ | ⟨high, _ | ⟨low, rest⟩⟩
        · simp at *
        · simp at *
        · exact ⟨high, low, rest, rfl, lengthField⟩

/--
A length whose low byte makes the counter wait for its whole payload, and
raise the flag on its last byte, is walked exactly.
-/
theorem walksSegment_of_oneByte
    (kind : SegmentKind) {length : Nat}
    (short : 3 ≤ length)
    (oneByte : length ≤ 255) :
    WalksSegment kind length := by
  intro src stop count s cycles lengthField skipped _ atLenh streaming
    consumed atLeastLength
  obtain ⟨stopLength, _, lengthInside, high, low, rest, srcShape,
    lengthBytes⟩ := skipSegment_eq_some lengthField skipped
  subst stop srcShape
  have lowBound := low.isLt
  have countsAll : payloadCount low + 2 = length := by
    simp only [payloadCount]
    split <;> omega
  obtain ⟨extra, rfl⟩ : ∃ extra, count = extra + 2 :=
    ⟨count - 2, by omega⟩
  simp only [List.take_succ_cons] at consumed
  simp only [List.length_cons] at lengthInside
  simp only [List.take_succ_cons, List.drop_succ_cons, List.drop_zero]
  refine ⟨?_, ?_⟩
  · intro unfinished
    have walked := run_walked atLenh streaming
    rw [consumed] at walked
    have inside := walked (by rw [List.length_take]; omega)
    exact ⟨inside.1, inside.2.2⟩
  · intro finished past now shape taken
    subst shape
    have takenLength : (rest.take extra).length = payloadCount low := by
      rw [List.length_take]
      omega
    obtain ⟨payload, final, payloadShape⟩ :
        ∃ payload final, rest.take extra = payload ++ [final] := by
      have nonempty : rest.take extra ≠ [] := by
        rw [← List.length_pos_iff, takenLength]
        exact payloadCount_pos low
      exact ⟨_, _, (List.dropLast_concat_getLast nonempty).symm⟩
    rw [payloadShape] at consumed takenLength ⊢
    rw [List.length_append, List.length_singleton] at takenLength
    have left := run_leaves atLenh streaming taken consumed takenLength
    have notTwo : low ≠ 2 := by
      intro isTwo
      have value := congrArg BitVec.toNat isTwo
      simp at value
      omega
    rw [decide_eq_true notTwo] at left
    rwa [flagLast_append]

/-- A segment with a given length field and a payload of zeros. -/
def zeroSegment (length : Nat) : List Byte :=
  BitVec.ofNat 8 (length / 256) :: BitVec.ofNat 8 (length % 256) ::
    List.replicate (length - 2) 0

/-- A prefix of the zero segment that holds the length field. -/
theorem zeroSegment_take (length extra : Nat) (inside : extra ≤ length - 2) :
    (zeroSegment length).take (extra + 2) =
      BitVec.ofNat 8 (length / 256) :: BitVec.ofNat 8 (length % 256) ::
        List.replicate extra 0 := by
  simp [zeroSegment, List.take_replicate, inside]

/-- The software decoder skips the whole zero segment. -/
theorem skipSegment_zeroSegment
    {length : Nat}
    (atLeastLength : 2 ≤ length)
    (atMostWord : length ≤ 65535) :
    SoftwareDecoder.getWord (zeroSegment length) 0 = length ∧
      SoftwareDecoder.skipSegment (zeroSegment length) 0 = some length := by
  have lengthField :
      SoftwareDecoder.getWord (zeroSegment length) 0 = length := by
    simp [zeroSegment, SoftwareDecoder.getWord]
    omega
  have srcLength : (zeroSegment length).length = length := by
    simp [zeroSegment]
    omega
  refine ⟨lengthField, ?_⟩
  rw [SoftwareDecoder.skipSegment, lengthField, srcLength,
    if_neg (by omega), if_neg (by omega), if_neg (by omega), Nat.zero_add]

/-- The bytes that lead from reset to the length states of a kind. -/
def opening (kind : SegmentKind) : List Byte :=
  [0xFF, 0xD8, 0xFF, kind.marker]

/-- The state after the opening bytes of a kind. -/
def startOf (kind : SegmentKind) : State :=
  run step reset ((opening kind).map present)

theorem startOf_stateQ (kind : SegmentKind) :
    (startOf kind).stateQ = kind.lenh := by
  cases kind <;> decide

/-- The walk of presented zero payload is in the data state until it completes. -/
theorem zeroSegment_inside
    (kind : SegmentKind) {length extra : Nat}
    (fits : extra ≤ length - 2)
    (inside : extra < payloadCount (BitVec.ofNat 8 (length % 256))) :
    (run step (startOf kind)
      (((zeroSegment length).take (extra + 2)).map present)).stateQ =
        kind.data := by
  have walked :=
    run_walked (startOf_stateQ kind)
      (streaming_present _ ((zeroSegment length).take (extra + 2)))
  rw [acceptedBytes_present, zeroSegment_take length extra fits] at walked
  rw [zeroSegment_take length extra fits]
  exact (walked (by simpa using inside)).1

/-- The walk of presented zero payload leaves with the completing byte. -/
theorem zeroSegment_leaves
    (kind : SegmentKind) {length extra : Nat}
    (fits : extra + 1 ≤ length - 2)
    (complete :
      extra + 1 = payloadCount (BitVec.ofNat 8 (length % 256))) :
    (run step (startOf kind)
      (((zeroSegment length).take (extra + 3)).map present)).stateQ =
        kind.exit := by
  have shape :
      ((zeroSegment length).take (extra + 3)).map present =
        ((zeroSegment length).take (extra + 2)).map present ++
          [present 0] := by
    rw [zeroSegment_take length (extra + 1) fits,
      zeroSegment_take length extra (by omega)]
    simp [List.replicate_succ']
  have consumed :
      acceptedBytes (startOf kind)
          (((zeroSegment length).take (extra + 2)).map present ++
            [present 0]) =
        BitVec.ofNat 8 (length / 256) :: BitVec.ofNat 8 (length % 256) ::
          (List.replicate extra 0 ++ [0]) := by
    rw [← shape, acceptedBytes_present,
      zeroSegment_take length (extra + 1) fits, List.replicate_succ']
  have streaming :
      Along step Streaming (startOf kind)
        (((zeroSegment length).take (extra + 2)).map present ++
          [present 0]) := by
    rw [← shape]
    exact streaming_present _ _
  rw [shape]
  exact (run_leaves (startOf_stateQ kind) streaming (accepts_present _ 0)
    consumed (by simpa using complete)).1

/-- A kind's data state and exit state differ. -/
theorem data_ne_exit (kind : SegmentKind) : kind.data ≠ kind.exit := by
  cases kind <;> decide

/-- A segment walked exactly has the payload the counter waits for. -/
theorem payloadCount_of_walksSegment
    {kind : SegmentKind} {length : Nat}
    (atLeastLength : 2 ≤ length)
    (atMostWord : length ≤ 65535)
    (walks : WalksSegment kind length) :
    payloadCount (BitVec.ofNat 8 (length % 256)) + 2 = length := by
  obtain ⟨lengthField, skipped⟩ :=
    skipSegment_zeroSegment atLeastLength atMostWord
  have outcome (extra : Nat) :=
    walks (zeroSegment length) length (extra + 2) (startOf kind)
      (((zeroSegment length).take (extra + 2)).map present)
      lengthField skipped ⟨_, rfl⟩ (startOf_stateQ kind)
      (streaming_present _ _)
      (acceptedBytes_present _ _) (by omega)
  have positive :=
    payloadCount_pos (BitVec.ofNat 8 (length % 256))
  by_contra different
  rcases Nat.lt_or_gt_of_ne different with early | late
  · -- the counter runs down while payload is left
    obtain ⟨extra, complete⟩ :
        ∃ extra,
          extra + 1 = payloadCount (BitVec.ofNat 8 (length % 256)) :=
      ⟨_, Nat.sub_add_cancel positive⟩
    have stays := ((outcome (extra + 1)).1 (by omega)).1
    have leaves := zeroSegment_leaves kind (by omega) complete
    exact data_ne_exit kind (stays.symm.trans leaves)
  · -- the counter still waits after the whole payload
    obtain ⟨extra, rfl⟩ : ∃ extra, length = extra + 2 :=
      ⟨length - 2, by omega⟩
    have stays :=
      @zeroSegment_inside kind (extra + 2) extra (by omega) (by omega)
    obtain ⟨past, now, shape⟩ :
        ∃ past now,
          ((zeroSegment (extra + 2)).take (extra + 2)).map present =
            past ++ [present now] := by
      generalize prefixShape :
        (zeroSegment (extra + 2)).take (extra + 2) = bytes
      have nonempty : bytes ≠ [] := by
        simp [← prefixShape, zeroSegment]
      refine ⟨bytes.dropLast.map present, bytes.getLast nonempty, ?_⟩
      rw [← List.map_singleton, ← List.map_append,
        List.dropLast_concat_getLast nonempty]
    have leaves :=
      ((outcome extra).2 rfl past (present now) shape
        (accepts_present _ _)).1
    exact data_ne_exit kind (stays.symm.trans leaves)

/--
For every segment kind and every legal length field, the front end walks the
segment as the software decoder does exactly when the length is at least 3
and fits in one byte.
-/
theorem walksSegment_iff
    (kind : SegmentKind) (length : Nat)
    (atLeastLength : 2 ≤ length)
    (atMostWord : length ≤ 65535) :
    WalksSegment kind length ↔ 3 ≤ length ∧ length ≤ 255 := by
  constructor
  · intro walks
    have exactCount := payloadCount_of_walksSegment atLeastLength atMostWord walks
    simp only [payloadCount, BitVec.toNat_ofNat] at exactCount
    split at exactCount <;> omega
  · rintro ⟨short, oneByte⟩
    exact walksSegment_of_oneByte kind short oneByte

/-- The 16-byte APP0 segment of a JFIF file is walked exactly. -/
theorem walksSegment_jfif : WalksSegment .skipped 16 :=
  (walksSegment_iff .skipped 16 (by decide) (by decide)).mpr
    ⟨by decide, by decide⟩

/--
A skipped segment of length 258 is not walked: its low length byte is 2, so
the front end leaves it after one of its 256 payload bytes.
-/
theorem skipped_258_not_walked : ¬ WalksSegment .skipped 258 := by
  intro walks
  have counted := payloadCount_of_walksSegment (by decide) (by decide) walks
  simp [payloadCount] at counted

end CoreJpeg.JpegInput
