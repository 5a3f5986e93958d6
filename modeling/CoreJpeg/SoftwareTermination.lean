import CoreJpeg.SoftwareFaults
import CoreJpeg.SoftwareReads

namespace CoreJpeg.SoftwareJpegDecoder

open EntropyCode Iteration Software

/-!
# Does the software decoder end?

Every iteration of the marker loop goes on behind the byte that it has read.
An iteration of `DecodeImage` goes on only by the bits of the code words that
it finds: at bits that begin with none of them it stays forever.  This module
shows that nothing else keeps the decoder from ending.  A selector that is no
quantisation table does not end it either: the lookup takes whatever byte the
memory has behind the tables.
-/

section Property

variable (memory : Nat → Nat → Byte)

/-- A byte of the selected table, or of the memory behind the four tables. -/
def Decoder.found (d : Decoder) (x : Fin 3) (position : Nat) : Byte :=
  let selector := (d.dqtTable x).toNat
  if selector < 4 then d.dqt selector position
  else memory selector position

/-- The decoder with the bytes that the lookups of its components find. -/
def Decoder.reading (d : Decoder) : Decoder :=
  { d with
    dqtTable := fun x => BitVec.ofNat 8 x.val
    dqt := fun
      | 0 => d.found memory ⟨0, by decide⟩
      | 1 => d.found memory ⟨1, by decide⟩
      | _ => d.found memory ⟨2, by decide⟩ }

/-- The machine with the bytes that its lookups find. -/
def Machine.reading (m : Machine) : Machine :=
  { m with decoder := m.decoder.reading memory }

/-- One iteration, with lookups that find a byte for every selector. -/
def stepReading (conversion : RgbConversion) (src : List Byte) (m : Machine) :
    Except Stop Machine :=
  match m.phase with
  | .markers => step conversion src m
  | .image _ => do
      let next ← step conversion src (m.reading memory)
      .ok { next with decoder := m.decoder }

/-- `SoftwareDecodeJpeg` for a number of such iterations. -/
def decodeReading (conversion : RgbConversion) (src : List Byte)
    (dst : Destination) (count : Nat) : Except Stop Machine := do
  require (src ≠ [] ∧ dst.capacity ≠ 0)
  iterate (stepReading memory conversion src) count (start dst)

/-- The decoder returns after finitely many iterations. -/
def Terminates (conversion : RgbConversion) (src : List Byte)
    (dst : Destination) : Prop :=
  ∃ count success,
    decodeReading memory conversion src dst count = .error (.returns success)

/--
What the next iteration does is defined: its parser stays in the source, its
Huffman tables are legal, and the image that it decodes has columns.
-/
structure Defined (src : List Byte) (m : Machine) : Prop where
  fits : FitsSource src m
  tables :
    AtMarker src m 0xC4 → HasSegment src (m.i + 1) 2 →
      dhtFault src (src.length - (m.i + 1)) (m.i + 1) = none
  columns :
    ∀ run, m.phase = .image run → run.eof = false → m.decoder.width ≠ 0

/-- The decoder is at an MCU, with bits left that begin no code word. -/
def StuckAt (m : Machine) : Prop :=
  ∃ run, m.phase = .image run ∧ run.eof = false ∧
    ¬ StartsMcu m.decoder run.state.bits

end Property

/-! ## Lookups that find a byte -/

section Reading

variable {memory : Nat → Nat → Byte} {d : Decoder} {capacity : Nat}
variable {conversion : RgbConversion} {src : List Byte}
variable {m next : Machine} {run : ImageRun}

theorem selects_reading (components : List Component) :
    Selects (d.reading memory) components := by
  intro component _
  change (BitVec.ofNat 8 (dqtIdx component).val).toNat < 4
  cases component <;> decide

/-- A component that selects a table is dequantised with it. -/
theorem processSamples_reading
    {component : Component}
    (selected : (d.dqtTable (dqtIdx component)).toNat < 4)
    (samples : List Sample) :
    processSamples (d.reading memory).dqt
        ((d.reading memory).dqtTable (dqtIdx component)).toNat samples =
      processSamples d.dqt (d.dqtTable (dqtIdx component)).toNat samples := by
  have number :
      ((d.reading memory).dqtTable (dqtIdx component)).toNat =
        (dqtIdx component).val := by
    cases component <;> rfl
  have few : (dqtIdx component).val < 4 := by
    omega
  have found (position : Nat) :
      (d.reading memory).dqt (dqtIdx component).val position =
        d.dqt (d.dqtTable (dqtIdx component)).toNat position := by
    have same : (d.reading memory).dqt (dqtIdx component).val position =
        d.found memory (dqtIdx component) position := by
      cases component <;> rfl
    rw [same, Decoder.found, if_pos selected]
  have lookups (position : Nat) :
      dqtLookup (d.reading memory).dqt (dqtIdx component).val position =
        dqtLookup d.dqt (d.dqtTable (dqtIdx component)).toNat position := by
    simp only [dqtLookup, few, selected, true_and, found]
  rw [number, processSamples, processSamples]
  congr 1
  funext blockOut sample
  rw [processSample, processSample, lookups]

/-- An image whose selectors are tables is decoded with them. -/
theorem imageStep_reading
    (memory : Nat → Nat → Byte)
    (conversion : RgbConversion)
    (run : ImageRun)
    (selects : Selects d (mcuComponents d.mode)) :
    imageStep conversion (d.reading memory) run =
      imageStep conversion d run := by
  have blocks {components : List Component} (s : ImageState)
      (selected : Selects d components) :
      decodeBlocks (d.reading memory) components s =
        decodeBlocks d components s := by
    induction components generalizing s with
    | nil => rfl
    | cons component rest inductionHypothesis =>
        have first :
            decodeBlock (d.reading memory) component s =
              decodeBlock d component s := by
          simp only [decodeBlock,
            processSamples_reading (selected component List.mem_cons_self)]
          rfl
        have others (s : ImageState) :=
          inductionHypothesis s fun other member =>
            selected other (List.mem_cons_of_mem _ member)
        simp only [decodeBlocks, first, others]
  have decoded := blocks run.state selects
  rw [imageStep, imageStep, ← decoded]
  rfl

theorem Sound.reading
    (sound : Sound src capacity m)
    (memory : Nat → Nat → Byte) :
    Sound src capacity (m.reading memory) :=
  ⟨sound.lengths, sound.enough, sound.marker, sound.phase⟩

theorem stepReading_markers
    (isMarkers : m.phase = .markers) :
    stepReading memory conversion src m = step conversion src m := by
  rw [stepReading, isMarkers]

theorem stepReading_image
    (isImage : m.phase = .image run) :
    stepReading memory conversion src m =
      (step conversion src (m.reading memory) >>= fun next =>
        .ok { next with decoder := m.decoder }) := by
  rw [stepReading, isImage]

/-- Where the selectors are tables, every iteration is one of `Decode`. -/
theorem stepReading_eq
    (selects :
      m.phase ≠ .markers → Selects m.decoder (mcuComponents m.decoder.mode)) :
    stepReading memory conversion src m = step conversion src m := by
  cases isPhase : m.phase with
  | markers =>
      exact stepReading_markers isPhase
  | image run =>
      have same :=
        imageStep_reading memory conversion run
          (selects (by rw [isPhase]; exact Phase.noConfusion))
      have isReading : (m.reading memory).phase = .image run := isPhase
      rw [stepReading_image isPhase, step, step, isReading, isPhase]
      simp only [Machine.reading, same]
      cases orFault (eof run.state.bits) with
      | error stop => rfl
      | ok ended =>
          cases ended with
          | true => rfl
          | false =>
              simp only [ok_bind, Bool.false_eq_true, if_false]
              cases imageStep conversion m.decoder run <;> rfl

/-- An iteration of `DecodeImage` ends it or decodes an MCU. -/
theorem stepReading_image_of_ok
    (isImage : m.phase = .image run)
    (isNext : stepReading memory conversion src m = .ok next) :
    run.eof = true ∧
        next = { m with
          dst := run.output.dst, decodeDone := true, phase := .markers } ∨
      run.eof = false ∧ ∃ after,
        imageStep conversion (m.decoder.reading memory) run = .ok after ∧
          next = { m with phase := .image after } := by
  rw [stepReading_image isImage] at isNext
  obtain ⟨between, stepped, isNext⟩ := bind_eq_ok.mp isNext
  obtain rfl := Except.ok.inj isNext
  rcases step_image (m := m.reading memory) isImage stepped with
    ⟨ended, rfl⟩ | ⟨more, after, decoded, rfl⟩
  · exact .inl ⟨ended, rfl⟩
  · exact .inr ⟨more, after, decoded, rfl⟩

theorem Sound.stepReading
    (sound : Sound src capacity m)
    (isNext : stepReading memory conversion src m = .ok next) :
    Sound src capacity next := by
  cases isPhase : m.phase with
  | markers =>
      rw [stepReading_markers isPhase] at isNext
      exact sound.step isNext
  | image run =>
      rw [stepReading_image isPhase] at isNext
      obtain ⟨between, stepped, isNext⟩ := bind_eq_ok.mp isNext
      obtain rfl := Except.ok.inj isNext
      have held := (sound.reading memory).step stepped
      rcases step_image (m := m.reading memory) isPhase stepped with
        ⟨-, rfl⟩ | ⟨-, after, -, rfl⟩
      · exact ⟨held.lengths, held.enough, held.marker, held.phase⟩
      · exact ⟨held.lengths, held.enough, held.marker, held.phase⟩

end Reading

/-! ## Which parsers fault otherwise -/

section Faults

variable {src : List Byte} {d : Decoder} {idx count : Nat} {fault : Fault}

theorem require_defined {condition : Prop} [Decidable condition] :
    require condition ≠ .error (.fault fault) := by
  rw [require]
  split
  · exact ok_ne_fault
  · exact returns_ne_fault

theorem getByte_defined (inside : fault ≠ .outOfBounds) :
    getByte src idx ≠ .error (.fault fault) := by
  by_cases here : idx < src.length
  · rw [getByte_eq here]
    exact ok_ne_fault
  · rw [getByte_behind (by omega)]
    simpa using inside.symm

theorem getWord_defined (inside : fault ≠ .outOfBounds) :
    getWord src idx ≠ .error (.fault fault) :=
  bind_avoids (getByte_defined inside) fun _ =>
    bind_avoids (getByte_defined inside) fun _ => ok_ne_fault

theorem skipBytes_defined (inside : fault ≠ .outOfBounds) :
    skipBytes src idx count ≠ .error (.fault fault) := by
  induction count generalizing idx with
  | zero =>
      exact ok_ne_fault
  | succ count inductionHypothesis =>
      exact bind_avoids (getByte_defined inside) fun _ => inductionHypothesis

theorem skipSegment_defined (inside : fault ≠ .outOfBounds) :
    skipSegment src idx ≠ .error (.fault fault) :=
  bind_avoids require_defined fun _ =>
    bind_avoids (getWord_defined inside) fun _ =>
      bind_avoids require_defined fun _ =>
        bind_avoids require_defined fun _ => ok_ne_fault

theorem sofComponents_defined (inside : fault ≠ .outOfBounds) :
    sofComponents src idx count ≠ .error (.fault fault) := by
  induction count generalizing idx with
  | zero =>
      exact ok_ne_fault
  | succ count inductionHypothesis =>
      exact bind_avoids (getByte_defined inside) fun _ =>
        bind_avoids (getByte_defined inside) fun _ =>
          bind_avoids (getByte_defined inside) fun _ =>
            bind_avoids inductionHypothesis fun _ => ok_ne_fault

theorem parseSof0_defined
    {capacity : Nat}
    (inside : fault ≠ .outOfBounds) :
    parseSof0 src capacity d idx ≠ .error (.fault fault) := by
  rw [parseSof0, segment_bind]
  split
  · exact bind_avoids require_defined fun _ =>
      bind_avoids (getByte_defined inside) fun _ =>
        bind_avoids (getWord_defined inside) fun _ =>
          bind_avoids (getWord_defined inside) fun _ =>
            bind_avoids (getByte_defined inside) fun _ =>
              bind_avoids require_defined fun _ =>
                bind_avoids require_defined fun _ =>
                  bind_avoids (sofComponents_defined inside) fun _ =>
                    ok_ne_fault
  · exact returns_ne_fault

theorem byteAt_defined
    {data : List Byte}
    (inside : fault ≠ .outOfBounds) :
    byteAt data idx ≠ .error fault := by
  rw [byteAt]
  split
  · simp
  · simpa using inside.symm

theorem parseDqt_defined (inside : fault ≠ .outOfBounds) :
    parseDqt src d idx ≠ .error (.fault fault) := by
  rw [parseDqt, segment_bind]
  split
  · refine bind_avoids (orFault_avoids ?_) fun _ => ok_ne_fault
    refine bind_avoids (byteAt_defined inside) fun selector => ?_
    refine foldlM_avoids (fun tables x => ?_) _ _
    exact bind_avoids (byteAt_defined inside) fun qv => by simp
  · exact returns_ne_fault

/-- A scan is pushed into a memory with room for its bytes. -/
theorem pushScan_defined
    {maxSize : Nat} {bytes : List Byte} {s : BitBuffer}
    (room : s.wrOffset + bytes.length ≤ maxSize) :
    pushScan maxSize bytes idx s ≠ .error fault := by
  induction bytes generalizing idx s with
  | nil =>
      simp [pushScan]
  | cons b rest inductionHypothesis =>
      rw [List.length_cons] at room
      have pushed : push maxSize s b = .ok (s.push b) :=
        if_neg (by omega)
      obtain ⟨written, -⟩ := push_of_ok pushed
      rw [pushScan, pushed, ok_bind]
      split
      · exact inductionHypothesis (by omega)
      · simp

theorem parseSos_defined
    (inside : fault ≠ .outOfBounds)
    (small : src.length ≤ srcSlotBytes) :
    parseSos src d idx ≠ .error (.fault fault) := by
  refine bind_avoids require_defined fun _ => ?_
  rw [segment_bind]
  split
  next segment =>
    have room := segment.1
    refine bind_avoids require_defined fun _ =>
      bind_avoids (getByte_defined inside) fun compCount =>
        bind_avoids (skipBytes_defined inside) fun _ =>
          bind_avoids (skipBytes_defined inside) fun _ => ?_
    refine bind_avoids (orFault_avoids (pushScan_defined ?_)) fun scan =>
      ok_ne_fault
    have empty : BitBuffer.reset.wrOffset = 0 := rfl
    rw [bufferSize_eq (by omega) small, List.length_drop]
    omega
  next =>
    exact returns_ne_fault

end Faults

/-! ## Which iterations fault -/

section Machines

variable {memory : Nat → Nat → Byte} {conversion : RgbConversion}
variable {src : List Byte} {capacity : Nat} {m next : Machine}

/-- An iteration of the marker loop faults only in a parser. -/
theorem step_defined
    (isMarkers : m.phase = .markers)
    (small : src.length ≤ srcSlotBytes)
    (defined : Defined src m)
    (fault : Fault) :
    step conversion src m ≠ .error (.fault fault) := by
  by_cases inside : fault = .outOfBounds
  · subst inside
    exact (step_reads conversion).mpr defined.fits
  by_cases atSof0 : AtMarker src m 0xC0
  · rw [ne_eq, step_sof0 atSof0]
    exact parseSof0_defined inside
  by_cases atDqt : AtMarker src m 0xDB
  · rw [ne_eq, step_dqt atDqt]
    exact parseDqt_defined inside
  by_cases atDht : AtMarker src m 0xC4
  · rw [ne_eq, step_dht atDht, parseDht_fault]
    rintro ⟨segment, isFault⟩
    rw [defined.tables atDht segment] at isFault
    cases isFault
  by_cases atSos : AtMarker src m 0xDA
  · rw [ne_eq, step_sos atSos]
    exact parseSos_defined inside small
  · exact step_elsewhere isMarkers (skipSegment_defined inside) atSof0 atDqt
      atDht atSos

theorem Sound.decodingReading
    {run : ImageRun}
    (sound : Sound src capacity m)
    (isImage : m.phase = .image run)
    (small : src.length ≤ srcSlotBytes)
    (memory : Nat → Nat → Byte) :
    Decoding (m.decoder.reading memory) capacity run :=
  (sound.reading memory).decoding isImage small

/-- An iteration of `DecodeImage` whose offset can be counted. -/
theorem stepReading_image_eq
    {run : ImageRun}
    (decoding : Decoding (m.decoder.reading memory) capacity run)
    (isImage : m.phase = .image run) :
    stepReading memory conversion src m =
      if run.eof then
        .ok { m with
          dst := run.output.dst, decodeDone := true, phase := .markers }
      else
        imageStep conversion (m.decoder.reading memory) run >>= fun next =>
          .ok { m with phase := .image next } := by
  have isReading : (m.reading memory).phase = .image run := isImage
  rw [stepReading_image isImage, step, isReading]
  simp only
  rw [decoding.eof_eq, ok_bind]
  cases run.eof with
  | true =>
      rfl
  | false =>
      simp only [Bool.false_eq_true, if_false, Machine.reading]
      cases imageStep conversion (m.decoder.reading memory) run <;> rfl

/-- An iteration faults unless what it does is defined. -/
theorem stepReading_defined_iff
    (memory : Nat → Nat → Byte)
    (conversion : RgbConversion)
    (sound : Sound src capacity m)
    (small : src.length ≤ srcSlotBytes) :
    (∀ fault, stepReading memory conversion src m ≠ .error (.fault fault)) ↔
      Defined src m := by
  cases isPhase : m.phase with
  | markers =>
      rw [stepReading_markers isPhase]
      refine ⟨fun never => ⟨?_, ?_, ?_⟩, step_defined isPhase small⟩
      · exact (step_reads conversion).mp (never .outOfBounds)
      · intro atDht segment
        by_contra broken
        obtain ⟨fault, isFault⟩ := Option.ne_none_iff_exists'.mp broken
        refine never fault ?_
        rw [step_dht atDht, parseDht_fault]
        exact ⟨segment, isFault⟩
      · intro run isImage
        rw [isPhase] at isImage
        cases isImage
  | image run =>
      have decoding := sound.decodingReading isPhase small memory
      rw [stepReading_image_eq decoding isPhase]
      have elsewhere {marker : Byte} : ¬ AtMarker src m marker := by
        intro atMarker
        have isMarkers := atMarker.phase
        rw [isPhase] at isMarkers
        cases isMarkers
      constructor
      · intro never
        refine ⟨⟨?_, ?_, ?_, ?_⟩, ?_, ?_⟩
        · exact fun atSof0 => absurd atSof0 elsewhere
        · exact fun atDqt => absurd atDqt elsewhere
        · exact fun atDht => absurd atDht elsewhere
        · exact fun atSos => absurd atSos elsewhere
        · exact fun atDht => absurd atDht elsewhere
        · intro other isOther more empty
          rw [isPhase] at isOther
          obtain rfl := Phase.image.inj isOther
          obtain ⟨fault, isFault⟩ :=
            decoding.faults conversion more fun decodable =>
              decodable.columns empty
          refine never fault ?_
          rw [more, isFault]
          rfl
      · intro defined fault
        cases more : run.eof with
        | true =>
            exact ok_ne_fault
        | false =>
            obtain ⟨after, decoded⟩ :=
              decoding.goesOn conversion more
                ⟨defined.columns run isPhase more, selects_reading _⟩
            rw [decoded]
            exact ok_ne_fault

/-! ## Every iteration goes on, or none does -/

/-- The iterations that may still be made. -/
def Machine.work (src : List Byte) (m : Machine) : Nat :=
  match m.phase with
  | .markers => (src.length - m.i) * (8 * src.length + 2)
  | .image run =>
      (src.length - m.i) * (8 * src.length + 2) +
        (8 * run.state.bits.wrOffset - run.state.bits.rdOffset) + 1

/-- Every iteration that is not stuck is followed by less work. -/
theorem work_step
    (sound : Sound src capacity m)
    (isNext : stepReading memory conversion src m = .ok next)
    (moves : ¬ StuckAt m) :
    next.work src < m.work src := by
  cases isPhase : m.phase with
  | markers =>
      rw [stepReading_markers isPhase] at isNext
      obtain ⟨inside, reads⟩ := step_markers sound isPhase isNext
      have further := reads.further
      have fewer :
          (src.length - next.i + 1) * (8 * src.length + 2) ≤
            (src.length - m.i) * (8 * src.length + 2) :=
        Nat.mul_le_mul_right _ (by omega)
      rw [Nat.add_mul] at fewer
      have nextPhase := reads.sound.phase
      simp only [Machine.work, isPhase]
      cases isNextPhase : next.phase with
      | markers =>
          simp only
          omega
      | image run =>
          rw [isNextPhase] at nextPhase
          have written := nextPhase.2.2.2.1
          simp only
          omega
  | image run =>
      rcases stepReading_image_of_ok isPhase isNext with
        ⟨-, rfl⟩ | ⟨more, after, decoded, rfl⟩
      · simp only [Machine.work, isPhase]
        omega
      · have starts : StartsMcu m.decoder run.state.bits := by
          by_contra nothing
          exact moves ⟨run, isPhase, more, nothing⟩
        obtain ⟨accepted, isCapacity⟩ :=
          (sound.reading memory).accepted isPhase
        obtain ⟨-, -, uses, -⟩ :=
          imageStep_of_ok accepted isCapacity decoded
        have used := uses.some starts
        obtain ⟨bits, -, advanced⟩ := uses.advanced
        have same : after.state.bits.wrOffset = run.state.bits.wrOffset := by
          rw [advanced]
          rfl
        have unread := unread_of_eof more
        simp only [Machine.work, isPhase, same]
        omega

/-- A machine that is stuck in an image with columns. -/
structure Stays (src : List Byte) (capacity : Nat) (m : Machine) : Prop where
  sound : Sound src capacity m
  stuck : StuckAt m
  columns : m.decoder.width ≠ 0

/-- A machine that is stuck stays so. -/
theorem Stays.step
    (memory : Nat → Nat → Byte)
    (conversion : RgbConversion)
    (small : src.length ≤ srcSlotBytes)
    (stays : Stays src capacity m) :
    ∃ next, stepReading memory conversion src m = .ok next ∧
      Stays src capacity next := by
  obtain ⟨run, isPhase, more, nothing⟩ := stays.stuck
  have decoding := stays.sound.decodingReading isPhase small memory
  obtain ⟨after, decoded⟩ :=
    decoding.goesOn conversion more ⟨stays.columns, selects_reading _⟩
  obtain ⟨-, -, uses, -⟩ :=
    imageStep_of_ok decoding.accepted decoding.isCapacity decoded
  have same : after.state.bits = run.state.bits := uses.none nothing
  have isNext : stepReading memory conversion src m =
      .ok { m with phase := .image after } := by
    rw [stepReading_image_eq decoding isPhase, more, decoded]
    rfl
  refine ⟨_, isNext, stays.sound.stepReading isNext, ?_, stays.columns⟩
  refine ⟨after, rfl, ?_, ?_⟩
  · rw [ImageRun.eof, same]
    exact more
  · rw [same]
    exact nothing

end Machines

/-! ## Runs -/

section Runs

variable {memory : Nat → Nat → Byte} {conversion : RgbConversion}
variable {src : List Byte} {dst : Destination} {count : Nat} {m : Machine}

/-- `Decode` goes on from its start when its buffers are not empty. -/
theorem decodeReading_eq
    (given : src ≠ [] ∧ dst.capacity ≠ 0)
    (count : Nat) :
    decodeReading memory conversion src dst count =
      iterate (stepReading memory conversion src) count (start dst) := by
  rw [decodeReading, require_bind, if_pos given]

/-- Every machine that `Decode` reaches is sound. -/
theorem sound_decodeReading
    (isReached : decodeReading memory conversion src dst count = .ok m) :
    Sound src dst.capacity m := by
  obtain ⟨-, -, goes⟩ := bind_eq_ok.mp isReached
  exact
    iterate_invariant (fun _ _ sound isNext => sound.stepReading isNext)
      (sound_start dst) goes

theorem given_of_decodeReading
    (isReached : decodeReading memory conversion src dst count = .ok m) :
    src ≠ [] ∧ dst.capacity ≠ 0 := by
  obtain ⟨value, given, -⟩ := bind_eq_ok.mp isReached
  exact require_eq_ok.mp given

/-- A decoder that returns has not faulted anywhere. -/
theorem Terminates.defined
    (ends : Terminates memory conversion src dst)
    (small : src.length ≤ srcSlotBytes)
    (isReached : decodeReading memory conversion src dst count = .ok m) :
    Defined src m := by
  obtain ⟨last, success, ended⟩ := ends
  have given := given_of_decodeReading isReached
  have sound := sound_decodeReading isReached
  rw [decodeReading_eq given] at isReached ended
  rw [← stepReading_defined_iff memory conversion sound small]
  intro fault isFault
  have faulted :
      iterate (stepReading memory conversion src) (count + 1) (start dst) =
        .error (.fault fault) := by
    rw [iterate_succ, isReached]
    exact isFault
  have stays := iterate_ended faulted last
  rw [Nat.add_comm, iterate_ended ended] at stays
  cases stays

/-- A decoder that comes to a stuck MCU does not return. -/
theorem Terminates.not_stuck
    (ends : Terminates memory conversion src dst)
    (small : src.length ≤ srcSlotBytes)
    (isReached : decodeReading memory conversion src dst count = .ok m) :
    ¬ StuckAt m := by
  rintro ⟨run, isPhase, more, nothing⟩
  have stays : Stays src dst.capacity m :=
    ⟨sound_decodeReading isReached, ⟨run, isPhase, more, nothing⟩,
      (ends.defined small isReached).columns run isPhase more⟩
  have given := given_of_decodeReading isReached
  obtain ⟨last, success, ended⟩ := ends
  rw [decodeReading_eq given] at isReached ended
  exact
    not_ended isReached
      (goes_on
        (fun _ stays => stays.step memory conversion small) stays)
      last ended

/--
The decoder returns exactly when whatever it comes to is defined and it never
comes to an MCU whose next bits begin with no code word.
-/
theorem decode_terminates_iff
    (memory : Nat → Nat → Byte)
    (conversion : RgbConversion)
    (src : List Byte)
    (dst : Destination)
    (small : src.length ≤ srcSlotBytes) :
    Terminates memory conversion src dst ↔
      ∀ count m, decodeReading memory conversion src dst count = .ok m →
        Defined src m ∧ ¬ StuckAt m := by
  constructor
  · intro ends count m isReached
    exact ⟨ends.defined small isReached, ends.not_stuck small isReached⟩
  · intro always
    by_cases given : src ≠ [] ∧ dst.capacity ≠ 0
    · simp only [decodeReading_eq given] at always
      have keeps {count : Nat} {m : Machine}
          (isReached :
            iterate (stepReading memory conversion src) count (start dst) =
              .ok m) :
          Sound src dst.capacity m :=
        sound_decodeReading ((decodeReading_eq given count).trans isReached)
      obtain ⟨count, stop, ended⟩ :=
        ends_of_lowers (Machine.work src)
          (fun count m next isReached isNext =>
            work_step (keeps isReached) isNext (always count m isReached).2)
      obtain ⟨before, last, isReached, stopped⟩ := last_of_ended ended
      have never :=
        (stepReading_defined_iff memory conversion (keeps isReached)
          small).mpr (always before last isReached).1
      cases stop with
      | returns success =>
          exact ⟨count, success, (decodeReading_eq given count).trans ended⟩
      | fault fault =>
          exact absurd stopped (never fault)
    · refine ⟨0, false, ?_⟩
      rw [decodeReading, require_bind, if_neg given]

end Runs

/-! ## A scan without Huffman tables -/

/-- The first MCU of a scan without tables is decoded again and again. -/
theorem stays_without_tables :
    ¬ ∀ memory conversion src dst, src.length ≤ srcSlotBytes →
      Terminates memory conversion src dst := by
  intro claimed
  have small : (greyImage 0).length ≤ srcSlotBytes := by
    decide
  have ends :=
    claimed (fun _ _ => 0) unroundedConversion (greyImage 0) greyBuffer small
  obtain ⟨m, isReached, stuck⟩ :
      ∃ m, decodeReading (fun _ _ => 0) unroundedConversion (greyImage 0)
          greyBuffer 4 = .ok m ∧ StuckAt m := by
    refine ⟨_, rfl, _, rfl, by decide, ?_⟩
    rintro ⟨component, -, ⟨entry, member, -⟩ | ⟨entry, member, -⟩⟩
    · exact List.not_mem_nil member
    · exact List.not_mem_nil member
  exact ends.not_stuck small isReached stuck

/-- The same image with two short Huffman tables and an end of image. -/
def withTables : List Byte :=
  [0xFF, 0xC0, 0x00, 0x0B, 0x08, 0x00, 0x08, 0x00, 0x08, 0x01, 0x01, 0x11,
    0x00, 0xFF, 0xC4, 0x00, 0x27] ++
    0x00 :: 0x01 :: List.replicate 15 0 ++ [0x01] ++
    0x10 :: 0x01 :: 0x01 :: List.replicate 14 0 ++ [0x01, 0x00] ++
    [0xFF, 0xDA, 0x00, 0x08, 0x01, 0x01, 0x00, 0x00, 0x3F, 0x00, 0x5B, 0xFF,
      0xD9]

set_option maxRecDepth 8000 in
/--
With tables the decoder returns and goes on from its MCU; without them it does
not return, whether or not a quantisation table is selected.
-/
theorem decode_terminates_with_tables :
    (∃ m run,
      decodeReading (fun _ _ => 0) unroundedConversion withTables greyBuffer
          6 = .ok m ∧ m.phase = .image run ∧
        StartsMcu m.decoder run.state.bits) ∧
      ¬ Terminates (fun _ _ => 0) unroundedConversion (greyImage 4)
        greyBuffer := by
  constructor
  · have ends :
        Terminates (fun _ _ => 0) unroundedConversion withTables
          greyBuffer :=
      ⟨10, true, rfl⟩
    obtain ⟨m, run, isReached, isPhase, more⟩ :
        ∃ m run,
          decodeReading (fun _ _ => 0) unroundedConversion withTables
              greyBuffer 6 = .ok m ∧ m.phase = .image run ∧
            run.eof = false :=
      ⟨_, _, rfl, rfl, by decide⟩
    obtain ⟨-, moves⟩ :=
      (decode_terminates_iff _ _ withTables greyBuffer (by decide)).mp ends 6
        m isReached
    refine ⟨m, run, isReached, isPhase, ?_⟩
    by_contra nothing
    exact moves ⟨run, isPhase, more, nothing⟩
  · intro ends
    obtain ⟨m, isReached, stuck⟩ :
        ∃ m, decodeReading (fun _ _ => 0) unroundedConversion (greyImage 4)
            greyBuffer 4 = .ok m ∧ StuckAt m := by
      refine ⟨_, rfl, _, rfl, by decide, ?_⟩
      rintro ⟨component, -, ⟨entry, member, -⟩ | ⟨entry, member, -⟩⟩
      · exact List.not_mem_nil member
      · exact List.not_mem_nil member
    obtain ⟨-, moves⟩ :=
      (decode_terminates_iff _ _ (greyImage 4) greyBuffer (by decide)).mp ends
        4 m isReached
    exact moves stuck

end CoreJpeg.SoftwareJpegDecoder
