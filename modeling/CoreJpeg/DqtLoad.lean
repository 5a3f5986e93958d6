import CoreJpeg.Clocked
import CoreJpeg.DqtModel
import CoreJpeg.SoftwareIdct

namespace CoreJpeg.JpegDqt

open Clocked Software

/-!
# Are all tables of a DQT segment stored?

The circuit expects a selector where its byte counter stands at its start
value, which it only reaches at the end of a segment, and the software reads
one table whatever the length is.  This module states what a segment of
several tables defines and shows that both store it for all values exactly
when the segment has one table.
-/

section Property

/-- A quantisation table of a segment, with 64 values. -/
structure QuantTable where
  selector : BitVec 2
  values : Nat → Byte

/-- The selector byte with precision 0, and the values. -/
def QuantTable.bytes (table : QuantTable) : List Byte :=
  table.selector.setWidth 8 :: (List.range 64).map table.values

/-- The payload of a segment. -/
def payload (tables : List QuantTable) : List Byte :=
  tables.flatMap QuantTable.bytes

/-- The tables after a segment: each entry has the last value it is given. -/
def latest (tables : List QuantTable) (before : BitVec 2 → Nat → Byte) :
    BitVec 2 → Nat → Byte :=
  tables.foldl
    (fun entries table selector position =>
      if selector = table.selector then table.values position
      else entries selector position)
    before

/-- The byte of a cycle at the configuration port, with its last flag. -/
def cfgByte (i : Input) : Option (Byte × Bool) :=
  if i.cfgValid then some (i.cfgData, i.cfgLast) else none

/-- The bytes of a payload, the last one flagged. -/
def flagged (bytes : List Byte) : List (Byte × Bool) :=
  bytes.dropLast.map (·, false) ++ bytes.getLast?.toList.map (·, true)

/-- The cycles present a payload, with any gaps. -/
def Presents (cycles : List Input) (bytes : List Byte) : Prop :=
  (∀ i ∈ cycles, i.rst = false) ∧ cycles.filterMap cfgByte = flagged bytes

/-- The entry of the RAM for a table and a position. -/
def Loader.entry (s : Loader) (selector : BitVec 2) (position : Nat) :
    Byte :=
  s.tableDqtQ (selector ++ BitVec.ofNat 6 position)

/-- The circuit stores every segment of these tables. -/
def CircuitStores (tables : List QuantTable) : Prop :=
  ∀ (s : State) (cycles : List Input),
    s.loader.idxQ = 0xFF → Presents cycles (payload tables) →
      ∀ selector, ∀ position < 64,
        (run step s cycles).loader.entry selector position =
          latest tables s.loader.entry selector position

/-- `jpeg_dqt::process` stores every segment of these tables. -/
def ProcessStores (tables : List QuantTable) : Prop :=
  ∀ (before : DqtTables) (behind : List Byte),
    ∃ after, dqtProcess (payload tables ++ behind) before = .ok after ∧
      ∀ selector : BitVec 2, ∀ position < 64,
        after selector.toNat position =
          latest tables (fun table => before table.toNat) selector position

end Property

/-! ## The circuit takes a byte -/

section Loading

/-- The configuration registers after a byte. -/
def Loader.take (s : Loader) (byte : Byte) (last : Bool) : Loader where
  idxQ := if last then 0xFF else s.idxQ + 1
  cfgTableQ :=
    if s.idxQ == 0xFF then byte.extractLsb' 0 2 else s.cfgTableQ
  tableDqtQ := fun address =>
    if s.idxQ != 0xFF && address == cfgTableAddr s then byte
    else s.tableDqtQ address

/-- The configuration registers after bytes with their last flags. -/
def Loader.takeAll (s : Loader) (bytes : List (Byte × Bool)) : Loader :=
  bytes.foldl (fun s byte => s.take byte.1 byte.2) s

/-- A cycle without a byte changes nothing, and one with a byte takes it. -/
theorem loader_step
    (s : Loader) {i : Input}
    (running : i.rst = false) :
    s.step i = s.takeAll (cfgByte i).toList := by
  cases valid : i.cfgValid with
  | false =>
      simp [Loader.step, Loader.takeAll, cfgByte, dqtWrite, running, valid]
  | true =>
      simp only [Loader.step, Loader.takeAll, Loader.take, cfgByte,
        dqtTableAddr, dqtWrite, running, valid, Bool.true_and,
        Bool.false_eq_true, if_false, if_true, Option.toList_some,
        List.foldl_cons, List.foldl_nil]
      congr 1
      funext address
      cases present : s.idxQ != 0xFF <;> simp

/-- A run takes the bytes that its cycles present. -/
theorem run_loader
    (s : State) {cycles : List Input}
    (running : ∀ i ∈ cycles, i.rst = false) :
    (run step s cycles).loader =
      s.loader.takeAll (cycles.filterMap cfgByte) := by
  induction cycles generalizing s with
  | nil =>
      rfl
  | cons i rest inductionHypothesis =>
      have first : (step s i).loader =
          s.loader.takeAll (cfgByte i).toList :=
        loader_step s.loader (running i (by simp))
      rw [run_cons, inductionHypothesis _ fun later member =>
        running later (by simp [member]), first]
      cases isByte : cfgByte i <;>
        simp [Loader.takeAll, isByte]

/-- The last flag does not matter for the RAM. -/
theorem takeAll_flagged
    (s : Loader) (bytes : List Byte) :
    (s.takeAll (flagged bytes)).tableDqtQ =
      (s.takeAll (bytes.map (·, false))).tableDqtQ := by
  induction bytes using List.reverseRecOn with
  | nil =>
      rfl
  | append_singleton before byte inductionHypothesis =>
      simp [flagged, Loader.takeAll, Loader.take]

/-- The counter counts the bytes. -/
theorem takeAll_idxQ
    (s : Loader) (bytes : List Byte) :
    (s.takeAll (bytes.map (·, false))).idxQ =
      s.idxQ + BitVec.ofNat 8 bytes.length := by
  induction bytes generalizing s with
  | nil =>
      simp [Loader.takeAll]
  | cons byte rest inductionHypothesis =>
      have later := inductionHypothesis (s.take byte false)
      simp only [Loader.takeAll, List.map_cons, List.foldl_cons] at later ⊢
      rw [later]
      simp only [Loader.take, Bool.false_eq_true, if_false,
        List.length_cons, BitVec.ofNat_add]
      rw [BitVec.add_assoc, BitVec.add_comm 1]
      rfl

/-- The entry of the counter's position is the one a byte goes to. -/
theorem cfgTableAddr_eq_iff
    {s : Loader} {selector : BitVec 2} {position : Nat}
    (small : position < 64) :
    selector ++ BitVec.ofNat 6 position = cfgTableAddr s ↔
      selector = s.cfgTableQ ∧ s.idxQ.toNat % 64 = position := by
  have parts (first : BitVec 2) (second : BitVec 6) :
      (first ++ second).toNat = first.toNat * 64 + second.toNat := by
    rw [BitVec.toNat_append, ← Nat.shiftLeft_add_eq_or_of_lt second.isLt,
      Nat.shiftLeft_eq]
  have number : (BitVec.ofNat 6 position).toNat = position := by
    rw [BitVec.toNat_ofNat, Nat.mod_eq_of_lt small]
  have counted : (s.idxQ.extractLsb' 0 6).toNat = s.idxQ.toNat % 64 := by
    simp
  rw [cfgTableAddr, ← BitVec.toNat_inj, ← BitVec.toNat_inj, parts, parts,
    number, counted]
  omega

/-- A byte is stored at the position of the counter. -/
theorem take_entry
    {s : Loader} {byte : Byte} {last : Bool}
    {selector : BitVec 2} {position : Nat}
    (small : position < 64) :
    (s.take byte last).entry selector position =
      if s.idxQ ≠ 0xFF ∧ selector = s.cfgTableQ ∧
          s.idxQ.toNat % 64 = position then byte
      else s.entry selector position := by
  simp only [Loader.entry, Loader.take, Bool.and_eq_true, bne_iff_ne,
    beq_iff_eq, cfgTableAddr_eq_iff small, ne_eq]

/-- Entries that only get a value they have stay as they are. -/
theorem takeAll_entry_kept
    {s : Loader} {bytes : List Byte} {position : Nat} {value : Byte}
    (small : position < 64)
    (before : ∀ selector, s.entry selector position = value)
    (same :
      ∀ number, (s.idxQ.toNat + number) % 64 = position →
        ∀ byte ∈ bytes[number]?, byte = value)
    (selector : BitVec 2) :
    (s.takeAll (bytes.map (·, false))).entry selector position = value := by
  induction bytes generalizing s with
  | nil =>
      exact before selector
  | cons byte rest inductionHypothesis =>
      refine @inductionHypothesis (s.take byte false) ?_ ?_
      · intro selector
        rw [take_entry small]
        split
        · rename_i lands
          exact same 0 lands.2.2 byte (by simp)
        · exact before selector
      · intro number lands
        have counter : (s.take byte false).idxQ.toNat % 64 =
            (s.idxQ.toNat + 1) % 64 := by
          have one : BitVec.toNat (1 : BitVec 8) = 1 := rfl
          simp only [Loader.take, Bool.false_eq_true, if_false,
            BitVec.toNat_add, one]
          omega
        refine same (number + 1) ?_
        rw [← lands, Nat.add_mod (s.take byte false).idxQ.toNat, counter]
        omega

/-- The counter stands at the number of values taken behind a selector. -/
theorem counter_behind
    {count : Nat} (few : count < 64) :
    ((0 : BitVec 8) + BitVec.ofNat 8 count).toNat = count ∧
      (0 : BitVec 8) + BitVec.ofNat 8 count ≠ 0xFF := by
  have number : ((0 : BitVec 8) + BitVec.ofNat 8 count).toNat = count := by
    simp
    omega
  refine ⟨number, fun isStart => ?_⟩
  rw [isStart] at number
  simp at number
  omega

/-- The values behind a selector go to their positions in its table. -/
theorem takeAll_values
    {s : Loader} (values : Nat → Byte)
    (atStart : s.idxQ = 0)
    {count : Nat}
    (few : count ≤ 64) :
    (s.takeAll (((List.range count).map values).map (·, false))).cfgTableQ =
        s.cfgTableQ ∧
      ∀ selector, ∀ position < 64,
        (s.takeAll (((List.range count).map values).map (·, false))).entry
            selector position =
          if selector = s.cfgTableQ ∧ position < count then values position
          else s.entry selector position := by
  induction count with
  | zero =>
      simp [Loader.takeAll]
  | succ count inductionHypothesis =>
      obtain ⟨table, entries⟩ := inductionHypothesis (by omega)
      obtain ⟨number, unfinished⟩ := @counter_behind count (by omega)
      have counter := takeAll_idxQ s ((List.range count).map values)
      rw [List.length_map, List.length_range, atStart] at counter
      have next : s.takeAll
            (((List.range (count + 1)).map values).map (·, false)) =
          (s.takeAll (((List.range count).map values).map
            (·, false))).take (values count) false := by
        simp [Loader.takeAll, List.range_succ]
      rw [next]
      refine ⟨?_, fun selector position small => ?_⟩
      · rw [Loader.take, counter, beq_eq_false_iff_ne.mpr unfinished, table]
        rfl
      · rw [take_entry small, table, counter, number,
          entries selector position small, Nat.mod_eq_of_lt (by omega)]
        by_cases last : count = position
        · subst last
          simp only [unfinished, ne_eq, not_false_eq_true, true_and, and_true,
            Nat.lt_irrefl, and_false, if_false, Nat.lt_succ_self]
        · have inside : position < count ↔ position < count + 1 := by
            omega
          simp [last, inside]

end Loading

/-! ## One table -/

section OneTable

/-- A segment of one table is stored by the circuit. -/
theorem circuitStores_one (table : QuantTable) :
    CircuitStores [table] := by
  intro s cycles atStart presents selector position small
  have bytes : payload [table] =
      table.selector.setWidth 8 :: (List.range 64).map table.values := by
    simp [payload, QuantTable.bytes]
  have behind : (s.loader.take (table.selector.setWidth 8) false).idxQ =
      0 := by
    simp [Loader.take, atStart]
  have selected :
      (s.loader.take (table.selector.setWidth 8) false).cfgTableQ =
        table.selector := by
    have small := table.selector.isLt
    simp only [Loader.take, atStart, beq_self_eq_true, if_true]
    apply BitVec.eq_of_toNat_eq
    rw [BitVec.extractLsb'_toNat, BitVec.toNat_setWidth,
      Nat.shiftRight_zero]
    omega
  have same (selector : BitVec 2) (position : Nat) (small : position < 64) :
      (s.loader.take (table.selector.setWidth 8) false).entry
        selector position = s.loader.entry selector position := by
    rw [take_entry small]
    simp [atStart]
  obtain ⟨-, entries⟩ := takeAll_values table.values behind (le_refl 64)
  have taken := entries selector position small
  rw [selected, same selector position small] at taken
  rw [run_loader s presents.1, presents.2, Loader.entry, takeAll_flagged,
    bytes, List.map_cons]
  refine Eq.trans taken ?_
  simp [latest, small]

/-- The loop of `process` stores its values in their table. -/
theorem storeQuantisers_eq
    {data : List Byte} {values : Nat → Byte} {tableNum count : Nat}
    (bytes : ∀ x < count, data[1 + x]? = some (values x))
    (before : DqtTables) :
    (List.range count).foldlM (storeQuantiser data tableNum) before =
      .ok fun table position =>
        if table = tableNum ∧ position < count then values position
        else before table position := by
  induction count with
  | zero =>
      simp [pure, Except.pure]
  | succ count inductionHypothesis =>
      rw [List.range_succ, List.foldlM_append,
        inductionHypothesis fun x inside => bytes x (by omega)]
      simp only [bind, Except.bind, List.foldlM_cons, List.foldlM_nil,
        storeQuantiser, byteAt, bytes count (by omega), pure, Except.pure,
        Except.ok.injEq]
      funext table position
      by_cases last : position = count
      · simp [last]
      · have inside : position < count + 1 ↔ position < count := by
          omega
        simp [last, inside]

/-- `process` stores the values behind its first byte. -/
theorem dqtProcess_eq
    {data : List Byte} {selector : Byte} {values : Nat → Byte}
    (first : data[0]? = some selector)
    (bytes : ∀ x < 64, data[1 + x]? = some (values x))
    (before : DqtTables) :
    dqtProcess data before =
      .ok fun table position =>
        if table = (selector &&& 0x3).toNat ∧ position < 64 then
          values position
        else before table position := by
  have isFirst : byteAt data 0 = .ok selector := by
    simp [byteAt, first]
  rw [dqtProcess, isFirst]
  exact storeQuantisers_eq bytes before

/-- `process` stores the first table of a segment. -/
theorem dqtProcess_payload
    (table : QuantTable) (rest : List QuantTable)
    (before : DqtTables) (behind : List Byte) :
    dqtProcess (payload (table :: rest) ++ behind) before =
      .ok fun number position =>
        if number = table.selector.toNat ∧ position < 64 then
          table.values position
        else before number position := by
  have parts : payload (table :: rest) ++ behind =
      table.selector.setWidth 8 ::
        ((List.range 64).map table.values ++ (payload rest ++ behind)) := by
    simp only [payload, List.flatMap_cons, QuantTable.bytes,
      List.cons_append, List.append_assoc]
  have values : ∀ x < 64, (payload (table :: rest) ++ behind)[1 + x]? =
      some (table.values x) := by
    intro x inside
    have among : x < ((List.range 64).map table.values).length := by
      simpa using inside
    rw [parts, Nat.add_comm, List.getElem?_cons_succ,
      List.getElem?_append_left among, List.getElem?_map,
      List.getElem?_range inside, Option.map_some]
  have selected :
      ((table.selector.setWidth 8 : Byte) &&& 0x3).toNat =
        table.selector.toNat := by
    have small := table.selector.isLt
    have three : (0x3 : Byte).toNat = 2 ^ 2 - 1 := rfl
    rw [BitVec.toNat_and, BitVec.toNat_setWidth, three,
      Nat.mod_eq_of_lt (by omega), Nat.and_two_pow_sub_one_eq_mod]
    omega
  rw [dqtProcess_eq (by rw [parts]; rfl) values, selected]

/-- A segment of one table is stored by `process`. -/
theorem processStores_one (table : QuantTable) :
    ProcessStores [table] := by
  intro before behind
  refine ⟨_, dqtProcess_payload table [] before behind, ?_⟩
  intro selector position small
  simp [latest, small, BitVec.toNat_inj]

end OneTable

/-! ## Several tables -/

section SeveralTables

/-- Tables of zeros, with a one at position 5 of the last. -/
def probe : List (BitVec 2) → List QuantTable
  | [] => []
  | [selector] =>
      [{ selector := selector
         values := fun position => if position = 5 then 1 else 0 }]
  | selector :: next :: rest =>
      { selector := selector, values := fun _ => 0 } :: probe (next :: rest)

@[simp] theorem map_probe (selectors : List (BitVec 2)) :
    (probe selectors).map QuantTable.selector = selectors := by
  induction selectors using probe.induct with
  | case1 => rfl
  | case2 selector => rfl
  | case3 selector next rest inductionHypothesis =>
      rw [probe, List.map_cons, inductionHypothesis]

/-- The selectors of two to four tables. -/
theorem several_cases
    {selectors : List (BitVec 2)}
    (several : 2 ≤ selectors.length)
    (few : selectors.length ≤ 4) :
    (∃ a b, selectors = [a, b]) ∨ (∃ a b c, selectors = [a, b, c]) ∨
      ∃ a b c d, selectors = [a, b, c, d] := by
  match selectors with
  | [] => simp at several
  | [a] => simp at several
  | [a, b] => exact .inl ⟨a, b, rfl⟩
  | [a, b, c] => exact .inr (.inl ⟨a, b, c, rfl⟩)
  | [a, b, c, d] => exact .inr (.inr ⟨a, b, c, d, rfl⟩)
  | a :: b :: c :: d :: e :: rest =>
      simp only [List.length_cons] at few
      omega

/-- The last table of a probe has a one at position 5. -/
theorem latest_probe
    {selectors : List (BitVec 2)}
    (several : 2 ≤ selectors.length)
    (few : selectors.length ≤ 4) :
    ∃ selector, latest (probe selectors) (fun _ _ => 0) selector 5 = 1 := by
  rcases several_cases several few with
    ⟨a, b, rfl⟩ | ⟨a, b, c, rfl⟩ | ⟨a, b, c, d, rfl⟩
  · exact ⟨b, by simp [probe, latest]⟩
  · exact ⟨c, by simp [probe, latest]⟩
  · exact ⟨d, by simp [probe, latest]⟩

/-- The values of a probe are zero but for the last one's at position 5. -/
theorem probe_values
    {selectors : List (BitVec 2)} {number position : Nat}
    {table : QuantTable}
    (isTable : (probe selectors)[number]? = some table)
    (other : number + 1 < selectors.length ∨ position ≠ 5) :
    table.values position = 0 := by
  induction selectors using probe.induct generalizing number with
  | case1 =>
      simp [probe] at isTable
  | case2 selector =>
      cases number with
      | zero =>
          simp only [probe, List.getElem?_cons_zero,
            Option.some.injEq] at isTable
          subst isTable
          simpa using other
      | succ number => simp [probe] at isTable
  | case3 selector next rest inductionHypothesis =>
      cases number with
      | zero =>
          simp only [probe, List.getElem?_cons_zero,
            Option.some.injEq] at isTable
          subst isTable
          rfl
      | succ number =>
          simp only [probe, List.getElem?_cons_succ] at isTable
          refine inductionHypothesis isTable ?_
          simpa using other

/-- Where the values of a table stand in a payload. -/
theorem payload_value
    {position : Nat} (small : position < 64)
    (tables : List QuantTable) (number : Nat) :
    (payload tables)[65 * number + 1 + position]? =
      tables[number]?.map fun table => table.values position := by
  induction tables generalizing number with
  | nil =>
      simp [payload]
  | cons table rest inductionHypothesis =>
      have size : table.bytes.length = 65 := by
        simp [QuantTable.bytes]
      have parts : payload (table :: rest) = table.bytes ++ payload rest :=
        rfl
      rw [parts]
      cases number with
      | zero =>
          rw [List.getElem?_append_left (by omega)]
          simp [QuantTable.bytes, Nat.add_comm 1, small]
      | succ number =>
          rw [List.getElem?_append_right (by omega), size,
            List.getElem?_cons_succ, ← inductionHypothesis]
          congr 1
          omega

/-- No one of a probe lands at position 5. -/
theorem probe_lands
    {selectors : List (BitVec 2)}
    (several : 2 ≤ selectors.length)
    (few : selectors.length ≤ 4)
    {number : Nat}
    (lands : (255 + number) % 64 = 5) :
    ∀ byte ∈ (payload (probe selectors))[number]?, byte = 0 := by
  intro byte isByte
  have length : (payload (probe selectors)).length =
      65 * selectors.length := by
    have size (table : QuantTable) : table.bytes.length = 65 := by
      simp [QuantTable.bytes]
    have tables := congrArg List.length (map_probe selectors)
    rw [List.length_map] at tables
    rw [payload, List.length_flatMap, List.map_congr_left fun table _ =>
      size table, List.map_const', List.sum_replicate_nat, tables]
    exact Nat.mul_comm _ _
  have inside := (List.getElem?_eq_some_iff.mp isByte).1
  -- the counter stands at 5, 69, 133 and 197
  have place : ∃ table position, number = 65 * table + 1 + position ∧
      position < 64 ∧ (table + 1 < selectors.length ∨ position ≠ 5) := by
    have numbers : number = 6 ∨ number = 70 ∨ number = 134 ∨
        number = 198 := by
      omega
    rcases numbers with rfl | rfl | rfl | rfl
    · exact ⟨0, 5, by omega, by omega, .inl (by omega)⟩
    · exact ⟨1, 4, by omega, by omega, .inr (by omega)⟩
    · exact ⟨2, 3, by omega, by omega, .inr (by omega)⟩
    · exact ⟨3, 2, by omega, by omega, .inr (by omega)⟩
  obtain ⟨table, position, rfl, small, other⟩ := place
  rw [payload_value small, Option.mem_def, Option.map_eq_some_iff] at isByte
  obtain ⟨which, isTable, rfl⟩ := isByte
  exact probe_values isTable other

/-- A cycle that presents a byte and nothing else. -/
def Input.config (byte : Byte × Bool) : Input where
  rst := false
  imgStart := false
  imgDqtTableY := 0
  imgDqtTableCb := 0
  imgDqtTableCr := 0
  cfgValid := true
  cfgData := byte.1
  cfgLast := byte.2
  inportValid := false
  inportData := 0
  inportIdx := 0
  inportId := 0
  inportEob := false
  outportAccept := true

/-- Cycles without gaps present a payload. -/
theorem presents_config (bytes : List Byte) :
    Presents ((flagged bytes).map .config) bytes := by
  refine ⟨fun i isCycle => ?_, ?_⟩
  · obtain ⟨byte, -, rfl⟩ := List.mem_map.mp isCycle
    rfl
  · rw [List.filterMap_map]
    exact List.filterMap_some

/-- The circuit loses the last of several tables. -/
theorem not_circuitStores_probe
    {selectors : List (BitVec 2)}
    (several : 2 ≤ selectors.length)
    (few : selectors.length ≤ 4) :
    ¬ CircuitStores (probe selectors) := by
  intro stores
  obtain ⟨selector, isOne⟩ := latest_probe several few
  have presents := presents_config (payload (probe selectors))
  have stored := stores (reset (fun _ => 0) 0) _ rfl presents selector 5
    (by omega)
  rw [run_loader _ presents.1, presents.2, Loader.entry, takeAll_flagged]
    at stored
  have kept := @takeAll_entry_kept (reset (fun _ => 0) 0).loader
    (payload (probe selectors)) 5 0 (by omega) (fun _ => rfl)
    (fun number lands => probe_lands several few lands) selector
  rw [Loader.entry, stored] at kept
  exact absurd (isOne.symm.trans kept) (by decide)

/-- `process` loses the last of several tables. -/
theorem not_processStores_probe
    {selectors : List (BitVec 2)}
    (several : 2 ≤ selectors.length)
    (few : selectors.length ≤ 4) :
    ¬ ProcessStores (probe selectors) := by
  intro stores
  obtain ⟨selector, isOne⟩ := latest_probe several few
  obtain ⟨after, isAfter, entries⟩ := stores (fun _ _ => 0) []
  have isFirst : ∃ first rest, probe selectors = first :: rest ∧
      first.values 5 = 0 := by
    rcases several_cases several few with
      ⟨a, b, rfl⟩ | ⟨a, b, c, rfl⟩ | ⟨a, b, c, d, rfl⟩
    all_goals exact ⟨_, _, rfl, rfl⟩
  obtain ⟨first, rest, tables, zero⟩ := isFirst
  have entry := entries selector 5 (by omega)
  rw [isOne] at entry
  rw [tables, dqtProcess_payload, Except.ok.injEq] at isAfter
  rw [← isAfter] at entry
  simp [zero] at entry

end SeveralTables

/--
Whatever its selectors are, a segment of one to four tables is stored by the
circuit for all values, contents and gaps exactly when it has one table, and
so it is by `process`.
-/
theorem segment_stored_iff
    (selectors : List (BitVec 2))
    (hasSelectors : selectors ≠ [])
    (few : selectors.length ≤ 4) :
    ((∀ tables : List QuantTable,
          tables.map QuantTable.selector = selectors →
            CircuitStores tables) ↔
        selectors.length = 1) ∧
      ((∀ tables : List QuantTable,
          tables.map QuantTable.selector = selectors →
            ProcessStores tables) ↔
        selectors.length = 1) := by
  have single (isOne : selectors.length = 1) (tables : List QuantTable)
      (chosen : tables.map QuantTable.selector = selectors) :
      ∃ table, tables = [table] := by
    rw [← chosen, List.length_map] at isOne
    exact List.length_eq_one_iff.mp isOne
  have several (notOne : selectors.length ≠ 1) : 2 ≤ selectors.length := by
    have positive := List.length_pos_of_ne_nil hasSelectors
    omega
  refine ⟨⟨fun stores => ?_, fun isOne tables chosen => ?_⟩,
    ⟨fun stores => ?_, fun isOne tables chosen => ?_⟩⟩
  · by_contra notOne
    exact not_circuitStores_probe (several notOne) few
      (stores _ (map_probe selectors))
  · obtain ⟨table, rfl⟩ := single isOne tables chosen
    exact circuitStores_one table
  · by_contra notOne
    exact not_processStores_probe (several notOne) few
      (stores _ (map_probe selectors))
  · obtain ⟨table, rfl⟩ := single isOne tables chosen
    exact processStores_one table

/-- A segment of one table for number 2. -/
theorem segment_stored_single :
    ((∀ tables : List QuantTable,
          tables.map QuantTable.selector = [2] → CircuitStores tables) ↔
        [(2 : BitVec 2)].length = 1) ∧
      ((∀ tables : List QuantTable,
          tables.map QuantTable.selector = [2] → ProcessStores tables) ↔
        [(2 : BitVec 2)].length = 1) :=
  segment_stored_iff [2] (by decide) (by decide)

/-- A second table in the same segment is lost by both. -/
theorem second_table_lost :
    ¬ ∀ tables : List QuantTable, tables ≠ [] → tables.length ≤ 4 →
      CircuitStores tables ∧ ProcessStores tables := by
  intro claimed
  have both := claimed (probe [0, 1]) (by simp [probe]) (by simp [probe])
  exact not_processStores_probe (by decide) (by decide) both.2

end CoreJpeg.JpegDqt
