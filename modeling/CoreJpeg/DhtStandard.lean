import CoreJpeg.SoftwareCanonical

namespace CoreJpeg.JpegDht

open CanonicalCode Clocked Software

/-!
# The Huffman tables that are built in

With `SUPPORT_WRITABLE_DHT` at zero `jpeg_dht` has no memory: the tables of the
JPEG standard stand in four chains of comparisons, and a lookup is answered
after one cycle.  Each chain is the canonical code of the counts and symbols of
the standard, so that it agrees with the writable tables, and with the
software, behind segments that define these tables.
-/

/-! ## Chains of comparisons -/

/-- A branch of a chain: the leading bits of the window, and the answer. -/
structure Branch where
  width : Nat
  code : BitVec 16
  value : Byte
  deriving Repr, DecidableEq

/-- The comparison of a branch. -/
def Branch.taken (branch : Branch) (window : BitVec 16) : Bool :=
  window >>> (16 - branch.width) == branch.code

/-- `lookup_width_o` and `lookup_value_o` of a chain. -/
def chain (branches : List Branch) (window : BitVec 16) :
    BitVec 5 × Byte :=
  match branches.find? fun branch => branch.taken window with
  | some branch => (BitVec.ofNat 5 branch.width, branch.value)
  | none => (0, 0)

/-- The branches of `jpeg_dht_std_y_dc`. -/
def stdYDc : List Branch :=
  [⟨2, 0x0, 0x00⟩, ⟨3, 0x2, 0x01⟩, ⟨3, 0x3, 0x02⟩, ⟨3, 0x4, 0x03⟩,
   ⟨3, 0x5, 0x04⟩, ⟨3, 0x6, 0x05⟩, ⟨4, 0xe, 0x06⟩, ⟨5, 0x1e, 0x07⟩,
   ⟨6, 0x3e, 0x08⟩, ⟨7, 0x7e, 0x09⟩, ⟨8, 0xfe, 0x0a⟩, ⟨9, 0x1fe, 0x0b⟩]

/-- The branches of `jpeg_dht_std_y_ac`. -/
def stdYAc : List Branch :=
  [⟨2, 0x0, 0x01⟩, ⟨2, 0x1, 0x02⟩, ⟨3, 0x4, 0x03⟩, ⟨4, 0xa, 0x00⟩,
   ⟨4, 0xb, 0x04⟩, ⟨4, 0xc, 0x11⟩, ⟨5, 0x1a, 0x05⟩, ⟨5, 0x1b, 0x12⟩,
   ⟨5, 0x1c, 0x21⟩, ⟨6, 0x3a, 0x31⟩, ⟨6, 0x3b, 0x41⟩, ⟨7, 0x78, 0x06⟩,
   ⟨7, 0x79, 0x13⟩, ⟨7, 0x7a, 0x51⟩, ⟨7, 0x7b, 0x61⟩, ⟨8, 0xf8, 0x07⟩,
   ⟨8, 0xf9, 0x22⟩, ⟨8, 0xfa, 0x71⟩, ⟨9, 0x1f6, 0x14⟩, ⟨9, 0x1f7, 0x32⟩,
   ⟨9, 0x1f8, 0x81⟩, ⟨9, 0x1f9, 0x91⟩, ⟨9, 0x1fa, 0xa1⟩, ⟨10, 0x3f6, 0x08⟩,
   ⟨10, 0x3f7, 0x23⟩, ⟨10, 0x3f8, 0x42⟩, ⟨10, 0x3f9, 0xb1⟩, ⟨10, 0x3fa, 0xc1⟩,
   ⟨11, 0x7f6, 0x15⟩, ⟨11, 0x7f7, 0x52⟩, ⟨11, 0x7f8, 0xd1⟩, ⟨11, 0x7f9, 0xf0⟩,
   ⟨12, 0xff4, 0x24⟩, ⟨12, 0xff5, 0x33⟩, ⟨12, 0xff6, 0x62⟩, ⟨12, 0xff7, 0x72⟩,
   ⟨15, 0x7fc0, 0x82⟩, ⟨16, 0xff82, 0x09⟩, ⟨16, 0xff83, 0x0a⟩,
   ⟨16, 0xff84, 0x16⟩, ⟨16, 0xff85, 0x17⟩, ⟨16, 0xff86, 0x18⟩,
   ⟨16, 0xff87, 0x19⟩, ⟨16, 0xff88, 0x1a⟩, ⟨16, 0xff89, 0x25⟩,
   ⟨16, 0xff8a, 0x26⟩, ⟨16, 0xff8b, 0x27⟩, ⟨16, 0xff8c, 0x28⟩,
   ⟨16, 0xff8d, 0x29⟩, ⟨16, 0xff8e, 0x2a⟩, ⟨16, 0xff8f, 0x34⟩,
   ⟨16, 0xff90, 0x35⟩, ⟨16, 0xff91, 0x36⟩, ⟨16, 0xff92, 0x37⟩,
   ⟨16, 0xff93, 0x38⟩, ⟨16, 0xff94, 0x39⟩, ⟨16, 0xff95, 0x3a⟩,
   ⟨16, 0xff96, 0x43⟩, ⟨16, 0xff97, 0x44⟩, ⟨16, 0xff98, 0x45⟩,
   ⟨16, 0xff99, 0x46⟩, ⟨16, 0xff9a, 0x47⟩, ⟨16, 0xff9b, 0x48⟩,
   ⟨16, 0xff9c, 0x49⟩, ⟨16, 0xff9d, 0x4a⟩, ⟨16, 0xff9e, 0x53⟩,
   ⟨16, 0xff9f, 0x54⟩, ⟨16, 0xffa0, 0x55⟩, ⟨16, 0xffa1, 0x56⟩,
   ⟨16, 0xffa2, 0x57⟩, ⟨16, 0xffa3, 0x58⟩, ⟨16, 0xffa4, 0x59⟩,
   ⟨16, 0xffa5, 0x5a⟩, ⟨16, 0xffa6, 0x63⟩, ⟨16, 0xffa7, 0x64⟩,
   ⟨16, 0xffa8, 0x65⟩, ⟨16, 0xffa9, 0x66⟩, ⟨16, 0xffaa, 0x67⟩,
   ⟨16, 0xffab, 0x68⟩, ⟨16, 0xffac, 0x69⟩, ⟨16, 0xffad, 0x6a⟩,
   ⟨16, 0xffae, 0x73⟩, ⟨16, 0xffaf, 0x74⟩, ⟨16, 0xffb0, 0x75⟩,
   ⟨16, 0xffb1, 0x76⟩, ⟨16, 0xffb2, 0x77⟩, ⟨16, 0xffb3, 0x78⟩,
   ⟨16, 0xffb4, 0x79⟩, ⟨16, 0xffb5, 0x7a⟩, ⟨16, 0xffb6, 0x83⟩,
   ⟨16, 0xffb7, 0x84⟩, ⟨16, 0xffb8, 0x85⟩, ⟨16, 0xffb9, 0x86⟩,
   ⟨16, 0xffba, 0x87⟩, ⟨16, 0xffbb, 0x88⟩, ⟨16, 0xffbc, 0x89⟩,
   ⟨16, 0xffbd, 0x8a⟩, ⟨16, 0xffbe, 0x92⟩, ⟨16, 0xffbf, 0x93⟩,
   ⟨16, 0xffc0, 0x94⟩, ⟨16, 0xffc1, 0x95⟩, ⟨16, 0xffc2, 0x96⟩,
   ⟨16, 0xffc3, 0x97⟩, ⟨16, 0xffc4, 0x98⟩, ⟨16, 0xffc5, 0x99⟩,
   ⟨16, 0xffc6, 0x9a⟩, ⟨16, 0xffc7, 0xa2⟩, ⟨16, 0xffc8, 0xa3⟩,
   ⟨16, 0xffc9, 0xa4⟩, ⟨16, 0xffca, 0xa5⟩, ⟨16, 0xffcb, 0xa6⟩,
   ⟨16, 0xffcc, 0xa7⟩, ⟨16, 0xffcd, 0xa8⟩, ⟨16, 0xffce, 0xa9⟩,
   ⟨16, 0xffcf, 0xaa⟩, ⟨16, 0xffd0, 0xb2⟩, ⟨16, 0xffd1, 0xb3⟩,
   ⟨16, 0xffd2, 0xb4⟩, ⟨16, 0xffd3, 0xb5⟩, ⟨16, 0xffd4, 0xb6⟩,
   ⟨16, 0xffd5, 0xb7⟩, ⟨16, 0xffd6, 0xb8⟩, ⟨16, 0xffd7, 0xb9⟩,
   ⟨16, 0xffd8, 0xba⟩, ⟨16, 0xffd9, 0xc2⟩, ⟨16, 0xffda, 0xc3⟩,
   ⟨16, 0xffdb, 0xc4⟩, ⟨16, 0xffdc, 0xc5⟩, ⟨16, 0xffdd, 0xc6⟩,
   ⟨16, 0xffde, 0xc7⟩, ⟨16, 0xffdf, 0xc8⟩, ⟨16, 0xffe0, 0xc9⟩,
   ⟨16, 0xffe1, 0xca⟩, ⟨16, 0xffe2, 0xd2⟩, ⟨16, 0xffe3, 0xd3⟩,
   ⟨16, 0xffe4, 0xd4⟩, ⟨16, 0xffe5, 0xd5⟩, ⟨16, 0xffe6, 0xd6⟩,
   ⟨16, 0xffe7, 0xd7⟩, ⟨16, 0xffe8, 0xd8⟩, ⟨16, 0xffe9, 0xd9⟩,
   ⟨16, 0xffea, 0xda⟩, ⟨16, 0xffeb, 0xe1⟩, ⟨16, 0xffec, 0xe2⟩,
   ⟨16, 0xffed, 0xe3⟩, ⟨16, 0xffee, 0xe4⟩, ⟨16, 0xffef, 0xe5⟩,
   ⟨16, 0xfff0, 0xe6⟩, ⟨16, 0xfff1, 0xe7⟩, ⟨16, 0xfff2, 0xe8⟩,
   ⟨16, 0xfff3, 0xe9⟩, ⟨16, 0xfff4, 0xea⟩, ⟨16, 0xfff5, 0xf1⟩,
   ⟨16, 0xfff6, 0xf2⟩, ⟨16, 0xfff7, 0xf3⟩, ⟨16, 0xfff8, 0xf4⟩,
   ⟨16, 0xfff9, 0xf5⟩, ⟨16, 0xfffa, 0xf6⟩, ⟨16, 0xfffb, 0xf7⟩,
   ⟨16, 0xfffc, 0xf8⟩, ⟨16, 0xfffd, 0xf9⟩, ⟨16, 0xfffe, 0xfa⟩]

/-- The branches of `jpeg_dht_std_cx_dc`. -/
def stdCxDc : List Branch :=
  [⟨2, 0x0, 0x00⟩, ⟨2, 0x1, 0x01⟩, ⟨2, 0x2, 0x02⟩, ⟨3, 0x6, 0x03⟩,
   ⟨4, 0xe, 0x04⟩, ⟨5, 0x1e, 0x05⟩, ⟨6, 0x3e, 0x06⟩, ⟨7, 0x7e, 0x07⟩,
   ⟨8, 0xfe, 0x08⟩, ⟨9, 0x1fe, 0x09⟩, ⟨10, 0x3fe, 0x0a⟩, ⟨11, 0x7fe, 0x0b⟩]

/-- The branches of `jpeg_dht_std_cx_ac`. -/
def stdCxAc : List Branch :=
  [⟨2, 0x0, 0x00⟩, ⟨2, 0x1, 0x01⟩, ⟨3, 0x4, 0x02⟩, ⟨4, 0xa, 0x03⟩,
   ⟨4, 0xb, 0x11⟩, ⟨5, 0x18, 0x04⟩, ⟨5, 0x19, 0x05⟩, ⟨5, 0x1a, 0x21⟩,
   ⟨5, 0x1b, 0x31⟩, ⟨6, 0x38, 0x06⟩, ⟨6, 0x39, 0x12⟩, ⟨6, 0x3a, 0x41⟩,
   ⟨6, 0x3b, 0x51⟩, ⟨7, 0x78, 0x07⟩, ⟨7, 0x79, 0x61⟩, ⟨7, 0x7a, 0x71⟩,
   ⟨8, 0xf6, 0x13⟩, ⟨8, 0xf7, 0x22⟩, ⟨8, 0xf8, 0x32⟩, ⟨8, 0xf9, 0x81⟩,
   ⟨9, 0x1f4, 0x08⟩, ⟨9, 0x1f5, 0x14⟩, ⟨9, 0x1f6, 0x42⟩, ⟨9, 0x1f7, 0x91⟩,
   ⟨9, 0x1f8, 0xa1⟩, ⟨9, 0x1f9, 0xb1⟩, ⟨9, 0x1fa, 0xc1⟩, ⟨10, 0x3f6, 0x09⟩,
   ⟨10, 0x3f7, 0x23⟩, ⟨10, 0x3f8, 0x33⟩, ⟨10, 0x3f9, 0x52⟩, ⟨10, 0x3fa, 0xf0⟩,
   ⟨11, 0x7f6, 0x15⟩, ⟨11, 0x7f7, 0x62⟩, ⟨11, 0x7f8, 0x72⟩, ⟨11, 0x7f9, 0xd1⟩,
   ⟨12, 0xff4, 0x0a⟩, ⟨12, 0xff5, 0x16⟩, ⟨12, 0xff6, 0x24⟩, ⟨12, 0xff7, 0x34⟩,
   ⟨14, 0x3fe0, 0xe1⟩, ⟨15, 0x7fc2, 0x25⟩, ⟨15, 0x7fc3, 0xf1⟩,
   ⟨16, 0xff88, 0x17⟩, ⟨16, 0xff89, 0x18⟩, ⟨16, 0xff8a, 0x19⟩,
   ⟨16, 0xff8b, 0x1a⟩, ⟨16, 0xff8c, 0x26⟩, ⟨16, 0xff8d, 0x27⟩,
   ⟨16, 0xff8e, 0x28⟩, ⟨16, 0xff8f, 0x29⟩, ⟨16, 0xff90, 0x2a⟩,
   ⟨16, 0xff91, 0x35⟩, ⟨16, 0xff92, 0x36⟩, ⟨16, 0xff93, 0x37⟩,
   ⟨16, 0xff94, 0x38⟩, ⟨16, 0xff95, 0x39⟩, ⟨16, 0xff96, 0x3a⟩,
   ⟨16, 0xff97, 0x43⟩, ⟨16, 0xff98, 0x44⟩, ⟨16, 0xff99, 0x45⟩,
   ⟨16, 0xff9a, 0x46⟩, ⟨16, 0xff9b, 0x47⟩, ⟨16, 0xff9c, 0x48⟩,
   ⟨16, 0xff9d, 0x49⟩, ⟨16, 0xff9e, 0x4a⟩, ⟨16, 0xff9f, 0x53⟩,
   ⟨16, 0xffa0, 0x54⟩, ⟨16, 0xffa1, 0x55⟩, ⟨16, 0xffa2, 0x56⟩,
   ⟨16, 0xffa3, 0x57⟩, ⟨16, 0xffa4, 0x58⟩, ⟨16, 0xffa5, 0x59⟩,
   ⟨16, 0xffa6, 0x5a⟩, ⟨16, 0xffa7, 0x63⟩, ⟨16, 0xffa8, 0x64⟩,
   ⟨16, 0xffa9, 0x65⟩, ⟨16, 0xffaa, 0x66⟩, ⟨16, 0xffab, 0x67⟩,
   ⟨16, 0xffac, 0x68⟩, ⟨16, 0xffad, 0x69⟩, ⟨16, 0xffae, 0x6a⟩,
   ⟨16, 0xffaf, 0x73⟩, ⟨16, 0xffb0, 0x74⟩, ⟨16, 0xffb1, 0x75⟩,
   ⟨16, 0xffb2, 0x76⟩, ⟨16, 0xffb3, 0x77⟩, ⟨16, 0xffb4, 0x78⟩,
   ⟨16, 0xffb5, 0x79⟩, ⟨16, 0xffb6, 0x7a⟩, ⟨16, 0xffb7, 0x82⟩,
   ⟨16, 0xffb8, 0x83⟩, ⟨16, 0xffb9, 0x84⟩, ⟨16, 0xffba, 0x85⟩,
   ⟨16, 0xffbb, 0x86⟩, ⟨16, 0xffbc, 0x87⟩, ⟨16, 0xffbd, 0x88⟩,
   ⟨16, 0xffbe, 0x89⟩, ⟨16, 0xffbf, 0x8a⟩, ⟨16, 0xffc0, 0x92⟩,
   ⟨16, 0xffc1, 0x93⟩, ⟨16, 0xffc2, 0x94⟩, ⟨16, 0xffc3, 0x95⟩,
   ⟨16, 0xffc4, 0x96⟩, ⟨16, 0xffc5, 0x97⟩, ⟨16, 0xffc6, 0x98⟩,
   ⟨16, 0xffc7, 0x99⟩, ⟨16, 0xffc8, 0x9a⟩, ⟨16, 0xffc9, 0xa2⟩,
   ⟨16, 0xffca, 0xa3⟩, ⟨16, 0xffcb, 0xa4⟩, ⟨16, 0xffcc, 0xa5⟩,
   ⟨16, 0xffcd, 0xa6⟩, ⟨16, 0xffce, 0xa7⟩, ⟨16, 0xffcf, 0xa8⟩,
   ⟨16, 0xffd0, 0xa9⟩, ⟨16, 0xffd1, 0xaa⟩, ⟨16, 0xffd2, 0xb2⟩,
   ⟨16, 0xffd3, 0xb3⟩, ⟨16, 0xffd4, 0xb4⟩, ⟨16, 0xffd5, 0xb5⟩,
   ⟨16, 0xffd6, 0xb6⟩, ⟨16, 0xffd7, 0xb7⟩, ⟨16, 0xffd8, 0xb8⟩,
   ⟨16, 0xffd9, 0xb9⟩, ⟨16, 0xffda, 0xba⟩, ⟨16, 0xffdb, 0xc2⟩,
   ⟨16, 0xffdc, 0xc3⟩, ⟨16, 0xffdd, 0xc4⟩, ⟨16, 0xffde, 0xc5⟩,
   ⟨16, 0xffdf, 0xc6⟩, ⟨16, 0xffe0, 0xc7⟩, ⟨16, 0xffe1, 0xc8⟩,
   ⟨16, 0xffe2, 0xc9⟩, ⟨16, 0xffe3, 0xca⟩, ⟨16, 0xffe4, 0xd2⟩,
   ⟨16, 0xffe5, 0xd3⟩, ⟨16, 0xffe6, 0xd4⟩, ⟨16, 0xffe7, 0xd5⟩,
   ⟨16, 0xffe8, 0xd6⟩, ⟨16, 0xffe9, 0xd7⟩, ⟨16, 0xffea, 0xd8⟩,
   ⟨16, 0xffeb, 0xd9⟩, ⟨16, 0xffec, 0xda⟩, ⟨16, 0xffed, 0xe2⟩,
   ⟨16, 0xffee, 0xe3⟩, ⟨16, 0xffef, 0xe4⟩, ⟨16, 0xfff0, 0xe5⟩,
   ⟨16, 0xfff1, 0xe6⟩, ⟨16, 0xfff2, 0xe7⟩, ⟨16, 0xfff3, 0xe8⟩,
   ⟨16, 0xfff4, 0xe9⟩, ⟨16, 0xfff5, 0xea⟩, ⟨16, 0xfff6, 0xf2⟩,
   ⟨16, 0xfff7, 0xf3⟩, ⟨16, 0xfff8, 0xf4⟩, ⟨16, 0xfff9, 0xf5⟩,
   ⟨16, 0xfffa, 0xf6⟩, ⟨16, 0xfffb, 0xf7⟩, ⟨16, 0xfffc, 0xf8⟩,
   ⟨16, 0xfffd, 0xf9⟩, ⟨16, 0xfffe, 0xfa⟩]

/-- The chain of a table. -/
def stdBranches : TableName → List Branch
  | .yDc => stdYDc
  | .yAc => stdYAc
  | .cxDc => stdCxDc
  | .cxAc => stdCxAc

/-- What the chain of a table answers. -/
def stdFind (name : TableName) (window : BitVec 16) : BitVec 5 × Byte :=
  chain (stdBranches name) window

/-! ## The circuit -/

/-- The registers without `SUPPORT_WRITABLE_DHT`; `cfg_accept_o` is constant. -/
structure StdState where
  lookupValidQ : Bool
  lookupValueQ : Byte
  lookupWidthQ : BitVec 5
  deriving Repr, DecidableEq

/-- One clock edge. -/
def StdState.step (_ : StdState) (i : Input) : StdState :=
  if i.rst then
    { lookupValidQ := false
      lookupValueQ := 0
      lookupWidthQ := 0 }
  else
    { lookupValidQ := i.lookupReq
      lookupValueQ := (stdFind (lookupTable i.lookupTable) i.lookupInput).2
      lookupWidthQ := (stdFind (lookupTable i.lookupTable) i.lookupInput).1 }

/-! ## The standard tables -/

/-- The id of a table in a DHT segment. -/
def stdInfo : TableName → Byte
  | .yDc => 0x00
  | .yAc => 0x10
  | .cxDc => 0x01
  | .cxAc => 0x11

/-- The numbers of code words of each length that the JPEG standard gives. -/
def stdCounts : TableName → List Byte
  | .yDc => [0, 1, 5, 1, 1, 1, 1, 1, 1, 0, 0, 0, 0, 0, 0, 0]
  | .yAc => [0, 2, 1, 3, 3, 2, 4, 3, 5, 5, 4, 4, 0, 0, 1, 125]
  | .cxDc => [0, 3, 1, 1, 1, 1, 1, 1, 1, 1, 1, 0, 0, 0, 0, 0]
  | .cxAc => [0, 2, 1, 2, 4, 4, 3, 4, 7, 5, 4, 4, 0, 1, 2, 119]

/-- The symbols of the code words that the JPEG standard gives. -/
def stdSymbols : TableName → List Byte
  | .yDc =>
     [0x00, 0x01, 0x02, 0x03, 0x04, 0x05, 0x06, 0x07, 0x08, 0x09, 0x0a, 0x0b]
  | .yAc =>
     [0x01, 0x02, 0x03, 0x00, 0x04, 0x11, 0x05, 0x12, 0x21, 0x31, 0x41, 0x06,
      0x13, 0x51, 0x61, 0x07, 0x22, 0x71, 0x14, 0x32, 0x81, 0x91, 0xa1, 0x08,
      0x23, 0x42, 0xb1, 0xc1, 0x15, 0x52, 0xd1, 0xf0, 0x24, 0x33, 0x62, 0x72,
      0x82, 0x09, 0x0a, 0x16, 0x17, 0x18, 0x19, 0x1a, 0x25, 0x26, 0x27, 0x28,
      0x29, 0x2a, 0x34, 0x35, 0x36, 0x37, 0x38, 0x39, 0x3a, 0x43, 0x44, 0x45,
      0x46, 0x47, 0x48, 0x49, 0x4a, 0x53, 0x54, 0x55, 0x56, 0x57, 0x58, 0x59,
      0x5a, 0x63, 0x64, 0x65, 0x66, 0x67, 0x68, 0x69, 0x6a, 0x73, 0x74, 0x75,
      0x76, 0x77, 0x78, 0x79, 0x7a, 0x83, 0x84, 0x85, 0x86, 0x87, 0x88, 0x89,
      0x8a, 0x92, 0x93, 0x94, 0x95, 0x96, 0x97, 0x98, 0x99, 0x9a, 0xa2, 0xa3,
      0xa4, 0xa5, 0xa6, 0xa7, 0xa8, 0xa9, 0xaa, 0xb2, 0xb3, 0xb4, 0xb5, 0xb6,
      0xb7, 0xb8, 0xb9, 0xba, 0xc2, 0xc3, 0xc4, 0xc5, 0xc6, 0xc7, 0xc8, 0xc9,
      0xca, 0xd2, 0xd3, 0xd4, 0xd5, 0xd6, 0xd7, 0xd8, 0xd9, 0xda, 0xe1, 0xe2,
      0xe3, 0xe4, 0xe5, 0xe6, 0xe7, 0xe8, 0xe9, 0xea, 0xf1, 0xf2, 0xf3, 0xf4,
      0xf5, 0xf6, 0xf7, 0xf8, 0xf9, 0xfa]
  | .cxDc =>
     [0x00, 0x01, 0x02, 0x03, 0x04, 0x05, 0x06, 0x07, 0x08, 0x09, 0x0a, 0x0b]
  | .cxAc =>
     [0x00, 0x01, 0x02, 0x03, 0x11, 0x04, 0x05, 0x21, 0x31, 0x06, 0x12, 0x41,
      0x51, 0x07, 0x61, 0x71, 0x13, 0x22, 0x32, 0x81, 0x08, 0x14, 0x42, 0x91,
      0xa1, 0xb1, 0xc1, 0x09, 0x23, 0x33, 0x52, 0xf0, 0x15, 0x62, 0x72, 0xd1,
      0x0a, 0x16, 0x24, 0x34, 0xe1, 0x25, 0xf1, 0x17, 0x18, 0x19, 0x1a, 0x26,
      0x27, 0x28, 0x29, 0x2a, 0x35, 0x36, 0x37, 0x38, 0x39, 0x3a, 0x43, 0x44,
      0x45, 0x46, 0x47, 0x48, 0x49, 0x4a, 0x53, 0x54, 0x55, 0x56, 0x57, 0x58,
      0x59, 0x5a, 0x63, 0x64, 0x65, 0x66, 0x67, 0x68, 0x69, 0x6a, 0x73, 0x74,
      0x75, 0x76, 0x77, 0x78, 0x79, 0x7a, 0x82, 0x83, 0x84, 0x85, 0x86, 0x87,
      0x88, 0x89, 0x8a, 0x92, 0x93, 0x94, 0x95, 0x96, 0x97, 0x98, 0x99, 0x9a,
      0xa2, 0xa3, 0xa4, 0xa5, 0xa6, 0xa7, 0xa8, 0xa9, 0xaa, 0xb2, 0xb3, 0xb4,
      0xb5, 0xb6, 0xb7, 0xb8, 0xb9, 0xba, 0xc2, 0xc3, 0xc4, 0xc5, 0xc6, 0xc7,
      0xc8, 0xc9, 0xca, 0xd2, 0xd3, 0xd4, 0xd5, 0xd6, 0xd7, 0xd8, 0xd9, 0xda,
      0xe2, 0xe3, 0xe4, 0xe5, 0xe6, 0xe7, 0xe8, 0xe9, 0xea, 0xf2, 0xf3, 0xf4,
      0xf5, 0xf6, 0xf7, 0xf8, 0xf9, 0xfa]

/-- The segment entry that defines a standard table. -/
def stdDefinition (name : TableName) : TableDef where
  info := stdInfo name
  counts := stdCounts name
  symbols := stdSymbols name
  sixteen := by cases name <;> rfl
  sized := by cases name <;> decide +kernel

/-- A branch as the software keeps it. -/
def Branch.entry (branch : Branch) : DhtEntry where
  code := branch.code
  codeLen := branch.width
  value := branch.value

/-- The branches are the code words that the counts prescribe, in order. -/
theorem entries_stdBranches (name : TableName) :
    (stdBranches name).map Branch.entry = (stdDefinition name).entries := by
  cases name <;> decide +kernel

theorem stdDefinition_wellFormed (name : TableName) :
    (stdDefinition name).WellFormed where
  filled := by cases name <;> decide +kernel
  small := by cases name <;> decide +kernel
  kraft := by
    unfold Kraft
    cases name <;> decide +kernel

/-- A chain finds what the software finds in the table of its definition. -/
theorem stdFind_eq (name : TableName) (window : BitVec 16) :
    ((stdFind name window).1.toNat, (stdFind name window).2) =
      lookup (stdDefinition name).entries window := by
  have narrow : ∀ branch ∈ stdBranches name, branch.width < 32 := by
    cases name <;> decide +kernel
  have same :
      ((stdBranches name).map Branch.entry).find? (fun entry =>
          window >>> (16 - entry.codeLen) == entry.code) =
        ((stdBranches name).find? fun branch => branch.taken window).map
          Branch.entry :=
    List.find?_map
  rw [lookup, ← entries_stdBranches, same, stdFind, chain]
  cases found : (stdBranches name).find? fun branch => branch.taken window with
  | none => rfl
  | some branch =>
      have width := narrow branch (List.mem_of_find?_eq_some found)
      simp only [Option.map_some, Branch.entry, BitVec.toNat_ofNat,
        Nat.mod_eq_of_lt width]

/-- Where a code word begins the window a chain answers with its entry. -/
theorem stdFind_of_spells
    {name : TableName}
    {window : BitVec 16}
    {length index : Nat}
    (spells : (stdDefinition name).Spells window length index) :
    stdFind name window = (stdDefinition name).entry length index := by
  have found := stdFind_eq name window
  rw [lookup_entries (stdDefinition_wellFormed name).kraft spells,
    Prod.mk.injEq] at found
  refine Prod.ext (BitVec.eq_of_toNat_eq ?_) found.2
  have fits := spells.fits
  rw [found.1]
  simp only [TableDef.entry, BitVec.toNat_ofNat]
  omega

/-! ## The result -/

/-- A lookup that succeeds in software begins with a code word. -/
theorem spells_of_lookup
    {table : TableDef}
    (kraft : Kraft table.count 16)
    {window : BitVec 16}
    (found : (lookup table.entries window).1 ≠ 0) :
    ∃ length index, table.Spells window length index := by
  by_contra nowhere
  refine found (((canonical_entries kraft).absent window).mpr ?_)
  intro entry member begins
  obtain ⟨length, index, fits, counted, rfl⟩ := mem_entries.mp member
  exact nowhere
    ⟨length, index, (word_prefix_iff kraft fits counted window).mp begins⟩

/-- Behind definitions of distinct tables every code word is found. -/
theorem OnceEach.find
    {tables : List TableDef}
    (once : OnceEach tables)
    (ram : BitVec 10 → Byte)
    {table : TableDef}
    (member : table ∈ tables)
    {window : BitVec 16}
    {length index : Nat}
    (spells : table.Spells window length index) :
    ((Store.cleared ram).defineAll tables).find (cfgTable table.info) window =
      table.entry length index := by
  obtain ⟨past, later, rfl⟩ := List.append_of_mem member
  refine once.keeps.find ram ?_ ?_ spells
  · exact fun other inLater =>
      once.others other (List.mem_append_right _ inLater)
  · intro other inPast
    refine (once.wellFormed other ?_).kraft
    simp only [List.mem_append, List.mem_cons, List.not_mem_nil,
      or_false] at inPast ⊢
    exact inPast.imp_right .inl

theorem cfgTable_stdInfo (name : TableName) :
    cfgTable (stdInfo name) = name := by
  cases name <;> rfl

/-- The table that an index names, in software as in the circuit. -/
theorem lookupTable_stdInfo (index : Fin 4) :
    tableIdx (stdInfo (lookupTable (.ofFin index))) = .ok index := by
  revert index
  decide

/--
A file that defines the standard tables, each once, and a circuit without
writable tables agree: whatever the window, the chains answer what the software
finds, and where a code word begins it what the writable tables answer.
-/
theorem standard_agrees
    (s : State)
    (resetting : Input)
    (segments : List (List TableDef))
    (once : OnceEach segments.flatten)
    (standard : ∀ name, stdDefinition name ∈ segments.flatten)
    (cycles : List Input)
    (complete :
      (run System.step (.fresh s resetting segments) cycles).left = [])
    (header : Nat)
    (short : header ≤ 2) :
    ∃ software, readSegments header segments = .ok software ∧
      ∀ (index : Fin 4) (window : BitVec 16),
        let answer := stdFind (lookupTable (.ofFin index)) window
        (answer.1.toNat, answer.2) = lookup (software index) window ∧
          (answer.1 ≠ 0 →
            ∀ first second,
              ((run System.step (.fresh s resetting segments) cycles).lookup
                (.ofFin index) window first second).shown = answer) := by
  obtain ⟨software, isRead, entries⟩ := once.readSegments short
  refine ⟨software, isRead, fun index window => ?_⟩
  have member := standard (lookupTable (.ofFin index))
  have kraft := (stdDefinition_wellFormed (lookupTable (.ofFin index))).kraft
  have isIndex := lookupTable_stdInfo index
  have named : cfgTable (stdDefinition (lookupTable (.ofFin index))).info =
      lookupTable (.ofFin index) :=
    cfgTable_stdInfo _
  have found := stdFind_eq (lookupTable (.ofFin index)) window
  refine ⟨by rw [entries _ member index isIndex, found], ?_⟩
  intro answered first second
  obtain ⟨length, number, spells⟩ := spells_of_lookup kraft
    (by rw [← found]; exact BitVec.toNat_ne_iff_ne.mpr answered)
  obtain ⟨ram, isStore⟩ :=
    store_loaded
      (fun table member => (once.wellFormed table member).toSized) s
      resetting complete
  rw [shown_lookup complete, isStore, ← named,
    once.find ram member spells, named, stdFind_of_spells spells]

/-- The standard tables in one segment. -/
def stdSegments : List (List TableDef) :=
  [[stdDefinition .yDc, stdDefinition .yAc, stdDefinition .cxDc,
    stdDefinition .cxAc]]

theorem stdSegments_once : OnceEach stdSegments.flatten where
  legal := by
    simp only [stdSegments, List.flatten_cons, List.flatten_nil,
      List.append_nil, List.mem_cons, List.not_mem_nil, or_false]
    rintro table (rfl | rfl | rfl | rfl)
    · exact ⟨0, rfl⟩
    · exact ⟨1, rfl⟩
    · exact ⟨2, rfl⟩
    · exact ⟨3, rfl⟩
  distinct := by decide +kernel
  wellFormed := by
    simp only [stdSegments, List.flatten_cons, List.flatten_nil,
      List.append_nil, List.mem_cons, List.not_mem_nil, or_false]
    rintro table (rfl | rfl | rfl | rfl) <;>
      exact stdDefinition_wellFormed _

/-- The standard segment is offered to a circuit behind reset. -/
theorem standard_agrees_segment :
    ∃ software, readSegments 2 stdSegments = .ok software ∧
      ∀ (index : Fin 4) (window : BitVec 16),
        let answer := stdFind (lookupTable (.ofFin index)) window
        (answer.1.toNat, answer.2) = lookup (software index) window ∧
          (answer.1 ≠ 0 →
            ∀ first second,
              ((run System.step (.fresh cleared offering stdSegments)
                  (.replicate 6656 offering)).lookup
                (.ofFin index) window first second).shown = answer) :=
  standard_agrees cleared offering stdSegments stdSegments_once
    (fun name => by cases name <;> simp [stdSegments])
    (.replicate 6656 offering)
    (fresh_complete
      (fun table member => (stdSegments_once.wellFormed table member).toSized)
      cleared offering
      (by
        rw [List.countP_replicate]
        decide +kernel))
    2 (by decide)

end CoreJpeg.JpegDht
