import Ftke.BitStream
import Ftke.PayloadParser

/-!
# Ftke.RFC3640PayloadParser

`RFC3640PayloadParser` (`rfc3640_payload_parser.cpp`), as it is built: with
`RFC3640_ONE_FRAGMENT_PER_MEDIA_MSG`, so that one fragment is made for all access units of
a packet's fragment, and the values of their headers are read and not used.

The loop over the access unit headers runs on fuel; `none` stands for a loop that has not
ended.
-/

namespace Ftke

open PayloadParser BitStream

/-- The members of `RFC3640PayloadParser`. -/
structure RFC3640PayloadParser where
  headersPresent : Bool
  headersLength : UInt32
  sizeLength : UInt32
  indexLength : UInt32
  indexDeltaLength : UInt32
  CTSDeltaLength : UInt32
  DTSDeltaLength : UInt32
  randomAccessIndication : Bool
  auxDataSizeLength : UInt32

namespace RFC3640PayloadParser

def AAC_HBR_SIZELENGTH_DEFAULT_VALUE : UInt32 := 13
def AAC_HBR_INDEXLENGTH_DEFAULT_VALUE : UInt32 := 3
def AAC_HBR_INDEXDELTALENGTH_DEFAULT_VALUE : UInt32 := 3
def AAC_HBR_CTSDELTALENGTH_DEFAULT_VALUE : UInt32 := 0
def AAC_HBR_DTSDELTALENGTH_DEFAULT_VALUE : UInt32 := 0
def AAC_HBR_HEADERSLENGTH_DEFAULT_VALUE : UInt32 := 16
def AAC_HBR_AUXDATASIZELENGTH_DEFAULT_VALUE : UInt32 := 0
def MOST_SIG_BIT : Nat := 7
def BITS_PER_UINT16 : UInt16 := 16

/-- The constructor. -/
def construct : RFC3640PayloadParser := ⟨false, 0, 0, 0, 0, 0, 0, false, 0⟩

/-- What `Init` takes from `RFC3640PayloadSpecificInfoType`, and the mode. -/
structure MediaInfo where
  mode : String
  sizeLength : UInt32
  indexLength : UInt32
  indexDeltaLength : UInt32
  CTSDeltaLength : UInt32
  DTSDeltaLength : UInt32

/-- `Init`; it returns true when it fails. -/
def init (s : RFC3640PayloadParser) (config : MediaInfo) : Bool × RFC3640PayloadParser :=
  let s := { s with
    sizeLength := config.sizeLength
    indexLength := config.indexLength
    indexDeltaLength := config.indexDeltaLength
    CTSDeltaLength := config.CTSDeltaLength
    DTSDeltaLength := config.DTSDeltaLength
    randomAccessIndication := false }
  if config.mode.toList.take 7 = "AAC-hbr".toList then
    (config.sizeLength ≠ AAC_HBR_SIZELENGTH_DEFAULT_VALUE ∨
      config.indexLength ≠ AAC_HBR_INDEXLENGTH_DEFAULT_VALUE ∨
      config.indexDeltaLength ≠ AAC_HBR_INDEXDELTALENGTH_DEFAULT_VALUE,
    { s with
      headersPresent := true
      headersLength := AAC_HBR_HEADERSLENGTH_DEFAULT_VALUE
      auxDataSizeLength := AAC_HBR_AUXDATASIZELENGTH_DEFAULT_VALUE })
  else (true, s)

/-! ## One fragment of a packet -/

/-- `BitsRead`. -/
def bitsRead (fragment : BitStreamParser) : UInt32 :=
  UInt32.ofNat fragment.bytepos * 8 + UInt32.ofNat (MOST_SIG_BIT - fragment.bitpos)

/-- A field of an access unit header, which is there when its length is not zero. -/
def readField (length : UInt32) : ParserM Unit := do
  if length ≠ 0 then
    let _ ← readBits length.toUInt8

/-- A field behind its flag. -/
def readFlagged (length : UInt32) : ParserM Unit := do
  if length ≠ 0 then
    let flag ← readBits 1
    if flag ≠ 0 then
      let _ ← readBits length.toUInt8

/-- The header of an access unit. -/
def readHeader (s : RFC3640PayloadParser) (accessUnits : UInt8) : ParserM Unit := do
  readField s.sizeLength
  if s.indexLength ≠ 0 then
    -- the index occurs in the first header only
    let _ ← readBits (if accessUnits = 0 then s.indexLength else s.indexDeltaLength).toUInt8
  readFlagged s.CTSDeltaLength
  readFlagged s.DTSDeltaLength
  if s.randomAccessIndication then
    let _ ← readBits 1

/-- The fragment behind the headers. -/
def behindHeaders (frag : RefMemFrag) (headersLength : UInt16) : RefMemFrag :=
  frag.part (headersLength.toNat / 8) (frag.len - UInt32.ofNat (headersLength.toNat / 8))

/-- The loop over the access units: the fragments that it pushes. -/
def accessUnitLoop (s : RFC3640PayloadParser) (frag : RefMemFrag) (headersLength : UInt16) :
    Nat → UInt8 → ParserM (Option (List RefMemFrag))
  | 0, _ => pure none
  | fuel + 1, accessUnits => do
    let fragment ← get
    if bitsRead fragment < headersLength.toUInt32 then
      readHeader s accessUnits
      let pushed ← accessUnitLoop s frag headersLength fuel (accessUnits + 1)
      if accessUnits = 0 then return pushed.map (behindHeaders frag headersLength :: ·)
      else return pushed
    else return some []

/-- Skips past any padding. -/
def skipPadding : ParserM Unit := do
  let fragment ← get
  if fragment.bitpos ≠ MOST_SIG_BIT then nextBits (UInt32.ofNat fragment.bitpos + 1)

/-- The turn of the loop over the packet's fragments. -/
def parseFragment (s : RFC3640PayloadParser) (fuel : Nat) (frag : RefMemFrag) :
    ParserM (Option (List RefMemFrag)) := do
  let headersLength ← if s.headersPresent then do
      let declared ← readUInt16
      pure (declared + BITS_PER_UINT16)
    else pure 0
  let pushed ← accessUnitLoop s frag headersLength fuel 0
  skipPadding
  if s.auxDataSizeLength ≠ 0 then
    let auxDataSize ← readBits s.auxDataSizeLength.toUInt8
    if auxDataSize ≠ 0 then
      nextBits auxDataSize
      skipPadding
  return pushed

/-! ## Packets -/

/-- The fragments that are pushed for a fragment of the packet, or how its turn is left. -/
def turn (s : RFC3640PayloadParser) (fuel : Nat) (frag : RefMemFrag) : Option (Except Leave (List RefMemFrag)) :=
  match parseFragment s fuel frag (resetBitStreamParser frag.bytes frag.bytes.length) with
  | .error e _ => some (.error e)
  | .ok none _ => none
  | .ok (some pushed) _ => some (.ok pushed)

/-- The loop over the packet's fragments, which a leave ends. -/
def parseFragments (s : RFC3640PayloadParser) (fuel : Nat) :
    List RefMemFrag → Option (Except Leave (List RefMemFrag))
  | [] => some (.ok [])
  | frag :: vfragments =>
    match turn s fuel frag with
    | none => none
    | some (.error e) => some (.error e)
    | some (.ok pushed) => (parseFragments s fuel vfragments).map fun rest => rest.map (pushed ++ ·)

/-- `Parse`: its status and `vParsedPayloads`. -/
def parse (s : RFC3640PayloadParser) (fuel : Nat) (inputPacket : Payload) (vParsedPayloads : List Payload) :
    Option (PayloadParserStatus × List Payload) :=
  (parseFragments s fuel inputPacket.vfragments).map fun
    | .error _ => (.failure, vParsedPayloads)
    | .ok vfragments =>
      (.success, vParsedPayloads ++
        [{ inputPacket with
            sequence := inputPacket.sequence + 1
            endOfNAL := false
            vfragments := vfragments }])

end RFC3640PayloadParser

end Ftke
