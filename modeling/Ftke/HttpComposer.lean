import Ftke.KeyValueStore.Lengths
import Ftke.Memory
import Ftke.StringUtils

/-!
# Ftke.HttpComposer

The composer of HTTP requests (`http_composer.cpp`): a request line, the fields of a
`StringKeyValueStore` and, behind them, an entity body that is in place already.

The length of a request is computed from the running totals of the store
(`getCurrentRequestLength`), and the check of the buffer relies on it; `composeHeaders`
walks the keys and their values instead.

What a composer writes is a partial map from the offsets of the buffer to octets, so that
a write outside the buffer is in it too.  To write behind a list that is allocated for the
keys, or to follow a bad pointer, is a fault (`none`); whether the lists can be allocated
is an argument (`arrays`).
-/

namespace Ftke.HttpComposer

open KeyValueStore

/-! ## Data -/

/-- A text of ASCII characters. -/
def ascii (text : List Char) : Str := text.map fun c => UInt8.ofNat c.toNat

def charCR : UInt8 := 13
def charLF : UInt8 := 10
def charNull : UInt8 := 0
def charColon : UInt8 := 0x3A
def charSpace : UInt8 := 0x20

inductive HTTPMethod
  | get | head | post | delete | link | unlink | options | put | trace | connect
  deriving DecidableEq

inductive HTTPVersion
  | v10 | v11
  deriving DecidableEq

def HTTPMethodString : HTTPMethod → Str
  | .get => ascii ['G', 'E', 'T']
  | .head => ascii ['H', 'E', 'A', 'D']
  | .post => ascii ['P', 'O', 'S', 'T']
  | .delete => ascii ['D', 'E', 'L', 'E', 'T', 'E']
  | .link => ascii ['L', 'I', 'N', 'K']
  | .unlink => ascii ['U', 'N', 'L', 'I', 'N', 'K']
  | .options => ascii ['O', 'P', 'T', 'I', 'O', 'N', 'S']
  | .put => ascii ['P', 'U', 'T']
  | .trace => ascii ['T', 'R', 'A', 'C', 'E']
  | .connect => ascii ['C', 'O', 'N', 'N', 'E', 'C', 'T']

def versionString : HTTPVersion → Str
  | .v11 => ascii ['H', 'T', 'T', 'P', '/', '1', '.', '1']
  | .v10 => ascii ['H', 'T', 'T', 'P', '/', '1', '.', '0']

/-- `HTTPComposer`; the texts of the URIs are those at the pointers of the caller. -/
structure Composer where
  iMethod : HTTPMethod
  iVersion : HTTPVersion
  iURI : Str
  iRelativeURI : Str
  iHeaderLength : UInt32
  iFirstLineLength : UInt32
  iEntityBodyLength : UInt32
  iKeyValueStore : KeyValueStore.Store

/-- `create`. -/
def create : Composer := ⟨.get, .v10, [], [], 0, 0, 0, KeyValueStore.create⟩

/-- `reset`. -/
def reset (aKeepAllSettingsExceptURI : Bool) (c : Composer) : Composer :=
  let c := { c with iURI := [], iHeaderLength := 0, iFirstLineLength := 0, iEntityBodyLength := 0 }
  if aKeepAllSettingsExceptURI then c
  else { c with iMethod := .get, iVersion := .v10, iKeyValueStore := clear c.iKeyValueStore }

/-! ## Setting up a request -/

def setMethod (aMethod : HTTPMethod) (c : Composer) : Composer := { c with iMethod := aMethod }

def setVersion (aVersion : HTTPVersion) (c : Composer) : Composer := { c with iVersion := aVersion }

/-- `oscl_strstr`: a text from the first occurrence of another one on. -/
def strstr (text : Str) (s : Str) : Option Str := s.tails.find? fun rest => text.isPrefixOf rest

/-- `setURI`; `behind` is what stands between the end of the URI and the null character that
ends the text. -/
def setURI (aURI behind : Str) (c : Composer) : Composer :=
  let c := { c with iURI := aURI }
  let text := (aURI ++ behind).takeWhile fun octet => octet != charNull
  match strstr (ascii ['/', '/']) text with
  | none => c
  | some aServerAddPtr =>
    match strstr (ascii ['/']) (aServerAddPtr.drop 2) with
    | none => c
    | some aRelativeUriPtr => { c with iRelativeURI := aRelativeUriPtr }

/-- `setField`; a null pointer removes the field. -/
def setField (aNewFieldName : Str) (aNewFieldValue : Option Str) (aNeedReplaceOldValue : Bool)
    (memory : KeyValueStore.Memory) (c : Composer) : Option (Bool × Composer) :=
  match aNewFieldValue with
  | some value => (addKeyValuePair aNewFieldName value aNeedReplaceOldValue memory c.iKeyValueStore).map
      fun r => (r.1 == success, { c with iKeyValueStore := r.2 })
  | none => (removeKeyValuePair aNewFieldName c.iKeyValueStore).map
      fun store => (true, { c with iKeyValueStore := store })

/-! ## The length of a request -/

def composeSuccess : Int32 := 0
def bufferTooSmall : Int32 := -2
def uriNotSet : Int32 := -3
def contentTypeNotSet : Int32 := -4
def contentLengthNotSet : Int32 := -5
def contentLengthNotMatch : Int32 := -6
def badURI : Int32 := -7

/-- The URI of the request line. -/
def Composer.uri (c : Composer) (usingAbsoluteURI : Bool) : Str :=
  if usingAbsoluteURI then c.iURI else c.iRelativeURI

def getCurrentRequestLength (usingAbsoluteURI : Bool) (c : Composer) : Int32 × Composer :=
  if !usingAbsoluteURI && c.iRelativeURI.length == 0 then (badURI, c)
  else
    let iFirstLineLength := UInt32.ofNat (HTTPMethodString c.iMethod).length
    let iFirstLineLength := iFirstLineLength + UInt32.ofNat (c.uri usingAbsoluteURI).length
    let iFirstLineLength := iFirstLineLength + 8 + 4
    let iHeaderLength := iFirstLineLength + (c.iKeyValueStore.iTotalKeyValueLength +
      c.iKeyValueStore.iTotalNumberOfKeyValuePairs * 4)
    let iHeaderLength := iHeaderLength + 2
    ((iHeaderLength + c.iEntityBodyLength).toInt32,
      { c with iFirstLineLength := iFirstLineLength, iHeaderLength := iHeaderLength })

/-! ## Writing -/

/-- `HTTPMemoryFragment`, with what has been written from `iPtr` on. -/
structure HTTPMemoryFragment where
  iLen : UInt32
  iCapacity : UInt32
  written : Buffer UInt8

/-- The buffer of a caller. -/
def HTTPMemoryFragment.ofCapacity (capacity : UInt32) : HTTPMemoryFragment := ⟨0, capacity, Buffer.empty⟩

namespace HTTPMemoryFragment

def isSpaceEnough (b : HTTPMemoryFragment) (aNewUsage : UInt32) : Bool := b.iLen + aNewUsage ≤ b.iCapacity

def getAvailableSpace (b : HTTPMemoryFragment) : UInt32 := b.iCapacity - b.iLen

/-- `update` by a length. -/
def update (b : HTTPMemoryFragment) (aLength : UInt32) : HTTPMemoryFragment :=
  if b.isSpaceEnough aLength then { b with iLen := b.iLen + aLength } else b

/-- `update` to a pointer, which is so far behind `iPtr`. -/
def updateTo (b : HTTPMemoryFragment) (distance : Nat) : HTTPMemoryFragment :=
  let aLen := Int32.ofNat distance
  if aLen < 0 ∨ aLen.toUInt32 > b.iCapacity then b else { b with iLen := aLen.toUInt32 }

end HTTPMemoryFragment

/-- A pointer into the buffer, that moves on as it is written. -/
structure Cursor where
  ptr : Nat
  written : Buffer UInt8

/-- `oscl_memcpy` and the step of the pointer behind it, or `*ptr++`. -/
def Cursor.put (out : Cursor) (octets : Str) : Cursor :=
  ⟨out.ptr + octets.length, out.written.memcpy out.ptr octets⟩

def HTTPMemoryFragment.cursor (b : HTTPMemoryFragment) : Cursor := ⟨b.iLen.toNat, b.written⟩

/-! ## Composing -/

/-- `santityCheckForCompose`. -/
def santityCheckForCompose (b : HTTPMemoryFragment) (usingAbsoluteURI : Bool) (aEntityBodyLength : UInt32)
    (c : Composer) : Option (Int32 × Composer) :=
  if !usingAbsoluteURI && c.iRelativeURI.length == 0 then some (badURI, c)
  else
    let r := getCurrentRequestLength usingAbsoluteURI c
    if !b.isSpaceEnough (r.1.toUInt32 + aEntityBodyLength) then some (bufferTooSmall, r.2)
    else if c.iURI.length = 0 then some (uriNotSet, r.2)
    else if aEntityBodyLength = 0 then some (composeSuccess, r.2)
    else
      let contentType := ascii ['C', 'o', 'n', 't', 'e', 'n', 't', '-', 'T', 'y', 'p', 'e']
      let contentLengthKey := ascii ['C', 'o', 'n', 't', 'e', 'n', 't', '-', 'L', 'e', 'n', 'g', 't', 'h']
      if (getHashTableIndex contentType true c.iKeyValueStore).1 < 0 then some (contentTypeNotSet, r.2)
      else (getValueByKey contentLengthKey 0 c.iKeyValueStore).map fun contentLengthValue =>
        if !contentLengthValue.1 then (contentLengthNotSet, r.2)
        else if (StringUtils.pvAtoi32 (some contentLengthValue.2) 'd' contentLengthValue.2.length).2 ≠
            aEntityBodyLength.toNat then (contentLengthNotMatch, r.2)
        else (composeSuccess, r.2)

/-- `composeFirstLine`. -/
def composeFirstLine (usingAbsoluteURI : Bool) (c : Composer) (b : HTTPMemoryFragment) : HTTPMemoryFragment :=
  let out := b.cursor
  let out := out.put (HTTPMethodString c.iMethod)
  let out := out.put [charSpace]
  let out := out.put (c.uri usingAbsoluteURI)
  let out := out.put [charSpace]
  let out := out.put (versionString c.iVersion)
  let out := out.put [charCR]
  let out := out.put [charLF]
  { b with written := out.written }.update c.iFirstLineLength

/-- The loop over the values of a key, from the value `index` on. -/
def composeValues (store : KeyValueStore.Store) (key : Str) : Nat → Nat → Cursor → Option (Nat × Cursor)
  | 0, _, _ => none
  | fuel + 1, index, out =>
    (getValueByKey key index store).bind fun value =>
      if !value.1 then some (index, out)
      else
        let out := out.put key
        let out := out.put [charColon]
        let out := out.put [charSpace]
        let out := out.put value.2
        let out := out.put [charCR]
        let out := out.put [charLF]
        composeValues store key fuel (index + 1) out

/-- How many times the loop over the values of a key can run. -/
def valuesFuel (store : KeyValueStore.Store) (key : Str) : Nat :=
  (store.iFieldKeys (getHashTableIndex key true store).1.toNat).iNext.length + 2

/-- The loop over the keys; `i` counts the pairs. -/
def composeKeys (store : KeyValueStore.Store) : List Str → UInt32 → Cursor → Option Cursor
  | [], _, out => some out
  | key :: keyList, i, out =>
    if i < store.iTotalNumberOfKeyValuePairs then
      (composeValues store key (valuesFuel store key) 0 out).bind fun r =>
        composeKeys store keyList (i + UInt32.ofNat r.1) r.2
    else some out

/-- The final CRLF. -/
def finishHeaders (b : HTTPMemoryFragment) (out : Cursor) : HTTPMemoryFragment :=
  let out := out.put [charCR]
  let out := out.put [charLF]
  { b with written := out.written }.updateTo out.ptr

/-- `composeHeaders`. -/
def composeHeaders (arrays : Bool) (c : Composer) (b : HTTPMemoryFragment) :
    Option (Bool × HTTPMemoryFragment) :=
  let numKeyValuePairs := c.iKeyValueStore.iTotalNumberOfKeyValuePairs
  if numKeyValuePairs > 0 then
    let keyList := getCurrentKeyList c.iKeyValueStore
    if !arrays then some (false, b)
    else if keyList.length > numKeyValuePairs.toNat then none
    else if keyList.length = 0 then some (false, b)
    else (composeKeys c.iKeyValueStore keyList 0 b.cursor).map fun out => (true, finishHeaders b out)
  else some (true, finishHeaders b b.cursor)

/-- `compose`, which ignores the result of `composeHeaders`. -/
def compose (b : HTTPMemoryFragment) (usingAbsoluteURI : Bool) (aEntityBodyLength : UInt32) (arrays : Bool)
    (c : Composer) : Option (Int32 × Composer × HTTPMemoryFragment) :=
  (santityCheckForCompose b usingAbsoluteURI aEntityBodyLength c).bind fun r =>
    if r.1 ≠ composeSuccess then some (r.1, r.2, b)
    else
      let c := { r.2 with iEntityBodyLength := aEntityBodyLength }
      let b := composeFirstLine usingAbsoluteURI c b
      (composeHeaders arrays c b).map fun r =>
        let b := r.2
        if b.getAvailableSpace > 0 then
          let terminator := b.iLen.toNat + c.iEntityBodyLength.toNat
          (composeSuccess, c, { b with written := b.written.store terminator charNull }.update 1)
        else (composeSuccess, c, b)

/-! ## Runs -/

inductive Event
  | setMethod (aMethod : HTTPMethod)
  | setVersion (aVersion : HTTPVersion)
  | setURI (aURI behind : Str)
  | setField (aNewFieldName : Str) (aNewFieldValue : Option Str) (aNeedReplaceOldValue : Bool)
      (memory : KeyValueStore.Memory)
  | reset (aKeepAllSettingsExceptURI : Bool)

/-- A composer, with the fields that should be in it: those of the calls of `setField` that have
returned true. -/
structure Session where
  composer : Composer
  added : Multimap

def newSession : Session := ⟨create, fun _ => []⟩

/-- What a call of `setField` makes of the fields. -/
def setAdded (name : Str) (value : Option Str) (replace : Bool) (added : Multimap) : Multimap :=
  match value with
  | some value => added.add name value replace
  | none => added.remove name

def handle (s : Session) : Event → Option Session
  | .setMethod aMethod => some { s with composer := setMethod aMethod s.composer }
  | .setVersion aVersion => some { s with composer := setVersion aVersion s.composer }
  | .setURI aURI behind => some { s with composer := setURI aURI behind s.composer }
  | .setField name value replace memory =>
    (setField name value replace memory s.composer).map fun r =>
      ⟨r.2, if r.1 then setAdded name value replace s.added else s.added⟩
  | .reset keep => some ⟨reset keep s.composer, if keep then s.added else fun _ => []⟩

end Ftke.HttpComposer
