/-
The EXIF writer (`exif_writer.c`): the IFD tables, the APP1 segment and its two ways into a JPEG. A table writes the
largest number of its entries first, counts what it writes, and writes that number over it at the end; the results of
`Jpeg_SetWritePos` are not looked at there.

The entry blocks of a function are one list, in the source's order; a block whose condition fails is `none`. The NULL
checks of arrays inside the structures always hold, and the offsets are below 2^32.
-/
import SprdDevice.Exif.Stream

namespace SprdDevice.Exif

open SprdDevice.Memory SprdDevice.Word

/-! ## Entry blocks -/

/-- value_ptr, with the writer that the block calls -/
inductive ValuePtr where
  | rational (ptr : ℕ → Rational)
  | long (ptr : ℕ → UInt32)
  | short (ptr : ℕ → UInt16)
  | byte (ptr : ℕ → UInt8)

structure Field where
  tag : ℕ
  type : IfdType
  count : ℕ
  valuePtr : ValuePtr

/-- `IFD_HEAD_LENGTH` -/
def IFD_HEAD_LENGTH : ℕ := 12

/-- the locals of a function that writes a table -/
structure Cursor where
  stream : WriteStream
  ifdOffset : ℕ
  ifdValueOffset : ℕ
  entries : ℕ

/-- the writer that a block calls -/
def ValuePtr.write (valuePtr : ValuePtr) (s : WriteStream) (ifd : IfdInfo) (ifdOffset valueOffset : ℕ) :
    Option (WriteStream × ℕ × ℕ) :=
  match valuePtr with
  | .rational ptr => writeRationalIFD s ifd ptr ifdOffset valueOffset
  | .long ptr => writeLongIFD s ifd ptr ifdOffset valueOffset
  | .short ptr => writeShortIFD s ifd ptr ifdOffset valueOffset
  | .byte ptr => writeByteIFD s ifd ptr ifdOffset valueOffset

def writeField (ifhOffset : ℕ) (f : Field) (c : Cursor) : Option Cursor := do
  let ifd : IfdInfo := ⟨f.tag, f.type, f.count, c.ifdValueOffset - ifhOffset⟩
  let (s, ifdOffset, ifdValueOffset) ← f.valuePtr.write c.stream ifd c.ifdOffset c.ifdValueOffset
  some ⟨s, ifdOffset, ifdValueOffset, c.entries + 1⟩

def writeFields (ifhOffset : ℕ) : List (Option Field) → Cursor → Option Cursor
  | [], c => some c
  | none :: fs, c => writeFields ifhOffset fs c
  | some f :: fs, c => writeField ifhOffset f c >>= writeFields ifhOffset fs

/-- the start of a table with room for so many entries -/
def beginTable (s : WriteStream) (entries beginOffset : ℕ) : Option Cursor := do
  let s := (setWritePos s beginOffset).2
  let s ← (writeW s entries).ok
  let ifdOffset := getWritePos s
  some ⟨s, ifdOffset, align4 (ifdOffset + entries * IFD_HEAD_LENGTH + 4), 0⟩

/-- the end of a table: the next IFD pointer, and the number of entries over the first one -/
def endTable (c : Cursor) (nextIfd beginOffset : ℕ) : Option (WriteStream × ℕ) := do
  let s := (setWritePos c.stream c.ifdOffset).2
  let s ← (writeL s nextIfd).ok
  let s := (setWritePos s beginOffset).2
  let s ← (writeW s c.entries).ok
  some (s, c.ifdValueOffset)

/-- a block whose condition is cond -/
def block (cond : Bool) (f : Field) : Option Field := if cond then some f else none

def rationalField (tag : ℕ) (v : Rational) : Field := ⟨tag, .rational, 1, .rational fun _ => v⟩

def srationalField (tag : ℕ) (v : SRational) : Field := ⟨tag, .srational, 1, .rational fun _ => v.bits⟩

def rationalsField (tag n : ℕ) (ptr : ℕ → Rational) : Field := ⟨tag, .rational, n, .rational ptr⟩

/-- three blocks of IFD0 set value_offset as well, which `Jpeg_WriteShortIFD` sets again -/
def shortField (tag : ℕ) (v : UInt16) : Field := ⟨tag, .short, 1, .short fun _ => v⟩

def longField (tag : ℕ) (v : UInt32) : Field := ⟨tag, .long, 1, .long fun _ => v⟩

def asciiField (tag : ℕ) (s : Ascii) : Field := ⟨tag, .ascii, s.size + 1, .byte s.ptr⟩

def asciisField (tag n : ℕ) (ptr : ℕ → UInt8) : Field := ⟨tag, .ascii, n, .byte ptr⟩

/-- an array with its count, when there is anything in it -/
def customBlock (cond : Bool) (tag : ℕ) (type : IfdType) (v : Custom) (valuePtr : ValuePtr) : Option Field :=
  block (cond && 0 < v.count) ⟨tag, type, v.count.toNat, valuePtr⟩

/-! ## The interoperability IFD -/

def interoperabilityFields (inter : InteroperabilityInfo) : List (Option Field) :=
  [customBlock inter.valid.interoperabilityIndex 0x0001 .ascii inter.interoperabilityIndex
    (.byte inter.interoperabilityIndex.ptr)]

def writeExifInteroperabilityInfo (s : WriteStream) (inter : InteroperabilityInfo) (ifhOffset beginOffset : ℕ) :
    Option (WriteStream × ℕ) := do
  let c ← beginTable s 1 beginOffset
  let c ← writeFields ifhOffset (interoperabilityFields inter) c
  endTable c 0 beginOffset

/-! ## The Exif IFD -/

/-- '0', '2', '2', '0' -/
def exifVersion : ℕ → UInt8 := ofList [0x30, 0x32, 0x32, 0x30]

/-- '0', '1', '0', '0' -/
def flashpixVersion : ℕ → UInt8 := ofList [0x30, 0x31, 0x30, 0x30]

/-- up to the interoperability pointer -/
def specFieldsBefore (spec : SpecificInfo) : List (Option Field) :=
  let pic := spec.picTakingCond
  let dateTime := spec.dateTime
  [ pic.bind fun p => block p.valid.exposureTime (rationalField 0x829A p.exposureTime),
    pic.bind fun p => block p.valid.fNumber (rationalField 0x829D p.fNumber),
    pic.bind fun p => block p.valid.exposureProgram (shortField 0x8822 p.exposureProgram),
    pic.bind fun p => block p.valid.spectralSensitivity (asciiField 0x8824 p.spectralSensitivity),
    pic.bind fun p => customBlock p.valid.isoSpeedRatings 0x8827 .short p.isoSpeedRatings
      (.short (shortPtr p.isoSpeedRatings.ptr)),
    pic.bind fun p => customBlock p.valid.oecf 0x8828 .undefined p.oecf (.byte p.oecf.ptr),
    some ⟨0x9000, .undefined, 4, .byte exifVersion⟩,
    dateTime.bind fun d => block d.valid.dateTimeOriginal (asciisField 0x9003 20 d.dateTimeOriginal),
    dateTime.bind fun d => block d.valid.dateTimeDigitized (asciisField 0x9004 20 d.dateTimeDigitized),
    some ⟨0x9101, .undefined, 4, .byte spec.basic.componentsConfiguration⟩,
    spec.imgConfig.bind fun c => block c.valid.compressedBitsPerPixel (rationalField 0x9102 c.compressedBitsPerPixel),
    pic.bind fun p => block p.valid.shutterSpeedValue (srationalField 0x9201 p.shutterSpeedValue),
    pic.bind fun p => block p.valid.apertureValue (rationalField 0x9202 p.apertureValue),
    pic.bind fun p => block p.valid.brightnessValue (srationalField 0x9203 p.brightnessValue),
    pic.bind fun p => block p.valid.exposureBiasValue (srationalField 0x9204 p.exposureBiasValue),
    pic.bind fun p => block p.valid.maxApertureValue (rationalField 0x9205 p.maxApertureValue),
    pic.bind fun p => block p.valid.subjectDistance (rationalField 0x9206 p.subjectDistance),
    pic.bind fun p => block p.valid.meteringMode (shortField 0x9207 p.meteringMode),
    pic.bind fun p => block p.valid.lightSource (shortField 0x9208 p.lightSource),
    pic.bind fun p => block p.valid.flash (shortField 0x9209 p.flash),
    pic.bind fun p => block p.valid.focalLength (rationalField 0x920A p.focalLength),
    -- of type SHORT, written by Jpeg_WriteRationalIFD
    pic.bind fun p => customBlock p.valid.subjectArea 0x9214 .short p.subjectArea
      (.rational (rationalPtr p.subjectArea.ptr)),
    spec.user.bind fun u => customBlock true 0x927C .undefined u.makerNote (.byte u.makerNote.ptr),
    spec.user.bind fun u => customBlock true 0x9286 .undefined u.userComment (.byte u.userComment.ptr),
    dateTime.bind fun d => block d.valid.subSecTime (asciiField 0x9290 d.subSecTime),
    dateTime.bind fun d => block d.valid.subSecTimeOriginal (asciiField 0x9291 d.subSecTimeOriginal),
    dateTime.bind fun d => block d.valid.subSecTimeDigitized (asciiField 0x9292 d.subSecTimeDigitized),
    some ⟨0xA000, .undefined, 4, .byte flashpixVersion⟩,
    some (shortField 0xA001 spec.basic.colorSpace),
    some (longField 0xA002 spec.basic.pixelXDimension),
    some (longField 0xA003 spec.basic.pixelYDimension),
    spec.relatedFile.bind fun r => block r.valid.relatedSoundFile (asciisField 0xA004 13 r.relatedSoundFile) ]

/-- behind the interoperability pointer -/
def specFieldsBehind (spec : SpecificInfo) : List (Option Field) :=
  let pic := spec.picTakingCond
  [ pic.bind fun p => block p.valid.flashEnergy (rationalField 0xA20B p.flashEnergy),
    pic.bind fun p => customBlock p.valid.spatialFrequencyResponse 0xA20C .undefined p.spatialFrequencyResponse
      (.byte p.spatialFrequencyResponse.ptr),
    pic.bind fun p => block p.valid.focalPlaneXResolution (rationalField 0xA20E p.focalPlaneXResolution),
    pic.bind fun p => block p.valid.focalPlaneYResolution (rationalField 0xA20F p.focalPlaneYResolution),
    pic.bind fun p => block p.valid.focalPlaneResolutionUnit (shortField 0xA210 p.focalPlaneResolutionUnit),
    pic.bind fun p => block p.valid.subjectLocation ⟨0xA214, .short, 2, .short p.subjectLocation⟩,
    pic.bind fun p => block p.valid.exposureIndex (rationalField 0xA215 p.exposureIndex),
    pic.bind fun p => block p.valid.sensingMethod (shortField 0xA217 p.sensingMethod),
    pic.bind fun p => block p.valid.fileSource ⟨0xA300, .undefined, 1, .byte fun _ => p.fileSource⟩,
    pic.bind fun p => block p.valid.sceneType ⟨0xA301, .undefined, 1, .byte fun _ => p.sceneType⟩,
    pic.bind fun p => customBlock p.valid.cfaPattern 0xA302 .undefined p.cfaPattern (.byte p.cfaPattern.ptr),
    pic.bind fun p => block p.valid.customRendered (shortField 0xA401 p.customRendered),
    pic.bind fun p => block p.valid.exposureMode (shortField 0xA402 p.exposureMode),
    pic.bind fun p => block p.valid.whiteBalance (shortField 0xA403 p.whiteBalance),
    pic.bind fun p => block p.valid.digitalZoomRatio (rationalField 0xA404 p.digitalZoomRatio),
    pic.bind fun p => block p.valid.focalLengthIn35mmFilm (shortField 0xA405 p.focalLengthIn35mmFilm),
    pic.bind fun p => block p.valid.sceneCaptureType (shortField 0xA406 p.sceneCaptureType),
    pic.bind fun p => block p.valid.gainControl (shortField 0xA407 p.gainControl),
    pic.bind fun p => block p.valid.contrast (shortField 0xA408 p.contrast),
    pic.bind fun p => block p.valid.saturation (shortField 0xA409 p.saturation),
    pic.bind fun p => block p.valid.sharpness (shortField 0xA40A p.sharpness),
    pic.bind fun p => customBlock p.valid.deviceSettingDescription 0xA40B .undefined p.deviceSettingDescription
      (.byte p.deviceSettingDescription.ptr),
    pic.bind fun p => block p.valid.subjectDistanceRange (shortField 0xA40C p.subjectDistanceRange),
    spec.other.bind fun o => block o.valid.imageUniqueID (asciisField 0xA420 33 o.imageUniqueID) ]

/-- an IFD pointer and, at the value offset, the table it points to -/
def writeSubIFD (tag ifhOffset : ℕ) (write : WriteStream → ℕ → Option (WriteStream × ℕ)) (c : Cursor) :
    Option Cursor := do
  let c := { c with ifdValueOffset := align4 c.ifdValueOffset }
  let c ← writeField ifhOffset ⟨tag, .long, 1, .long fun _ => UInt32.ofNat (c.ifdValueOffset - ifhOffset)⟩ c
  let (s, ifdValueOffset) ← write c.stream c.ifdValueOffset
  some { c with stream := s, ifdValueOffset := ifdValueOffset }

/-- what is written when a pointer is not NULL -/
def writeGiven {α : Type} (ptr : Option α) (write : α → Cursor → Option Cursor) (c : Cursor) : Option Cursor :=
  match ptr with
  | none => some c
  | some a => write a c

def writeExifSpecInfo (s : WriteStream) (spec : SpecificInfo) (inter : Option InteroperabilityInfo)
    (ifhOffset beginOffset : ℕ) : Option (WriteStream × ℕ) := do
  let c ← beginTable s 57 beginOffset
  let c ← writeFields ifhOffset (specFieldsBefore spec) c
  let c ← writeGiven inter
    (fun inter => writeSubIFD 0xA005 ifhOffset fun s b => writeExifInteroperabilityInfo s inter ifhOffset b) c
  let c ← writeFields ifhOffset (specFieldsBehind spec) c
  endTable c 0 beginOffset

/-! ## The GPS IFD -/

def gpsFields (g : GpsInfo) : List (Option Field) :=
  let valid := g.valid
  [ block valid.gpsVersionID ⟨0x00, .byte, 4, .byte g.gpsVersionID⟩,
    block valid.gpsLatitudeRef (asciisField 0x01 2 g.gpsLatitudeRef),
    block valid.gpsLatitude (rationalsField 0x02 3 g.gpsLatitude),
    block valid.gpsLongitudeRef (asciisField 0x03 2 g.gpsLongitudeRef),
    block valid.gpsLongitude (rationalsField 0x04 3 g.gpsLongitude),
    block valid.gpsAltitudeRef ⟨0x05, .byte, 1, .byte fun _ => g.gpsAltitudeRef⟩,
    block valid.gpsAltitude (rationalField 0x06 g.gpsAltitude),
    block valid.gpsTimeStamp (rationalsField 0x07 3 g.gpsTimeStamp),
    block valid.gpsSatellites (asciiField 0x08 g.gpsSatellites),
    block valid.gpsStatus (asciisField 0x09 2 g.gpsStatus),
    block valid.gpsMeasureMode (asciisField 0x0a 2 g.gpsMeasureMode),
    block valid.gpsDOP (rationalField 0x0b g.gpsDOP),
    block valid.gpsSpeedRef (asciisField 0x0c 2 g.gpsSpeedRef),
    block valid.gpsSpeed (rationalField 0x0d g.gpsSpeed),
    block valid.gpsTrackRef (asciisField 0x0e 2 g.gpsTrackRef),
    block valid.gpsTrack (rationalField 0x0f g.gpsTrack),
    block valid.gpsImgDirectionRef (asciisField 0x10 2 g.gpsImgDirectionRef),
    block valid.gpsImgDirection (rationalField 0x11 g.gpsImgDirection),
    block valid.gpsMapDatum (asciiField 0x12 g.gpsMapDatum),
    block valid.gpsDestLatitudeRef (asciisField 0x13 2 g.gpsDestLatitudeRef),
    block valid.gpsDestLatitude (rationalsField 0x14 3 g.gpsDestLatitude),
    block valid.gpsDestLongitudeRef (asciisField 0x15 2 g.gpsDestLongitudeRef),
    -- the bit of the latitude
    block valid.gpsDestLatitude (rationalsField 0x16 3 g.gpsDestLongitude),
    block valid.gpsDestBearingRef (asciisField 0x17 2 g.gpsDestBearingRef),
    block valid.gpsDestBearing (rationalField 0x18 g.gpsDestBearing),
    block valid.gpsDestDistanceRef (asciisField 0x19 2 g.gpsDestDistanceRef),
    block valid.gpsDestDistance (rationalField 0x1a g.gpsDestDistance),
    customBlock valid.gpsProcessingMethod 0x1b .undefined g.gpsProcessingMethod (.byte g.gpsProcessingMethod.ptr),
    customBlock valid.gpsAreaInformation 0x1c .undefined g.gpsAreaInformation (.byte g.gpsAreaInformation.ptr),
    block valid.gpsDateStamp (asciisField 0x1d 11 g.gpsDateStamp),
    block valid.gpsDifferential (shortField 0x1e g.gpsDifferential) ]

def writeExifGPSInfo (s : WriteStream) (gps : GpsInfo) (ifhOffset beginOffset : ℕ) : Option (WriteStream × ℕ) := do
  let c ← beginTable s 31 beginOffset
  let c ← writeFields ifhOffset (gpsFields gps) c
  endTable c 0 beginOffset

/-! ## IFD0 and IFD1 -/

/-- up to the thumbnail entries -/
def primaryFieldsBefore (primary : PrimaryInfo) : List (Option Field) :=
  let dataStruct := primary.dataStruct
  let desc := primary.imgDesc
  let char := primary.dataChar
  [ dataStruct.bind fun d => block d.valid.reserved (shortField 0x103 d.reserved),
    desc.bind fun d => block d.valid.imageDescription (asciiField 0x10e d.imageDescription),
    desc.bind fun d => block d.valid.make (asciiField 0x10f d.make),
    desc.bind fun d => block d.valid.model (asciiField 0x110 d.model),
    dataStruct.bind fun d => block d.valid.orientation (shortField 0x112 d.orientation),
    some (rationalField 0x11A primary.basic.xResolution),
    some (rationalField 0x11B primary.basic.yResolution),
    some (shortField 0x128 primary.basic.resolutionUnit),
    char.bind fun c => block c.valid.transferFunction ⟨0x12D, .short, 3 * 256, .short c.transferFunction⟩,
    desc.bind fun d => block d.valid.software (asciiField 0x131 d.software),
    desc.bind fun d => block d.valid.dateTime (asciisField 0x132 20 d.dateTime),
    desc.bind fun d => block d.valid.artist (asciiField 0x13B d.artist),
    char.bind fun c => block c.valid.whitePoint (rationalsField 0x13E 2 c.whitePoint),
    char.bind fun c => block c.valid.primaryChromaticities (rationalsField 0x13F 6 c.primaryChromaticities) ]

/-- the two entries of the thumbnail, the first one with the offset 0 for now -/
def thumbnailFields (thumbnail : List UInt8) : List (Option Field) :=
  [ block (0 < thumbnail.length) (longField 0x201 0),
    block (0 < thumbnail.length) (longField 0x202 (UInt32.ofNat thumbnail.length)) ]

/-- behind the thumbnail entries -/
def primaryFieldsBehind (primary : PrimaryInfo) : List (Option Field) :=
  let char := primary.dataChar
  [ char.bind fun c => block c.valid.yCbCrCoefficients (rationalsField 0x211 3 c.yCbCrCoefficients),
    some (shortField 0x213 primary.basic.yCbCrPositioning),
    -- of type LONG, written by Jpeg_WriteShortIFD
    some ⟨0x100, .long, 1, .short fun _ => primary.basic.imageWidth.toUInt16⟩,
    some ⟨0x101, .long, 1, .short fun _ => primary.basic.imageLength.toUInt16⟩,
    char.bind fun c => block c.valid.referenceBlackWhite (rationalsField 0x214 6 c.referenceBlackWhite),
    primary.imgDesc.bind fun d => block d.valid.copyright (asciiField 0x8298 d.copyright) ]

/-- the thumbnail behind the values, and its offset over the entry written before -/
def writeThumbnail (ifhOffset thumbnailIfdOffset : ℕ) (thumbnail : List UInt8) (c : Cursor) : Option Cursor :=
  if 0 < thumbnail.length then do
    let thumbnailOffset := c.ifdValueOffset - ifhOffset
    let s := (setWritePos c.stream c.ifdValueOffset).2
    let s ← (writeBlock s thumbnail).ok
    let ifdValueOffset := getWritePos s
    let s := (setWritePos s thumbnailIfdOffset).2
    let (s, _, ifdValueOffset) ← writeLongIFD s ⟨0x201, .long, 1, thumbnailOffset⟩
      (fun _ => UInt32.ofNat thumbnailOffset) thumbnailIfdOffset ifdValueOffset
    some { c with stream := s, ifdValueOffset := ifdValueOffset }
  else some c

/-- `Jpeg_WriteExifIFD`. The thumbnail is [] when there is none. -/
def writeExifIFD (s : WriteStream) (primary : PrimaryInfo) (spec : Option SpecificInfo) (gps : Option GpsInfo)
    (inter : Option InteroperabilityInfo) (thumbnail : List UInt8) (isNextIfdExist : Bool)
    (ifhOffset beginOffset : ℕ) : Option (WriteStream × ℕ) := do
  let c ← beginTable s 24 beginOffset
  let c ← writeFields ifhOffset (primaryFieldsBefore primary) c
  let thumbnailIfdOffset := c.ifdOffset
  let c ← writeFields ifhOffset (thumbnailFields thumbnail) c
  let c ← writeFields ifhOffset (primaryFieldsBehind primary) c
  let c ← writeGiven spec
    (fun spec => writeSubIFD 0x8769 ifhOffset fun s b => writeExifSpecInfo s spec inter ifhOffset b) c
  let c ← writeGiven gps (fun gps => writeSubIFD 0x8825 ifhOffset fun s b => writeExifGPSInfo s gps ifhOffset b) c
  let c ← writeThumbnail ifhOffset thumbnailIfdOffset thumbnail c
  endTable c (if isNextIfdExist then c.ifdValueOffset - ifhOffset else 0) beginOffset

/-! ## APP1 -/

def writeIFH (s : WriteStream) (beginOffset : ℕ) : Option (WriteStream × ℕ) := do
  let s := (setWritePos s beginOffset).2
  let s ← (writeW s 0x4D4D).ok
  let s ← (writeW s 0x002a).ok
  let s ← (writeL s 8).ok
  some (s, getWritePos s)

/-- "Exif", padded with zeros to 6 bytes -/
def exifId : List UInt8 := [0x45, 0x78, 0x69, 0x66, 0, 0]

def writeAPP1Header (s : WriteStream) (beginOffset app1Length : ℕ) : Option (WriteStream × ℕ) := do
  let s := (setWritePos s beginOffset).2
  let s ← (writeC s 0xFF).ok
  let s ← (writeC s 0xE1).ok
  let s ← (writeW s app1Length).ok
  let s ← (writeLoop (fun s c => writeC s c.toNat) s exifId).ok
  some (s, getWritePos s)

/-- what `Jpeg_WriteAPP1` says of the thumbnail picture -/
def ifd1Primary : PrimaryInfo where
  basic := { yCbCrPositioning := 1, xResolution := ⟨72, 1⟩, yResolution := ⟨72, 1⟩, resolutionUnit := 2, imageWidth := 0,
             imageLength := 0 }
  dataStruct := some { valid := ⟨true, true⟩, orientation := 1, reserved := 6 }
  dataChar := none
  imgDesc := none

/-- the reserved APP1 marker, size and ID -/
def APP1_RESERVED : ℕ := 10

/-- `Jpeg_WriteAPP1` up to the end of the last IFD, which it returns as end_offset. The thumbnail is [] when there is
none. -/
def writeIFDs (s : WriteStream) (info : ExifInfo) (thumbnail : List UInt8) : Option (WriteStream × ℕ) := do
  let isIfd1Exist : Bool := 0 < thumbnail.length
  let (s, endOffset) ← writeIFH s APP1_RESERVED
  let ifhOffset := APP1_RESERVED
  let (s, endOffset) ← writeExifIFD s info.primary info.spec info.gps info.inter [] isIfd1Exist ifhOffset endOffset
  if isIfd1Exist then writeExifIFD s ifd1Primary none none none thumbnail false ifhOffset endOffset
  else some (s, endOffset)

/-- `app1_length`: a uint16 -/
def app1Length (endOffset : ℕ) : ℕ := (endOffset % 65536 + 65534) % 65536

/-- the bytes of target_buf, and app1_size -/
def writeAPP1 (targetBuf : ℕ → UInt8) (targetBufSize : ℕ) (info : ExifInfo) (thumbnail : List UInt8) :
    Option ((ℕ → UInt8) × ℕ) := do
  if targetBufSize < 10 then none
  else
    let (s, endOffset) ← writeIFDs ⟨targetBuf, targetBufSize, 0⟩ info thumbnail
    let (s, _) ← writeAPP1Header s 0 (app1Length endOffset)
    some (s.writeBuf, app1Length endOffset + 2)

end SprdDevice.Exif
