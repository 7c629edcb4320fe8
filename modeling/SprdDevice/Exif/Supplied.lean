/-
What a reader of the segment is to find: for each IFD the fields that are supplied, with their tags and values. A field is
supplied when its own valid bit is set, an array with a count also has to have something in it, and the others are
mandatory. MakerNote and UserComment are arrays without a valid bit that anything reads.

`ReadsBack` walks the segment: the IFH, IFD0, the IFDs its pointers lead to, and IFD1 with the thumbnail.
-/
import Mathlib.Data.List.ReduceOption
import SprdDevice.Exif.Writer
import SprdDevice.Lib.Tiff

namespace SprdDevice.Exif

open SprdDevice.Memory SprdDevice.Word SprdDevice.Tiff

/-- a field whose condition is cond -/
def given (cond : Bool) (tag : ℕ) (v : Value) : Option (ℕ × Value) := if cond then some (tag, v) else none

/-- a field with the array c -/
def givenArray (cond : Bool) (tag : ℕ) (c : Custom) (v : Value) : Option (ℕ × Value) := given (cond && 0 < c.count) tag v

def Rational.pair (r : Rational) : UInt32 × UInt32 := (r.numerator, r.denominator)

def SRational.pair (r : SRational) : Int32 × Int32 := (r.numerator, r.denominator)

/-- the first n rationals of an array -/
def rationalsAt (ptr : ℕ → Rational) (n : ℕ) : Value := .rational ((valuesAt ptr n).map Rational.pair)

/-- the string with its terminator -/
def Ascii.text (s : Ascii) : List UInt8 := s.bytes.takeWhile (· ≠ 0) ++ [0]

def Custom.content (c : Custom) : List UInt8 := valuesAt c.ptr c.count.toNat

def Custom.shorts (c : Custom) : List UInt16 := valuesAt (shortPtr c.ptr) c.count.toNat

def interoperabilitySupplied (inter : InteroperabilityInfo) : List (Option (ℕ × Value)) :=
  [ givenArray inter.valid.interoperabilityIndex 0x0001 inter.interoperabilityIndex
      (.ascii inter.interoperabilityIndex.content) ]

/-- up to SubjectArea -/
def specSuppliedBefore (spec : SpecificInfo) : List (Option (ℕ × Value)) :=
  let pic := spec.picTakingCond
  let dateTime := spec.dateTime
  [ pic.bind fun p => given p.valid.exposureTime 0x829A (.rational [p.exposureTime.pair]),
    pic.bind fun p => given p.valid.fNumber 0x829D (.rational [p.fNumber.pair]),
    pic.bind fun p => given p.valid.exposureProgram 0x8822 (.short [p.exposureProgram]),
    pic.bind fun p => given p.valid.spectralSensitivity 0x8824 (.ascii p.spectralSensitivity.text),
    pic.bind fun p => givenArray p.valid.isoSpeedRatings 0x8827 p.isoSpeedRatings (.short p.isoSpeedRatings.shorts),
    pic.bind fun p => givenArray p.valid.oecf 0x8828 p.oecf (.undefined p.oecf.content),
    some (0x9000, .undefined [0x30, 0x32, 0x32, 0x30]),
    dateTime.bind fun d => given d.valid.dateTimeOriginal 0x9003 (.ascii (valuesAt d.dateTimeOriginal 20)),
    dateTime.bind fun d => given d.valid.dateTimeDigitized 0x9004 (.ascii (valuesAt d.dateTimeDigitized 20)),
    some (0x9101, .undefined (valuesAt spec.basic.componentsConfiguration 4)),
    spec.imgConfig.bind fun c => given c.valid.compressedBitsPerPixel 0x9102 (.rational [c.compressedBitsPerPixel.pair]),
    pic.bind fun p => given p.valid.shutterSpeedValue 0x9201 (.srational [p.shutterSpeedValue.pair]),
    pic.bind fun p => given p.valid.apertureValue 0x9202 (.rational [p.apertureValue.pair]),
    pic.bind fun p => given p.valid.brightnessValue 0x9203 (.srational [p.brightnessValue.pair]),
    pic.bind fun p => given p.valid.exposureBiasValue 0x9204 (.srational [p.exposureBiasValue.pair]),
    pic.bind fun p => given p.valid.maxApertureValue 0x9205 (.rational [p.maxApertureValue.pair]),
    pic.bind fun p => given p.valid.subjectDistance 0x9206 (.rational [p.subjectDistance.pair]),
    pic.bind fun p => given p.valid.meteringMode 0x9207 (.short [p.meteringMode]),
    pic.bind fun p => given p.valid.lightSource 0x9208 (.short [p.lightSource]),
    pic.bind fun p => given p.valid.flash 0x9209 (.short [p.flash]),
    pic.bind fun p => given p.valid.focalLength 0x920A (.rational [p.focalLength.pair]) ]

/-- SubjectArea with the shorts that a reader finds -/
def subjectAreaSupplied (spec : SpecificInfo) (shorts : Custom → List UInt16) : Option (ℕ × Value) :=
  spec.picTakingCond.bind fun p => givenArray p.valid.subjectArea 0x9214 p.subjectArea (.short (shorts p.subjectArea))

/-- behind SubjectArea, up to the interoperability pointer -/
def specSuppliedBehind (spec : SpecificInfo) : List (Option (ℕ × Value)) :=
  let dateTime := spec.dateTime
  [ spec.user.bind fun u => givenArray true 0x927C u.makerNote (.undefined u.makerNote.content),
    spec.user.bind fun u => givenArray true 0x9286 u.userComment (.undefined u.userComment.content),
    dateTime.bind fun d => given d.valid.subSecTime 0x9290 (.ascii d.subSecTime.text),
    dateTime.bind fun d => given d.valid.subSecTimeOriginal 0x9291 (.ascii d.subSecTimeOriginal.text),
    dateTime.bind fun d => given d.valid.subSecTimeDigitized 0x9292 (.ascii d.subSecTimeDigitized.text),
    some (0xA000, .undefined [0x30, 0x31, 0x30, 0x30]),
    some (0xA001, .short [spec.basic.colorSpace]),
    some (0xA002, .long [spec.basic.pixelXDimension]),
    some (0xA003, .long [spec.basic.pixelYDimension]),
    spec.relatedFile.bind fun r => given r.valid.relatedSoundFile 0xA004 (.ascii (valuesAt r.relatedSoundFile 13)) ]

/-- behind the interoperability pointer -/
def specSuppliedLast (spec : SpecificInfo) : List (Option (ℕ × Value)) :=
  let pic := spec.picTakingCond
  [ pic.bind fun p => given p.valid.flashEnergy 0xA20B (.rational [p.flashEnergy.pair]),
    pic.bind fun p => givenArray p.valid.spatialFrequencyResponse 0xA20C p.spatialFrequencyResponse
      (.undefined p.spatialFrequencyResponse.content),
    pic.bind fun p => given p.valid.focalPlaneXResolution 0xA20E (.rational [p.focalPlaneXResolution.pair]),
    pic.bind fun p => given p.valid.focalPlaneYResolution 0xA20F (.rational [p.focalPlaneYResolution.pair]),
    pic.bind fun p => given p.valid.focalPlaneResolutionUnit 0xA210 (.short [p.focalPlaneResolutionUnit]),
    pic.bind fun p => given p.valid.subjectLocation 0xA214 (.short (valuesAt p.subjectLocation 2)),
    pic.bind fun p => given p.valid.exposureIndex 0xA215 (.rational [p.exposureIndex.pair]),
    pic.bind fun p => given p.valid.sensingMethod 0xA217 (.short [p.sensingMethod]),
    pic.bind fun p => given p.valid.fileSource 0xA300 (.undefined [p.fileSource]),
    pic.bind fun p => given p.valid.sceneType 0xA301 (.undefined [p.sceneType]),
    pic.bind fun p => givenArray p.valid.cfaPattern 0xA302 p.cfaPattern (.undefined p.cfaPattern.content),
    pic.bind fun p => given p.valid.customRendered 0xA401 (.short [p.customRendered]),
    pic.bind fun p => given p.valid.exposureMode 0xA402 (.short [p.exposureMode]),
    pic.bind fun p => given p.valid.whiteBalance 0xA403 (.short [p.whiteBalance]),
    pic.bind fun p => given p.valid.digitalZoomRatio 0xA404 (.rational [p.digitalZoomRatio.pair]),
    pic.bind fun p => given p.valid.focalLengthIn35mmFilm 0xA405 (.short [p.focalLengthIn35mmFilm]),
    pic.bind fun p => given p.valid.sceneCaptureType 0xA406 (.short [p.sceneCaptureType]),
    pic.bind fun p => given p.valid.gainControl 0xA407 (.short [p.gainControl]),
    pic.bind fun p => given p.valid.contrast 0xA408 (.short [p.contrast]),
    pic.bind fun p => given p.valid.saturation 0xA409 (.short [p.saturation]),
    pic.bind fun p => given p.valid.sharpness 0xA40A (.short [p.sharpness]),
    pic.bind fun p => givenArray p.valid.deviceSettingDescription 0xA40B p.deviceSettingDescription
      (.undefined p.deviceSettingDescription.content),
    pic.bind fun p => given p.valid.subjectDistanceRange 0xA40C (.short [p.subjectDistanceRange]),
    spec.other.bind fun o => given o.valid.imageUniqueID 0xA420 (.ascii (valuesAt o.imageUniqueID 33)) ]

/-- the Exif IFD but for its pointer -/
def specSupplied (spec : SpecificInfo) : List (Option (ℕ × Value)) :=
  specSuppliedBefore spec ++ subjectAreaSupplied spec Custom.shorts :: specSuppliedBehind spec ++ specSuppliedLast spec

def gpsSupplied (g : GpsInfo) : List (Option (ℕ × Value)) :=
  let valid := g.valid
  [ given valid.gpsVersionID 0x00 (.byte (valuesAt g.gpsVersionID 4)),
    given valid.gpsLatitudeRef 0x01 (.ascii (valuesAt g.gpsLatitudeRef 2)),
    given valid.gpsLatitude 0x02 (rationalsAt g.gpsLatitude 3),
    given valid.gpsLongitudeRef 0x03 (.ascii (valuesAt g.gpsLongitudeRef 2)),
    given valid.gpsLongitude 0x04 (rationalsAt g.gpsLongitude 3),
    given valid.gpsAltitudeRef 0x05 (.byte [g.gpsAltitudeRef]),
    given valid.gpsAltitude 0x06 (.rational [g.gpsAltitude.pair]),
    given valid.gpsTimeStamp 0x07 (rationalsAt g.gpsTimeStamp 3),
    given valid.gpsSatellites 0x08 (.ascii g.gpsSatellites.text),
    given valid.gpsStatus 0x09 (.ascii (valuesAt g.gpsStatus 2)),
    given valid.gpsMeasureMode 0x0a (.ascii (valuesAt g.gpsMeasureMode 2)),
    given valid.gpsDOP 0x0b (.rational [g.gpsDOP.pair]),
    given valid.gpsSpeedRef 0x0c (.ascii (valuesAt g.gpsSpeedRef 2)),
    given valid.gpsSpeed 0x0d (.rational [g.gpsSpeed.pair]),
    given valid.gpsTrackRef 0x0e (.ascii (valuesAt g.gpsTrackRef 2)),
    given valid.gpsTrack 0x0f (.rational [g.gpsTrack.pair]),
    given valid.gpsImgDirectionRef 0x10 (.ascii (valuesAt g.gpsImgDirectionRef 2)),
    given valid.gpsImgDirection 0x11 (.rational [g.gpsImgDirection.pair]),
    given valid.gpsMapDatum 0x12 (.ascii g.gpsMapDatum.text),
    given valid.gpsDestLatitudeRef 0x13 (.ascii (valuesAt g.gpsDestLatitudeRef 2)),
    given valid.gpsDestLatitude 0x14 (rationalsAt g.gpsDestLatitude 3),
    given valid.gpsDestLongitudeRef 0x15 (.ascii (valuesAt g.gpsDestLongitudeRef 2)),
    given valid.gpsDestLongitude 0x16 (rationalsAt g.gpsDestLongitude 3),
    given valid.gpsDestBearingRef 0x17 (.ascii (valuesAt g.gpsDestBearingRef 2)),
    given valid.gpsDestBearing 0x18 (.rational [g.gpsDestBearing.pair]),
    given valid.gpsDestDistanceRef 0x19 (.ascii (valuesAt g.gpsDestDistanceRef 2)),
    given valid.gpsDestDistance 0x1a (.rational [g.gpsDestDistance.pair]),
    givenArray valid.gpsProcessingMethod 0x1b g.gpsProcessingMethod (.undefined g.gpsProcessingMethod.content),
    givenArray valid.gpsAreaInformation 0x1c g.gpsAreaInformation (.undefined g.gpsAreaInformation.content),
    given valid.gpsDateStamp 0x1d (.ascii (valuesAt g.gpsDateStamp 11)),
    given valid.gpsDifferential 0x1e (.short [g.gpsDifferential]) ]

def primarySuppliedBefore (primary : PrimaryInfo) : List (Option (ℕ × Value)) :=
  let dataStruct := primary.dataStruct
  let desc := primary.imgDesc
  let char := primary.dataChar
  [ dataStruct.bind fun d => given d.valid.reserved 0x103 (.short [d.reserved]),
    desc.bind fun d => given d.valid.imageDescription 0x10e (.ascii d.imageDescription.text),
    desc.bind fun d => given d.valid.make 0x10f (.ascii d.make.text),
    desc.bind fun d => given d.valid.model 0x110 (.ascii d.model.text),
    dataStruct.bind fun d => given d.valid.orientation 0x112 (.short [d.orientation]),
    some (0x11A, .rational [primary.basic.xResolution.pair]),
    some (0x11B, .rational [primary.basic.yResolution.pair]),
    some (0x128, .short [primary.basic.resolutionUnit]),
    char.bind fun c => given c.valid.transferFunction 0x12D (.short (valuesAt c.transferFunction 768)),
    desc.bind fun d => given d.valid.software 0x131 (.ascii d.software.text),
    desc.bind fun d => given d.valid.dateTime 0x132 (.ascii (valuesAt d.dateTime 20)),
    desc.bind fun d => given d.valid.artist 0x13B (.ascii d.artist.text),
    char.bind fun c => given c.valid.whitePoint 0x13E (rationalsAt c.whitePoint 2),
    char.bind fun c => given c.valid.primaryChromaticities 0x13F (rationalsAt c.primaryChromaticities 6) ]

def primarySuppliedBehind (primary : PrimaryInfo) : List (Option (ℕ × Value)) :=
  let char := primary.dataChar
  [ char.bind fun c => given c.valid.yCbCrCoefficients 0x211 (rationalsAt c.yCbCrCoefficients 3),
    some (0x213, .short [primary.basic.yCbCrPositioning]),
    some (0x100, .long [primary.basic.imageWidth]),
    some (0x101, .long [primary.basic.imageLength]),
    char.bind fun c => given c.valid.referenceBlackWhite 0x214 (rationalsAt c.referenceBlackWhite 6),
    primary.imgDesc.bind fun d => given d.valid.copyright 0x8298 (.ascii d.copyright.text) ]

/-- IFD0 and IFD1 but for their pointers and the thumbnail -/
def primarySupplied (primary : PrimaryInfo) : List (Option (ℕ × Value)) :=
  primarySuppliedBefore primary ++ primarySuppliedBehind primary

/-- the pointer that is there when its structure is -/
def pointer {α : Type} (o : Option α) (tag : ℕ) (offset : UInt32) : Option (ℕ × Value) :=
  o.map fun _ => (tag, .long [offset])

/-- the memory m has the segment of that picture -/
def ReadsBack (m : ℕ → UInt8) (info : ExifInfo) (thumbnail : List UInt8) : Prop :=
  ∃ exif gps inter jpeg : UInt32,
    be16 m APP1_RESERVED = 0x4D4D ∧ be16 m (APP1_RESERVED + 2) = 42 ∧
    DirHas m APP1_RESERVED (be32 m (APP1_RESERVED + 4))
      (primarySupplied info.primary ++ [pointer info.spec 0x8769 exif, pointer info.gps 0x8825 gps]).reduceOption ∧
    (∀ spec, info.spec = some spec →
      DirHas m APP1_RESERVED exif.toNat (specSupplied spec ++ [pointer info.inter 0xA005 inter]).reduceOption ∧
      ∀ i, info.inter = some i →
        DirHas m APP1_RESERVED inter.toNat (interoperabilitySupplied i).reduceOption) ∧
    (∀ g, info.gps = some g → DirHas m APP1_RESERVED gps.toNat (gpsSupplied g).reduceOption) ∧
    if thumbnail = [] then nextDir m APP1_RESERVED (be32 m (APP1_RESERVED + 4)) = 0
    else
      DirHas m APP1_RESERVED (nextDir m APP1_RESERVED (be32 m (APP1_RESERVED + 4)))
        ((primarySupplied ifd1Primary).reduceOption ++
          [(0x201, .long [jpeg]), (0x202, .long [UInt32.ofNat thumbnail.length])]) ∧
      cells m (APP1_RESERVED + jpeg.toNat) thumbnail.length = thumbnail

end SprdDevice.Exif
