/-
What a camera says about a picture (`jpeg_exif_header.h`): the structures under `JINF_EXIF_INFO_T`. A pointer that may be
NULL is an `Option`, a valid bit a `Bool`, an array the function from the index to its cell. The strings and the
`EXIF_CUSTOM_T` arrays are read for as long as their terminator or their count says.
-/
import Mathlib.Tactic

namespace SprdDevice.Exif

/-- `EXIF_RATIONAL_T` -/
structure Rational where
  numerator : UInt32
  denominator : UInt32
deriving DecidableEq, Repr

/-- `EXIF_SRATIONAL_T` -/
structure SRational where
  numerator : Int32
  denominator : Int32
deriving DecidableEq, Repr

/-- a NUL-terminated `EXIF_ASCII_T` array -/
structure Ascii where
  bytes : List UInt8
  terminated : 0 ∈ bytes

/-- `EXIF_CUSTOM_T`: what stands from `ptr` on, and the count of the content by type -/
structure Custom where
  ptr : ℕ → UInt8
  count : UInt32

structure PriBasic where
  yCbCrPositioning : UInt16
  xResolution : Rational
  yResolution : Rational
  resolutionUnit : UInt16
  imageWidth : UInt32
  imageLength : UInt32

structure PriDataStructValid where
  orientation : Bool
  reserved : Bool

structure PriDataStruct where
  valid : PriDataStructValid
  orientation : UInt16
  reserved : UInt16

structure PriDataCharValid where
  transferFunction : Bool
  whitePoint : Bool
  primaryChromaticities : Bool
  yCbCrCoefficients : Bool
  referenceBlackWhite : Bool

structure PriDataChar where
  valid : PriDataCharValid
  transferFunction : ℕ → UInt16
  whitePoint : ℕ → Rational
  primaryChromaticities : ℕ → Rational
  yCbCrCoefficients : ℕ → Rational
  referenceBlackWhite : ℕ → Rational

structure PriDescValid where
  dateTime : Bool
  imageDescription : Bool
  make : Bool
  model : Bool
  software : Bool
  artist : Bool
  copyright : Bool

structure PriDesc where
  valid : PriDescValid
  dateTime : ℕ → UInt8
  imageDescription : Ascii
  make : Ascii
  model : Ascii
  software : Ascii
  artist : Ascii
  copyright : Ascii

structure PrimaryInfo where
  basic : PriBasic
  dataStruct : Option PriDataStruct
  dataChar : Option PriDataChar
  imgDesc : Option PriDesc

structure SpecBasic where
  colorSpace : UInt16
  componentsConfiguration : ℕ → UInt8
  pixelXDimension : UInt32
  pixelYDimension : UInt32

structure SpecImgConfigValid where
  compressedBitsPerPixel : Bool

structure SpecImgConfig where
  valid : SpecImgConfigValid
  compressedBitsPerPixel : Rational

/-- the writer does not read the valid bits of these two -/
structure SpecUser where
  makerNote : Custom
  userComment : Custom

structure SpecRelatedFileValid where
  relatedSoundFile : Bool

structure SpecRelatedFile where
  valid : SpecRelatedFileValid
  relatedSoundFile : ℕ → UInt8

structure SpecDateTimeValid where
  dateTimeOriginal : Bool
  dateTimeDigitized : Bool
  subSecTime : Bool
  subSecTimeOriginal : Bool
  subSecTimeDigitized : Bool

structure SpecDateTime where
  valid : SpecDateTimeValid
  dateTimeOriginal : ℕ → UInt8
  dateTimeDigitized : ℕ → UInt8
  subSecTime : Ascii
  subSecTimeOriginal : Ascii
  subSecTimeDigitized : Ascii

structure SpecPicTakingCondValid where
  exposureTime : Bool
  fNumber : Bool
  exposureProgram : Bool
  spectralSensitivity : Bool
  isoSpeedRatings : Bool
  oecf : Bool
  shutterSpeedValue : Bool
  apertureValue : Bool
  brightnessValue : Bool
  exposureBiasValue : Bool
  maxApertureValue : Bool
  subjectDistance : Bool
  meteringMode : Bool
  lightSource : Bool
  flash : Bool
  focalLength : Bool
  subjectArea : Bool
  flashEnergy : Bool
  spatialFrequencyResponse : Bool
  focalPlaneXResolution : Bool
  focalPlaneYResolution : Bool
  focalPlaneResolutionUnit : Bool
  subjectLocation : Bool
  exposureIndex : Bool
  sensingMethod : Bool
  fileSource : Bool
  sceneType : Bool
  cfaPattern : Bool
  customRendered : Bool
  exposureMode : Bool
  whiteBalance : Bool
  digitalZoomRatio : Bool
  focalLengthIn35mmFilm : Bool
  sceneCaptureType : Bool
  gainControl : Bool
  contrast : Bool
  saturation : Bool
  sharpness : Bool
  deviceSettingDescription : Bool
  subjectDistanceRange : Bool

structure SpecPicTakingCond where
  valid : SpecPicTakingCondValid
  exposureTime : Rational
  fNumber : Rational
  exposureProgram : UInt16
  spectralSensitivity : Ascii
  isoSpeedRatings : Custom
  oecf : Custom
  shutterSpeedValue : SRational
  apertureValue : Rational
  brightnessValue : SRational
  exposureBiasValue : SRational
  maxApertureValue : Rational
  subjectDistance : Rational
  meteringMode : UInt16
  lightSource : UInt16
  flash : UInt16
  focalLength : Rational
  subjectArea : Custom
  flashEnergy : Rational
  spatialFrequencyResponse : Custom
  focalPlaneXResolution : Rational
  focalPlaneYResolution : Rational
  focalPlaneResolutionUnit : UInt16
  subjectLocation : ℕ → UInt16
  exposureIndex : Rational
  sensingMethod : UInt16
  fileSource : UInt8
  sceneType : UInt8
  cfaPattern : Custom
  customRendered : UInt16
  exposureMode : UInt16
  whiteBalance : UInt16
  digitalZoomRatio : Rational
  focalLengthIn35mmFilm : UInt16
  sceneCaptureType : UInt16
  gainControl : UInt16
  contrast : UInt16
  saturation : UInt16
  sharpness : UInt16
  deviceSettingDescription : Custom
  subjectDistanceRange : UInt16

structure SpecOtherValid where
  imageUniqueID : Bool

structure SpecOther where
  valid : SpecOtherValid
  imageUniqueID : ℕ → UInt8

structure SpecificInfo where
  basic : SpecBasic
  imgConfig : Option SpecImgConfig
  user : Option SpecUser
  relatedFile : Option SpecRelatedFile
  dateTime : Option SpecDateTime
  picTakingCond : Option SpecPicTakingCond
  other : Option SpecOther

structure GpsValid where
  gpsVersionID : Bool
  gpsLatitudeRef : Bool
  gpsLatitude : Bool
  gpsLongitudeRef : Bool
  gpsLongitude : Bool
  gpsAltitudeRef : Bool
  gpsAltitude : Bool
  gpsTimeStamp : Bool
  gpsSatellites : Bool
  gpsStatus : Bool
  gpsMeasureMode : Bool
  gpsDOP : Bool
  gpsSpeedRef : Bool
  gpsSpeed : Bool
  gpsTrackRef : Bool
  gpsTrack : Bool
  gpsImgDirectionRef : Bool
  gpsImgDirection : Bool
  gpsMapDatum : Bool
  gpsDestLatitudeRef : Bool
  gpsDestLatitude : Bool
  gpsDestLongitudeRef : Bool
  gpsDestLongitude : Bool
  gpsDestBearingRef : Bool
  gpsDestBearing : Bool
  gpsDestDistanceRef : Bool
  gpsDestDistance : Bool
  gpsProcessingMethod : Bool
  gpsAreaInformation : Bool
  gpsDateStamp : Bool
  gpsDifferential : Bool

structure GpsInfo where
  valid : GpsValid
  gpsVersionID : ℕ → UInt8
  gpsLatitudeRef : ℕ → UInt8
  gpsLatitude : ℕ → Rational
  gpsLongitudeRef : ℕ → UInt8
  gpsLongitude : ℕ → Rational
  gpsAltitudeRef : UInt8
  gpsAltitude : Rational
  gpsTimeStamp : ℕ → Rational
  gpsSatellites : Ascii
  gpsStatus : ℕ → UInt8
  gpsMeasureMode : ℕ → UInt8
  gpsDOP : Rational
  gpsSpeedRef : ℕ → UInt8
  gpsSpeed : Rational
  gpsTrackRef : ℕ → UInt8
  gpsTrack : Rational
  gpsImgDirectionRef : ℕ → UInt8
  gpsImgDirection : Rational
  gpsMapDatum : Ascii
  gpsDestLatitudeRef : ℕ → UInt8
  gpsDestLatitude : ℕ → Rational
  gpsDestLongitudeRef : ℕ → UInt8
  gpsDestLongitude : ℕ → Rational
  gpsDestBearingRef : ℕ → UInt8
  gpsDestBearing : Rational
  gpsDestDistanceRef : ℕ → UInt8
  gpsDestDistance : Rational
  gpsProcessingMethod : Custom
  gpsAreaInformation : Custom
  gpsDateStamp : ℕ → UInt8
  gpsDifferential : UInt16

structure InteroperabilityValid where
  interoperabilityIndex : Bool

structure InteroperabilityInfo where
  valid : InteroperabilityValid
  interoperabilityIndex : Custom

/-- `JINF_EXIF_INFO_T` -/
structure ExifInfo where
  primary : PrimaryInfo
  spec : Option SpecificInfo
  gps : Option GpsInfo
  inter : Option InteroperabilityInfo

/-! ## Reading what was supplied -/

/-- the length before the terminator -/
def asciiStringSize : List UInt8 → ℕ
  | [] => 0
  | c :: string => if c = 0 then 0 else asciiStringSize string + 1

/-- `_GetAsciiStringSize` -/
def Ascii.size (s : Ascii) : ℕ := asciiStringSize s.bytes

def Ascii.ptr (s : Ascii) : ℕ → UInt8 := fun i => s.bytes.getD i 0

/-- the cells as little-endian words of 16 bits, by a cast of the pointer -/
def shortPtr (ptr : ℕ → UInt8) : ℕ → UInt16 := fun i =>
  UInt16.ofNat ((ptr (2 * i)).toNat + 256 * (ptr (2 * i + 1)).toNat)

/-- the cells as little-endian words of 32 bits -/
def longPtr (ptr : ℕ → UInt8) : ℕ → UInt32 := fun i =>
  UInt32.ofNat ((ptr (4 * i)).toNat + 256 * (ptr (4 * i + 1)).toNat + 65536 * (ptr (4 * i + 2)).toNat +
    16777216 * (ptr (4 * i + 3)).toNat)

/-- the cells as rationals -/
def rationalPtr (ptr : ℕ → UInt8) : ℕ → Rational := fun i => ⟨longPtr ptr (2 * i), longPtr ptr (2 * i + 1)⟩

/-- an `EXIF_SRATIONAL_T` read as an `EXIF_RATIONAL_T` -/
def SRational.bits (r : SRational) : Rational := ⟨r.numerator.toUInt32, r.denominator.toUInt32⟩

end SprdDevice.Exif
