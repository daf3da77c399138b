import FigmaDevMcp.Protocol.Limits
import FigmaDevMcp.Ui.Text

set_option autoImplicit false

/-!
# Embedded images

The part of `raster.ts` that the sanitizer calls: base64 and the signatures of the three image
formats. A `Uint8Array` is a list of bytes: what is written to it is reduced modulo 256, and it
keeps its length.

* `encodeBase64`, `decodeBase64`;
* `validateEmbeddedImageData`.
-/

namespace FigmaDevMcp

/-- The kinds of images that may be embedded. -/
inductive EmbeddedImageMime where
  | png
  | jpeg
  | webp
  deriving DecidableEq, Repr

namespace Raster

/-- The letters of the standard alphabet. -/
def base64Table : String := "ABCDEFGHIJKLMNOPQRSTUVWXYZabcdefghijklmnopqrstuvwxyz0123456789+/"

/-- `BASE64_TABLE[n] ?? ""`. -/
def base64Unit (n : ℕ) : JsString := (text base64Table)[n]?.toList

/-- What is pushed for up to three bytes, with `0` for those that are missing. -/
def quartet (remaining b0 b1 b2 : ℕ) : JsString :=
  base64Unit (b0 >>> 2 &&& 0x3f) ++ base64Unit ((b0 &&& 0x03) <<< 4 ||| b1 >>> 4) ++
    (if 1 < remaining then base64Unit ((b1 &&& 0x0f) <<< 2 ||| b2 >>> 6) else [0x3d]) ++
    (if 2 < remaining then base64Unit (b2 &&& 0x3f) else [0x3d])

/-- Three bytes at a time. -/
def encodeBase64 : List ℕ → JsString
  | [] => []
  | [b0] => quartet 1 b0 0 0
  | [b0, b1] => quartet 2 b0 b1 0
  | b0 :: b1 :: b2 :: rest => quartet (rest.length + 3) b0 b1 b2 ++ encodeBase64 rest

/-- White space that a text in base64 may have. -/
def isBase64Whitespace (code : ℕ) : Bool :=
  code == 0x09 || code == 0x0a || code == 0x0d || code == 0x20

/-- The number of a letter. -/
def sextet (code : ℕ) : Option ℕ :=
  if 0x41 ≤ code ∧ code ≤ 0x5a then some (code - 0x41)
  else if 0x61 ≤ code ∧ code ≤ 0x7a then some (code - 0x61 + 26)
  else if 0x30 ≤ code ∧ code ≤ 0x39 then some (code - 0x30 + 52)
  else if code = 0x2b then some 62
  else if code = 0x2f then some 63
  else if code = 0x3d then some 0
  else none

/-- The bytes written for each group of four, in order. -/
def decodeGroups : List ℕ → Option (List ℕ)
  | ca :: cb :: cc :: cd :: rest =>
    match sextet ca, sextet cb, sextet cc, sextet cd, decodeGroups rest with
    | some a, some b, some c, some d, some more =>
      some ([(a <<< 2 ||| b >>> 4) % 256] ++
        (if cc ≠ 0x3d then [((b &&& 0x0f) <<< 4 ||| c >>> 2) % 256] else []) ++
        (if cd ≠ 0x3d then [((c &&& 0x03) <<< 6 ||| d) % 256] else []) ++ more)
    | _, _, _, _, _ => none
  | _ => some []

/-- A new array of `size` zeros after the writes; what lies past its end is lost. -/
def written (size : ℕ) (bytes : List ℕ) : List ℕ := (bytes ++ List.replicate size 0).take size

/-- `1` where the code is a padding sign. -/
def paddingAt (code : Option ℕ) : ℕ := if code = some 0x3d then 1 else 0

/-- The bytes of a text in base64, without its white space. -/
def decodeBase64 (value : JsString) : Option (List ℕ) :=
  let cleaned := (value.filter fun code => !isBase64Whitespace code).map (· % 256)
  if cleaned.length % 4 ≠ 0 then none
  else
    let padding := paddingAt cleaned.reverse[0]? + paddingAt cleaned.reverse[1]?
    (decodeGroups cleaned).map (written (cleaned.length / 4 * 3 - padding))

/-- The bytes from `offset` on start with `expected`. -/
def matchesAt (bytes : List ℕ) (offset : ℕ) (expected : List ℕ) : Bool :=
  expected.isPrefixOf (bytes.drop offset)

/-- The first bytes of a PNG. -/
def pngMagic : List ℕ := [0x89, 0x50, 0x4e, 0x47, 0x0d, 0x0a, 0x1a, 0x0a]

/-- The bytes begin as a PNG does, with its header. -/
def isPng (bytes : List ℕ) : Bool :=
  matchesAt bytes 0 pngMagic && 24 ≤ bytes.length && matchesAt bytes 12 [0x49, 0x48, 0x44, 0x52]

/-- The bytes begin as a JPEG does. -/
def isJpeg (bytes : List ℕ) : Bool := 4 ≤ bytes.length && matchesAt bytes 0 [0xff, 0xd8]

/-- The bytes begin as a WebP does. -/
def isWebp (bytes : List ℕ) : Bool :=
  12 ≤ bytes.length && matchesAt bytes 0 [0x52, 0x49, 0x46, 0x46] &&
    matchesAt bytes 8 [0x57, 0x45, 0x42, 0x50]

/-- The bytes are not too many, and of the kind that is named. -/
def validateEmbeddedImageData (bytes : List ℕ) (mime : EmbeddedImageMime) : Bool :=
  if bytes.length = 0 ∨ maxRasterDecodedBytes < bytes.length then false
  else
    match mime with
    | .png => isPng bytes
    | .jpeg => isJpeg bytes
    | .webp => isWebp bytes

end Raster

end FigmaDevMcp
