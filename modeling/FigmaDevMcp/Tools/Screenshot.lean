import FigmaDevMcp.Lib.Utf8
import FigmaDevMcp.Protocol.Writing
import FigmaDevMcp.Tools.Content

set_option autoImplicit false

/-!
# Screenshots in a tool result

`account_screenshot_result` of `content.rs`: images are let in one after the other as long as the
result so far can be sent, and are errors of their items from then on. A Rust string is the list
of its code units. A `serde_json::Map` is sorted, so the members of an object stand in the order of
their keys.

* `ScreenshotAsset`, `publicAsset`, `screenshotImage`: an asset, what is shown of it, its image;
* `accountMixedImages`, `accountScreenshotResult`: the loop, and its final account.
-/

namespace FigmaDevMcp.Tools.Content

open Protocol

/-! ## Values -/

/-- A member of an object. -/
def entry (key : String) (value : Value) : JsString × Value := (Utf16.ofString key, value)

/-- A string. -/
def Value.ofString (s : String) : Value := .string (Utf16.ofString s)

/-- A number. -/
def Value.natural (n : ℕ) : Value := .number (integerText n) (isNumberUnit_integerText n)

/-- A value that is a string. -/
def Value.asStr : Value → Option JsString
  | string s => some s
  | _ => none

/-- The member of a field that is left out where it is none. -/
def optionalEntry (key : String) (value : Option Value) : List (JsString × Value) :=
  (value.map (entry key)).toList

/-- The error of an item, as it is sent. -/
def itemErrorToValue (error : ItemError) : Value :=
  .object ([entry "code" (.ofString (errorCodeWord error.code))] ++
    optionalEntry "id" (error.id.map .ofString) ++
    [entry "index" (.natural error.index),
      entry "message" (.ofString (canonicalMessage error.code)),
      entry "retryable" (.bool error.retryable)])

/-- An error, as it is sent. -/
def toolErrorToValue (error : ToolError) : Value :=
  .object ([entry "code" (.ofString (errorCodeWord error.code))] ++
    optionalEntry "items" (error.items.map fun items => .array (items.map itemErrorToValue)) ++
    [entry "message" (.ofString (canonicalMessage error.code)),
      entry "retryable" (.bool error.retryable)])

/-- A cut, as it is sent. -/
def truncationToValue (t : Truncation) : Value :=
  .object (optionalEntry "appliedDepth" (t.appliedDepth.map .natural) ++
    optionalEntry "encodedBytes" (t.encodedBytes.map .natural) ++
    [entry "reason" (.ofString t.reason.word)] ++
    optionalEntry "visitedNodes" (t.visitedNodes.map .natural))

/-! ## Assets -/

/-- The kinds of rejections. -/
inductive SvgRejectionKind
  | parserError
  | unsafeElement
  | unsafeAttribute
  | unsafeCss
  | unsafeProcessingInstruction
deriving DecidableEq

/-- The word of a kind. -/
def SvgRejectionKind.word : SvgRejectionKind → String
  | parserError => "parserError"
  | unsafeElement => "unsafeElement"
  | unsafeAttribute => "unsafeAttribute"
  | unsafeCss => "unsafeCss"
  | unsafeProcessingInstruction => "unsafeProcessingInstruction"

/-- Why a document was rejected. -/
structure SvgRejection where
  kind : SvgRejectionKind
  name : Option JsString

/-- An image that was taken. -/
inductive ScreenshotAsset
  | png (nodeId dataBase64 : JsString) (width height : ℕ)
  | jpeg (nodeId dataBase64 : JsString) (width height : ℕ)
  | svg (nodeId source : JsString) (safe : Bool) (rejection : Option SvgRejection)

/-- An image or an error. -/
inductive ScreenshotItem
  | success (value : ScreenshotAsset)
  | error (error : ToolError)

/-- The result of `get_screenshot`. -/
structure GetScreenshotResult where
  assets : List ScreenshotItem
  truncated : Bool
  truncation : Option Truncation
  startedAt : JsString
  completedAt : JsString

/-- The largest unsigned integer of 32 bits. -/
def u32Max : ℕ := 0xffffffff

/-- The bytes that a text in base64 stands for. -/
def decodedLen (base64 : JsString) : ℕ :=
  let padding := (base64.reverse.takeWhile (· == 0x3d)).length
  min (utf8ByteLength base64 * 3 / 4 - padding) u32Max

/-- What is told of a raster image. -/
def rasterToValue (format : String) (nodeId dataBase64 : JsString) (width height : ℕ) : Value :=
  .object [entry "base64Bytes" (.natural (min (utf8ByteLength dataBase64) u32Max)),
    entry "decodedBytes" (.natural (decodedLen dataBase64)), entry "format" (.ofString format),
    entry "height" (.natural height), entry "nodeId" (.string nodeId),
    entry "width" (.natural width)]

/-- A rejection, as it is sent. -/
def SvgRejection.toValue (r : SvgRejection) : Value :=
  .object ([entry "kind" (.ofString r.kind.word)] ++ optionalEntry "name" (r.name.map .string))

/-- The asset without the data of a raster image: its JSON. -/
def publicAsset : ScreenshotAsset → Value
  | .png nodeId dataBase64 width height => rasterToValue "png" nodeId dataBase64 width height
  | .jpeg nodeId dataBase64 width height => rasterToValue "jpeg" nodeId dataBase64 width height
  | .svg nodeId source safe rejection =>
    .object ([entry "format" (.ofString "svg"), entry "nodeId" (.string nodeId)] ++
      optionalEntry "rejection" (rejection.map SvgRejection.toValue) ++
      [entry "safe" (.bool safe), entry "source" (.string source)])

/-- The letter of a number below 64. -/
def base64Digit (n : ℕ) : ℕ :=
  if n < 26 then 0x41 + n else if n < 52 then 0x61 + (n - 26)
  else if n < 62 then 0x30 + (n - 52) else if n = 62 then 0x2b else 0x2f

/-- Three bytes at a time. -/
def encodeBase64 : List UInt8 → JsString
  | [] => []
  | [a] => [base64Digit (a.toNat / 4), base64Digit (a.toNat % 4 * 16), 0x3d, 0x3d]
  | [a, b] =>
    [base64Digit (a.toNat / 4), base64Digit (a.toNat % 4 * 16 + b.toNat / 16),
      base64Digit (b.toNat % 16 * 4), 0x3d]
  | a :: b :: c :: rest =>
    base64Digit (a.toNat / 4) :: base64Digit (a.toNat % 4 * 16 + b.toNat / 16) ::
      base64Digit (b.toNat % 16 * 4 + c.toNat / 64) :: base64Digit (c.toNat % 64) ::
        encodeBase64 rest

/-- An image with what is told of it. -/
structure AccountedImage where
  id : Option JsString
  structuredItem : Value
  imageBase64 : JsString
  mimeType : JsString

/-- An image as a block of its own, with what is told of it. -/
def screenshotImage (asset : ScreenshotAsset) : AccountedImage :=
  match asset with
  | .png nodeId dataBase64 _ _ =>
    { id := some nodeId, structuredItem := publicAsset asset, imageBase64 := dataBase64
      mimeType := Utf16.ofString "image/png" }
  | .jpeg nodeId dataBase64 _ _ =>
    { id := some nodeId, structuredItem := publicAsset asset, imageBase64 := dataBase64
      mimeType := Utf16.ofString "image/jpeg" }
  | .svg nodeId source _ _ =>
    { id := some nodeId, structuredItem := publicAsset asset
      imageBase64 := encodeBase64 ((Utf16.utf8 source).getD [])
      mimeType := Utf16.ofString "image/svg+xml" }

/-! ## The account -/

/-- What is told of an image that is shown. -/
def itemSuccess (value : Value) : Value :=
  .object [entry "status" (.ofString "success"), entry "value" value]

/-- What is told of an image that is dropped. -/
def itemError (id : Option JsString) : Value :=
  .object [entry "error" (.object ([entry "code" (.ofString "LIMIT_EXCEEDED")] ++
      optionalEntry "id" (id.map .string) ++
      [entry "message" (.ofString "The operation exceeded a safety limit."),
        entry "retryable" (.bool false)])),
    entry "status" (.ofString "error")]

/-- The image is within the bounds of its kind. -/
def screenshotItemAllowed (item : AccountedImage) : Bool :=
  if item.mimeType = Utf16.ofString "image/svg+xml" then
    let sourceLen := (((item.structuredItem.get "source").bind Value.asStr).map utf8ByteLength).getD
      (utf8ByteLength item.imageBase64)
    sourceLen ≤ maxSvgBytes
  else utf8ByteLength item.imageBase64 ≤ maxRasterBase64Bytes

/-- The bytes of the sources of documents, which are sent twice. -/
def duplicatedSvgSourceBytes (result : CallToolResult) : ℕ :=
  match (result.structuredContent.bind (·.get "assets")).bind Value.asArray with
  | none => 0
  | some assets =>
    (assets.filterMap fun asset =>
      (((asset.get "value").bind (·.get "source")).bind Value.asStr).map utf8ByteLength).sum

section

variable (toVec : JsonRpcResponse → Option ℕ) (context : EnvelopeContext)

/-- A result of images within the bounds of text and envelope. -/
def accountScreenshotCallToolResult (result : CallToolResult) :
    Except ToolError AccountedCallToolResult :=
  let textBytes := nonImageTextBytes result - duplicatedSvgSourceBytes result
  if maxTextBytes < textBytes then .error (.new .limitExceeded false)
  else do
    let envelopeBytes ← serializeMcpEnvelope toVec result context
    if maxEnvelopeBytes < envelopeBytes then .error (.new .limitExceeded false)
    else .ok { result, textBytes, envelopeBytes, itemCount := itemCount result }

/-- An item before it is decided whether it is shown. -/
inductive ScreenshotPending
  | image (item : AccountedImage)
  | error (error : Value)

/-- What the loop has kept so far. -/
structure Mixed where
  kept : List Value := []
  images : List (JsString × JsString) := []
  overflow : Bool := false

variable (wrap : List Value → Value)

/-- The items with their images behind them. -/
def mixedResult (kept : List Value) (images : List (JsString × JsString)) : CallToolResult :=
  { structured (wrap kept) with
    content := (structured (wrap kept)).content ++ images.map fun i => .image i.1 i.2 }

/-- One item is shown, dropped or an error. -/
def mixedStep (s : Mixed) : ScreenshotPending → Mixed
  | .error error => { s with kept := s.kept ++ [error] }
  | .image item =>
    if s.overflow || !screenshotItemAllowed item then
      { s with kept := s.kept ++ [itemError item.id] }
    else
      let tentativeItems := s.kept ++ [itemSuccess item.structuredItem]
      let images := s.images ++ [(item.imageBase64, item.mimeType)]
      match accountScreenshotCallToolResult toVec context (mixedResult wrap tentativeItems images) with
      | .ok _ => { s with kept := tentativeItems, images }
      | .error _ => { s with kept := s.kept ++ [itemError item.id], overflow := true }

/-- The items are decided on one after another. -/
def accountMixedImages (items : List ScreenshotPending) :
    Except ToolError AccountedCallToolResult :=
  let s := items.foldl (mixedStep toVec context wrap) {}
  accountScreenshotCallToolResult toVec context (mixedResult wrap s.kept s.images)

end

/-- An item before it is decided on. -/
def ScreenshotItem.pending : ScreenshotItem → ScreenshotPending
  | .error e =>
    .error (.object [entry "error" (toolErrorToValue e), entry "status" (.ofString "error")])
  | .success value => .image (screenshotImage value)

/-- The structured content of a result. -/
def GetScreenshotResult.wrap (result : GetScreenshotResult) (items : List Value) : Value :=
  .object ([entry "assets" (.array items),
    entry "observation" (.object [entry "completedAt" (.string result.completedAt),
      entry "startedAt" (.string result.startedAt)]),
    entry "truncated" (.bool result.truncated)] ++
    optionalEntry "truncation" (result.truncation.map truncationToValue))

/-- A result of images within all bounds. -/
def accountScreenshotResult (toVec : JsonRpcResponse → Option ℕ) (context : EnvelopeContext)
    (result : GetScreenshotResult) : Except ToolError AccountedCallToolResult :=
  accountMixedImages toVec context result.wrap (result.assets.map ScreenshotItem.pending)

end FigmaDevMcp.Tools.Content
