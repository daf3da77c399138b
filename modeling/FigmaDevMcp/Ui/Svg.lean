import FigmaDevMcp.Ui.CssSyntax
import FigmaDevMcp.Ui.Raster

set_option autoImplicit false

/-!
# The SVG sanitizer

`svg.ts`: which elements, attributes, style texts and processing instructions of a document are
reported as unsafe.

* `validateReference`: a fragment or an allowed `data:` url;
* `attributeValueUnsafe`: the rule that refuses an attribute;
* `walkUnsafe`: the first refusal in document order.
-/

namespace FigmaDevMcp

/-- The kinds of rejections. -/
inductive SvgRejectionKind where
  | parserError
  | unsafeElement
  | unsafeAttribute
  | unsafeCss
  | unsafeProcessingInstruction
  deriving DecidableEq, Repr

/-- Why a document is rejected. -/
structure SvgRejection where
  kind : SvgRejectionKind
  name : Option JsString
  deriving DecidableEq, Repr

/-- The attributes of an element: no two have the same name. -/
structure SvgAttributes where
  entries : List (JsString × JsString)
  names_nodup : (entries.map Prod.fst).Nodup

/-- An element without its children. -/
structure SvgElement where
  localName : Option JsString
  tagName : JsString
  textContent : Option JsString
  attributes : SvgAttributes

/-- The nodes a document object model hands to the sanitizer; `other` is every node that is
neither an element nor a processing instruction. -/
inductive SvgNode where
  | element (element : SvgElement) (childNodes : List SvgNode)
  | processingInstruction (data nodeValue : Option JsString)
  | other (childNodes : List SvgNode)

namespace Svg

/-! ## References -/

/-- Payload bytes of a url that is not base64. -/
def decodePercentBytes : JsString → List ℕ
  | 0x25 :: high :: low :: rest =>
    if isHexChar high && isHexChar low then
      Css.parseHex [high, low] :: decodePercentBytes rest
    else 0x25 :: decodePercentBytes (high :: low :: rest)
  | code :: rest => code % 256 :: decodePercentBytes rest
  | [] => []

/-- The bytes of a string. A lone surrogate counts as three. -/
def utf8ByteLength : JsString → ℕ
  | code :: next :: rest =>
    if code ≤ 0x7f then 1 + utf8ByteLength (next :: rest)
    else if code ≤ 0x7ff then 2 + utf8ByteLength (next :: rest)
    else if Utf16.isHighSurrogate code && Utf16.isLowSurrogate next then 4 + utf8ByteLength rest
    else 3 + utf8ByteLength (next :: rest)
  | [code] => if code ≤ 0x7f then 1 else if code ≤ 0x7ff then 2 else 3
  | [] => 0

/-- A rejection keeps a name that is not too long. -/
def rejected (kind : SvgRejectionKind) (name : JsString) : SvgRejection :=
  if name = [] ∨ maxIdentifierBytes < utf8ByteLength name then ⟨kind, none⟩ else ⟨kind, some name⟩

/-- The media type and the bytes of a `data:` url. -/
def parseDataUrl (cm : CaseMapping) (value : JsString) : Option (JsString × List ℕ) :=
  if !startsWithIgnoreCase value (text "data:") then none
  else
    match (value.drop 5).dropWhile (· ≠ 0x2c) with
    | [] => none
    | _ :: payload =>
      let parts := splitAt 0x3b ((value.drop 5).takeWhile (· ≠ 0x2c))
      let mimePart := trimAscii (parts.head?.getD [])
      let mime := if mimePart = [] then text "text/plain" else toLowerCase cm mimePart
      let base64 := parts.tail.any fun part => toLowerCase cm (trimAscii part) == text "base64"
      (if base64 then Raster.decodeBase64 payload else some (decodePercentBytes payload)).map
        fun bytes => (mime, bytes)

/-- The reference is into the document itself. -/
def isFragmentReference (value : JsString) : Bool := value.head? == some 0x23

/-- The value is a script. -/
def isJavascriptUrl (value : JsString) : Bool :=
  startsWithIgnoreCase (trimAscii value) (text "javascript:")

/-- The kind of image that a type stands for. -/
def allowedDataMime (mime : JsString) : Option EmbeddedImageMime :=
  if mime = text "image/png" then some .png
  else if mime = text "image/jpeg" ∨ mime = text "image/jpg" then some .jpeg
  else if mime = text "image/webp" then some .webp
  else none

/-- The type of a font. -/
def isFontDataMime (mime : JsString) : Bool :=
  mime == text "font/woff" || mime == text "font/woff2" || mime == text "font/ttf" ||
    mime == text "font/otf" || mime == text "application/font-woff" ||
    mime == text "application/x-font-ttf" || mime == text "application/x-font-opentype"

/-- The data is an image or a font that may be embedded. -/
def validateDataUrl (cm : CaseMapping) (value : JsString) : Bool :=
  match parseDataUrl cm value with
  | none => false
  | some (mime, bytes) =>
    if maxRasterDecodedBytes < bytes.length then false
    else if isFontDataMime mime then true
    else
      match allowedDataMime mime with
      | none => false
      | some mime => Raster.validateEmbeddedImageData bytes mime

/-- A reference into the document, or an embedded image or font. -/
def validateReference (cm : CaseMapping) (value : JsString) : Bool :=
  let trimmed := trimAscii value
  if trimmed = [] then false
  else if isFragmentReference trimmed then true
  else if isJavascriptUrl trimmed then false
  else if startsWithIgnoreCase trimmed (text "data:") then validateDataUrl cm trimmed
  else false

/-- The loop of `hasUriScheme`, after the first letter. -/
def restIsScheme : JsString → Bool
  | [] => false
  | code :: rest =>
    if code = 0x3a then true
    else if !isAlpha code && !isHexChar code && code != 0x2b && code != 0x2d && code != 0x2e then
      false
    else restIsScheme rest

/-- The value starts with the scheme of a URI. -/
def hasUriScheme : JsString → Bool
  | first :: rest => isAlpha first && restIsScheme rest
  | [] => false

/-- The value is a script or data, or has a scheme or a host. -/
def looksLikeActiveUrl (value : JsString) : Bool :=
  let trimmed := stripUrlWhitespace (trimAscii value)
  if trimmed = [] then false
  else if isJavascriptUrl trimmed || startsWithIgnoreCase trimmed (text "data:") then true
  else if trimmed.take 2 = text "//" then true
  else hasUriScheme trimmed

/-! ## Attributes -/

/-- A name that counts as a namespace declaration. -/
def isXmlnsName : JsString → Bool
  | first :: second :: third :: fourth :: fifth :: rest =>
    if (first ||| 32) ≠ 0x78 ∨ (second ||| 32) ≠ 0x6d ∨ (third ||| 32) ≠ 0x6c ∨
        (fourth ||| 32) ≠ 0x6e ∨ (fifth ||| 32) ≠ 0x73 then false
    else rest.isEmpty || rest.head? == some 0x3a
  | _ => false

/-- A name without its prefix, in small letters. -/
def localNameOf (cm : CaseMapping) (name : JsString) : JsString :=
  toLowerCase cm (afterLastColon name)

/-- The value of the attribute is one reference. -/
def isReferenceAttribute (localAttr : JsString) : Bool :=
  localAttr == text "href" || localAttr == text "src" || localAttr == text "base"

/-- Attributes that may address a resource but usually hold a plain value. -/
def resourceValueAttributes : List JsString :=
  [text "to", text "from", text "by", text "values", text "fill", text "stroke",
    text "clip-path", text "mask", text "filter", text "marker", text "marker-start",
    text "marker-mid", text "marker-end"]

/-- The value of the attribute may have references in it. -/
def isResourceValueAttribute (localAttr : JsString) : Bool :=
  resourceValueAttributes.contains localAttr

/-- `import`, in any case. -/
def isImportName : JsString → Bool
  | [a, b, c, d, e, f] =>
    (a ||| 32) == 0x69 && (b ||| 32) == 0x6d && (c ||| 32) == 0x70 && (d ||| 32) == 0x6f &&
      (e ||| 32) == 0x72 && (f ||| 32) == 0x74
  | _ => false

/-- A token of a style may stand there. -/
def cssTokenAllowed (cm : CaseMapping) : CssToken → Bool
  | .atKeyword name => !isImportName name
  | .url value => validateReference cm value
  | _ => true

/-- Every token of a style may stand there. -/
def validateCssText (cm : CaseMapping) (value : JsString) : Bool :=
  (tokenizeCss value).all (cssTokenAllowed cm)

/-- Only `values` holds a list. -/
def segments (localAttr value : JsString) : List JsString :=
  if localAttr = text "values" then splitAt 0x3b value else [value]

/-- What is wrong with an attribute. -/
def attributeValueUnsafe (cm : CaseMapping) (name value : JsString) : Option SvgRejection :=
  if isXmlnsName name then none
  else
    let localAttr := localNameOf cm name
    if (text "on").isPrefixOf localAttr then some (rejected .unsafeAttribute localAttr)
    else if isReferenceAttribute localAttr then
      if validateReference cm value then none else some (rejected .unsafeAttribute localAttr)
    else if isResourceValueAttribute localAttr && (segments localAttr value).any
        (fun segment => looksLikeActiveUrl segment && !validateReference cm segment) then
      some (rejected .unsafeAttribute localAttr)
    else if validateCssText cm value then none
    else some (rejected .unsafeCss localAttr)

/-! ## Processing instructions -/

/-- A unit that ends a name of a processing instruction. -/
def isPiIdentEnd (code : ℕ) : Bool :=
  isAsciiWhitespace code || code == 0x3d || code == 0x3f || code == 0x3e

/-- A name and what follows it. -/
def readPiIdent (data : JsString) : JsString × JsString :=
  let start := data.dropWhile isAsciiWhitespace
  (start.takeWhile (!isPiIdentEnd ·), start.dropWhile (!isPiIdentEnd ·))

/-- A value, quoted or not, and what follows it. -/
def readPiValue (data : JsString) : Option (JsString × JsString) :=
  match data.dropWhile isAsciiWhitespace with
  | [] => none
  | quote :: rest =>
    if quote = 0x22 ∨ quote = 0x27 then
      some (rest.takeWhile (· ≠ quote), (rest.dropWhile (· ≠ quote)).tail)
    else
      some ((quote :: rest).takeWhile (!isAsciiWhitespace ·),
        (quote :: rest).dropWhile (!isAsciiWhitespace ·))

theorem readPiIdent_lt {data : JsString} (h : (readPiIdent data).1 ≠ []) :
    (readPiIdent data).2.length < data.length := by
  have hd : (data.dropWhile isAsciiWhitespace).length ≤ data.length :=
    List.length_dropWhile_le _ data
  have hs := List.takeWhile_append_dropWhile (p := (!isPiIdentEnd ·))
    (l := data.dropWhile isAsciiWhitespace)
  have hl := congrArg List.length hs
  rw [List.length_append] at hl
  have hp : 0 < (readPiIdent data).1.length := List.length_pos_iff.2 h
  simp only [readPiIdent] at hp ⊢
  omega

theorem readPiValue_le {data value rest : JsString} (h : readPiValue data = some (value, rest)) :
    rest.length ≤ data.length := by
  have hd : (data.dropWhile isAsciiWhitespace).length ≤ data.length :=
    List.length_dropWhile_le _ data
  unfold readPiValue at h
  split at h
  · cases h
  · rename_i quote after hq
    rw [hq] at hd
    split_ifs at h <;> cases h
    · have := List.length_dropWhile_le (· ≠ quote) after
      simp only [List.length_tail, List.length_cons] at *
      omega
    · exact Nat.le_trans (List.length_dropWhile_le _ _) hd

/-- The pseudo-attributes, after the target. -/
def piAttributesUnsafe (cm : CaseMapping) (data : JsString) : Option SvgRejection :=
  if _h : (readPiIdent data).1 = [] then none
  else
    match _hr : (readPiIdent data).2.dropWhile isAsciiWhitespace with
    | 0x3d :: rest =>
      match _hv : readPiValue rest with
      | none => none
      | some (value, after) =>
        if (attributeValueUnsafe cm (readPiIdent data).1 value).isSome then
          some (rejected .unsafeProcessingInstruction (localNameOf cm (readPiIdent data).1))
        else piAttributesUnsafe cm after
    | rest => piAttributesUnsafe cm rest
termination_by data.length
decreasing_by
  all_goals
    have hlt := readPiIdent_lt _h
    have hd := List.length_dropWhile_le isAsciiWhitespace (readPiIdent data).2
    rw [_hr] at hd
  · have := readPiValue_le _hv
    simp only [List.length_cons] at hd
    omega
  · omega

/-- What is wrong with a processing instruction. -/
def piDataUnsafe (cm : CaseMapping) (data : JsString) : Option SvgRejection :=
  piAttributesUnsafe cm (readPiIdent data).2

/-! ## Elements -/

/-- The value of an attribute. -/
def getAttribute (attributes : SvgAttributes) (name : JsString) : Option JsString :=
  (attributes.entries.find? (·.1 == name)).map Prod.snd

/-- The names of the attributes. -/
def getAttributeNames (attributes : SvgAttributes) : List JsString :=
  attributes.entries.map Prod.fst

/-- The name of an element without its prefix, in small letters. -/
def elementLocalName (cm : CaseMapping) (element : SvgElement) : JsString :=
  match element.localName with
  | some (first :: rest) => toLowerCase cm (first :: rest)
  | _ => localNameOf cm element.tagName

/-- The refusal of an element, its children apart. -/
def elementUnsafe (cm : CaseMapping) (element : SvgElement) : Option SvgRejection :=
  let localName := elementLocalName cm element
  if localName = text "script" ∨ localName = text "foreignobject" then
    some (rejected .unsafeElement localName)
  else if localName = text "style" ∧ !validateCssText cm (element.textContent.getD []) then
    some (rejected .unsafeCss localName)
  else
    (getAttributeNames element.attributes).findSome? fun name =>
      attributeValueUnsafe cm name ((getAttribute element.attributes name).getD [])

mutual

/-- The first thing that is wrong in a node or below it. -/
def walkUnsafe (cm : CaseMapping) : SvgNode → Option SvgRejection
  | .processingInstruction data nodeValue => piDataUnsafe cm ((data.or nodeValue).getD [])
  | .element element childNodes => (elementUnsafe cm element).or (walkChildren cm childNodes)
  | .other childNodes => walkChildren cm childNodes

/-- The first thing that is wrong in the children. -/
def walkChildren (cm : CaseMapping) : List SvgNode → Option SvgRejection
  | [] => none
  | child :: rest => (walkUnsafe cm child).or (walkChildren cm rest)

end

end Svg

end FigmaDevMcp
