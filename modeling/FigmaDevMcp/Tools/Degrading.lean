import FigmaDevMcp.Tools.TextBudget

set_option autoImplicit false

/-!
# Screenshots that do not fit

The loop of `account_mixed_images` cuts its items at one place: before it every image is shown
that a single item may be, from it on every image is the error of its item.

* `shown`, `refuse`, `cutResult`: the items before and after the cut, and the result of a cut;
* `IsCut`: the place of the first image that does not fit with all before it;
* `foldl_mixedStep`: **the loop finds the cut**;
* `screenshot_correspondence`: what an accepted result has of which asset;
* `degradation_total_iff`: when degrading the images saves the result.
-/

namespace FigmaDevMcp.Tools.Content

variable (toVec : JsonRpcResponse → Option ℕ) (context : EnvelopeContext)
  (wrap : List Value → Value)

/-- An item that is shown if it may be. -/
def shown : ScreenshotPending → Value
  | .error e => e
  | .image item =>
    if screenshotItemAllowed item then itemSuccess item.structuredItem else itemError item.id

/-- The data of an image that is not dropped, with its type. -/
def shownImage : ScreenshotPending → Option (JsString × JsString)
  | .error _ => none
  | .image item => if screenshotItemAllowed item then some (item.imageBase64, item.mimeType) else none

/-- An item that is not shown. -/
def refuse : ScreenshotPending → Value
  | .error e => e
  | .image item => itemError item.id

/-- The result that shows the items before the cut. -/
def cutResult (items : List ScreenshotPending) (n : ℕ) : CallToolResult :=
  mixedResult wrap ((items.take n).map shown ++ (items.drop n).map refuse)
    ((items.take n).filterMap shownImage)

/-- The image at that place does not fit with all before it. -/
def Stops (items : List ScreenshotPending) (n : ℕ) : Prop :=
  ∃ item, items[n]? = some (.image item) ∧ screenshotItemAllowed item = true ∧
    (accountScreenshotCallToolResult toVec context
      (cutResult wrap (items.take (n + 1)) (n + 1))).isOk = false

/-- The first image that does not fit, or the end. -/
structure IsCut (items : List ScreenshotPending) (n : ℕ) : Prop where
  le_length : n ≤ items.length
  first : ∀ k < n, ¬ Stops toVec context wrap items k
  stops : n < items.length → Stops toVec context wrap items n

/-- What the loop has kept after a cut. -/
def cutState (items : List ScreenshotPending) (n : ℕ) : Mixed where
  kept := (items.take n).map shown ++ (items.drop n).map refuse
  images := (items.take n).filterMap shownImage
  overflow := decide (n < items.length)

variable {toVec context wrap}

theorem stops_append {items : List ScreenshotPending} {x : ScreenshotPending} {k : ℕ}
    (hk : k < items.length) :
    Stops toVec context wrap (items ++ [x]) k ↔ Stops toVec context wrap items k := by
  rw [Stops, Stops, List.getElem?_append_left hk, List.take_append_of_le_length hk]

/-- Nothing stops at an item that is shown as it is. -/
theorem IsCut.snoc {items : List ScreenshotPending} {x : ScreenshotPending}
    (h : IsCut toVec context wrap items items.length)
    (hx : ¬ Stops toVec context wrap (items ++ [x]) items.length) :
    IsCut toVec context wrap (items ++ [x]) (items.length + 1) := by
  refine ⟨by rw [List.length_append]; rfl, fun k hk => ?_, fun hlt => ?_⟩
  · rcases Nat.lt_succ_iff_lt_or_eq.1 hk with hk | rfl
    · exact fun hs => h.first k hk ((stops_append hk).1 hs)
    · exact hx
  · rw [List.length_append] at hlt
    exact absurd hlt (Nat.lt_irrefl _)

/-- A cut before the end stays where it is. -/
theorem IsCut.append {items : List ScreenshotPending} {x : ScreenshotPending} {n : ℕ}
    (h : IsCut toVec context wrap items n) (hn : n < items.length) :
    IsCut toVec context wrap (items ++ [x]) n := by
  refine ⟨h.le_length.trans (by rw [List.length_append]; omega), fun k hk hs => ?_, fun _ => ?_⟩
  · exact h.first k hk ((stops_append (hk.trans hn)).1 hs)
  · exact (stops_append hn).2 (h.stops hn)

theorem cutState_length (items : List ScreenshotPending) :
    cutState items items.length =
      { kept := items.map shown, images := items.filterMap shownImage, overflow := false } := by
  rw [cutState, List.take_length, List.drop_length, List.map_nil, List.append_nil,
    decide_eq_false (Nat.lt_irrefl _)]

theorem cutResult_length (items : List ScreenshotPending) :
    cutResult wrap items items.length =
      mixedResult wrap (items.map shown) (items.filterMap shownImage) := by
  rw [cutResult, List.take_length, List.drop_length, List.map_nil, List.append_nil]

theorem cutState_append {items : List ScreenshotPending} {n : ℕ} (hn : n ≤ items.length)
    (x : ScreenshotPending) : cutState (items ++ [x]) n =
      { kept := (cutState items n).kept ++ [refuse x], images := (cutState items n).images
        overflow := true } := by
  have hlt : n < (items ++ [x]).length := by
    rw [List.length_append]
    exact Nat.lt_succ_of_le hn
  simp only [cutState, List.take_append_of_le_length hn, List.drop_append_of_le_length hn,
    List.map_append, List.map_cons, List.map_nil, List.append_assoc, decide_eq_true hlt]

theorem cutState_snoc (items : List ScreenshotPending) (x : ScreenshotPending) :
    cutState (items ++ [x]) (items.length + 1) =
      { kept := items.map shown ++ [shown x]
        images := items.filterMap shownImage ++ (shownImage x).toList, overflow := false } := by
  have hlength : (items ++ [x]).length = items.length + 1 := List.length_append
  rw [← hlength, cutState_length, List.map_append, List.filterMap_append]
  cases hx : shownImage x <;> simp [hx]

/-- Past the cut every item is refused. -/
theorem mixedStep_overflow {s : Mixed} (h : s.overflow = true) (x : ScreenshotPending) :
    mixedStep toVec context wrap s x = { s with kept := s.kept ++ [refuse x] } := by
  cases x with
  | error e => rfl
  | image item => rw [mixedStep, h, Bool.true_or, if_pos rfl, refuse]

/-- Before the cut an item is shown, or makes the cut. -/
theorem mixedStep_length {items : List ScreenshotPending} (x : ScreenshotPending)
    (h : IsCut toVec context wrap items items.length) :
    ∃ n, IsCut toVec context wrap (items ++ [x]) n ∧
      mixedStep toVec context wrap (cutState items items.length) x = cutState (items ++ [x]) n := by
  have hget : (items ++ [x])[items.length]? = some x := by
    rw [List.getElem?_append_right (le_refl _), Nat.sub_self]
    rfl
  have htake : (items ++ [x]).take (items.length + 1) = items ++ [x] :=
    List.take_of_length_le (by rw [List.length_append]; rfl)
  rw [cutState_length]
  cases x with
  | error e =>
      refine ⟨items.length + 1, h.snoc ?_, ?_⟩
      · rintro ⟨item, hitem, -⟩
        rw [hget] at hitem
        cases hitem
      · rw [cutState_snoc, mixedStep]
        simp only [shown, shownImage, Option.toList_none, List.append_nil]
  | image item =>
      by_cases hallowed : screenshotItemAllowed item = true
      · have hshown : mixedResult wrap (items.map shown ++ [itemSuccess item.structuredItem])
            (items.filterMap shownImage ++ [(item.imageBase64, item.mimeType)]) =
            cutResult wrap (items ++ [.image item]) (items.length + 1) := by
          have hlength : (items ++ [ScreenshotPending.image item]).length = items.length + 1 :=
            List.length_append
          rw [← hlength, cutResult_length, List.map_append, List.filterMap_append]
          simp [shown, shownImage, hallowed]
        rw [mixedStep, hallowed]
        simp only [Bool.false_or, Bool.not_true, Bool.false_eq_true, if_false, hshown]
        cases haccount : accountScreenshotCallToolResult toVec context
            (cutResult wrap (items ++ [.image item]) (items.length + 1)) with
        | ok r =>
            refine ⟨items.length + 1, h.snoc ?_, ?_⟩
            · rintro ⟨other, hother, hok, hfail⟩
              rw [htake, haccount] at hfail
              cases hfail
            · rw [cutState_snoc]
              simp only [shown, shownImage, hallowed, if_true, Option.toList_some]
        | error e =>
            refine ⟨items.length, ?_, ?_⟩
            · refine ⟨by rw [List.length_append]; omega, fun k hk hs => ?_, fun _ => ?_⟩
              · exact h.first k hk ((stops_append hk).1 hs)
              · exact ⟨item, hget, hallowed, by rw [htake, haccount]; rfl⟩
            · rw [cutState_append (le_refl _), cutState_length]
              rfl
      · refine ⟨items.length + 1, h.snoc ?_, ?_⟩
        · rintro ⟨other, hother, hok, -⟩
          rw [hget] at hother
          obtain rfl := ScreenshotPending.image.inj (Option.some.inj hother)
          exact hallowed hok
        · rw [cutState_snoc, mixedStep]
          simp only [shown, shownImage, hallowed, Bool.false_or, Bool.not_false, if_true,
            if_false, Bool.false_eq_true, Option.toList_none, List.append_nil]

variable (toVec context wrap) in
/-- **The loop finds the cut.** -/
theorem foldl_mixedStep (items : List ScreenshotPending) :
    ∃ n, IsCut toVec context wrap items n ∧
      items.foldl (mixedStep toVec context wrap) {} = cutState items n := by
  induction items using List.reverseRecOn with
  | nil => exact ⟨0, ⟨le_refl _, nofun, nofun⟩, rfl⟩
  | append_singleton items x ih =>
      obtain ⟨n, hcut, hfold⟩ := ih
      rw [List.foldl_append, hfold, List.foldl_cons, List.foldl_nil]
      rcases Nat.lt_or_eq_of_le hcut.le_length with hn | rfl
      · refine ⟨n, hcut.append hn, ?_⟩
        rw [mixedStep_overflow (decide_eq_true hn), cutState_append hcut.le_length]
        show Mixed.mk _ _ (decide (n < items.length)) = _
        rw [decide_eq_true hn]
      · exact mixedStep_length x hcut

/-! ## What is accepted -/

variable (toVec context wrap) in
theorem accountMixedImages_eq (items : List ScreenshotPending) :
    ∃ n, IsCut toVec context wrap items n ∧
      accountMixedImages toVec context wrap items =
        accountScreenshotCallToolResult toVec context (cutResult wrap items n) := by
  obtain ⟨n, hcut, hfold⟩ := foldl_mixedStep toVec context wrap items
  refine ⟨n, hcut, ?_⟩
  rw [accountMixedImages, hfold]
  rfl

/-- There is one cut. -/
theorem IsCut.unique {items : List ScreenshotPending} {m n : ℕ}
    (hm : IsCut toVec context wrap items m) (hn : IsCut toVec context wrap items n) : m = n := by
  rcases Nat.lt_trichotomy m n with hlt | heq | hlt
  · exact absurd (hm.stops (hlt.trans_le hn.le_length)) (hn.first m hlt)
  · exact heq
  · exact absurd (hn.stops (hlt.trans_le hm.le_length)) (hm.first n hlt)

/-- The assets of a result, and what is written of them. -/
def GetScreenshotResult.pending (result : GetScreenshotResult) : List ScreenshotPending :=
  result.assets.map ScreenshotItem.pending

/-- The result in which every image is the error of its item. -/
def degraded (result : GetScreenshotResult) : CallToolResult := cutResult result.wrap result.pending 0

/-- What is written of an item says that it is a success. -/
def Value.isSuccess (value : Value) : Bool :=
  match value.get "status" with
  | some (.string s) => s = Utf16.ofString "success"
  | _ => false

/-- The image block of an asset whose item is a success. -/
def shownBlock (p : ScreenshotItem × Value) : Option ContentBlock :=
  match p.1 with
  | .success value =>
    if p.2.isSuccess then
      some (.image (screenshotImage value).imageBase64 (screenshotImage value).mimeType)
    else none
  | .error _ => none

theorem isSuccess_refuse (item : ScreenshotItem) : (refuse item.pending).isSuccess = false := by
  cases item <;> rfl

/-- An item is a success where it is an asset that may be shown. -/
theorem isSuccess_shown (item : ScreenshotItem) :
    (shown item.pending).isSuccess = true ↔
      ∃ value, item = .success value ∧ screenshotItemAllowed (screenshotImage value) = true := by
  cases item with
  | error e => exact ⟨nofun, fun ⟨_, h, _⟩ => nomatch h⟩
  | success value =>
      by_cases hallowed : screenshotItemAllowed (screenshotImage value) = true
      · refine ⟨fun _ => ⟨value, rfl, hallowed⟩, fun _ => ?_⟩
        rw [ScreenshotItem.pending, shown, if_pos hallowed]
        rfl
      · refine ⟨fun h => ?_, fun ⟨other, hother, hok⟩ => ?_⟩
        · rw [ScreenshotItem.pending, shown, if_neg hallowed] at h
          exact absurd h Bool.false_ne_true
        · obtain rfl := ScreenshotItem.success.inj hother
          exact absurd hok hallowed

theorem shown_of_isSuccess {item : ScreenshotItem} (h : (shown item.pending).isSuccess = true) :
    ∃ value, item = .success value ∧ shown item.pending = itemSuccess (publicAsset value) := by
  obtain ⟨value, rfl, hallowed⟩ := (isSuccess_shown item).1 h
  refine ⟨value, rfl, ?_⟩
  rw [ScreenshotItem.pending, shown, if_pos hallowed]
  cases value <;> rfl

theorem shown_eq_refuse {item : ScreenshotItem} (h : (shown item.pending).isSuccess = false) :
    shown item.pending = refuse item.pending := by
  cases item with
  | error e => rfl
  | success value =>
      refine if_neg fun hallowed => ?_
      rw [(isSuccess_shown _).2 ⟨value, rfl, hallowed⟩] at h
      cases h

/-- The items of a result that is cut. -/
def cutItems (assets : List ScreenshotItem) (n : ℕ) : List Value :=
  (assets.take n).map (fun item => shown item.pending) ++
    (assets.drop n).map fun item => refuse item.pending

theorem cutItems_zero (assets : List ScreenshotItem) :
    cutItems assets 0 = assets.map fun item => refuse item.pending := rfl

theorem cutItems_cons (item : ScreenshotItem) (assets : List ScreenshotItem) (n : ℕ) :
    cutItems (item :: assets) (n + 1) = shown item.pending :: cutItems assets n := rfl

theorem length_cutItems (assets : List ScreenshotItem) (n : ℕ) :
    (cutItems assets n).length = assets.length := by
  rw [cutItems, List.length_append, List.length_map, List.length_map, ← List.length_append,
    List.take_append_drop]

theorem getElem?_cutItems (assets : List ScreenshotItem) (n i : ℕ) :
    (cutItems assets n)[i]? =
      assets[i]?.map fun item => if i < n then shown item.pending else refuse item.pending := by
  induction assets generalizing n i with
  | nil => rw [cutItems, List.take_nil, List.drop_nil]; rfl
  | cons item assets ih =>
      cases n with
      | zero =>
          rw [cutItems_zero, List.getElem?_map]
          rfl
      | succ n =>
          cases i with
          | zero => exact congrArg some (if_pos (Nat.succ_pos n)).symm
          | succ i =>
              rw [cutItems_cons, List.getElem?_cons_succ, List.getElem?_cons_succ, ih]
              simp only [Nat.add_lt_add_iff_right]

theorem shownBlock_refuse (item : ScreenshotItem) :
    shownBlock (item, refuse item.pending) = none := by
  cases item <;> rfl

theorem shownBlock_success (value : ScreenshotAsset) (v : Value) :
    shownBlock (.success value, v) =
      if v.isSuccess then
        some (.image (screenshotImage value).imageBase64 (screenshotImage value).mimeType)
      else none := rfl

theorem shownBlock_shown (item : ScreenshotItem) :
    shownBlock (item, shown item.pending) =
      (shownImage item.pending).map fun i => .image i.1 i.2 := by
  cases item with
  | error e => rfl
  | success value =>
      have hiff := isSuccess_shown (.success value)
      by_cases hallowed : screenshotItemAllowed (screenshotImage value) = true
      · rw [shownBlock_success, if_pos (hiff.2 ⟨value, rfl, hallowed⟩), ScreenshotItem.pending,
          shownImage, if_pos hallowed, Option.map_some]
      · rw [shownBlock_success, ScreenshotItem.pending, shownImage, if_neg hallowed,
          Option.map_none]
        refine if_neg fun h => ?_
        obtain ⟨other, hother, hok⟩ := hiff.1 h
        exact hallowed (ScreenshotItem.success.inj hother ▸ hok)

/-- The images that are shown are those of the items that are successes. -/
theorem filterMap_zip_cutItems (assets : List ScreenshotItem) (n : ℕ) :
    (assets.zip (cutItems assets n)).filterMap shownBlock =
      ((assets.take n).filterMap fun item => shownImage item.pending).map
        fun i => .image i.1 i.2 := by
  induction assets generalizing n with
  | nil => rw [List.take_nil]; rfl
  | cons item assets ih =>
      cases n with
      | zero =>
          rw [cutItems_zero, List.map_cons, ← cutItems_zero, List.zip_cons_cons,
            List.filterMap_cons_none (shownBlock_refuse item), ih, List.take_zero, List.take_zero]
      | succ n =>
          rw [cutItems_cons, List.zip_cons_cons, List.take_succ_cons, List.filterMap_cons,
            List.filterMap_cons, shownBlock_shown, ih]
          cases shownImage item.pending <;> rfl

/-- What the final account says of an accepted result. -/
theorem accountScreenshot_ok {r : CallToolResult} {accounted : AccountedCallToolResult}
    (h : accountScreenshotCallToolResult toVec context r = .ok accounted) :
    accounted.result = r ∧ accounted.textBytes = nonImageTextBytes r - duplicatedSvgSourceBytes r ∧
      accounted.textBytes ≤ maxTextBytes ∧
      serializeMcpEnvelope toVec r context = .ok accounted.envelopeBytes ∧
      accounted.envelopeBytes ≤ maxEnvelopeBytes := by
  rw [accountScreenshotCallToolResult] at h
  by_cases htext : maxTextBytes < nonImageTextBytes r - duplicatedSvgSourceBytes r
  · rw [if_pos htext] at h
    cases h
  · rw [if_neg htext] at h
    cases hframe : serializeMcpEnvelope toVec r context with
    | error e =>
        rw [hframe] at h
        cases h
    | ok n =>
        rw [hframe, Guard.ok_bind] at h
        by_cases hn : maxEnvelopeBytes < n
        · rw [if_pos hn] at h
          cases h
        · rw [if_neg hn] at h
          obtain rfl := Except.ok.inj h
          exact ⟨rfl, rfl, Nat.not_lt.1 htext, rfl, Nat.not_lt.1 hn⟩

/-- What fits is accepted. -/
theorem isOk_accountScreenshot {r : CallToolResult} {n : ℕ}
    (htext : nonImageTextBytes r ≤ maxTextBytes)
    (hframe : serializeMcpEnvelope toVec r context = .ok n) (hn : n ≤ maxEnvelopeBytes) :
    (accountScreenshotCallToolResult toVec context r).isOk = true := by
  have hcounted : ¬ maxTextBytes < nonImageTextBytes r - duplicatedSvgSourceBytes r :=
    Nat.not_lt.2 ((Nat.sub_le _ _).trans htext)
  rw [accountScreenshotCallToolResult, if_neg hcounted, hframe, Guard.ok_bind, if_neg (Nat.not_lt.2 hn)]
  rfl

/-- The items are the assets of the result. -/
theorem get_assets_wrap (result : GetScreenshotResult) (items : List Value) :
    (result.wrap items).get "assets" = some (.array items) := rfl

theorem cutResult_pending (result : GetScreenshotResult) (n : ℕ) :
    cutResult result.wrap result.pending n =
      mixedResult result.wrap (cutItems result.assets n)
        ((result.assets.take n).filterMap fun item => shownImage item.pending) := by
  rw [cutResult, GetScreenshotResult.pending, cutItems, ← List.map_take, ← List.map_drop,
    List.map_map, List.map_map, List.filterMap_map]
  rfl

/-- **What an accepted result has of which asset**: one item for each, in their order, which shows
the asset or is an error; behind the text one image block for each item that shows its asset, in
their order; and no image after one that was refused though it may be shown. -/
theorem screenshot_correspondence {toVec : JsonRpcResponse → Option ℕ} {context : EnvelopeContext}
    {result : GetScreenshotResult} {accounted : AccountedCallToolResult}
    (h : accountScreenshotResult toVec context result = .ok accounted) :
    ∃ value items,
      accounted.result.structuredContent = some value ∧
      value.get "assets" = some (.array items) ∧
      items.length = result.assets.length ∧
      (∀ (i : ℕ) (asset : ScreenshotItem) (item : Value),
        result.assets[i]? = some asset → items[i]? = some item →
          (item.isSuccess = true ∧
            ∃ shown, asset = .success shown ∧ item = itemSuccess (publicAsset shown)) ∨
          (item.isSuccess = false ∧ item = refuse asset.pending)) ∧
      accounted.result.content =
        .text value.text :: (result.assets.zip items).filterMap shownBlock ∧
      (∀ (i j : ℕ) (shown : ScreenshotAsset) (item later : Value),
        result.assets[i]? = some (.success shown) →
        screenshotItemAllowed (screenshotImage shown) = true →
        items[i]? = some item → item.isSuccess = false →
        i < j → items[j]? = some later → later.isSuccess = false) ∧
      accounted.textBytes =
        nonImageTextBytes accounted.result - duplicatedSvgSourceBytes accounted.result ∧
      accounted.textBytes ≤ maxTextBytes ∧
      serializeMcpEnvelope toVec accounted.result context = .ok accounted.envelopeBytes ∧
      accounted.envelopeBytes ≤ maxEnvelopeBytes := by
  obtain ⟨n, _, haccount⟩ := accountMixedImages_eq toVec context result.wrap
    result.pending
  obtain ⟨hresult, htext, hfits, hframe, henvelope⟩ := accountScreenshot_ok (haccount.symm.trans h)
  rw [cutResult_pending] at hresult htext hframe
  refine ⟨result.wrap (cutItems result.assets n), cutItems result.assets n, ?_,
    get_assets_wrap _ _, length_cutItems _ _, ?_, ?_, ?_, ?_, hfits, ?_, henvelope⟩
  · rw [hresult]
    rfl
  · intro i asset item hasset hitem
    rw [getElem?_cutItems, hasset, Option.map_some] at hitem
    obtain rfl := Option.some.inj hitem
    by_cases hin : i < n
    · rw [if_pos hin]
      cases hshown : (shown asset.pending).isSuccess with
      | true => exact Or.inl ⟨rfl, shown_of_isSuccess hshown⟩
      | false => exact Or.inr ⟨rfl, shown_eq_refuse hshown⟩
    · rw [if_neg hin]
      exact Or.inr ⟨isSuccess_refuse asset, rfl⟩
  · rw [hresult, filterMap_zip_cutItems]
    rfl
  · intro i j shown item later hasset hallowed hitem hrefused hij hlater
    rw [getElem?_cutItems, hasset, Option.map_some] at hitem
    obtain rfl := Option.some.inj hitem
    have hni : ¬ i < n := by
      intro hin
      rw [if_pos hin, (isSuccess_shown _).2 ⟨shown, rfl, hallowed⟩] at hrefused
      cases hrefused
    rw [getElem?_cutItems] at hlater
    cases hother : result.assets[j]? with
    | none =>
        rw [hother] at hlater
        cases hlater
    | some other =>
        rw [hother, Option.map_some, if_neg (by omega)] at hlater
        exact Option.some.inj hlater ▸ isSuccess_refuse other
  · rw [hresult, htext]
  · rw [hresult, hframe]

/-- A result with these images. -/
def screenshots (assets : List ScreenshotItem) : GetScreenshotResult where
  assets := assets
  truncated := false
  truncation := none
  startedAt := text "2026-08-20T00:00:00.000Z"
  completedAt := text "2026-08-20T00:00:01.000Z"

/-- An SVG is shown as an image too. -/
def vector : GetScreenshotResult :=
  screenshots [.success (.svg (text "1:2") (text "<svg/>") true none)]

/-- The image is a raster. -/
def ScreenshotAsset.isRaster : ScreenshotAsset → Bool
  | png .. | jpeg .. => true
  | svg .. => false

/-- The block is an image. -/
def ContentBlock.isImage : ContentBlock → Bool
  | image .. => true
  | _ => false

/-- The block of an SVG belongs to no raster image. -/
theorem image_of_no_raster : ∃ accounted,
    accountScreenshotResult mcpFrame quotedContext vector = .ok accounted ∧
      (accounted.result.content.filter ContentBlock.isImage).length = 1 ∧
      ∀ asset, ScreenshotItem.success asset ∈ vector.assets → asset.isRaster = false := by
  have hcount : (accountScreenshotResult mcpFrame quotedContext vector).toOption.map
      (fun a => (a.result.content.filter ContentBlock.isImage).length) = some 1 := by
    decide +kernel
  cases haccount : accountScreenshotResult mcpFrame quotedContext vector with
  | error e =>
      rw [haccount] at hcount
      cases hcount
  | ok accounted =>
      rw [haccount] at hcount
      refine ⟨accounted, rfl, Option.some.inj hcount, fun asset hasset => ?_⟩
      obtain rfl := ScreenshotItem.success.inj (List.mem_singleton.1 hasset)
      rfl

/-! ## When degrading saves the result -/

/-- The item at that place is an image that may be shown. -/
def Showable (items : List ScreenshotPending) (k : ℕ) : Prop :=
  ∃ item, items[k]? = some (.image item) ∧ screenshotItemAllowed item = true

/-- The last image that is shown: every image up to it fits with all before it, and from one after
it on none does. -/
structure LastShown (toVec : JsonRpcResponse → Option ℕ) (context : EnvelopeContext)
    (wrap : List Value → Value) (items : List ScreenshotPending) (l : ℕ) : Prop where
  showable : Showable items l
  fits : ∀ k ≤ l, ¬ Stops toVec context wrap items k
  last : ∀ k, l < k → Showable items k → ∃ j ≤ k, Stops toVec context wrap items j

/-- Items that are not shown either way may be on either side of the cut. -/
theorem cutResult_eq {items : List ScreenshotPending} {m n : ℕ} (hmn : m ≤ n)
    (hn : n ≤ items.length) (h : ∀ k, m ≤ k → k < n → ¬ Showable items k) :
    cutResult wrap items n = cutResult wrap items m := by
  induction n, hmn using Nat.le_induction with
  | base => rfl
  | succ n hmn ih =>
      have hlt : n < items.length := hn
      have hget : items[n]? = some items[n] := List.getElem?_eq_getElem hlt
      have hsame : shown items[n] = refuse items[n] ∧ shownImage items[n] = none := by
        cases hitem : items[n] with
        | error e => exact ⟨rfl, rfl⟩
        | image item =>
            have hnot : ¬ screenshotItemAllowed item = true := fun hok =>
              h n hmn (Nat.lt_succ_self n) ⟨item, hget.trans (congrArg some hitem), hok⟩
            simp only [shown, shownImage, refuse, if_neg hnot, and_self]
      rw [← ih (Nat.le_of_lt hlt) fun k hk hkn => h k hk (Nat.lt_succ_of_lt hkn)]
      rw [cutResult, cutResult, List.take_succ_eq_append_getElem hlt, List.drop_eq_getElem_cons hlt,
        List.map_append, List.map_cons, List.map_nil, List.map_cons, hsame.1, List.filterMap_append,
        List.filterMap_cons_none hsame.2, List.filterMap_nil, List.append_nil, List.append_assoc]
      rfl

theorem exists_last (P : ℕ → Prop) (n : ℕ) :
    (∀ k < n, ¬ P k) ∨ ∃ l < n, P l ∧ ∀ k, l < k → k < n → ¬ P k := by
  induction n with
  | zero => exact Or.inl nofun
  | succ n ih =>
      by_cases hn : P n
      · exact Or.inr ⟨n, Nat.lt_succ_self n, hn, fun k hk hkn => by omega⟩
      · rcases ih with hnone | ⟨l, hl, hPl, hlast⟩
        · refine Or.inl fun k hk => ?_
          rcases Nat.lt_succ_iff_lt_or_eq.1 hk with hk | rfl
          · exact hnone k hk
          · exact hn
        · refine Or.inr ⟨l, Nat.lt_succ_of_lt hl, hPl, fun k hlk hk => ?_⟩
          rcases Nat.lt_succ_iff_lt_or_eq.1 hk with hk | rfl
          · exact hlast k hlk hk
          · exact hn

/-- The images that are shown are before the cut. -/
theorem LastShown.cutResult_eq {items : List ScreenshotPending} {l n : ℕ}
    (h : LastShown toVec context wrap items l) (hcut : IsCut toVec context wrap items n) :
    cutResult wrap items n = cutResult wrap items (l + 1) := by
  obtain ⟨item, hitem, _⟩ := h.showable
  have hlength : l < items.length := (List.getElem?_eq_some_iff.1 hitem).1
  have hln : l < n := by
    by_contra hnl
    exact h.fits n (Nat.le_of_not_lt hnl) (hcut.stops (by omega))
  refine Content.cutResult_eq hln hcut.le_length fun k hk hkn hshow => ?_
  obtain ⟨j, hj, hstops⟩ := h.last k hk hshow
  exact hcut.first j (by omega) hstops

/-- Where no image is shown, all are refused; otherwise the last one is. -/
theorem IsCut.cutResult_cases {items : List ScreenshotPending} {n : ℕ}
    (hcut : IsCut toVec context wrap items n) :
    cutResult wrap items n = cutResult wrap items 0 ∨
      ∃ l, LastShown toVec context wrap items l := by
  rcases exists_last (Showable items) n with hnone | ⟨l, hl, hshow, hlast⟩
  · exact Or.inl (cutResult_eq (Nat.zero_le _) hcut.le_length fun k _ => hnone k)
  · refine Or.inr ⟨l, hshow, fun k hk => hcut.first k (by omega), fun k hlk hk => ?_⟩
    have hnk : n ≤ k := Nat.le_of_not_lt fun hkn => hlast k hlk hkn hk
    obtain ⟨item, hitem, _⟩ := hk
    exact ⟨n, hnk, hcut.stops (by
      have := (List.getElem?_eq_some_iff.1 hitem).1
      omega)⟩

/-- **When degrading the images saves the result**: where the items after the last image that is
shown, as errors, fit beside it. -/
theorem degradation_total_iff (toVec : JsonRpcResponse → Option ℕ) (context : EnvelopeContext)
    (result : GetScreenshotResult) :
    ((accountScreenshotCallToolResult toVec context (degraded result)).isOk = true →
        (accountScreenshotResult toVec context result).isOk = true) ↔
      ((accountScreenshotCallToolResult toVec context (degraded result)).isOk = true →
        ∀ l, LastShown toVec context result.wrap result.pending l →
          (accountScreenshotCallToolResult toVec context
            (cutResult result.wrap result.pending (l + 1))).isOk = true) := by
  obtain ⟨n, hcut, haccount⟩ := accountMixedImages_eq toVec context result.wrap
    result.pending
  have heq : accountScreenshotResult toVec context result =
      accountScreenshotCallToolResult toVec context (cutResult result.wrap result.pending n) :=
    haccount
  rw [heq]
  refine imp_congr_right fun hdegraded => ⟨fun hok l hl => ?_, fun hlast => ?_⟩
  · rwa [← hl.cutResult_eq hcut]
  · rcases hcut.cutResult_cases with hnone | ⟨l, hl⟩
    · rwa [hnone]
    · rw [hl.cutResult_eq hcut]
      exact hlast l hl

/-! ## A batch that one more error makes too large -/

/-- The bytes of the response with images behind its text. -/
theorem bytes_toValue_images (id : RequestId) (resultType : Bool) (value : Value)
    (images : List (JsString × JsString)) :
    (JsonRpcResponse.toValue
        { id, resultType, result :=
          { structured value with
            content := (structured value).content ++
              images.map fun i => ContentBlock.image i.1 i.2 } }).bytes =
      (JsonRpcResponse.toValue { id, resultType, result := structured value }).bytes +
        (images.map fun i => (ContentBlock.image i.1 i.2).toValue.bytes + 1).sum := by
  have hsum : (images.map fun i => (ContentBlock.image i.1 i.2).toValue.bytes + 1).sum =
      (images.map fun i => (ContentBlock.image i.1 i.2).toValue.bytes).sum + images.length := by
    rw [List.sum_map_add, List.map_const', List.sum_replicate, Nat.nsmul_eq_mul, mul_one]
  have hcontent : (Value.array (((structured value).content ++
        images.map fun i => ContentBlock.image i.1 i.2).map ContentBlock.toValue)).bytes =
      (Value.array ((structured value).content.map ContentBlock.toValue)).bytes +
        (images.map fun i => (ContentBlock.image i.1 i.2).toValue.bytes + 1).sum := by
    simp only [structured, Value.bytes_array, List.map_append, List.map_cons, List.map_nil,
      List.map_map, Function.comp_def, List.sum_append, List.sum_cons, List.sum_nil,
      List.length_append, List.length_cons, List.length_nil, List.length_map, hsum]
    omega
  simp only [JsonRpcResponse.toValue, CallToolResult.members, Value.bytes_object, entry,
    Value.memberBytes, List.cons_append, List.map_cons, List.map_nil, List.sum_cons, List.sum_nil,
    List.length_cons, hcontent]
  omega

theorem utf8ByteLength_replicate (n : ℕ) : utf8ByteLength (List.replicate n 0x41) = n := by
  induction n with
  | zero => rfl
  | succ n ih => rw [List.replicate_succ, utf8ByteLength_cons (by decide), ih, Nat.add_comm]

theorem decodedLen_replicate (n : ℕ) :
    decodedLen (List.replicate n 0x41) = min (n * 3 / 4) u32Max := by
  have hpadding : (List.replicate n 0x41).reverse.takeWhile (· == 0x3d) = [] := by
    rw [List.reverse_replicate]
    cases n <;> rfl
  rw [decodedLen, hpadding, utf8ByteLength_replicate]
  rfl

/-- A PNG of black pixels, with data of that length. -/
def plainPng (n : ℕ) : ScreenshotAsset := .png (text "1:2") (List.replicate n 0x41) 64 64

/-- What is told of an image of so many bytes. -/
def plainPngValue (n : ℕ) : Value :=
  .object [entry "base64Bytes" (.natural (min n u32Max)),
    entry "decodedBytes" (.natural (min (n * 3 / 4) u32Max)), entry "format" (.ofString "png"),
    entry "height" (.natural 64), entry "nodeId" (.string (text "1:2")),
    entry "width" (.natural 64)]

theorem publicAsset_plainPng (n : ℕ) : publicAsset (plainPng n) = plainPngValue n := by
  rw [plainPng, publicAsset, rasterToValue, decodedLen_replicate, utf8ByteLength_replicate]
  rfl

theorem bytes_image_plainPng (n : ℕ) :
    (ContentBlock.image (List.replicate n 0x41) (text "image/png")).toValue.bytes = n + 49 := by
  have hdata : (Value.string (List.replicate n 0x41)).bytes = n + 2 := by
    have hplain : ∀ u ∈ List.replicate n 0x41, 0x30 ≤ u ∧ u < 0x5b := by
      intro u hu
      rw [List.eq_of_mem_replicate hu]
      decide
    rw [Value.bytes, Value.text, JsValue.quote, quoteBody_plain hplain, List.cons_append,
      utf8ByteLength_cons (by decide), utf8ByteLength_append_cons (by decide),
      utf8ByteLength_replicate, show utf8ByteLength [0x22] = 1 from rfl]
    omega
  have hempty : (Value.object [entry "type" (.ofString "image"),
      entry "data" (.string []), entry "mimeType" (.string (text "image/png"))]).bytes = 49 := by
    decide +kernel
  have hnone : (Value.string []).bytes = 2 := rfl
  rw [Value.bytes_object] at hempty
  rw [ContentBlock.toValue, Value.bytes_object]
  simp only [entry, Value.memberBytes, List.map_cons, List.sum_cons, List.length_cons, hdata,
    hnone] at hempty ⊢
  omega

/-- The error of a node that is not there. -/
def missingItem : Value :=
  .object [entry "error" (toolErrorToValue (.new .nodeNotFound false)),
    entry "status" (.ofString "error")]

/-- The bytes of a response with some images in front, and images of these lengths. -/
def framed (front : List (JsString × JsString)) (items : List Value) (lengths : List ℕ) : ℕ :=
  (JsonRpcResponse.toValue
    { id := quotedContext.requestId, resultType := quotedContext.includesResultType
      result := structured ((screenshots []).wrap items) }).bytes +
    ((front.map fun i => (ContentBlock.image i.1 i.2).toValue.bytes + 1).sum +
      (lengths.map (· + 50)).sum)

/-- What is answered with some images in front, and images of these lengths. -/
def plainResult (front : List (JsString × JsString)) (items : List Value) (lengths : List ℕ) :
    CallToolResult :=
  mixedResult (screenshots []).wrap items
    (front ++ lengths.map fun n => (List.replicate n 0x41, text "image/png"))

/-- Images of plain pixels in an accepted result, or in one that is too long. -/
theorem serialize_plainPng (front : List (JsString × JsString)) (items : List Value)
    (lengths : List ℕ) :
    serializeMcpEnvelope mcpFrame (plainResult front items lengths) quotedContext =
      .ok (framed front items lengths) := by
  have hbytes := bytes_toValue_images quotedContext.requestId quotedContext.includesResultType
    ((screenshots []).wrap items)
    (front ++ lengths.map fun n => (List.replicate n 0x41, text "image/png"))
  have himages : ((lengths.map fun n => (List.replicate n 0x41, text "image/png")).map fun i =>
      (ContentBlock.image i.1 i.2).toValue.bytes + 1) = lengths.map (· + 50) := by
    rw [List.map_map]
    refine List.map_congr_left fun n _ => ?_
    exact congrArg (· + 1) (bytes_image_plainPng n)
  have hsum : ((front ++ lengths.map fun n => (List.replicate n 0x41, text "image/png")).map
      fun i : JsString × JsString => (ContentBlock.image i.1 i.2).toValue.bytes + 1).sum =
      (front.map fun i => (ContentBlock.image i.1 i.2).toValue.bytes + 1).sum +
        (lengths.map (· + 50)).sum := by
    rw [List.map_append, List.sum_append, himages]
  rw [hsum] at hbytes
  exact congrArg Except.ok hbytes

theorem pending_plainPng {n : ℕ} (hn : n ≤ maxRasterBase64Bytes) :
    shown (ScreenshotItem.success (plainPng n)).pending = itemSuccess (plainPngValue n) ∧
      shownImage (ScreenshotItem.success (plainPng n)).pending =
        some (List.replicate n 0x41, text "image/png") := by
  have hallowed : screenshotItemAllowed (screenshotImage (plainPng n)) = true := by
    rw [screenshotItemAllowed]
    show (if text "image/png" = text "image/svg+xml" then _ else
      decide (utf8ByteLength (List.replicate n 0x41) ≤ maxRasterBase64Bytes)) = true
    rw [if_neg (by decide), utf8ByteLength_replicate, decide_eq_true hn]
  rw [ScreenshotItem.pending, shown, shownImage, if_pos hallowed, if_pos hallowed,
    ← publicAsset_plainPng]
  exact ⟨rfl, rfl⟩

theorem nonImageTextBytes_mixedResult (items : List Value) (images : List (JsString × JsString)) :
    nonImageTextBytes (mixedResult wrap items images) = 2 * (wrap items).bytes := by
  have himages : ((images.map fun i => ContentBlock.image i.1 i.2).map ContentBlock.textBytes).sum =
      0 := by
    induction images with
    | nil => rfl
    | cons i images ih => rw [List.map_cons, List.map_cons, List.sum_cons, ih]; rfl
  have hblocks : ((structured (wrap items)).content.map ContentBlock.textBytes).sum =
      (wrap items).bytes := Nat.add_zero _
  show (wrap items).bytes + (((structured (wrap items)).content ++ _).map ContentBlock.textBytes).sum
    = _
  rw [List.map_append, List.sum_append, hblocks, himages]
  omega

section Plain

variable {front : List (JsString × JsString)} {items : List Value} {lengths : List ℕ}

theorem isOk_plainResult (htext : 2 * ((screenshots []).wrap items).bytes ≤ maxTextBytes)
    (hframe : framed front items lengths ≤ maxEnvelopeBytes) :
    (accountScreenshotCallToolResult mcpFrame quotedContext
      (plainResult front items lengths)).isOk = true := by
  refine isOk_accountScreenshot ?_ (serialize_plainPng front items lengths) hframe
  rwa [plainResult, nonImageTextBytes_mixedResult]

theorem isOk_plainResult_false (hframe : maxEnvelopeBytes < framed front items lengths) :
    (accountScreenshotCallToolResult mcpFrame quotedContext
      (plainResult front items lengths)).isOk = false := by
  cases haccount : accountScreenshotCallToolResult mcpFrame quotedContext
      (plainResult front items lengths) with
  | error e => rfl
  | ok accounted =>
      have ⟨_, _, _, hserialize, hfits⟩ := accountScreenshot_ok haccount
      have hn := Except.ok.inj (hserialize.symm.trans (serialize_plainPng front items lengths))
      omega

end Plain

/-! ## A batch of every kind -/

/-- A small document. -/
def tinySvg : ScreenshotAsset := .svg (text "1:2") (text "<svg/>") true none

/-- An SVG, an image, a node that was not found, an image for which no room is left, and one that
would fit by itself. -/
def mixedBatch : GetScreenshotResult :=
  screenshots [.success tinySvg, .success (plainPng 16777216), .error (.new .nodeNotFound false),
    .success (plainPng 16777216), .success (plainPng 4)]

/-- Its data, with its type. -/
def svgImage : JsString × JsString :=
  ((screenshotImage tinySvg).imageBase64, (screenshotImage tinySvg).mimeType)

/-- What is told of the images. -/
def shownItems : List Value :=
  [itemSuccess (publicAsset tinySvg), itemSuccess (plainPngValue 16777216), missingItem]

theorem cutResult_take (items : List ScreenshotPending) (n : ℕ) :
    cutResult wrap (items.take n) n =
      mixedResult wrap ((items.take n).map shown) ((items.take n).filterMap shownImage) := by
  rw [cutResult, List.take_take, Nat.min_self, List.drop_eq_nil_of_le (List.length_take_le _ _),
    List.map_nil, List.append_nil]

theorem shown_tinySvg : shown (ScreenshotItem.success tinySvg).pending =
      itemSuccess (publicAsset tinySvg) ∧
    shownImage (ScreenshotItem.success tinySvg).pending = some svgImage := by
  have hallowed : screenshotItemAllowed (screenshotImage tinySvg) = true := by
    decide +kernel
  rw [ScreenshotItem.pending, shown, shownImage, if_pos hallowed, if_pos hallowed]
  exact ⟨rfl, rfl⟩

theorem pending_mixedBatch : mixedBatch.pending =
    [(ScreenshotItem.success tinySvg).pending, (ScreenshotItem.success (plainPng 16777216)).pending,
      .error missingItem, (ScreenshotItem.success (plainPng 16777216)).pending,
      (ScreenshotItem.success (plainPng 4)).pending] := rfl

/-- The second image of that length is where the batch is cut. -/
theorem isCut_mixedBatch :
    IsCut mcpFrame quotedContext (screenshots []).wrap mixedBatch.pending 3 := by
  have ⟨hsvg, hsvgImage⟩ := shown_tinySvg
  have ⟨hpng, hpngImage⟩ := pending_plainPng (show 16777216 ≤ maxRasterBase64Bytes by decide)
  have hfirst : cutResult (screenshots []).wrap (mixedBatch.pending.take 1) 1 =
      plainResult [svgImage] (shownItems.take 1) [] := by
    rw [cutResult_take, pending_mixedBatch]
    simp only [List.take_succ_cons, List.take_zero, List.map_cons, List.map_nil, hsvg,
      List.filterMap_cons_some hsvgImage, List.filterMap_nil]
    rfl
  have hsecond : cutResult (screenshots []).wrap (mixedBatch.pending.take 2) 2 =
      plainResult [svgImage] (shownItems.take 2) [16777216] := by
    rw [cutResult_take, pending_mixedBatch]
    simp only [List.take_succ_cons, List.take_zero, List.map_cons, List.map_nil, hsvg, hpng,
      List.filterMap_cons_some hsvgImage, List.filterMap_cons_some hpngImage, List.filterMap_nil]
    rfl
  have hfourth : cutResult (screenshots []).wrap (mixedBatch.pending.take 4) 4 =
      plainResult [svgImage] (shownItems ++ [itemSuccess (plainPngValue 16777216)])
        [16777216, 16777216] := by
    have herror : shownImage (.error missingItem) = none := rfl
    rw [cutResult_take, pending_mixedBatch]
    simp only [List.take_succ_cons, List.take_zero, List.map_cons, List.map_nil, hsvg, hpng,
      List.filterMap_cons_some hsvgImage, List.filterMap_cons_some hpngImage,
      List.filterMap_cons_none herror, List.filterMap_nil]
    rfl
  refine ⟨by decide, ?_, fun _ => ?_⟩
  · rintro k hk ⟨item, hitem, -, hfails⟩
    rcases (by omega : k = 0 ∨ k = 1 ∨ k = 2) with rfl | rfl | rfl
    · rw [hfirst, isOk_plainResult (by decide +kernel) (by decide +kernel)] at hfails
      cases hfails
    · rw [hsecond, isOk_plainResult (by decide +kernel) (by decide +kernel)] at hfails
      cases hfails
    · rw [pending_mixedBatch] at hitem
      exact ScreenshotPending.noConfusion (Option.some.inj hitem)
  · refine ⟨screenshotImage (plainPng 16777216), rfl, ?_, ?_⟩
    · by_contra hnot
      rw [ScreenshotItem.pending, shownImage, if_neg hnot] at hpngImage
      cases hpngImage
    · rw [hfourth]
      exact isOk_plainResult_false (by decide +kernel)

/-- The SVG and the first image are shown, and no image behind them. -/
theorem screenshot_correspondence_mixedBatch : ∃ accounted, ∃ (value : Value) (items : List Value),
    accountScreenshotResult mcpFrame quotedContext mixedBatch = .ok accounted ∧
      value.get "assets" = some (.array items) ∧ items.length = 5 ∧
      accounted.result.content =
        .text value.text :: (mixedBatch.assets.zip items).filterMap shownBlock ∧
      accounted.result.content.length = 3 := by
  have ⟨hsvg, hsvgImage⟩ := shown_tinySvg
  have ⟨hpng, hpngImage⟩ := pending_plainPng (show 16777216 ≤ maxRasterBase64Bytes by decide)
  have hcut : cutResult (screenshots []).wrap mixedBatch.pending 3 =
      plainResult [svgImage] (shownItems ++ [itemError (some (text "1:2")),
        itemError (some (text "1:2"))]) [16777216] := by
    have herror : shownImage (.error missingItem) = none := rfl
    rw [cutResult, pending_mixedBatch]
    simp only [List.take_succ_cons, List.take_zero, List.drop_succ_cons, List.drop_zero,
      List.map_cons, List.map_nil, hsvg, hpng, List.filterMap_cons_some hsvgImage,
      List.filterMap_cons_some hpngImage, List.filterMap_cons_none herror, List.filterMap_nil]
    rfl
  obtain ⟨n, hn, haccount⟩ := accountMixedImages_eq mcpFrame quotedContext (screenshots []).wrap
    mixedBatch.pending
  obtain rfl := isCut_mixedBatch.unique hn
  have hok : (accountScreenshotResult mcpFrame quotedContext mixedBatch).isOk = true := by
    refine (congrArg Except.isOk haccount).trans ?_
    rw [hcut]
    exact isOk_plainResult (by decide +kernel) (by decide +kernel)
  cases hresult : accountScreenshotResult mcpFrame quotedContext mixedBatch with
  | error e =>
      rw [hresult] at hok
      cases hok
  | ok accounted =>
      obtain ⟨value, items, _, hassets, hlength, _, hcontent, _⟩ :=
        screenshot_correspondence hresult
      refine ⟨accounted, value, items, rfl, hassets, hlength, hcontent, ?_⟩
      rw [(accountScreenshot_ok (haccount.symm.trans hresult)).1, hcut]
      rfl

/-- Two images and a node that was not found. -/
def crowded (m n : ℕ) : GetScreenshotResult :=
  screenshots [.success (plainPng m), .success (plainPng n), .error (.new .nodeNotFound false)]

theorem pending_crowded (m n : ℕ) : (crowded m n).pending =
    [(ScreenshotItem.success (plainPng m)).pending, (ScreenshotItem.success (plainPng n)).pending,
      .error missingItem] := rfl

/-- The images fit one after the other, and the error behind them does not. -/
theorem crowded_refused {m n : ℕ} (hm : m ≤ maxRasterBase64Bytes) (hn : n ≤ maxRasterBase64Bytes)
    (hone : (accountScreenshotCallToolResult mcpFrame quotedContext
      (plainResult [] [itemSuccess (plainPngValue m)] [m])).isOk = true)
    (htwo : (accountScreenshotCallToolResult mcpFrame quotedContext (plainResult []
      [itemSuccess (plainPngValue m), itemSuccess (plainPngValue n)] [m, n])).isOk = true)
    (hall : (accountScreenshotCallToolResult mcpFrame quotedContext (plainResult []
      [itemSuccess (plainPngValue m), itemSuccess (plainPngValue n), missingItem] [m, n])).isOk =
        false) :
    (accountScreenshotResult mcpFrame quotedContext (crowded m n)).isOk = false := by
  have ⟨hshownM, himageM⟩ := pending_plainPng hm
  have ⟨hshownN, himageN⟩ := pending_plainPng hn
  have hwrap : (crowded m n).wrap = (screenshots []).wrap := rfl
  have hfirst : cutResult (screenshots []).wrap ((crowded m n).pending.take 1) 1 =
      plainResult [] [itemSuccess (plainPngValue m)] [m] := by
    rw [cutResult_take, pending_crowded, List.take_succ_cons, List.take_zero, List.map_singleton,
      hshownM, List.filterMap_cons_some himageM]
    rfl
  have hsecond : cutResult (screenshots []).wrap ((crowded m n).pending.take 2) 2 =
      plainResult [] [itemSuccess (plainPngValue m), itemSuccess (plainPngValue n)] [m, n] := by
    rw [cutResult_take, pending_crowded, List.take_succ_cons, List.take_succ_cons, List.take_zero,
      List.map_cons, List.map_singleton, hshownM, hshownN, List.filterMap_cons_some himageM,
      List.filterMap_cons_some himageN]
    rfl
  have hthird : cutResult (screenshots []).wrap ((crowded m n).pending.take 3) 3 =
      plainResult [] [itemSuccess (plainPngValue m), itemSuccess (plainPngValue n), missingItem]
        [m, n] := by
    rw [cutResult_take, pending_crowded, List.take_succ_cons, List.take_succ_cons,
      List.take_succ_cons, List.take_zero, List.map_cons, List.map_cons, List.map_singleton,
      hshownM, hshownN, List.filterMap_cons_some himageM, List.filterMap_cons_some himageN]
    rfl
  have hlength : (crowded m n).pending.length = 3 := rfl
  have hcut : IsCut mcpFrame quotedContext (screenshots []).wrap (crowded m n).pending 3 := by
    refine ⟨hlength.ge, ?_, fun h => absurd h (hlength ▸ Nat.lt_irrefl 3)⟩
    rintro k hk ⟨item, hitem, _, hfails⟩
    rcases (by omega : k = 0 ∨ k = 1 ∨ k = 2) with rfl | rfl | rfl
    · rw [hfirst, hone] at hfails
      exact Bool.noConfusion hfails
    · rw [hsecond, htwo] at hfails
      exact Bool.noConfusion hfails
    · rw [pending_crowded] at hitem
      exact ScreenshotPending.noConfusion (Option.some.inj hitem)
  obtain ⟨k, hk, haccount⟩ := accountMixedImages_eq mcpFrame quotedContext (screenshots []).wrap
    (crowded m n).pending
  obtain rfl := hcut.unique hk
  have htake : (crowded m n).pending.take 3 = (crowded m n).pending :=
    List.take_of_length_le hlength.le
  rw [htake] at hthird
  rw [hthird] at haccount
  rw [accountScreenshotResult, hwrap]
  exact (congrArg Except.isOk haccount).trans hall

/-- All errors fit, and the result with both images fails. -/
theorem degradation_fails_crowded :
    (accountScreenshotCallToolResult mcpFrame quotedContext
        (degraded (crowded 16777216 8387544))).isOk = true ∧
      (accountScreenshotResult mcpFrame quotedContext (crowded 16777216 8387544)).isOk = false := by
  refine ⟨?_, crowded_refused (by decide) (by decide) ?_ ?_ ?_⟩
  · show (accountScreenshotCallToolResult mcpFrame quotedContext (plainResult []
      [itemError (some (text "1:2")), itemError (some (text "1:2")), missingItem] [])).isOk = true
    exact isOk_plainResult (by decide +kernel) (by decide +kernel)
  · exact isOk_plainResult (by decide +kernel) (by decide +kernel)
  · exact isOk_plainResult (by decide +kernel) (by decide +kernel)
  · exact isOk_plainResult_false (by decide +kernel)

end FigmaDevMcp.Tools.Content
