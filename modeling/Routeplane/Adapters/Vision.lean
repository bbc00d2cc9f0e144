import Routeplane.Types.Text

/-!
# Images in data URLs

An image comes as a link or inline, as `data:<media_type>;base64,<payload>`.

* `parseDataUrl`: the parts of an inline image. `dataUrl`: the URL of the parts.
* `parseDataUrl_dataUrl`: what is put together is taken apart again.
-/

namespace Routeplane

structure DataUrl where
  mediaType : String
  base64Payload : String
  deriving DecidableEq, Repr

/-- None for anything but a base64 data URL with a media type. -/
def parseDataUrl (url : String) : Option DataUrl := do
  let rest ← dropHead? "data:" url
  let (metadata, payload) ← splitOnce ',' rest
  let mediaType ← dropTail? ";base64" metadata
  if mediaType.isEmpty then none else some ⟨mediaType, payload⟩

/-- `data:{media_type};base64,{data}`. -/
def dataUrl (mediaType data : String) : String := "data:" ++ mediaType ++ ";base64," ++ data

def isAnthropicSupportedMediaType (mediaType : String) : Bool :=
  mediaType = "image/jpeg" || mediaType = "image/png" || mediaType = "image/gif" ||
    mediaType = "image/webp"

def isHttpUrl (url : String) : Bool :=
  (dropHead? "http://" url).isSome || (dropHead? "https://" url).isSome

/-- The payload may hold commas, the media type none. -/
theorem parseDataUrl_dataUrl {mediaType : String} (hne : mediaType ≠ "")
    (hcomma : ',' ∉ mediaType.toList) (data : String) :
    parseDataUrl (dataUrl mediaType data) = some ⟨mediaType, data⟩ := by
  have hhead : dropHead? "data:" (dataUrl mediaType data) =
      some (mediaType ++ ";base64," ++ data) := by
    have hassoc : dataUrl mediaType data = "data:" ++ (mediaType ++ ";base64," ++ data) := by
      unfold dataUrl
      simp only [String.append_assoc]
    rw [hassoc, dropHead?_append]
  have hsplit : splitOnce ',' (mediaType ++ ";base64," ++ data) =
      some (mediaType ++ ";base64", data) := by
    refine splitOnce_of_toList ?_ ?_
    · simp only [String.toList_append, List.append_assoc]
      rfl
    · rw [String.toList_append, List.mem_append, not_or]
      exact ⟨hcomma, by decide⟩
  simp [parseDataUrl, hhead, hsplit, hne]

theorem ne_and_no_comma_of_supported {mediaType : String}
    (h : isAnthropicSupportedMediaType mediaType = true) :
    mediaType ≠ "" ∧ ',' ∉ mediaType.toList := by
  simp only [isAnthropicSupportedMediaType, Bool.or_eq_true, decide_eq_true_eq] at h
  obtain ((rfl | rfl) | rfl) | rfl := h <;> decide

theorem exists_of_dropHead? {pre s : String} (h : (dropHead? pre s).isSome) :
    ∃ tail, s.toList = pre.toList ++ tail := by
  unfold dropHead? at h
  split at h
  · next hpre =>
    obtain ⟨tail, htail⟩ := List.isPrefixOf_iff_prefix.1 hpre
    exact ⟨tail, htail.symm⟩
  · cases h

/-- A link is no data URL: the first letters differ. -/
theorem parseDataUrl_link {url : String} (h : isHttpUrl url = true) : parseDataUrl url = none := by
  obtain ⟨tail, htail⟩ : ∃ tail, url.toList = 'h' :: tail := by
    rw [isHttpUrl, Bool.or_eq_true] at h
    obtain h | h := h
    · exact (exists_of_dropHead? h).imp' ("ttp://".toList ++ ·) fun tail htail => htail
    · exact (exists_of_dropHead? h).imp' ("ttps://".toList ++ ·) fun tail htail => htail
  have hdata : dropHead? "data:" url = none := by
    unfold dropHead?
    rw [htail]
    rfl
  simp [parseDataUrl, hdata]

end Routeplane
