import Routeplane.Proof.StreamMasking
import Routeplane.Types.Chat

/-!
# A message masked part by part

The masker rewrites each text part of a message by itself, and an adapter may send the parts as
one text. That text is the mask of the message's own text where no pass replaces a stretch over
a boundary. What is split by a boundary is not masked, and the text that goes out has it whole.

* `masked_join`: texts that are apart are masked one by one.
* `parts_masked`: what the flattened text of a masked message is.
* `split_identifier_shown`: a PAN in two parts.
-/

namespace Routeplane.Guardrails

open Pattern

section

variable (U : UnicodeTables)

/-- The masker as it is given a part. -/
def maskText (s : String) : String := String.ofList (masked U s.toList)

/-- No pass replaces a stretch over a boundary, nor another one because of what is beyond it. -/
def TextsApart : List String → Prop
  | [] | [_] => True
  | s :: t :: rest =>
    PartsApart U s.toList (String.join (t :: rest)).toList ∧ TextsApart (t :: rest)

variable {U}

theorem toList_maskText (s : String) : (maskText U s).toList = masked U s.toList :=
  String.toList_ofList

theorem redact_eq_maskText (s : String) : redact U s.toList = some (maskText U s).toList := by
  rw [redact_eq, toList_maskText]

/-- **Texts that are apart are masked one by one.** By induction on the texts. -/
theorem masked_join {texts : List String} (h : TextsApart U texts) :
    masked U (String.join texts).toList = (String.join (texts.map (maskText U))).toList := by
  induction texts with
  | nil =>
    rw [List.map_nil, String.join_nil]
    exact masked_nil
  | cons s texts ih =>
    have hhead : (String.join ((s :: texts).map (maskText U))).toList =
        masked U s.toList ++ (String.join (texts.map (maskText U))).toList := by
      rw [List.map_cons, String.join_cons, String.toList_append, toList_maskText]
    cases texts with
    | nil =>
      rw [hhead, String.join_cons, String.join_nil, String.append_empty, List.map_nil,
        String.join_nil]
      exact (List.append_nil _).symm
    | cons t rest =>
      obtain ⟨hfirst, hrest⟩ := h
      rw [hhead, ← ih hrest, String.join_cons, String.toList_append]
      exact masked_append hfirst

theorem texts_mapText (f : String → String) (c : MessageContent) :
    (c.mapText f).texts = c.texts.map f := by
  cases c with
  | text s => rfl
  | parts ps =>
    simp only [MessageContent.mapText, MessageContent.texts]
    induction ps with
    | nil => rfl
    | cons p ps ih =>
      cases p with
      | text t cacheControl =>
        simp only [List.map_cons, List.filterMap_cons]
        rw [ih]
      | imageUrl image => simpa only [List.map_cons, List.filterMap_cons] using ih

theorem asText_mapText (f : String → String) (c : MessageContent) :
    (c.mapText f).asText = String.join (c.texts.map f) := by
  rw [MessageContent.asText, texts_mapText]

/-- **A message is masked part by part.** The masker has an answer for every text part, and the
flattened text of the masked message is these answers in order. Where the parts are apart it is the
mask of the message's own text, and a scan finds in it what it finds in that; one text has no
boundary. -/
theorem parts_masked (c : MessageContent) :
    c.texts.map (fun s => redact U s.toList) =
        (c.mapText (maskText U)).texts.map (fun s => some s.toList) ∧
      (c.mapText (maskText U)).asText = String.join (c.texts.map (maskText U)) ∧
      (c.texts.length ≤ 1 → TextsApart U c.texts) ∧
      (TextsApart U c.texts →
        redact U c.asText.toList = some (c.mapText (maskText U)).asText.toList ∧
          (redact U c.asText.toList).map (scanPii U) =
            some (scanPii U (c.mapText (maskText U)).asText.toList)) := by
  have hflat := asText_mapText (maskText U) c
  refine ⟨?_, hflat, fun hlen => ?_, fun hapart => ?_⟩
  · rw [texts_mapText, List.map_map]
    exact List.map_congr_left fun s _ => redact_eq_maskText s
  · match c.texts, hlen with
    | [], _ => trivial
    | [_], _ => trivial
  · have hwhole : redact U c.asText.toList = some (c.mapText (maskText U)).asText.toList := by
      rw [redact_eq, hflat, MessageContent.asText, masked_join hapart]
    exact ⟨hwhole, by rw [hwhole]; rfl⟩

end

/-! ## Parts that are apart, and parts that are not -/

/-- A PAN in the first part. -/
def wholeParts : MessageContent :=
  .parts [.text "My PAN is ABCPD1234E." none, .imageUrl ⟨"data:image/png;base64,AA==", none⟩,
    .text "Thanks." none]

theorem parts_masked_whole :
    redact asciiTables wholeParts.asText.toList =
      some (wholeParts.mapText (maskText asciiTables)).asText.toList := by
  have hhidden : hiddenClaims asciiTables ("My PAN is ABCPD1234E.".toList ++ "Thanks.".toList) =
      hiddenClaims asciiTables "My PAN is ABCPD1234E.".toList ++
        (hiddenClaims asciiTables "Thanks.".toList).map
          (Claim.shift (byteLen "My PAN is ABCPD1234E.".toList)) := by
    decide
  have hpasses : apartLive (rewrites asciiTables)
      (unhidden asciiTables "My PAN is ABCPD1234E.".toList)
      (unhidden asciiTables "Thanks.".toList) = true := by
    decide
  have hboundary : PartsApart asciiTables "My PAN is ABCPD1234E.".toList
      (String.join ["Thanks."]).toList := by
    rw [String.join_cons, String.join_nil, String.append_empty]
    exact partsApart_of_live hhidden hpasses
  exact ((parts_masked wholeParts).2.2.2 ⟨hboundary, trivial⟩).1

/-- The same PAN, cut in two. -/
def cutParts : MessageContent := .parts [.text "ABCPD" none, .text "1234E" none]

/-- What a phone number's mask leaves of a longer number. -/
def phoneBefore : MessageContent := .text "415-555-5123 2341 2341 2346"

/-- **A split identifier goes out.** Each half is none, and the flattened text has it; and one text
alone can leave a number that the scan takes for an identifier. -/
theorem split_identifier_shown :
    (cutParts.mapText (maskText asciiTables)).asText = "ABCPD1234E" ∧
      "pan" ∈ scanPii asciiTables (cutParts.mapText (maskText asciiTables)).asText.toList ∧
      (phoneBefore.mapText (maskText asciiTables)).asText = "[PHONE_MASKED] 2341 2341 2346" ∧
      "aadhaar" ∈ scanPii asciiTables (phoneBefore.mapText (maskText asciiTables)).asText.toList := by
  have hmask : ∀ s, maskText asciiTables s =
      String.ofList (runLive (rewrites asciiTables) (unhidden asciiTables s.toList)) := fun s => by
    rw [runLive_eq]
    rfl
  have hfirst : maskText asciiTables "ABCPD" = "ABCPD" := by
    rw [hmask]
    decide
  have hsecond : maskText asciiTables "1234E" = "1234E" := by
    rw [hmask]
    decide
  have hphone : maskText asciiTables "415-555-5123 2341 2341 2346" =
      "[PHONE_MASKED] 2341 2341 2346" := by
    rw [hmask]
    decide
  have hcut : (cutParts.mapText (maskText asciiTables)).asText = "ABCPD1234E" := by
    have hparts : cutParts.texts.map (maskText asciiTables) = ["ABCPD", "1234E"] := by
      change [maskText asciiTables "ABCPD", maskText asciiTables "1234E"] = _
      rw [hfirst, hsecond]
    rw [asText_mapText, hparts]
    decide
  have hleft : (phoneBefore.mapText (maskText asciiTables)).asText =
      "[PHONE_MASKED] 2341 2341 2346" := by
    have hparts : phoneBefore.texts.map (maskText asciiTables) =
        ["[PHONE_MASKED] 2341 2341 2346"] := by
      change [maskText asciiTables "415-555-5123 2341 2341 2346"] = _
      rw [hphone]
    rw [asText_mapText, hparts, String.join_cons, String.join_nil, String.append_empty]
  rw [hcut, hleft]
  exact ⟨rfl, by decide, rfl, by decide⟩

end Routeplane.Guardrails
