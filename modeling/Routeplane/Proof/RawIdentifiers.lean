import Routeplane.Guardrails.Passes
import Routeplane.Proof.Evidence

/-!
# Identifiers in the ledger

A code is made of what a caller sends: its letters, digits, dashes and underscores, up to sixteen of
them. An identifier that is written in these is short enough to be recorded as it is.

* `Recorded`: the two kinds of draft. `Recorded.texts`: the texts in one.
* `no_raw_identifier_iff`: **when a draft has no identifier that the masker masks.**
-/

namespace Routeplane.Ledger

open Guardrails

/-! ## The texts of a draft -/

def ExtValue.code? : ExtValue → Option CodeStr
  | code c => some c
  | bool _ | count _ => none

/-- The codes of the provider and of the regions. -/
def Draft.codes (d : Draft) : List CodeStr :=
  d.provider.toList ++ d.region.toList ++ d.requiredRegions

/-- The codes, the labels, and the keys and codes of the extensions. -/
def Draft.texts (d : Draft) : List String :=
  d.codes.map (·.text) ++ d.dataClasses ++ [d.profileId.text] ++ d.ext.map (·.1.text) ++
    (d.ext.filterMap (·.2.code?)).map (·.text)

/-- What is recorded: a decision, at some time, or a security event. -/
inductive Recorded
  | decision (now : String) (d : Decision)
  | security (e : SecurityEvent)

namespace Recorded

def draft : Recorded → Except LabelError Draft
  | decision now d => .ok (decisionDraft now d)
  | security e => e.toDraft

/-- The texts that become codes. -/
def coded : Recorded → List String
  | decision _ d => d.provider.toList ++ d.routeRegion.toList ++ d.requiredRegion.toList
  | security e => e.detailCode.toList

/-- The texts it is made from: the provider, the regions, the detail code and the category. -/
def inputs : Recorded → List String
  | r@(decision ..) => r.coded
  | r@(security e) => r.coded ++ [e.category.label]

end Recorded

/-- No identifier that the masker masks in what a draft is made from stands in it. -/
def Anonymous (U : UnicodeTables) (r : Recorded) (draft : Draft) : Prop :=
  ∀ x ∈ r.inputs, ∀ id ∈ maskedIdentifiers U x.toList, ∀ t ∈ draft.texts, ¬id <:+: t.toList

/-! ## Quiet texts -/

/-- A text in small letters, dots and underscores. -/
def Quiet (t : String) : Prop := ∀ c ∈ t.toList, c ∈ quietChars

instance : DecidablePred Quiet := fun t => List.decidableBAll (fun c => c ∈ quietChars) t.toList

theorem Quiet.no_identifier {U : UnicodeTables} {t : String} (h : Quiet t) {x id : List Char}
    (hid : id ∈ maskedIdentifiers U x) : ¬id <:+: t.toList := by
  intro hin
  obtain ⟨c, hc, hnot⟩ := exists_not_quiet hid
  exact hnot (h c (hin.subset hc))

theorem quiet_entity (e : EntityType) : Quiet e.label := by
  cases e <;> decide

theorem quiet_category (c : SecurityCategory) : Quiet c.label := by
  cases c <;> decide

theorem quiet_outcome (o : SecurityOutcome) : Quiet o.code := by
  cases o <;> decide

/-! ## Security events -/

theorem validLabel_category (c : SecurityCategory) : validLabel c.label = .ok () := by
  cases c <;> decide

theorem labelNew_text {text : String} {label : Label} (h : Label.new text = .ok label) :
    label.text = text := by
  unfold Label.new at h
  split at h
  · cases h
  · cases h
    rfl

theorem labelNew_of_valid {text : String} (h : validLabel text = .ok ()) :
    Label.new text = .ok ⟨text, h⟩ := by
  unfold Label.new
  split
  · rename_i e he
    rw [h] at he
    cases he
  · rfl

theorem newCode_outcome (o : SecurityOutcome) : ∃ code, newCode o.code = .ok code := by
  cases o with
  | allow => exact ⟨_, rfl⟩
  | deny => exact ⟨_, rfl⟩
  | throttle => exact ⟨_, rfl⟩

/-- No draft of an event is dropped. -/
theorem SecurityEvent.exists_toDraft (e : SecurityEvent) : ∃ draft, e.toDraft = .ok draft := by
  obtain ⟨code, hcode⟩ := newCode_outcome e.outcome
  unfold SecurityEvent.toDraft
  rw [labelNew_of_valid (validLabel_category e.category), hcode]
  exact ⟨_, rfl⟩

theorem newCode_text {text : String} {code : CodeStr} (h : newCode text = .ok code) :
    code.text = text := by
  unfold newCode at h
  split at h
  · cases h
  split at h
  · cases h
  split at h
  · cases h
    rfl
  · cases h

/-- What the draft of a security event says. -/
structure SecurityEvent.Says (e : SecurityEvent) (draft : Draft) : Prop where
  codes : draft.codes = []
  classes : draft.dataClasses = [e.category.label]
  profile : draft.profileId = .known securityProfileId
  keys : ∀ x ∈ draft.ext, Quiet x.1.text
  extCodes : ∃ outcome : CodeStr, outcome.text = e.outcome.code ∧
    draft.ext.filterMap (·.2.code?) = e.detailCode.toList.map .sanitized ++ [outcome]

theorem SecurityEvent.says_of_toDraft {e : SecurityEvent} {draft : Draft}
    (h : e.toDraft = .ok draft) : e.Says draft := by
  unfold SecurityEvent.toDraft at h
  obtain ⟨category, hcategory, h⟩ := Fallible.bind_eq_ok h
  obtain ⟨outcome, houtcome, h⟩ := Fallible.bind_eq_ok h
  obtain rfl := Except.ok.inj h
  have hlabel := labelNew_text hcategory
  have hcode := newCode_text houtcome
  have hcount : Quiet (ExtKey.known "sec.count").text := by decide
  have hdetail : Quiet (ExtKey.known "sec.detail").text := by decide
  have hkey : Quiet (ExtKey.known "sec.outcome").text := by decide
  obtain ⟨_, _, _, _, count, detailCode, _⟩ := e
  refine ⟨rfl, congrArg (fun t => [t]) hlabel, rfl, ?_, outcome, hcode, ?_⟩
  · cases count with
    | none =>
      cases detailCode with
      | none => exact List.forall_mem_singleton.2 hkey
      | some detail => exact List.forall_mem_cons.2 ⟨hdetail, List.forall_mem_singleton.2 hkey⟩
    | some n =>
      refine List.forall_mem_cons.2 ⟨hcount, ?_⟩
      cases detailCode with
      | none => exact List.forall_mem_singleton.2 hkey
      | some detail => exact List.forall_mem_cons.2 ⟨hdetail, List.forall_mem_singleton.2 hkey⟩
  · cases count <;> cases detailCode <;> rfl

/-! ## Where the texts come from -/

theorem decisionDraft_codes (now : String) (d : Decision) :
    (decisionDraft now d).codes = (Recorded.decision now d).coded.map CodeStr.sanitized := by
  obtain ⟨_, _, _, provider, routeRegion, _, requiredRegion, _⟩ := d
  cases provider <;> cases routeRegion <;> cases requiredRegion <;> rfl

/-- **Every text of a draft is the code of an input, or quiet.** -/
theorem texts_cases {r : Recorded} {draft : Draft} (h : r.draft = .ok draft) {t : String}
    (ht : t ∈ draft.texts) : (∃ y ∈ r.coded, t = (CodeStr.sanitized y).text) ∨ Quiet t := by
  unfold Draft.texts at ht
  simp only [List.mem_append, List.mem_map, List.mem_singleton] at ht
  cases r with
  | decision now d =>
    obtain rfl := Except.ok.inj h
    rcases ht with (((⟨code, hcode, rfl⟩ | hclass) | rfl) | ⟨x, hx, rfl⟩) | ⟨code, hcode, rfl⟩
    · rw [decisionDraft_codes] at hcode
      obtain ⟨y, hy, rfl⟩ := List.mem_map.1 hcode
      exact .inl ⟨y, hy, rfl⟩
    · obtain ⟨entity, -, rfl⟩ := List.mem_map.1 hclass
      exact .inr (quiet_entity entity)
    · have hprofile : Quiet (Label.known profile0Id).text := by decide
      exact .inr hprofile
    · have hkeys : ∀ x ∈ (decisionDraft now d).ext, Quiet x.1.text := by
        refine List.forall_mem_cons.2 ⟨?_, List.forall_mem_singleton.2 ?_⟩
        · have hkey : Quiet (ExtKey.known "dpdp.personal_data_present").text := by decide
          exact hkey
        · have hkey : Quiet (ExtKey.known "rbi.localization_relevant").text := by decide
          exact hkey
      exact .inr (hkeys x hx)
    · cases hcode
  | security e =>
    have hev := SecurityEvent.says_of_toDraft h
    obtain ⟨outcome, houtcome, hcodes⟩ := hev.extCodes
    rcases ht with (((⟨code, hcode, rfl⟩ | hclass) | rfl) | ⟨x, hx, rfl⟩) | ⟨code, hcode, rfl⟩
    · rw [hev.codes] at hcode
      cases hcode
    · rw [hev.classes, List.mem_singleton] at hclass
      rw [hclass]
      exact .inr (quiet_category _)
    · rw [hev.profile]
      have hprofile : Quiet (Label.known securityProfileId).text := by decide
      exact .inr hprofile
    · exact .inr (hev.keys x hx)
    · rw [hcodes] at hcode
      rcases List.mem_append.1 hcode with hcode | hcode
      · obtain ⟨detail, hdetail, rfl⟩ := List.mem_map.1 hcode
        exact .inl ⟨detail, hdetail, rfl⟩
      · rw [List.mem_singleton.1 hcode, houtcome]
        exact .inr (quiet_outcome _)

/-- The code of an input is a text of the draft. -/
theorem sanitized_mem_texts {r : Recorded} {draft : Draft} (h : r.draft = .ok draft) {y : String}
    (hy : y ∈ r.coded) : (CodeStr.sanitized y).text ∈ draft.texts := by
  unfold Draft.texts
  simp only [List.mem_append, List.mem_map]
  cases r with
  | decision now d =>
    obtain rfl := Except.ok.inj h
    refine .inl (.inl (.inl (.inl ⟨.sanitized y, ?_, rfl⟩)))
    rw [decisionDraft_codes]
    exact List.mem_map_of_mem hy
  | security e =>
    obtain ⟨outcome, -, hcodes⟩ := (SecurityEvent.says_of_toDraft h).extCodes
    refine .inr ⟨.sanitized y, ?_, rfl⟩
    rw [hcodes]
    exact List.mem_append_left _ (List.mem_map_of_mem hy)

/-! ## The law -/

theorem Recorded.exists_draft (r : Recorded) : ∃ draft, r.draft = .ok draft := by
  cases r with
  | decision now d => exact ⟨_, rfl⟩
  | security e => exact e.exists_toDraft

theorem Recorded.mem_inputs {r : Recorded} {y : String} :
    y ∈ r.inputs → y ∈ r.coded ∨ Quiet y := by
  cases r with
  | decision now d => exact .inl
  | security e =>
    intro hy
    rcases List.mem_append.1 hy with hy | hy
    · exact .inl hy
    · rw [List.mem_singleton.1 hy]
      exact .inr (quiet_category _)

theorem Recorded.mem_inputs_of_coded {r : Recorded} {y : String} (hy : y ∈ r.coded) :
    y ∈ r.inputs := by
  cases r with
  | decision now d => exact hy
  | security e => exact List.mem_append_left _ hy

/-- The code characters of a quiet text are quiet. -/
theorem Quiet.no_identifier_codeChars {U : UnicodeTables} {y : String} (h : Quiet y)
    {x id : List Char} (hid : id ∈ maskedIdentifiers U x) : ¬id <:+: codeChars y := by
  intro hin
  obtain ⟨c, hc, hnot⟩ := exists_not_quiet hid
  have hmem : c ∈ codeChars y := hin.subset hc
  exact hnot (h c (List.mem_filter.1 (List.mem_of_mem_take hmem)).1)

/-- **A draft has no raw identifier exactly if** none that is masked in what it is made from stands
within the first sixteen code characters of one of these texts. -/
theorem no_raw_identifier_iff (U : UnicodeTables) (r : Recorded) :
    ∃ draft, r.draft = .ok draft ∧
      (Anonymous U r draft ↔ ∀ x ∈ r.inputs, ∀ id ∈ maskedIdentifiers U x.toList,
        ∀ y ∈ r.inputs, ¬id <:+: codeChars y) := by
  obtain ⟨draft, hdraft⟩ := r.exists_draft
  refine ⟨draft, hdraft, fun hanonymous x hx id hid y hy hin => ?_,
    fun hcond x hx id hid t ht hin => ?_⟩
  · rcases Recorded.mem_inputs hy with hcoded | hquiet
    · -- the text has a code character, so its code is not the fallback
      obtain ⟨c, hc, -⟩ := exists_not_quiet hid
      have hsome : (codeChars y).isEmpty = false :=
        List.isEmpty_eq_false_iff_exists_mem.2 ⟨c, hin.subset hc⟩
      refine hanonymous x hx id hid _ (sanitized_mem_texts hdraft hcoded) ?_
      rw [sanitized_text, hsome, if_neg Bool.false_ne_true, String.toList_ofList]
      exact hin
    · exact hquiet.no_identifier_codeChars hid hin
  · rcases texts_cases hdraft ht with ⟨y, hy, rfl⟩ | hquiet
    · rw [sanitized_text] at hin
      split at hin
      · have hfallback : Quiet "invalid" := by decide
        exact hfallback.no_identifier hid hin
      · rw [String.toList_ofList] at hin
        exact hcond x hx id hid y (Recorded.mem_inputs_of_coded hy) hin
    · exact hquiet.no_identifier hid hin

/-! ## A PAN in the residency header -/

/-- A request with a PAN where its region should be, refused for want of a resident provider. -/
def panAsRegion : Decision where
  tenantId := "acme"
  requestId := "req_1"
  model := "gpt-4o"
  provider := none
  routeRegion := none
  classification := ⟨true, [.aadhaar]⟩
  requiredRegion := some "ABCDE1234F"
  sovereignRouted := true
  clientProviderRequested := false
  outcome := .residencyBlocked
  usage := ⟨0, 0, 0⟩

/-- **The ledger records the PAN.** -/
theorem pan_recorded :
    ¬Anonymous asciiTables (.decision "" panAsRegion) (decisionDraft "" panAsRegion) := by
  intro hanonymous
  have hmasked : "ABCDE1234F".toList ∈ maskedIdentifiers asciiTables "ABCDE1234F".toList := by
    decide
  have htext : "ABCDE1234F" ∈ (decisionDraft "" panAsRegion).texts := by decide
  exact hanonymous _ (List.mem_singleton_self _) _ hmasked _ htext List.infix_rfl

end Routeplane.Ledger
