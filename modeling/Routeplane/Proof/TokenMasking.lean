import Routeplane.Guardrails.Passes
import Routeplane.Lib.Occurrences

/-!
# The masker with a hook

With a hook that declines every identifier, the masker that asks for surrogates should mask as the
plain one does. It has no pass for a GSTIN and none for an IFSC.

The value of a secret is masked and its key is kept. The masker looks for the value in the whole
match and masks the first place it finds it at.

* `answers_redactWithPiiTokens`: what it makes of a text then.
* `MasksOnly`: what one pass does, and `occ_pass`, that it leaves the marks of the others.
* `tokens_agree_iff`: the two agree where no valid GSTIN or IFSC comes to those passes.
* `exists_parts`: what a match is made of.
* `replaceFirst_spec`: what is replaced is the first place.
* `json_secrets_masked_iff`: the values are masked at their own span exactly where none is found
  before it.
-/

namespace Routeplane.Guardrails

open Pattern Occurrences

variable {σ : Type}

/-! ## Without surrogates -/

section Answers

variable {α β : Type}

/-- The answer of a computation does not depend on the state. -/
def Answers (m : StateM σ α) (a : α) : Prop := ∀ s, (m.run s).1 = a

theorem Answers.pure (a : α) : Answers (pure a : StateM σ α) a := fun _ => rfl

theorem Answers.bind {m : StateM σ α} {a : α} {k : α → StateM σ β} {b : β} (hm : Answers m a)
    (hk : Answers (k a) b) : Answers (m >>= k) b := by
  intro s
  have hrun : ((m >>= k).run s).1 = ((k (m.run s).1).run (m.run s).2).1 := rfl
  rw [hrun, hm s]
  exact hk _

/-- Pieces that are put down one after the other are put down independently of the state. -/
theorem answers_foldlM {step : List Char → Bit → StateM σ (List Char)} {g : Hit → List Char}
    (hstep : ∀ out b, Answers (step out b) (out ++ b.put g)) :
    ∀ (bs : List Bit) (out : List Char),
      Answers (bs.foldlM step out) (out ++ bs.flatMap (Bit.put g)) := by
  intro bs
  induction bs with
  | nil =>
    intro out
    rw [List.flatMap_nil, List.append_nil]
    exact .pure out
  | cons b bs ih =>
    intro out
    rw [List.foldlM_cons, List.flatMap_cons, ← List.append_assoc]
    exact (hstep out b).bind (ih _)

theorem answers_replaceAllM {p : Pattern} {f : Hit → StateM σ (List Char)} {g : Hit → List Char}
    (hf : ∀ m, Answers (f m) (g m)) (text : List Char) :
    Answers (p.replaceAllM f text) (p.replaceAll g text) := by
  refine answers_foldlM (fun out b => ?_) (p.scan text) []
  cases b with
  | char c => exact .pure _
  | hit h =>
    have hput : Answers (do return out ++ (← f h)) (out ++ g h) := (hf h).bind (.pure _)
    exact hput

end Answers

/-- The hook gives no surrogate. -/
def Declines (tokenize : Hook σ) : Prop :=
  ∀ category candidate, Answers (tokenize category candidate) none

theorem answers_tokenizeValid {tokenize : Hook σ} (hnone : Declines tokenize) (p : Pattern)
    (valid : List Char → Bool) (category mask : String) (text : List Char) :
    Answers (tokenizeValid tokenize p valid category mask text) (maskValid p valid mask text) := by
  refine answers_replaceAllM (fun m => ?_) text
  unfold tokOrMask maskIf
  cases valid m.text with
  | false => exact .pure m.text
  | true => exact (hnone category m.text).bind (.pure _)

theorem answers_tokenizeIsolated {tokenize : Hook σ} (hnone : Declines tokenize) (p : Pattern)
    (valid : List Char → Bool) (category mask : String) (text : List Char) :
    Answers (tokenizeIsolated tokenize p valid category mask text)
      (maskIsolated p valid mask text) := by
  refine answers_replaceAllM (fun m => ?_) text
  cases isolated valid text m with
  | false => exact .pure m.text
  | true => exact (hnone category m.text).bind (.pure _)

section

variable (U : UnicodeTables)

/-- The passes before the ones only the plain masker has. -/
def passesBefore (working : List Char) : List Char :=
  let out := maskSecrets U working
  let out := maskValid (Recognizer.aadhaar U) isAadhaar "[AADHAAR_MASKED]" out
  let out := maskValid (Recognizer.card U) isCard "[CARD_MASKED]" out
  let out := maskValid (Recognizer.iban U) isIban "[IBAN_MASKED]" out
  let out := maskValid (Recognizer.cpf U) isCpf "[CPF_MASKED]" out
  maskValid (Recognizer.nric U) isNric "[NRIC_MASKED]" out

def maskGstin : List Char → List Char := maskValid (Recognizer.gstin U) isGstin "[GSTIN_MASKED]"

def maskIfsc : List Char → List Char := maskValid (Recognizer.ifsc U) isIfsc "[IFSC_MASKED]"

/-- The passes after them. -/
def passesAfter (out : List Char) : List Char :=
  let out := maskValid (Recognizer.emiratesId U) isEmiratesId "[EMIRATES_ID_MASKED]" out
  let out := maskIsolated (Recognizer.myNumber U) isMyNumber "[MY_NUMBER_MASKED]" out
  let out := maskValid (Recognizer.saudiId U) isSaudiId "[SAUDI_ID_MASKED]" out
  let out := maskIsolated (Recognizer.tfn U) isTfn "[TFN_MASKED]" out
  let out := maskAll (Recognizer.ssn U) "[SSN_MASKED]" out
  let out := maskPan U out
  let out := maskValid (Recognizer.ipv4 U) isIpv4 "[IP_MASKED]" out
  let out := maskAll Recognizer.email "[EMAIL_MASKED]" out
  maskAll (Recognizer.phone U) "[PHONE_MASKED]" out

theorem redact_of_some {text working : List Char} (hw : maskInvisibleSmuggled U text = some working)
    (hany : anyPiiOrSecret U working = true) :
    redact U text =
      some (passesAfter U (maskIfsc U (maskGstin U (passesBefore U working)))) := by
  unfold redact
  rw [hw]
  show (if (!anyPiiOrSecret U working) = true then _ else _) = _
  rw [hany]
  rfl

variable {tokenize : Hook σ} (hnone : Declines tokenize)

include hnone

/-- **What the masker with a hook makes of a text** when the hook declines. -/
theorem answers_redactWithPiiTokens {text working : List Char}
    (hw : maskInvisibleSmuggled U text = some working) (hany : anyPiiOrSecret U working = true) :
    Answers (redactWithPiiTokens U tokenize text)
      (some (passesAfter U (passesBefore U working))) := by
  unfold redactWithPiiTokens
  rw [hw]
  show Answers (if (!anyPiiOrSecret U working) = true then _ else _) _
  rw [hany]
  refine (answers_tokenizeValid hnone _ _ _ _ _).bind ?_
  refine (answers_tokenizeValid hnone _ _ _ _ _).bind ?_
  refine (answers_tokenizeValid hnone _ _ _ _ _).bind ?_
  refine (answers_tokenizeIsolated hnone _ _ _ _ _).bind ?_
  refine (answers_tokenizeValid hnone _ _ _ _ _).bind ?_
  refine (answers_tokenizeIsolated hnone _ _ _ _ _).bind ?_
  refine (answers_tokenizeValid hnone _ _ _ _ _).bind ?_
  refine (answers_tokenizeValid hnone _ _ _ _ _).bind ?_
  exact .pure _

end

/-! ## One pass -/

/-- A pass that leaves a match of the pattern, or puts the token in its place. -/
def MasksOnly (p : Pattern) (token : String) (pass : List Char → List Char) : Prop :=
  ∀ text, ∃ f, pass text = p.replaceAll f text ∧ ∀ m, f m = m.text ∨ f m = token.toList

theorem masksOnly_maskAll (p : Pattern) (token : String) : MasksOnly p token (maskAll p token) :=
  fun _ => ⟨_, rfl, fun _ => .inr rfl⟩

theorem maskIf_cases (valid : List Char → Bool) (token : String) (m : Hit) :
    maskIf valid token m = m.text ∨ maskIf valid token m = token.toList := by
  unfold maskIf
  split
  · exact .inr rfl
  · exact .inl rfl

theorem masksOnly_maskValid (p : Pattern) (valid : List Char → Bool) (token : String) :
    MasksOnly p token (maskValid p valid token) := fun _ => ⟨_, rfl, maskIf_cases valid token⟩

theorem masksOnly_maskPan (U : UnicodeTables) :
    MasksOnly (Recognizer.pan U) "[PAN_MASKED]" (maskPan U) := fun _ => ⟨_, rfl, maskIf_cases _ _⟩

theorem masksOnly_maskIsolated (p : Pattern) (valid : List Char → Bool) (token : String) :
    MasksOnly p token (maskIsolated p valid token) := by
  intro text
  refine ⟨_, rfl, fun m => ?_⟩
  split
  · exact .inr rfl
  · exact .inl rfl

/-- A pass has nothing to do where its pattern does not match. -/
theorem MasksOnly.eq_self {p : Pattern} {token : String} {pass : List Char → List Char}
    (h : MasksOnly p token pass) {text : List Char} (hno : p.findIter text = []) :
    pass text = text := by
  obtain ⟨f, hf, -⟩ := h text
  rw [hf]
  exact replaceAll_of_forall fun m hm => absurd (hno ▸ hm) List.not_mem_nil

/-! ## The marks of the other passes -/

/-- The characters of a mark. -/
def markChars : List Char := "[]_ABCDEFGHIJKLMNOPQRSTUVWXYZ".toList

/-- The pattern matches no part of a mark, and nothing that has only characters of marks. -/
structure Quiet (p : Pattern) : Prop where
  opening : p.allows '[' = false
  closing : p.allows ']' = false
  alien : p.alien markChars = true

/-- The text of a mask. -/
structure IsMark (token : String) : Prop where
  marker : Marker '[' ']' token.toList
  chars : ∀ c ∈ token.toList, c ∈ markChars

theorem foreign_of_isHit {p : Pattern} (hp : Quiet p) {q : String} (hq : IsMark q) {m : Hit}
    (hm : IsHit p m) : Foreign '[' ']' q.toList m.text := by
  have hallows := allows_of_isHit hm
  obtain ⟨c, hc, halien⟩ := exists_alien_of_isHit hm hp.alien
  constructor
  · intro h
    have hyes := hallows _ h
    rw [hp.opening] at hyes
    cases hyes
  · intro h
    have hyes := hallows _ h
    rw [hp.closing] at hyes
    cases hyes
  · exact ⟨c, hc, fun h => halien (hq.chars c h)⟩

/-- **The marks after a pass**: those there were, and the ones it put there. -/
theorem occ_replaceAll {p : Pattern} (hp : Quiet p) {q token : String} (hq : IsMark q)
    (htoken : IsMark token) {f : Hit → List Char}
    (hf : ∀ m, f m = m.text ∨ f m = token.toList) (text : List Char) :
    occ q.toList (p.replaceAll f text) = occ q.toList text +
      (p.scan text).countP fun b => decide (b.put f = q.toList ∧ b.put f ≠ b.text) := by
  have hpieces : ∀ b ∈ p.scan text, b.put f = b.text ∨
      Foreign '[' ']' q.toList b.text ∧ Marker '[' ']' (b.put f) := by
    intro b hb
    cases b with
    | char c => exact .inl rfl
    | hit m =>
      rcases hf m with h | h
      · exact .inl h
      · refine .inr ⟨foreign_of_isHit hp hq (isHit_of_mem_scan hb), ?_⟩
        have hput : Bit.put f (.hit m) = token.toList := h
        rw [hput]
        exact htoken.marker
  have hall := occ_flatMap hq.marker Bit.text (Bit.put f) hpieces []
  rw [List.nil_append, List.nil_append, flatMap_text_scan] at hall
  exact hall

/-- **A pass leaves the marks of the others.** -/
theorem occ_pass {p : Pattern} {q token : String} {pass : List Char → List Char}
    (h : MasksOnly p token pass) (hp : Quiet p) (hq : IsMark q) (htoken : IsMark token)
    (hne : q ≠ token) (text : List Char) : occ q.toList (pass text) = occ q.toList text := by
  obtain ⟨f, hpass, hf⟩ := h text
  have hnone : (p.scan text).countP
      (fun b => decide (b.put f = q.toList ∧ b.put f ≠ b.text)) = 0 := by
    rw [List.countP_eq_zero]
    intro b hb hput
    obtain ⟨hq', hchanged⟩ := of_decide_eq_true hput
    cases b with
    | char c => exact hchanged rfl
    | hit m =>
      rcases hf m with h | h
      · exact hchanged h
      · have hsame : token.toList = q.toList := h.symm.trans hq'
        exact hne (String.toList_inj.1 hsame).symm
  rw [hpass, occ_replaceAll hp hq htoken hf, hnone]
  rfl

/-- **A pass that puts no mark has masked nothing.** -/
theorem invalid_of_occ_eq {p : Pattern} {valid : List Char → Bool} {token : String} (hp : Quiet p)
    (htoken : IsMark token) {text : List Char}
    (hocc : occ token.toList (maskValid p valid token text) = occ token.toList text) :
    ∀ m ∈ p.findIter text, valid m.text = false := by
  intro m hm
  have hcount := occ_replaceAll hp htoken htoken (maskIf_cases valid token) text
  have hzero : (p.scan text).countP (fun b => decide
      (b.put (maskIf valid token) = token.toList ∧ b.put (maskIf valid token) ≠ b.text)) = 0 := by
    have hsame : occ token.toList (p.replaceAll (maskIf valid token) text) =
      occ token.toList text := hocc
    omega
  cases hvalid : valid m.text with
  | false => rfl
  | true =>
    have hput : Bit.put (maskIf valid token) (.hit m) = token.toList := by
      show maskIf valid token m = _
      unfold maskIf
      rw [hvalid, if_pos rfl]
    have hforeign := foreign_of_isHit hp htoken (isHit_of_mem_scan (mem_findIter.1 hm))
    have hchanged : Bit.put (maskIf valid token) (.hit m) ≠ Bit.text (.hit m) := by
      intro h
      have hmem := htoken.marker.mem_opening
      rw [← hput, h] at hmem
      exact hforeign.opening hmem
    have hno := List.countP_eq_zero.1 hzero _ (mem_findIter.1 hm)
    exact absurd (decide_eq_true ⟨hput, hchanged⟩) hno

/-! ## The two maskers -/

/-- A bracketed word in capitals. -/
def isMarkText (token : String) : Bool :=
  let word := (token.toList.drop 1).dropLast
  token.toList == '[' :: (word ++ [']']) && !word.contains '[' && !word.contains ']' &&
    token.toList.all markChars.contains

theorem isMark_of {token : String} (h : isMarkText token = true) : IsMark token := by
  unfold isMarkText at h
  simp only [Bool.and_eq_true, beq_iff_eq, Bool.not_eq_true', List.all_eq_true,
    List.contains_eq_mem, decide_eq_true_eq, decide_eq_false_iff_not] at h
  obtain ⟨⟨⟨hword, hopen⟩, hclose⟩, hchars⟩ := h
  exact ⟨⟨⟨_, hword, hopen, hclose⟩, by decide⟩, hchars⟩

/-- The masks of the passes after the ones for GSTIN and IFSC. -/
def marksAfter : List String :=
  ["[EMIRATES_ID_MASKED]", "[MY_NUMBER_MASKED]", "[SAUDI_ID_MASKED]", "[TFN_MASKED]",
    "[SSN_MASKED]", "[PAN_MASKED]", "[IP_MASKED]", "[EMAIL_MASKED]", "[PHONE_MASKED]"]

theorem isMark_of_mem {token : String} (h : token ∈ marksAfter) : IsMark token := by
  have hall : ∀ token ∈ marksAfter, isMarkText token = true := by decide
  exact isMark_of (hall token h)

section

variable (U : UnicodeTables)

theorem quiet_gstin : Quiet (Recognizer.gstin U) := ⟨rfl, rfl, rfl⟩

theorem quiet_ifsc : Quiet (Recognizer.ifsc U) := ⟨rfl, rfl, rfl⟩

theorem occ_passesAfter {q : String} (hq : IsMark q) (hne : ∀ token ∈ marksAfter, q ≠ token)
    (out : List Char) : occ q.toList (passesAfter U out) = occ q.toList out := by
  have hpass : ∀ {p : Pattern} {token : String} {pass : List Char → List Char} (text : List Char),
      MasksOnly p token pass → Quiet p → token ∈ marksAfter →
      occ q.toList (pass text) = occ q.toList text :=
    fun text h hp hmem => occ_pass h hp hq (isMark_of_mem hmem) (hne _ hmem) text
  unfold passesAfter
  rw [hpass _ (masksOnly_maskAll _ _) ⟨rfl, rfl, rfl⟩ (by decide),
    hpass _ (masksOnly_maskAll _ _) ⟨rfl, rfl, rfl⟩ (by decide),
    hpass _ (masksOnly_maskValid _ _ _) ⟨rfl, rfl, rfl⟩ (by decide),
    hpass _ (masksOnly_maskPan U) ⟨rfl, rfl, rfl⟩ (by decide),
    hpass _ (masksOnly_maskAll _ _) ⟨rfl, rfl, rfl⟩ (by decide),
    hpass _ (masksOnly_maskIsolated _ _ _) ⟨rfl, rfl, rfl⟩ (by decide),
    hpass _ (masksOnly_maskValid _ _ _) ⟨rfl, rfl, rfl⟩ (by decide),
    hpass _ (masksOnly_maskIsolated _ _ _) ⟨rfl, rfl, rfl⟩ (by decide),
    hpass _ (masksOnly_maskValid _ _ _) ⟨rfl, rfl, rfl⟩ (by decide)]

/-- No valid GSTIN and no valid IFSC comes to the passes only the plain masker has. -/
def NoneSkipped (working : List Char) : Prop :=
  (∀ m ∈ (Recognizer.gstin U).findIter (passesBefore U working), isGstin m.text = false) ∧
    ∀ m ∈ (Recognizer.ifsc U).findIter (passesBefore U working), isIfsc m.text = false

theorem maskValid_eq_self {p : Pattern} {valid : List Char → Bool} {token : String}
    {text : List Char} (h : ∀ m ∈ p.findIter text, valid m.text = false) :
    maskValid p valid token text = text := by
  refine replaceAll_of_forall fun m hm => ?_
  unfold maskIf
  rw [h m hm]
  rfl

/-- **The passes only one masker has make no difference** exactly where they have nothing to do. -/
theorem passesAfter_eq_iff (working : List Char) :
    passesAfter U (passesBefore U working) =
      passesAfter U (maskIfsc U (maskGstin U (passesBefore U working))) ↔
        NoneSkipped U working := by
  have hgstin : IsMark "[GSTIN_MASKED]" := isMark_of (by decide)
  have hifsc : IsMark "[IFSC_MASKED]" := isMark_of (by decide)
  constructor
  · intro heq
    have hcount : ∀ q : String, IsMark q → (∀ token ∈ marksAfter, q ≠ token) →
        occ q.toList (passesBefore U working) =
          occ q.toList (maskIfsc U (maskGstin U (passesBefore U working))) := by
      intro q hq hne
      rw [← occ_passesAfter U hq hne, heq, occ_passesAfter U hq hne]
    have hfirst : ∀ m ∈ (Recognizer.gstin U).findIter (passesBefore U working),
        isGstin m.text = false := by
      refine invalid_of_occ_eq (quiet_gstin U) hgstin ?_
      rw [hcount _ hgstin (by decide)]
      exact (occ_pass (masksOnly_maskValid _ _ _) (quiet_ifsc U) hgstin hifsc (by decide) _).symm
    have hsame : maskGstin U (passesBefore U working) = passesBefore U working :=
      maskValid_eq_self hfirst
    refine ⟨hfirst, invalid_of_occ_eq (quiet_ifsc U) hifsc ?_⟩
    have hboth := hcount _ hifsc (by decide)
    rw [hsame] at hboth
    exact hboth.symm
  · rintro ⟨hgstin, hifsc⟩
    have hsame : maskGstin U (passesBefore U working) = passesBefore U working :=
      maskValid_eq_self hgstin
    rw [hsame]
    exact congrArg _ (maskValid_eq_self hifsc).symm

/-! ## A text without a match -/

variable {U} {working : List Char} (hno : anyPiiOrSecret U working = false)

include hno

theorem findIter_eq_nil {p : Pattern} (hp : p ∈ Recognizer.all U) : p.findIter working = [] := by
  have hmatch := (List.any_eq_false.1 hno) p hp
  unfold Pattern.isMatch at hmatch
  simpa using hmatch

theorem maskJsonSecrets_eq_self : maskJsonSecrets working = working := by
  have hnil := findIter_eq_nil hno (p := Recognizer.jsonSecret) (by simp [Recognizer.all])
  exact replaceAll_of_forall fun m hm => absurd (hnil ▸ hm) List.not_mem_nil

theorem passesBefore_eq_self : passesBefore U working = working := by
  have hpass : ∀ {p : Pattern} {token : String} {pass : List Char → List Char},
      MasksOnly p token pass → p ∈ Recognizer.all U → pass working = working :=
    fun h hp => h.eq_self (findIter_eq_nil hno hp)
  unfold passesBefore maskSecrets
  dsimp only
  rw [hpass (masksOnly_maskAll Recognizer.privateKey _) (by simp [Recognizer.all]),
    maskJsonSecrets_eq_self hno,
    hpass (masksOnly_maskValid (Recognizer.connectionString U) _ _) (by simp [Recognizer.all]),
    hpass (masksOnly_maskAll (Recognizer.cloudResourceId U) _) (by simp [Recognizer.all]),
    hpass (masksOnly_maskValid Recognizer.schemaDump _ _) (by simp [Recognizer.all]),
    hpass (masksOnly_maskAll (Recognizer.jwt U) _) (by simp [Recognizer.all]),
    hpass (masksOnly_maskAll (Recognizer.openaiKey U) _) (by simp [Recognizer.all]),
    hpass (masksOnly_maskAll (Recognizer.awsKey U) _) (by simp [Recognizer.all]),
    hpass (masksOnly_maskAll (Recognizer.githubToken U) _) (by simp [Recognizer.all]),
    hpass (masksOnly_maskAll (Recognizer.slackToken U) _) (by simp [Recognizer.all]),
    hpass (masksOnly_maskAll (Recognizer.stripeKey U) _) (by simp [Recognizer.all]),
    hpass (masksOnly_maskAll (Recognizer.googleApiKey U) _) (by simp [Recognizer.all]),
    hpass (masksOnly_maskAll (Recognizer.routeplaneKey U) _) (by simp [Recognizer.all]),
    hpass (masksOnly_maskValid (Recognizer.aadhaar U) _ _) (by simp [Recognizer.all]),
    hpass (masksOnly_maskValid (Recognizer.card U) _ _) (by simp [Recognizer.all]),
    hpass (masksOnly_maskValid (Recognizer.iban U) _ _) (by simp [Recognizer.all]),
    hpass (masksOnly_maskValid (Recognizer.cpf U) _ _) (by simp [Recognizer.all]),
    hpass (masksOnly_maskValid (Recognizer.nric U) _ _) (by simp [Recognizer.all])]

theorem noneSkipped_of_clean : NoneSkipped U working := by
  have hgstin := findIter_eq_nil hno (p := Recognizer.gstin U) (by simp [Recognizer.all])
  have hifsc := findIter_eq_nil hno (p := Recognizer.ifsc U) (by simp [Recognizer.all])
  unfold NoneSkipped
  rw [passesBefore_eq_self hno, hgstin, hifsc]
  exact ⟨fun m hm => absurd hm List.not_mem_nil, fun m hm => absurd hm List.not_mem_nil⟩

end

/-- **The masker with a hook that declines masks as the plain one** exactly where no valid GSTIN and
no valid IFSC comes to the passes it does not have. -/
theorem tokens_agree_iff (U : UnicodeTables) {tokenize : Hook σ} (hnone : Declines tokenize)
    (text : List Char) (s : σ) :
    ((redactWithPiiTokens U tokenize text).run s).1 = redact U text ↔
      ∀ working, maskInvisibleSmuggled U text = some working → NoneSkipped U working := by
  cases hw : maskInvisibleSmuggled U text with
  | none =>
    have htokens : ((redactWithPiiTokens U tokenize text).run s).1 = none := by
      unfold redactWithPiiTokens
      rw [hw]
      rfl
    have hplain : redact U text = none := by
      unfold redact
      rw [hw]
      rfl
    rw [htokens, hplain]
    exact iff_of_true rfl fun working h => absurd h (Option.some_ne_none working).symm
  | some working =>
    have hcond : (∀ w, some working = some w → NoneSkipped U w) ↔ NoneSkipped U working := by
      constructor
      · exact fun h => h working rfl
      · intro h w hw
        rw [← Option.some.inj hw]
        exact h
    rw [hcond]
    by_cases hany : anyPiiOrSecret U working = true
    · rw [redact_of_some U hw hany, answers_redactWithPiiTokens U hnone hw hany s,
        ← passesAfter_eq_iff U working, Option.some_inj]
    · have hno : anyPiiOrSecret U working = false := Bool.eq_false_iff.2 hany
      have htokens : ((redactWithPiiTokens U tokenize text).run s).1 = some working := by
        unfold redactWithPiiTokens
        rw [hw]
        show ((if (!anyPiiOrSecret U working) = true then _ else _ : StateM σ _).run s).1 = _
        rw [hno]
        rfl
      have hplain : redact U text = some working := by
        unfold redact
        rw [hw]
        show (if (!anyPiiOrSecret U working) = true then _ else _) = _
        rw [hno]
        rfl
      rw [htokens, hplain]
      exact iff_of_true rfl (noneSkipped_of_clean hno)

def declineAll : Hook Unit := fun _ _ => pure none

theorem declines_declineAll : Declines declineAll := fun _ _ => .pure none

/-- The number of a GST registration is masked without the hook only. -/
theorem gstin_skipped :
    redact asciiTables "27AAPFU0939F1ZV".toList = some "[GSTIN_MASKED]".toList ∧
      ((redactWithPiiTokens asciiTables declineAll "27AAPFU0939F1ZV".toList).run ()).1 =
        some "27AAPFU0939F1ZV".toList ∧
      ((redactWithPiiTokens asciiTables declineAll "27AAPFU0939F1ZV".toList).run ()).1 ≠
        redact asciiTables "27AAPFU0939F1ZV".toList := by
  decide +kernel

theorem tokens_agree_iff_ssn :
    ((redactWithPiiTokens asciiTables declineAll "ssn 123-45-6789".toList).run ()).1 =
        redact asciiTables "ssn 123-45-6789".toList ↔
      ∀ working, maskInvisibleSmuggled asciiTables "ssn 123-45-6789".toList = some working →
        NoneSkipped asciiTables working :=
  tokens_agree_iff asciiTables declines_declineAll "ssn 123-45-6789".toList ()

/-! ## Secrets in structured data -/

open Pattern

/-- The value a match captured. -/
def secretValue (m : Hit) : List Char := m.captured.getD []

/-- A match with its value masked, at the value's own span. -/
def maskedAtSpan (m : Hit) : List Char :=
  if isJsonSecretValue (secretValue m) then
    m.beforeCapture ++ ("[JSON_SECRET_MASKED]".toList ++ m.afterCapture)
  else m.text

/-- The value is found in the match before its own span. -/
def FoundEarlier (m : Hit) : Prop :=
  ∃ u v, m.text = u ++ (secretValue m ++ v) ∧ u.length < m.beforeCapture.length

/-! ## The parts of a match -/

/-- A match is its key, the value and the closing quote; no key has an opening bracket. -/
structure Parts (m : Hit) : Prop where
  text : m.text = m.beforeCapture ++ (secretValue m ++ m.afterCapture)
  noOpening : '[' ∉ m.beforeCapture

theorem exists_parts {m : Hit} (hm : IsHit Recognizer.jsonSecret m) : Parts m := by
  obtain ⟨key, hkey, hrest⟩ := List.mem_flatMap.1 hm.mem
  obtain ⟨value, hvalue, hquote⟩ := List.mem_flatMap.1 hrest
  obtain ⟨inner, hinner, rfl⟩ := List.mem_map.1 hvalue
  obtain ⟨k, hk, hallows⟩ := consumes_of_mem_run hkey
  obtain ⟨v, hv, -⟩ := consumes_of_mem_run hinner
  obtain ⟨q, hq, -⟩ := consumes_of_mem_run hquote
  have hgroup : m.stop.group = some (key.place, inner.place) := group_of_mem_one hquote
  have hbefore : m.beforeCapture = k := by
    unfold Hit.beforeCapture
    rw [hgroup]
    exact hk.upTo_eq
  have hcaptured : secretValue m = v := by
    unfold secretValue Hit.captured
    rw [hgroup]
    exact hv.upTo_eq
  have hafter : m.afterCapture = q := by
    unfold Hit.afterCapture
    rw [hgroup]
    exact hq.upTo_eq
  have htext : m.text = k ++ (v ++ q) := (hk.trans (hv.trans hq)).upTo_eq
  refine ⟨by rw [htext, hbefore, hcaptured, hafter], fun h => ?_⟩
  rw [hbefore] at h
  have hno : Recognizer.jsonKey.allows '[' = false := by decide
  rw [hallows _ h] at hno
  cases hno

/-! ## The first place -/

/-- **What is replaced is the first place** the piece is found at. By induction on the text. -/
theorem replaceFirst_spec (piece new : List Char) : ∀ {text u v : List Char},
    text = u ++ (piece ++ v) → ∃ u' v', text = u' ++ (piece ++ v') ∧ u'.length ≤ u.length ∧
      replaceFirst piece new text = u' ++ (new ++ v')
  | [], u, v, h => by
    have hnil := List.append_eq_nil_iff.1 h.symm
    have hpiece := (List.append_eq_nil_iff.1 hnil.2).1
    refine ⟨[], [], by rw [hpiece]; rfl, Nat.zero_le _, ?_⟩
    unfold replaceFirst
    rw [if_pos hpiece]
    simp
  | c :: cs, u, v, h => by
    by_cases hpre : piece.isPrefixOf (c :: cs) = true
    · obtain ⟨t, ht⟩ := List.isPrefixOf_iff_prefix.1 hpre
      refine ⟨[], t, ht.symm, Nat.zero_le _, ?_⟩
      unfold replaceFirst
      rw [if_pos hpre, ← ht, List.drop_left]
      rfl
    · cases u with
      | nil => exact absurd (List.isPrefixOf_iff_prefix.2 ⟨v, h.symm⟩) hpre
      | cons d u =>
        obtain ⟨rfl, hrest⟩ := List.cons.inj h
        obtain ⟨u', v', htext, hle, hnew⟩ := replaceFirst_spec piece new hrest
        refine ⟨c :: u', v', by rw [htext]; rfl, Nat.succ_le_succ hle, ?_⟩
        unfold replaceFirst
        rw [if_neg hpre, hnew]
        rfl

theorem maskJsonSecret_length {m : Hit} (hm : Parts m) :
    (maskJsonSecret m).length = (maskedAtSpan m).length := by
  unfold maskJsonSecret maskedAtSpan
  show (if isJsonSecretValue (secretValue m) then _ else _ : List Char).length = _
  split
  · obtain ⟨u, v, htext, -, hnew⟩ := replaceFirst_spec (secretValue m)
      "[JSON_SECRET_MASKED]".toList hm.text
    have hlen := congrArg List.length (hm.text.symm.trans htext)
    simp only [List.length_append] at hlen
    show (replaceFirst (secretValue m) "[JSON_SECRET_MASKED]".toList m.text).length = _
    rw [hnew]
    simp only [List.length_append]
    omega
  · rfl

/-- **A value is masked at its own span** exactly where it is not found before it. -/
theorem maskJsonSecret_eq_iff {m : Hit} (hm : Parts m) :
    maskJsonSecret m = maskedAtSpan m ↔
      (isJsonSecretValue (secretValue m) = true → ¬ FoundEarlier m) := by
  unfold maskJsonSecret maskedAtSpan
  show (if isJsonSecretValue (secretValue m) then _ else _ : List Char) = _ ↔ _
  by_cases hvalue : isJsonSecretValue (secretValue m) = true
  · rw [if_pos hvalue, if_pos hvalue]
    show replaceFirst (secretValue m) "[JSON_SECRET_MASKED]".toList m.text = _ ↔ _
    constructor
    · rintro heq - ⟨u, v, htext, hlt⟩
      obtain ⟨u', v', -, hle, hnew⟩ := replaceFirst_spec (secretValue m)
        "[JSON_SECRET_MASKED]".toList htext
      rw [hnew] at heq
      -- the mask starts within the key
      have hchar := congrArg (fun t => t[u'.length]?) heq
      have hleft : (u' ++ ("[JSON_SECRET_MASKED]".toList ++ v'))[u'.length]? = some '[' := by
        rw [List.getElem?_append_right (Nat.le_refl _), Nat.sub_self]
        rfl
      have hright : (m.beforeCapture ++ ("[JSON_SECRET_MASKED]".toList ++ m.afterCapture))[
          u'.length]? = m.beforeCapture[u'.length]? := List.getElem?_append_left (by omega)
      have hbracket : m.beforeCapture[u'.length]? = some '[' :=
        hright.symm.trans (hchar.symm.trans hleft)
      exact hm.noOpening (List.mem_of_getElem? hbracket)
    · intro hfirst
      obtain ⟨u, v, htext, hle, hnew⟩ := replaceFirst_spec (secretValue m)
        "[JSON_SECRET_MASKED]".toList hm.text
      have hlen : u.length = m.beforeCapture.length := by
        have hnot : ¬ u.length < m.beforeCapture.length :=
          fun hlt => hfirst hvalue ⟨u, v, htext, hlt⟩
        omega
      obtain ⟨hu, hv⟩ := List.append_inj (htext.symm.trans hm.text) hlen
      have hafter : v = m.afterCapture := List.append_cancel_left hv
      rw [hnew, hu, hafter]
  · rw [if_neg hvalue, if_neg hvalue]
    exact iff_of_true rfl fun h => absurd h hvalue

/-- **Every secret is masked at its own span, and nothing else** of the text, exactly where no value
is found in its match before its own span. -/
theorem json_secrets_masked_iff (text : List Char) :
    maskJsonSecrets text = Recognizer.jsonSecret.replaceAll maskedAtSpan text ↔
      ∀ m ∈ Recognizer.jsonSecret.findIter text,
        isJsonSecretValue (secretValue m) = true → ¬ FoundEarlier m := by
  have hparts : ∀ m ∈ Recognizer.jsonSecret.findIter text, Parts m :=
    fun m hm => exists_parts (isHit_of_mem_scan (mem_findIter.1 hm))
  have heach := replaceAll_eq_iff fun m hm => maskJsonSecret_length (hparts m hm)
  refine heach.trans (forall_congr' fun m => forall_congr' fun hm => ?_)
  exact maskJsonSecret_eq_iff (hparts m hm)

/-- The key of a secret is masked in place of its value. -/
theorem key_masked :
    redact asciiTables "client_secret=\"secret\"".toList =
        some "client_[JSON_SECRET_MASKED]=\"secret\"".toList ∧
      maskJsonSecrets "client_secret=\"secret\"".toList ≠
        Recognizer.jsonSecret.replaceAll maskedAtSpan "client_secret=\"secret\"".toList := by
  decide +kernel

end Routeplane.Guardrails
