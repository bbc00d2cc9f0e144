import Routeplane.Proof.Reach
import Mathlib.Data.List.Infix

/-!
# Residency at the other endpoints

A requested region binds a request only if the classifier finds personal data in the text its
handler gives it. Audio gives it none, so its requests are never bound.

A handler masks the texts it knows by name. The text values of the flattened `extra` map, the `user`
of an embeddings request and the prompt beside an audio file are handed out as they came.

* `Request.freeTexts_payload`: the free texts of what is handed out.
* `masks_iff`: every free text is masked and classified iff none of these is there, or nothing can
  be handed out.
* `Slice.resident_of_reaches`: a bound request reaches resident providers only.
* `stays_resident_iff`: when a regulated request stays with the resident providers.
-/

namespace Routeplane

/-! ## A text within a text -/

theorem containsText_iff {s piece : String} :
    containsText s piece = true ↔ piece.toList <:+: s.toList := by
  unfold containsText
  simp only [List.any_eq_true, List.mem_tails, List.isPrefixOf_iff_prefix]
  constructor
  · rintro ⟨tail, hsuffix, hpre⟩
    exact hpre.isInfix.trans hsuffix.isInfix
  · rintro ⟨before, after, heq⟩
    exact ⟨piece.toList ++ after, ⟨before, by rw [← heq, List.append_assoc]⟩,
      List.prefix_append _ _⟩

theorem containsText_self (s : String) : containsText s s = true :=
  containsText_iff.2 (List.infix_refl _)

theorem containsText_append_left {s t piece : String} (h : containsText s piece = true) :
    containsText (s ++ t) piece = true := by
  rw [containsText_iff] at h ⊢
  rw [String.toList_append]
  exact h.trans (List.prefix_append _ _).isInfix

theorem containsText_append_right {s t piece : String} (h : containsText t piece = true) :
    containsText (s ++ t) piece = true := by
  rw [containsText_iff] at h ⊢
  rw [String.toList_append]
  exact h.trans (List.suffix_append _ _).isInfix

theorem containsText_intercalate (sep : String) {l : List String} {t : String} (h : t ∈ l) :
    containsText (sep.intercalate l) t = true := by
  induction l with
  | nil => cases h
  | cons u l ih =>
    cases l with
    | nil =>
      obtain rfl : t = u := by simpa using h
      simpa using containsText_self t
    | cons v l =>
      rw [String.intercalate_cons_cons]
      rcases List.mem_cons.1 h with rfl | h
      · exact containsText_append_left (containsText_append_left (containsText_self t))
      · exact containsText_append_right (ih h)

namespace Endpoint

/-- The query and every document are part of the text that is classified. -/
theorem containsText_rerankText (p : RerankRequest) {t : String} (h : t ∈ p.query :: p.documents) :
    containsText (rerankText p) t = true := by
  unfold rerankText
  -- what the accumulator contains stays, and each document is added to it
  have hkeep : ∀ (docs : List String) (acc : String), containsText acc t = true →
      containsText (docs.foldl (fun t d => t ++ "\n" ++ d) acc) t = true := by
    intro docs
    induction docs with
    | nil => exact fun acc hacc => hacc
    | cons d docs ih =>
      intro acc hacc
      exact ih _ (containsText_append_left (containsText_append_left hacc))
  rcases List.mem_cons.1 h with rfl | h
  · exact hkeep _ _ (containsText_self _)
  · generalize p.query = acc
    generalize p.documents = docs at h
    induction docs generalizing acc with
    | nil => cases h
    | cons d docs ih =>
      rcases List.mem_cons.1 h with rfl | h
      · exact hkeep docs _ (containsText_append_right (containsText_self t))
      · exact ih _ h

/-! ## What a handler masks -/

/-- The same process with another masking engine. -/
def Site.withMask (site : Site) (mask : String → String) : Site := { site with processText := mask }

namespace Request

/-- The free texts a handler knows by name. -/
def named : (r : Request) → r.Payload → List String
  | embeddings _, (p : EmbeddingRequest) => p.input.toVec
  | rerank _, (p : RerankRequest) => p.query :: p.documents
  | imageGeneration _, (p : ImageGenerationRequest) => [p.prompt]
  | speech _, (p : SpeechRequest) => [p.input]
  | audio .., _ => []

/-- The free texts beside them. -/
def beside : (r : Request) → r.Payload → List String
  | embeddings _, (p : EmbeddingRequest) => p.user.toList
  | rerank _, _ => []
  | imageGeneration _, (p : ImageGenerationRequest) => fieldTexts p.extra
  | speech _, (p : SpeechRequest) => fieldTexts p.extra
  | audio .., (p : TranscriptionInput) => p.params.prompt.toList

variable (site : Site) (call : Call) (mask : String → String) {r : Request} (sent : r.Payload)

theorem freeTexts_eq : r.freeTexts sent = r.named sent ++ r.beside sent := by
  cases r with
  | embeddings => rfl
  | rerank => exact (List.append_nil _).symm
  | imageGeneration => rfl
  | speech => rfl
  | audio => rfl

/-- **What is handed out**: the named texts masked, those beside them as they came. -/
theorem freeTexts_payload :
    r.freeTexts (r.slice (site.withMask mask) call sent).payload =
      (r.named sent).map mask ++ r.beside sent := by
  cases r with
  | embeddings =>
    -- the name of the user is a field of its own, which no handler touches
    have hinput := EmbeddingInput.toVec_mapText mask (sent : EmbeddingRequest).input
    exact congrArg (· ++ (sent : EmbeddingRequest).user.toList) hinput
  | rerank => exact (List.append_nil _).symm
  | imageGeneration => rfl
  | speech => rfl
  | audio => rfl

/-- The classifier reads every named text. -/
theorem named_classified {t : String} (h : t ∈ r.named sent) :
    ∃ text ∈ (r.slice site call sent).classified, containsText text t = true := by
  cases r with
  | embeddings => exact ⟨_, rfl, containsText_intercalate _ h⟩
  | rerank => exact ⟨_, rfl, containsText_rerankText _ h⟩
  | imageGeneration =>
    rw [List.mem_singleton.1 h]
    exact ⟨_, rfl, containsText_self _⟩
  | speech =>
    rw [List.mem_singleton.1 h]
    exact ⟨_, rfl, containsText_self _⟩
  | audio => cases h

theorem read_withMask : r.read (site.withMask mask) = r.read site := by
  cases r <;> rfl

/-- Which providers a request reaches does not depend on the masking. -/
theorem reaches_withMask (w : World r.Payload) (name : String) (adapter : Provider) (key : String) :
    (r.slice (site.withMask mask) call sent).Reaches (site.withMask mask) call w name adapter key ↔
      (r.slice site call sent).Reaches site call w name adapter key := by
  cases r <;>
    exact ⟨fun h => ⟨h.eligible, h.available, h.resolved, h.keyed, h.allowed, h.inTime⟩,
      fun h => ⟨h.eligible, h.available, h.resolved, h.keyed, h.allowed, h.inTime⟩⟩

/-! ## Coverage -/

variable {site call mask sent}

/-- A payload is covered: its free texts are the masked forms of those the client sent, and the
classifier has read each of these. -/
def Covers (site : Site) (call : Call) (r : Request) (mask : String → String)
    (sent handed : r.Payload) : Prop :=
  r.freeTexts handed = (r.freeTexts sent).map mask ∧
    ∀ t ∈ r.freeTexts sent,
      ∃ text ∈ (r.slice site call sent).classified, containsText text t = true

/-- Whatever the masking engine and whatever becomes of the calls, all that is handed out is
covered. -/
def MasksAll (site : Site) (call : Call) (r : Request) (w : World r.Payload) : Prop :=
  ∀ mask env, ∀ h ∈ (r.handle (site.withMask mask) call env w).2.handed,
    ∃ sent, r.read site = .ok sent ∧ r.Covers site call mask sent h.payload

theorem covers_iff (hbeside : r.beside sent = []) :
    r.Covers site call mask sent (r.slice (site.withMask mask) call sent).payload := by
  refine ⟨?_, ?_⟩
  · rw [freeTexts_payload, freeTexts_eq, hbeside, List.append_nil, List.append_nil]
  · intro t ht
    rw [freeTexts_eq, hbeside, List.append_nil] at ht
    exact named_classified site call sent ht

/-- A mask that changes every text shows what is not masked. -/
theorem not_covers (hbeside : r.beside sent ≠ []) :
    ¬r.Covers site call (· ++ "*") sent
      (r.slice (site.withMask (· ++ "*")) call sent).payload := by
  rintro ⟨htexts, -⟩
  rw [freeTexts_payload, freeTexts_eq, List.map_append] at htexts
  have hsame := List.append_cancel_left htexts
  cases hb : r.beside sent with
  | nil => exact hbeside hb
  | cons t rest =>
    rw [hb, List.map_cons] at hsame
    have hhead : t = t ++ "*" := (List.cons.inj hsame).1
    have hlen := congrArg String.length hhead
    rw [String.length_append] at hlen
    have hone : "*".length = 1 := rfl
    omega

theorem not_masksAll {w : World r.Payload} (hread : r.read site = .ok sent)
    (hbeside : r.beside sent ≠ []) {name key : String} {adapter : Provider}
    (hreach : (r.slice site call sent).Reaches site call w name adapter key) :
    ¬r.MasksAll site call w := by
  intro hall
  have hreach' := (reaches_withMask site call (· ++ "*") sent w name adapter key).2 hreach
  have hhanded := Slice.handed_of_reaches hreach'
  rw [← handle_of_read ((read_withMask site _).trans hread)] at hhanded
  obtain ⟨sent', hread', hcovers⟩ := hall _ _ _ hhanded
  rw [hread] at hread'
  cases hread'
  exact not_covers hbeside hcovers

end Request

/-- **Every free text that is handed out was masked and classified exactly if** the request carries
none but those its handler knows by name, or no provider can be reached. -/
theorem masks_iff (site : Site) (call : Call) (r : Request) (now : ℕ) (health : HealthTracker)
    (router : Router) (heap : Limits.Heap) :
    r.MasksAll site call (.start now health router heap) ↔
      ∀ sent, r.read site = .ok sent → r.beside sent = [] ∨
        ¬∃ name adapter key, (r.slice site call sent).Reaches site call
          (.start now health router heap) name adapter key := by
  constructor
  · intro hall sent hread
    by_contra hboth
    obtain ⟨hbeside, hreach⟩ := not_or.1 hboth
    obtain ⟨name, adapter, key, hreach⟩ := not_not.1 hreach
    exact Request.not_masksAll hread hbeside hreach hall
  · intro hcond mask env h hh
    rw [Request.handle_eq, Request.read_withMask] at hh
    cases hread : r.read site with
    | error e =>
      rw [hread] at hh
      cases hh
    | ok sent =>
      rw [hread] at hh
      obtain ⟨hreach, hpayload⟩ := Slice.reaches_of_handed rfl hh
      rcases hcond sent hread with hbeside | hnone
      · exact ⟨sent, rfl, hpayload ▸ Request.covers_iff hbeside⟩
      · exact absurd ⟨_, _, _, (Request.reaches_withMask ..).1 hreach⟩ hnone

/-! ## A text beside the prompt -/

/-- A gateway with one provider; the texts it sees are clean. -/
def plainSite : Site where
  app := { providers := [("openai", { name := "openai", residentRegions := ["US"] })] }
  classify _ := ⟨false, []⟩
  processText t := t

/-- A caller with a key for it, bound to no region. -/
def plainCall : Call where
  key := { name := "batch", providerKeys := [("openai", "sk-openai")] }
  routeplaneKey := "rp-batch"
  tenant := { tenantId := "acme" }

def portrait : ImageGenerationRequest where
  prompt := "a cat"
  extra := [("user", .str "jane@example.com")]

/-- **An address in a flattened field leaves as it came.** -/
theorem extra_field_unmasked :
    ¬(Request.imageGeneration portrait).MasksAll plainSite plainCall (.start 0 default) := by
  have hread : (Request.imageGeneration portrait).read plainSite = .ok portrait := rfl
  have hbeside : (Request.imageGeneration portrait).beside portrait ≠ [] := by
    show fieldTexts portrait.extra ≠ []
    simp [portrait, fieldTexts, Value.texts]
  refine Request.not_masksAll hread hbeside (?_ : Slice.Reaches _ _ _ _ "openai"
    { name := "openai", residentRegions := ["US"] } "sk-openai")
  exact ⟨⟨["openai"], by decide, by decide⟩, rfl, rfl, by decide, ⟨{}, rfl⟩, by decide⟩

end Endpoint

/-! ## Residency at the other endpoints -/

theorem mem_keys_of_lookup {l : List (String × Provider)} {name : String} {p : Provider}
    (h : l.lookup name = some p) : name ∈ l.map Prod.fst := by
  induction l with
  | nil => cases h
  | cons x l ih =>
    rw [List.map_cons, List.mem_cons]
    by_cases hx : name = x.1
    · exact .inl hx
    · rw [List.lookup_cons, beq_eq_false_iff_ne.2 hx] at h
      exact .inr (ih h)

/-- The names of a region are those the registry knows a resident provider by. -/
theorem mem_residentNames {st : AppState} {region name : String} :
    name ∈ residentNames st region ↔
      ∃ p, st.providers.lookup name = some p ∧ p.isResidentIn region = true := by
  unfold residentNames
  rw [List.mem_insertionSort, List.mem_filter, Option.any_eq_true]
  constructor
  · rintro ⟨-, p, hp, hres⟩
    exact ⟨p, hp, hres⟩
  · rintro ⟨p, hp, hres⟩
    exact ⟨mem_keys_of_lookup hp, p, hp, hres⟩

namespace Endpoint

/-- The answer that refuses a request for want of a resident provider. -/
def Answer.Blocks {ρ : Type} (region : String) : Answer ρ → Prop
  | .ok .. => False
  | .error e => e = Routeplane.sovereignBlock region
  | .text status body => status = 422 ∧ body = sovereignMessage region

section

variable {π ρ : Type} {site : Site} {call : Call} {s : Slice π ρ} {env : Env ρ} {w : World π}
  {region : Region}

/-! ## Bound requests -/

theorem Slice.requiredRegion_of_found (hregion : call.requestedRegion = some region)
    (hfound : (s.classification site).containsPersonalData = true) :
    s.requiredRegion site call = some region := by
  unfold Slice.requiredRegion Routeplane.requiredRegion
  rw [hregion]
  exact if_pos hfound

theorem Slice.requiredRegion_of_clean
    (hclean : (s.classification site).containsPersonalData = false) :
    s.requiredRegion site call = none := by
  unfold Slice.requiredRegion Routeplane.requiredRegion
  split
  · rw [hclean]
    rfl
  · rfl

/-- What a runtime provider is called does not hide a built-in one. -/
theorem Slice.resolve_builtin {name : String} {p : Provider}
    (hp : site.app.providers.lookup name = some p) : s.resolve site call name = some p := by
  unfold Slice.resolve AppState.resolveProvider
  rw [hp]
  split <;> rfl

/-- **A bound request reaches resident providers only.** -/
theorem Slice.resident_of_reaches (hregion : s.requiredRegion site call = some region)
    {name key : String} {adapter : Provider} (h : s.Reaches site call w name adapter key) :
    adapter.isResidentIn region.code = true := by
  obtain ⟨names, hnames, hmem⟩ := h.eligible
  unfold Slice.eligible at hnames
  rw [hregion] at hnames
  simp only at hnames
  split at hnames
  · cases hnames
  · cases hnames
    obtain ⟨p, hp, hres⟩ := mem_residentNames.1 hmem
    have hsame : some adapter = some p := h.resolved.symm.trans (Slice.resolve_builtin hp)
    cases hsame
    exact hres

/-- A bound request with no resident provider is blocked at once. -/
theorem Slice.run_blocked (hregion : s.requiredRegion site call = some region)
    (hnone : ∀ name p, site.app.providers.lookup name = some p →
      p.isResidentIn region.code = false) :
    s.run site call env w = blockSovereign site call s region w := by
  have hempty : residentNames site.app region.code = [] := by
    refine List.eq_nil_iff_forall_not_mem.2 fun name hname => ?_
    obtain ⟨p, hp, hres⟩ := mem_residentNames.1 hname
    rw [hnone name p hp] at hres
    cases hres
  have heligible : s.eligible site call = .error region := by
    unfold Slice.eligible
    rw [hregion]
    simp only [hempty]
    rfl
  unfold Slice.run
  rw [heligible]

/-! ## Free requests -/

theorem attemptProvider_won {deadline : Deadline} {name : String} {a : Answer ρ}
    (h : (attemptProvider site call s env deadline name w).1 = .won a) :
    ¬a.Blocks region.code := by
  unfold attemptProvider at h
  split at h
  · cases h
  · simp only at h
    split at h
    · cases h
    · split at h
      · cases h
      · split at h
        · cases h
        · split at h
          · cases h
            exact id
          · cases h

theorem attemptAll_won {deadline : Deadline} {names : List String} {notes : Notes} {a : Answer ρ}
    (h : (attemptAll site call s env deadline names notes w).1 = some a) :
    ¬a.Blocks region.code := by
  induction names generalizing notes w with
  | nil => cases h
  | cons name names ih =>
    unfold attemptAll at h
    split at h
    · rename_i heq
      cases h
      exact attemptProvider_won (congrArg Prod.fst heq)
    · cases h
    · exact ih h
    · exact ih h

theorem limitRejection_ne (breach : Limits.Breach) :
    limitRejection breach ≠ sovereignBlock region.code := by
  unfold limitRejection sovereignBlock
  split <;> simp

/-- A request that is not blocked for want of a resident provider is not answered as if it were. -/
theorem Slice.run_not_blocks (hcode : s.notSupported.code ≠ "routeplane_sovereign_block")
    {names : List String} (heligible : s.eligible site call = .ok names) :
    ¬(s.run site call env w).1.Blocks region.code := by
  rcases Slice.run_cases site call s env w with
    ⟨_, herror, -⟩ | ⟨names', -, ⟨breach, -, hanswer, -⟩ | ⟨a, -, hrun⟩⟩
  · rw [heligible] at herror
    cases herror
  · rw [hanswer]
    exact limitRejection_ne breach
  · rw [hrun]
    unfold runAttempts
    split
    · rename_i heq
      exact attemptAll_won (congrArg Prod.fst heq)
    · split
      · intro hblocks
        have heq : s.notSupported = Routeplane.sovereignBlock region.code := hblocks
        exact hcode (congrArg ApiError.code heq)
      · intro hblocks
        have heq : upstreamAllFailed = Routeplane.sovereignBlock region.code := hblocks
        simp [upstreamAllFailed, Routeplane.sovereignBlock] at heq

end

/-! ## Regulated requests -/

namespace Request

variable {site : Site} {call : Call} {r : Request} {sent : r.Payload}

/-- The content cannot be inspected, or the classifier finds personal data in a text of it. -/
def Regulated (site : Site) (r : Request) (sent : r.Payload) : Prop :=
  r.isAudio = true ∨ ∃ t ∈ r.contentTexts sent, (site.classify t).containsPersonalData = true

/-- Whatever becomes of the calls, a regulated request with a requested region goes to resident
providers only, and is blocked if there is none. -/
def StaysResident (site : Site) (call : Call) (r : Request) (w : World r.Payload) : Prop :=
  ∀ sent, r.read site = .ok sent → ∀ region, call.requestedRegion = some region →
    r.Regulated site sent → ∀ env,
      (∀ h ∈ (r.handle site call env w).2.handed, h.adapter.isResidentIn region.code = true) ∧
        ((∀ name p, site.app.providers.lookup name = some p →
            p.isResidentIn region.code = false) →
          (r.handle site call env w).1.Blocks region.code ∧
            (r.handle site call env w).2.handed = [])

/-- The classifier finds personal data in the text the handler gives it. -/
def Found (site : Site) (call : Call) (r : Request) (sent : r.Payload) : Prop :=
  ((r.slice site call sent).classification site).containsPersonalData = true

theorem blocks_sovereignBlock (region : String) :
    ((r.slice site call sent).sovereignBlock region).Blocks region := by
  cases r with
  | embeddings => exact rfl
  | rerank => exact rfl
  | imageGeneration => exact rfl
  | speech => exact ⟨rfl, rfl⟩
  | audio => exact rfl

theorem notSupported_code :
    (r.slice site call sent).notSupported.code ≠ "routeplane_sovereign_block" := by
  cases r with
  | embeddings => exact (by decide : "embeddings_not_supported" ≠ "routeplane_sovereign_block")
  | rerank => exact (by decide : "rerank_not_supported" ≠ "routeplane_sovereign_block")
  | imageGeneration =>
    exact (by decide : "image_generation_not_supported" ≠ "routeplane_sovereign_block")
  | speech => exact (by decide : "speech_not_supported" ≠ "routeplane_sovereign_block")
  | audio op =>
    cases op with
    | transcribe =>
      exact (by decide : "transcription_not_supported" ≠ "routeplane_sovereign_block")
    | translate => exact (by decide : "translation_not_supported" ≠ "routeplane_sovereign_block")

end Request

/-- **A regulated request with a requested region stays resident exactly if** the classifier finds
personal data in the text its handler gives it, or some built-in provider is resident and so is
every provider the caller's own chain can reach. -/
theorem stays_resident_iff (site : Site) (call : Call) (r : Request) (now : ℕ)
    (health : HealthTracker) (router : Router) (heap : Limits.Heap) :
    r.StaysResident site call (.start now health router heap) ↔
      ∀ sent, r.read site = .ok sent → ∀ region, call.requestedRegion = some region →
        r.Regulated site sent → r.Found site call sent ∨
          (∃ name p, site.app.providers.lookup name = some p ∧ p.isResidentIn region.code = true) ∧
            ∀ name adapter key, (r.slice site call sent).Reaches site call
              (.start now health router heap) name adapter key →
                adapter.isResidentIn region.code = true := by
  constructor
  · intro hall sent hread region hregion hregulated
    have hrun := hall sent hread region hregion hregulated
    simp only [Request.handle_of_read hread] at hrun
    by_cases hfound : r.Found site call sent
    · exact .inl hfound
    · refine .inr ⟨?_, ?_⟩
      · by_contra hnone
        have hno : ∀ name p, site.app.providers.lookup name = some p →
            p.isResidentIn region.code = false := by
          intro name p hp
          by_contra hres
          exact hnone ⟨name, p, hp, by simpa using hres⟩
        have hclean : ((r.slice site call sent).classification site).containsPersonalData =
            false := by
          simpa [Request.Found] using hfound
        have heligible : (r.slice site call sent).eligible site call =
            .ok (r.slice site call sent).chain := by
          unfold Slice.eligible
          rw [Slice.requiredRegion_of_clean hclean]
        exact Slice.run_not_blocks Request.notSupported_code heligible
          ((hrun (r.slice site call sent).gapEnv).2 hno).1
      · intro name adapter key hreach
        exact (hrun (r.slice site call sent).gapEnv).1 _ (Slice.handed_of_reaches hreach)
  · intro hcond sent hread region hregion hregulated env
    rw [Request.handle_of_read hread]
    rcases hcond sent hread region hregion hregulated with hfound | ⟨⟨name, p, hp, hres⟩, hchain⟩
    · have hrequired := Slice.requiredRegion_of_found hregion hfound
      refine ⟨?_, ?_⟩
      · intro h hh
        exact Slice.resident_of_reaches hrequired (Slice.reaches_of_handed rfl hh).1
      · intro hnone
        rw [Slice.run_blocked hrequired hnone]
        refine ⟨Request.blocks_sovereignBlock _, ?_⟩
        unfold blockSovereign
        rw [World.handed_log]
        rfl
    · refine ⟨?_, ?_⟩
      · intro h hh
        exact hchain _ _ _ (Slice.reaches_of_handed rfl hh).1
      · intro hnone
        rw [hnone name p hp] at hres
        cases hres

/-! ## A recording that leaves its region -/

/-- The same caller, bound to India by the residency header. -/
def boundCall : Call := { plainCall with residency := some "IN" }

def recording : List (Except MultipartFault Part) :=
  [.ok { name := some "model", text := .ok "whisper-1" },
    .ok { name := some "file", fileName := some "call.wav", bytes := .ok [82, 73, 70, 70] }]

/-- **A recording bound to one region is handed to a provider of another.** -/
theorem recording_leaves_region :
    ¬(Request.audio .transcribe recording).StaysResident plainSite boundCall
      (.start 0 default) := by
  intro hstays
  have hread : (Request.audio .transcribe recording).read plainSite =
      .ok ⟨[82, 73, 70, 70], "call.wav", { model := "whisper-1" }⟩ := rfl
  have hreach : Slice.Reaches plainSite boundCall ((Request.audio .transcribe recording).slice
      plainSite boundCall ⟨[82, 73, 70, 70], "call.wav", { model := "whisper-1" }⟩)
      (.start 0 default) "openai" { name := "openai", residentRegions := ["US"] } "sk-openai" :=
    ⟨⟨["openai"], by decide, by decide⟩, rfl, rfl, by decide, ⟨{}, rfl⟩, by decide⟩
  have hresident := (hstays _ hread ⟨"IN"⟩ (by decide) (.inl rfl) _).1 _
    (Slice.handed_of_reaches hreach)
  exact absurd hresident (by decide)

end Endpoint

end Routeplane
