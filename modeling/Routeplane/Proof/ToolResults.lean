import Routeplane.Lib.Focus
import Routeplane.Rtk.Filters

/-!
# Compression touches tool texts alone

The texts of a request's tool messages are parts of it: a content that is a string, and the text
blocks of one that is an array. A compressed request is the same request but for these, and each of
them is as it was, or shorter and not empty. What they lost is the number returned. The window that
the filter is picked by ends between two characters, so no read of text fails.

* `toolTexts`: the parts.
* `detectFilter_isSome`, `compress_shrunk`: one text.
* `compressToolResults_eq_some`, `others_unchanged`: a request, and its other messages.
-/

namespace Routeplane.Rtk

/-! ## The window -/

theorem isCharBoundary_iff {content : String} {index : ℕ} :
    isCharBoundary content index = true ↔ String.Pos.Raw.IsValid content ⟨index⟩ :=
  String.Pos.Raw.isValid_eq_true_iff

theorem isCharBoundary_zero (content : String) : isCharBoundary content 0 = true :=
  isCharBoundary_iff.2 String.Pos.Raw.isValid_zero

/-- Byte zero is a boundary, so the walk finds one. -/
theorem floorCharBoundary_eq_some (content : String) (start : ℕ) :
    ∃ stop, floorCharBoundary content start = some stop ∧ stop ≤ start ∧
      isCharBoundary content stop = true := by
  induction start with
  | zero => exact ⟨0, if_pos (isCharBoundary_zero content), le_rfl, isCharBoundary_zero content⟩
  | succ start ih =>
    rw [floorCharBoundary]
    split
    · rename_i hbound
      exact ⟨start + 1, rfl, le_rfl, hbound⟩
    · obtain ⟨stop, hstop, hle, hbound⟩ := ih
      exact ⟨stop, hstop, by omega, hbound⟩

theorem sliceTo_isSome {content : String} {stop : ℕ} (h : isCharBoundary content stop = true) :
    (sliceTo content stop).isSome = true := by
  rw [sliceTo, dif_pos (isCharBoundary_iff.1 h)]
  rfl

theorem peekOf_isSome (content : String) : (peekOf content).isSome = true := by
  unfold peekOf
  split
  · obtain ⟨stop, hstop, -, hbound⟩ := floorCharBoundary_eq_some content peekBytes
    rw [hstop, Option.bind_some]
    exact sliceTo_isSome hbound
  · rfl

theorem detectFilter_isSome (content : String) : (detectFilter content).isSome = true := by
  rw [detectFilter, Option.isSome_map]
  exact peekOf_isSome content

/-! ## One text -/

/-- As it was, or shorter and not empty. -/
def Shrunk (text text' : String) : Prop :=
  text' = text ∨ text' ≠ "" ∧ text'.utf8ByteSize < text.utf8ByteSize

theorem shrunk_refl (text : String) : Shrunk text text := Or.inl rfl

theorem shrunk_of_worthIt {content compressed : String} (h : worthIt content compressed = true) :
    Shrunk content compressed := by
  simp only [worthIt, Bool.not_eq_true', Bool.or_eq_false_iff, decide_eq_false_iff_not,
    not_le, String.isEmpty_eq_false_iff] at h
  exact Or.inr ⟨h.1.1, h.1.2⟩

theorem compress_shrunk (content : String) :
    ∃ compressed, compress content = some compressed ∧ Shrunk content compressed := by
  unfold compress
  split
  · exact ⟨content, rfl, shrunk_refl content⟩
  · obtain ⟨picked, hpicked⟩ := Option.isSome_iff_exists.1 (detectFilter_isSome content)
    refine ⟨_, by rw [hpicked, Option.map_some], ?_⟩
    cases picked with
    | none => exact shrunk_refl content
    | some filter =>
      dsimp only
      split
      · exact shrunk_of_worthIt ‹_›
      · exact shrunk_refl content

/-- What replaces a text, if anything does, with the bytes saved. -/
theorem compressText_shrunk (text : String) :
    ∃ result, compressText text = some result ∧ Shrunk text (result.1.getD text) ∧
      (result.1.getD text).utf8ByteSize + result.2 = text.utf8ByteSize := by
  obtain ⟨compressed, hcompressed, hshrunk⟩ := compress_shrunk text
  refine ⟨_, by rw [compressText, hcompressed, Option.map_some], ?_⟩
  split
  · exact ⟨hshrunk, by dsimp only [Option.getD_some]; omega⟩
  · exact ⟨shrunk_refl text, rfl⟩

/-! ## The parts of a request -/

/-- A value that is a string. -/
def textFocus : Focus Value String := Focus.atom Value.asStr (.str "")

/-- Every item of a value that is an array. -/
def itemsFocus (F : Focus Value String) : Focus Value String :=
  Focus.part Value.asArray (fun _ items => .arr items) F.each

def keyFocus (key : String) (F : Focus Value String) : Focus Value String :=
  Focus.part (fun v => v.get key) (setKey key) F

/-- A block of type `text`. -/
def blockFocus : Focus Value String :=
  Focus.branch (keyIs "type" "text") (keyFocus "text" textFocus) Focus.nothing

def contentFocus : Focus Value String :=
  Focus.branch (fun v => v.asStr.isSome) textFocus (itemsFocus blockFocus)

/-- A message of role `tool`. -/
def messageFocus : Focus Value String :=
  Focus.branch (keyIs "role" "tool") (keyFocus "content" contentFocus) Focus.nothing

/-- The texts of a request's tool messages. -/
def toolTexts : Focus Value String := keyFocus "messages" (itemsFocus messageFocus)

/-- Texts shrink, and nothing else changes. -/
abbrev Compressed (F : Focus Value String) : Value → Value → ℕ → Prop :=
  F.Changed Shrunk String.utf8ByteSize

/-! ## Fields -/

theorem get_setKey {key : String} {v w : Value} (h : v.get key = some w) (new : Value) :
    (setKey key v new).get key = some new := by
  cases v with
  | obj fs => exact Fields.get_insert_self fs key new
  | null | bool _ | num _ | str _ | arr _ => cases h

theorem get_setKey_ne {key key' : String} (hne : key' ≠ key) (v new : Value) :
    (setKey key v new).get key' = v.get key' := by
  cases v with
  | obj fs => exact Fields.get_insert_ne fs hne new
  | null | bool _ | num _ | str _ | arr _ => rfl

theorem setKey_setKey (key : String) (v new new' : Value) :
    setKey key (setKey key v new) new' = setKey key v new' := by
  cases v with
  | null | bool _ | num _ | str _ | arr _ => rfl
  | obj fs =>
    have hinsert : Fields.insert (Fields.insert fs key new) key new' = Fields.insert fs key new' := by
      induction fs with
      | nil => simp [Fields.insert]
      | cons f fs ih =>
        by_cases h : f.1 = key
        · simp [Fields.insert, h]
        · simp [Fields.insert, h, ih]
    exact congrArg Value.obj hinsert

theorem keyIs_setKey {key key' : String} (hne : key' ≠ key) (text : String) (v new : Value) :
    keyIs key' text (setKey key v new) = keyIs key' text v := by
  unfold keyIs
  rw [get_setKey_ne hne]

variable {F : Focus Value String} {v w w' : Value} {saved : ℕ}

theorem compressed_refl (F : Focus Value String) (v : Value) : Compressed F v v 0 :=
  Focus.Changed.refl shrunk_refl v

theorem compressed_key {key : String} (hget : v.get key = some w) (h : Compressed F w w' saved) :
    Compressed (keyFocus key F) v (setKey key v w') saved :=
  Focus.Changed.part hget (get_setKey hget w') (fun b => setKey_setKey key v w' b) h

theorem compressed_items {items items' : List Value}
    (h : F.each.Changed Shrunk String.utf8ByteSize items items' saved) :
    Compressed (itemsFocus F) (.arr items) (.arr items') saved := by
  have hget : (Value.arr items).asArray = some items := rfl
  have hset : (Value.arr items').asArray = some items' := rfl
  exact Focus.Changed.part hget hset (fun _ => rfl) h

/-! ## The walk -/

/-- Each item is compressed, and what is saved adds up. -/
theorem compressEach_eq_some {item : Value → Option (Value × ℕ)}
    (hitem : ∀ v, ∃ v' n, item v = some (v', n) ∧ Compressed F v v' n) (vs : List Value) :
    ∀ saved, ∃ vs' n, compressEach item saved vs = some (vs', saved + n) ∧
      F.each.Changed Shrunk String.utf8ByteSize vs vs' n := by
  induction vs with
  | nil => exact fun saved => ⟨[], 0, rfl, Focus.Changed.nil⟩
  | cons v vs ih =>
    intro saved
    obtain ⟨v', n, hv, hchanged⟩ := hitem v
    obtain ⟨vs', more, hvs, hrest⟩ := ih (saved + n)
    refine ⟨v' :: vs', n + more, ?_, hchanged.cons hrest⟩
    simp only [compressEach, hv, hvs, Option.bind_eq_bind, Option.bind_some, Nat.add_assoc]

theorem compressBlock_eq_some (block : Value) :
    ∃ block' saved, compressBlock block = some (block', saved) ∧
      Compressed blockFocus block block' saved := by
  unfold compressBlock
  split
  · rename_i hkind
    split
    · rename_i text htext
      obtain ⟨found, hget, hstr⟩ := Option.bind_eq_some_iff.1 htext
      obtain ⟨⟨new, saved⟩, hresult, hshrunk, hsaved⟩ := compressText_shrunk text
      rw [hresult, Option.map_some]
      cases new with
      | none => exact ⟨block, 0, rfl, compressed_refl _ block⟩
      | some compressed =>
        have hchanged : Compressed textFocus found (.str compressed) saved :=
          Focus.Changed.atom hstr rfl hshrunk hsaved
        have hkind' : keyIs "type" "text" (setKey "text" block (.str compressed)) = true := by
          rw [keyIs_setKey (by decide), hkind]
        exact ⟨_, saved, rfl, (compressed_key hget hchanged).left hkind hkind'⟩
    · exact ⟨block, 0, rfl, compressed_refl _ block⟩
  · exact ⟨block, 0, rfl, compressed_refl _ block⟩

theorem compressContent_eq_some (content : Value) :
    ∃ content' saved, compressContent content = some (content', saved) ∧
      Compressed contentFocus content content' saved := by
  cases content with
  | str text =>
    obtain ⟨⟨new, saved⟩, hresult, hshrunk, hsaved⟩ := compressText_shrunk text
    rw [compressContent, hresult, Option.map_some]
    cases new with
    | none => exact ⟨.str text, 0, rfl, compressed_refl _ _⟩
    | some compressed =>
      have hchanged : Compressed textFocus (.str text) (.str compressed) saved :=
        Focus.Changed.atom rfl rfl hshrunk hsaved
      exact ⟨_, saved, rfl, hchanged.left rfl rfl⟩
  | arr blocks =>
    obtain ⟨blocks', saved, hblocks, hchanged⟩ :=
      compressEach_eq_some compressBlock_eq_some blocks 0
    rw [Nat.zero_add] at hblocks
    exact ⟨.arr blocks', saved, by rw [compressContent, hblocks]; rfl,
      (compressed_items hchanged).right rfl rfl⟩
  | null | bool _ | num _ | obj _ => exact ⟨_, 0, rfl, compressed_refl _ _⟩

theorem compressMessage_eq_some (msg : Value) :
    ∃ msg' saved, compressMessage msg = some (msg', saved) ∧
      Compressed messageFocus msg msg' saved := by
  unfold compressMessage
  split
  · rename_i hkind
    split
    · rename_i content hget
      obtain ⟨content', saved, hcontent, hchanged⟩ := compressContent_eq_some content
      have hkind' : keyIs "role" "tool" (setKey "content" msg content') = true := by
        rw [keyIs_setKey (by decide), hkind]
      exact ⟨_, saved, by rw [hcontent]; rfl, (compressed_key hget hchanged).left hkind hkind'⟩
    · exact ⟨msg, 0, rfl, compressed_refl _ msg⟩
  · exact ⟨msg, 0, rfl, compressed_refl _ msg⟩

theorem compressToolResults_eq_some (messagesJson : Value) :
    ∃ compressed saved, compressToolResults messagesJson = some (compressed, saved) ∧
      Compressed toolTexts messagesJson compressed saved := by
  unfold compressToolResults
  split
  · rename_i messages hmessages
    obtain ⟨found, hget, harr⟩ := Option.bind_eq_some_iff.1 hmessages
    obtain ⟨messages', saved, hrun, hchanged⟩ :=
      compressEach_eq_some compressMessage_eq_some messages 0
    rw [Nat.zero_add] at hrun
    have hitems : Compressed (itemsFocus messageFocus) found (.arr messages') saved := by
      cases found with
      | arr items =>
        cases harr
        exact compressed_items hchanged
      | null | bool _ | num _ | str _ | obj _ => cases harr
    exact ⟨_, saved, by rw [hrun]; rfl, compressed_key hget hitems⟩
  · exact ⟨messagesJson, 0, rfl, compressed_refl _ messagesJson⟩

/-! ## The other messages -/

def messagesOf (body : Value) : List Value :=
  ((body.get "messages").bind Value.asArray).getD []

theorem keyFocus_blank {key : String} (hget : v.get key = some w) :
    (keyFocus key F).blank v = setKey key v (F.blank w) := by
  simp only [keyFocus, Focus.part, hget, Option.elim_some]

theorem get_keyFocus_blank (key : String) (v : Value) :
    ((keyFocus key F).blank v).get key = (v.get key).map F.blank := by
  cases hget : v.get key with
  | none =>
    have hblank : (keyFocus key F).blank v = v := by
      simp only [keyFocus, Focus.part, hget, Option.elim_none]
    rw [hblank, hget, Option.map_none]
  | some w => rw [keyFocus_blank hget, get_setKey hget, Option.map_some]

theorem asArray_itemsFocus_blank (v : Value) :
    ((itemsFocus F).blank v).asArray = v.asArray.map (List.map F.blank) := by
  cases v <;> rfl

theorem messageFocus_blank {msg : Value} (h : keyIs "role" "tool" msg = false) :
    messageFocus.blank msg = msg := by
  simp only [messageFocus, Focus.branch, h, Bool.false_eq_true, if_false]
  rfl

/-- Without its texts a message still has its role. -/
theorem keyIs_messageFocus_blank (msg : Value) :
    keyIs "role" "tool" (messageFocus.blank msg) = keyIs "role" "tool" msg := by
  cases hkind : keyIs "role" "tool" msg with
  | false => rw [messageFocus_blank hkind, hkind]
  | true =>
    have hblank : messageFocus.blank msg = (keyFocus "content" contentFocus).blank msg := by
      simp only [messageFocus, Focus.branch, hkind, if_true]
    rw [hblank]
    cases hget : msg.get "content" with
    | none =>
      have hsame : (keyFocus "content" contentFocus).blank msg = msg := by
        simp only [keyFocus, Focus.part, hget, Option.elim_none]
      rw [hsame, hkind]
    | some content => rw [keyFocus_blank hget, keyIs_setKey (by decide), hkind]

theorem messagesOf_blank (body : Value) :
    messagesOf (toolTexts.blank body) = (messagesOf body).map messageFocus.blank := by
  unfold messagesOf toolTexts
  rw [get_keyFocus_blank]
  cases body.get "messages" with
  | none => rfl
  | some found =>
    rw [Option.map_some, Option.bind_some, Option.bind_some, asArray_itemsFocus_blank]
    cases found.asArray <;> rfl

/-- Message by message: a message of another role is the same. -/
theorem others_unchanged {body body' : Value} (h : Compressed toolTexts body body' saved) :
    List.Forall₂ (fun msg msg' => keyIs "role" "tool" msg = true ∨ msg' = msg)
      (messagesOf body) (messagesOf body') := by
  have hblank : (messagesOf body').map messageFocus.blank =
      (messagesOf body).map messageFocus.blank := by
    rw [← messagesOf_blank, ← messagesOf_blank, h.blank]
  have hpairs : List.Forall₂ (fun msg msg' => messageFocus.blank msg' = messageFocus.blank msg)
      (messagesOf body) (messagesOf body') := by
    have hmapped : List.Forall₂ (fun b b' => b' = b) ((messagesOf body).map messageFocus.blank)
        ((messagesOf body').map messageFocus.blank) := by
      rw [hblank]
      exact List.forall₂_same.2 fun _ _ => rfl
    exact List.forall₂_map_right_iff.1 (List.forall₂_map_left_iff.1 hmapped)
  refine hpairs.imp ?_
  intro msg msg' heq
  cases hkind : keyIs "role" "tool" msg with
  | true => exact Or.inl rfl
  | false =>
    have hkind' : keyIs "role" "tool" msg' = false := by
      rw [← keyIs_messageFocus_blank, heq, keyIs_messageFocus_blank, hkind]
    rw [messageFocus_blank hkind, messageFocus_blank hkind'] at heq
    exact Or.inr heq

/-- **Compression is safe and counts right**: it finds a filter or none for every text, and the
request it returns differs from the one it got in tool texts alone, each as it was or shorter and not
empty, with the number returned the bytes they lost. -/
theorem tool_results_compressed :
    (∀ content, (detectFilter content).isSome = true) ∧
      ∀ messagesJson, ∃ compressed saved,
        compressToolResults messagesJson = some (compressed, saved) ∧
          toolTexts.Changed Shrunk String.utf8ByteSize messagesJson compressed saved ∧
          List.Forall₂ (fun msg msg' => keyIs "role" "tool" msg = true ∨ msg' = msg)
            (messagesOf messagesJson) (messagesOf compressed) := by
  refine ⟨detectFilter_isSome, ?_⟩
  intro messagesJson
  obtain ⟨compressed, saved, hrun, hchanged⟩ := compressToolResults_eq_some messagesJson
  exact ⟨compressed, saved, hrun, hchanged, others_unchanged hchanged⟩

end Routeplane.Rtk
