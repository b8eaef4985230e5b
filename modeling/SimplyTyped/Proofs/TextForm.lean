import Mathlib
import SimplyTyped.Batch

/-!
# SimplyTyped.Proofs.TextForm — a JSON text that was written reads back

Strings first: each character is written as a few, and those are read as one piece (`Json.scanPieces_stringChar`), so
the pieces of a string that was written stand for its characters, whatever they are.

Records hold strings, lists and objects only (`Json.Verbal`).  Reading takes such a value off the front of any text and
leaves the rest alone (`Json.ReadsBack`); lists and objects have this when their parts do, and the length of what was
written is fuel enough.  A text that was written has no character below the space, so it is one line.
-/

namespace SimplyTyped

namespace Text

theorem hexValue?_hexDigit {n : Nat} (h : n < 16) : hexValue? (hexDigit n) = some n := by
  revert n
  decide

theorem toNat_hexDigit {n : Nat} (h : n < 16) : 32 ≤ (hexDigit n).toNat := by
  revert n
  decide

/-- Blanks around a text that neither begins nor ends with one are taken off. -/
theorem trimChars_of_margins {left text right : List Char} (hl : ∀ c ∈ left, isBlank c = true)
    (hr : ∀ c ∈ right, isBlank c = true) (hne : text ≠ []) (hfirst : ∀ c ∈ text.head?, isBlank c = false)
    (hlast : ∀ c ∈ text.getLast?, isBlank c = false) : trimChars (left ++ text ++ right) = text := by
  have hkeep : ∀ xs : List Char, xs ≠ [] → (∀ c ∈ xs.head?, isBlank c = false) → xs.dropWhile isBlank = xs := by
    intro xs hne h
    cases xs with
    | nil => exact absurd rfl hne
    | cons c xs => exact List.dropWhile_cons_of_neg (by simpa using h c rfl)
  have hfront : (left ++ text ++ right).dropWhile isBlank = text ++ right := by
    rw [List.append_assoc, List.dropWhile_append_of_pos hl]
    cases text with
    | nil => exact absurd rfl hne
    | cons c text => exact hkeep _ (by simp) hfirst
  have hback : (text ++ right).reverse.dropWhile isBlank = text.reverse := by
    rw [List.reverse_append, List.dropWhile_append_of_pos (by simpa using hr)]
    exact hkeep _ (by simpa using hne) (by simpa using hlast)
  rw [trimChars, hfront, hback, List.reverse_reverse]

end Text

namespace Json

/-! ## Strings -/

/-- The piece that a written character is read as. -/
def pieceOf (c : Char) : Piece :=
  if c = '\n' ∨ c = '\r' ∨ c = '\t' ∨ c = '\x0c' ∨ c = '\x08' then .char c
  else if c.toNat < 32 then .unit c.toNat
  else .char c

theorem fourHex?_of_lt {n : Nat} (h : n < 65536) :
    fourHex? (Text.hexDigit (n / 4096)) (Text.hexDigit (n / 256 % 16)) (Text.hexDigit (n / 16 % 16))
      (Text.hexDigit (n % 16)) = some n := by
  unfold fourHex?
  rw [Text.hexValue?_hexDigit (by omega), Text.hexValue?_hexDigit (by omega), Text.hexValue?_hexDigit (by omega),
    Text.hexValue?_hexDigit (by omega)]
  simp only [Option.some.injEq]
  omega

theorem hexDigits_four {n : Nat} (h : n < 65536) :
    Text.hexDigits 4 n = [Text.hexDigit (n / 4096), Text.hexDigit (n / 256 % 16), Text.hexDigit (n / 16 % 16),
      Text.hexDigit (n % 16)] := by
  have h1 : n / 16 / 16 % 16 = n / 256 % 16 := by omega
  have h2 : n / 16 / 16 / 16 % 16 = n / 4096 := by omega
  simp [Text.hexDigits, h1, h2]

section
variable {c e : Char} {rest : List Char}

theorem scanPieces_plain (hq : c ≠ '\x22') (hb : c ≠ '\x5c') (hlow : ¬c.toNat < 32) :
    scanPieces (c :: rest) = before (.char c) (scanPieces rest) := by
  rw [scanPieces.eq_def]
  simp only [if_neg hq, if_neg hb, if_neg hlow]

theorem scanPieces_escape (hu : e ≠ 'u') (he : simpleEscape? e = some c) :
    scanPieces ('\x5c' :: e :: rest) = before (.char c) (scanPieces rest) := by
  rw [scanPieces.eq_def]
  simp [hu, he]

theorem scanPieces_unit {n : Nat} (hn : n < 65536) (h : rest ≠ []) :
    scanPieces ('\x5c' :: 'u' :: (Text.hexDigits 4 n ++ rest)) = before (.unit n) (scanPieces rest) := by
  rw [hexDigits_four hn, scanPieces.eq_def]
  simp [fourHex?_of_lt hn, h]

/-- **A written character is read as one piece**, when the string is not over behind it. -/
theorem scanPieces_stringChar (c : Char) (h : rest ≠ []) :
    scanPieces (stringChar c ++ rest) = before (pieceOf c) (scanPieces rest) := by
  unfold stringChar
  split_ifs with hq hb hn hr ht hf hbs hlow
  · subst hq
    exact scanPieces_escape (by decide) rfl
  · subst hb
    exact scanPieces_escape (by decide) rfl
  · subst hn
    exact scanPieces_escape (e := 'n') (by decide) rfl
  · subst hr
    exact scanPieces_escape (e := 'r') (by decide) rfl
  · subst ht
    exact scanPieces_escape (e := 't') (by decide) rfl
  · subst hf
    exact scanPieces_escape (e := 'f') (by decide) rfl
  · subst hbs
    exact scanPieces_escape (e := 'b') (by decide) rfl
  · have hpiece : pieceOf c = .unit c.toNat := by simp [pieceOf, hn, hr, ht, hf, hbs, hlow]
    rw [hpiece]
    exact scanPieces_unit (by omega) h
  · have hpiece : pieceOf c = .char c := by simp [pieceOf, hlow]
    rw [hpiece]
    exact scanPieces_plain hq hb hlow

end

theorem scanPieces_written (s rest : List Char) :
    scanPieces (s.flatMap stringChar ++ '\x22' :: rest) = .ok (s.map pieceOf, rest) := by
  induction s with
  | nil =>
    show scanPieces ('\x22' :: rest) = _
    rw [scanPieces.eq_def]
    rfl
  | cons c s ih =>
    rw [List.flatMap_cons, List.append_assoc, scanPieces_stringChar c (by simp), ih]
    rfl

/-- A code unit below the space is no half of a pair, whatever follows. -/
theorem joinPieces_unit {n : Nat} (h : n < 32) (rest : List Piece) :
    joinPieces (.unit n :: rest) = Char.ofNat n :: joinPieces rest := by
  have hhigh : isHighSurrogate n = false := by
    simp only [isHighSurrogate, Bool.and_eq_false_iff, decide_eq_false_iff_not]
    omega
  have hlow : isLowSurrogate n = false := by
    simp only [isLowSurrogate, Bool.and_eq_false_iff, decide_eq_false_iff_not]
    omega
  have hchar : unitChar n = Char.ofNat n := by simp [unitChar, hhigh, hlow]
  rw [joinPieces.eq_def]
  rcases rest with _ | ⟨_ | low, rest⟩ <;> simp [hhigh, hchar]

theorem joinPieces_map_pieceOf (s : List Char) : joinPieces (s.map pieceOf) = s := by
  induction s with
  | nil => rfl
  | cons c s ih =>
    have hcons : joinPieces (pieceOf c :: s.map pieceOf) = c :: joinPieces (s.map pieceOf) := by
      rw [pieceOf]
      split_ifs with h hlow
      · rw [joinPieces]
      · rw [joinPieces_unit hlow, Char.ofNat_toNat]
      · rw [joinPieces]
    rw [List.map_cons, hcons, ih]

/-- **Every string reads back**, whatever characters it has. -/
theorem scanText_written (s : String) (rest : List Char) :
    scanText (s.toList.flatMap stringChar ++ '\x22' :: rest) = .ok (s, rest) := by
  simp only [scanText, scanPieces_written, joinPieces_map_pieceOf, String.ofList_toList]

theorem toList_writeString (s : String) :
    (writeString s).toList = '\x22' :: (s.toList.flatMap stringChar ++ ['\x22']) := by
  simp [writeString]

/-! ## Values -/

/-- A value whose leaves are strings, and in which no object has a key twice. -/
inductive Verbal : Json → Prop
  | string (s : String) : Verbal (string s)
  | array {items : List Json} : (∀ v ∈ items, Verbal v) → Verbal (array items)
  | object {fields : List (String × Json)} : (fields.map Prod.fst).Nodup → (∀ f ∈ fields, Verbal f.2) →
      Verbal (object fields)

/-- What is written of a value is taken off the front of a text and read as the value. -/
structure ReadsBack (v : Json) : Prop where
  /-- It begins with a delimiter, so there is nothing to skip before it. -/
  opens : ∃ c rest, v.write.toList = c :: rest ∧ c ∈ ['\x22', '[', '\x7b']
  /-- The length of the text is fuel enough. -/
  scan : ∀ fuel rest, v.write.toList.length ≤ fuel → scanValue fuel (v.write.toList ++ rest) = .ok (v, rest)

theorem skipSpace_cons {c : Char} (h : isSpace c = false) (rest : List Char) : skipSpace (c :: rest) = c :: rest :=
  List.dropWhile_cons_of_neg (by simp [h])

variable {v : Json}

/-- There is nothing to skip before a value. -/
theorem ReadsBack.skipSpace_write (h : ReadsBack v) (rest : List Char) :
    skipSpace (v.write.toList ++ rest) = v.write.toList ++ rest := by
  have hspace : ∀ c ∈ ['\x22', '[', '\x7b'], isSpace c = false := by simp [isSpace]
  obtain ⟨c, text, hw, hc⟩ := h.opens
  rw [hw, List.cons_append, skipSpace_cons (hspace c hc)]

theorem toList_writeItems_cons (v : Json) (rest : List Json) :
    (writeItems (v :: rest)).toList = ',' :: ' ' :: (v.write.toList ++ (writeItems rest).toList) := by
  simp [writeItems]

theorem toList_write_array (v : Json) (rest : List Json) :
    (write (array (v :: rest))).toList = '[' :: (v.write.toList ++ (writeItems rest).toList ++ [']']) := by
  simp [write]

theorem toList_writeFields_cons (key : String) (v : Json) (rest : List (String × Json)) :
    (writeFields ((key, v) :: rest)).toList =
      ',' :: ' ' :: ((writeString key).toList ++ ':' :: ' ' :: (v.write.toList ++ (writeFields rest).toList)) := by
  simp [writeFields]

theorem toList_write_object (key : String) (v : Json) (rest : List (String × Json)) :
    (write (object ((key, v) :: rest))).toList =
      '\x7b' :: ((writeString key).toList ++ ':' :: ' ' :: (v.write.toList ++ (writeFields rest).toList) ++
        ['\x7d']) := by
  simp [write]

/-- The items of a list are scanned one by one, up to its closing bracket. -/
theorem scanItems_write {items : List Json} (h : ∀ w ∈ v :: items, ReadsBack w) (fuel : Nat) (rest : List Char)
    (hf : v.write.toList.length + (writeItems items).toList.length < fuel) :
    scanItems fuel (v.write.toList ++ (writeItems items).toList ++ ']' :: rest) = .ok (v :: items, rest) := by
  induction items generalizing v fuel with
  | nil =>
    obtain ⟨fuel, rfl⟩ : ∃ k, fuel = k + 1 := ⟨fuel - 1, by omega⟩
    have hv := (h v List.mem_cons_self).scan fuel (']' :: rest) (by omega)
    rw [scanItems]
    simp [writeItems, hv, bind, Except.bind, skipSpace_cons (c := ']') (by decide), pure, Except.pure]
  | cons w items ih =>
    obtain ⟨fuel, rfl⟩ : ∃ k, fuel = k + 1 := ⟨fuel - 1, by omega⟩
    have hw := h w (by simp)
    rw [toList_writeItems_cons] at hf ⊢
    simp only [List.length_cons, List.length_append] at hf
    have hv := (h v List.mem_cons_self).scan fuel
      (',' :: ' ' :: (w.write.toList ++ (writeItems items).toList ++ ']' :: rest)) (by omega)
    have hs := ih (fun u hu => h u (List.mem_cons_of_mem v hu)) fuel (by omega)
    have hskip : skipSpace (' ' :: (w.write.toList ++ (writeItems items).toList ++ ']' :: rest)) =
        w.write.toList ++ (writeItems items).toList ++ ']' :: rest := by
      rw [List.append_assoc]
      exact hw.skipSpace_write _
    rw [scanItems]
    simp only [List.append_assoc, List.cons_append] at hv hs hskip ⊢
    simp [hv, hs, hskip, bind, Except.bind, skipSpace_cons (c := ',') (by decide), pure, Except.pure]

/-- A new key comes behind the others. -/
theorem put_of_notMem {key : String} {fields : List (String × Json)} (h : key ∉ fields.map Prod.fst) (v : Json) :
    put key v fields = fields ++ [(key, v)] := by
  induction fields with
  | nil => rfl
  | cons f fields ih =>
    rw [List.map_cons, List.mem_cons, not_or] at h
    rw [put, if_neg fun h' => h.1 h'.symm, ih h.2, List.cons_append]

/-- A field with a new key is taken; what comes behind its value decides how the object goes on. -/
theorem scanFields_field {key : String} {before : List (String × Json)} (hv : ReadsBack v)
    (hkey : key ∉ before.map Prod.fst) {fuel : Nat} (hf : v.write.toList.length ≤ fuel) (rest : List Char) :
    scanFields (fuel + 1) before ((writeString key).toList ++ ':' :: ' ' :: (v.write.toList ++ rest)) =
      match skipSpace rest with
      | '\x7d' :: left => .ok (before ++ [(key, v)], left)
      | ',' :: rest => scanFields fuel (before ++ [(key, v)]) (skipSpace rest)
      | rest => .error ⟨.commaExpected, rest.length⟩ := by
  have hskip : skipSpace (' ' :: (v.write.toList ++ rest)) = v.write.toList ++ rest := hv.skipSpace_write rest
  rw [toList_writeString, List.cons_append, List.append_assoc, List.singleton_append, scanFields]
  simp only [scanText_written, bind, Except.bind]
  rw [skipSpace_cons (c := ':') (by decide)]
  simp only [hskip, hv.scan fuel rest hf, put_of_notMem hkey]
  rfl

theorem notMem_of_nodup {key : String} {before fields : List (String × Json)}
    (hn : ((before ++ (key, v) :: fields).map Prod.fst).Nodup) : key ∉ before.map Prod.fst := by
  rw [List.map_append, List.map_cons] at hn
  exact fun hm => (List.nodup_append.mp hn).2.2 _ hm _ List.mem_cons_self rfl

/-- The fields of an object are scanned one by one, up to its closing brace, and none has the key of an earlier one. -/
theorem scanFields_write {key : String} {fields before : List (String × Json)} (hv : ReadsBack v)
    (h : ∀ f ∈ fields, ReadsBack f.2) (hn : ((before ++ (key, v) :: fields).map Prod.fst).Nodup) (fuel : Nat)
    (rest : List Char) (hf : v.write.toList.length + (writeFields fields).toList.length < fuel) :
    scanFields fuel before ((writeString key).toList ++ ':' :: ' ' ::
        (v.write.toList ++ ((writeFields fields).toList ++ '\x7d' :: rest))) =
      .ok (before ++ (key, v) :: fields, rest) := by
  induction fields generalizing key v before fuel with
  | nil =>
    obtain ⟨fuel, rfl⟩ : ∃ k, fuel = k + 1 := ⟨fuel - 1, by omega⟩
    rw [scanFields_field hv (notMem_of_nodup hn) (by omega), writeFields]
    rfl
  | cons f fields ih =>
    obtain ⟨key', w⟩ := f
    obtain ⟨fuel, rfl⟩ : ∃ k, fuel = k + 1 := ⟨fuel - 1, by omega⟩
    rw [toList_writeFields_cons] at hf ⊢
    simp only [List.length_cons, List.length_append] at hf
    have hn' : ((before ++ [(key, v)] ++ (key', w) :: fields).map Prod.fst).Nodup := by rwa [List.append_assoc]
    have hw : ReadsBack w := h (key', w) List.mem_cons_self
    have hs := ih hw (fun f hf => h f (List.mem_cons_of_mem _ hf)) hn' fuel (by omega)
    rw [List.append_assoc] at hs
    rw [scanFields_field hv (notMem_of_nodup hn) (by omega)]
    simp only [List.cons_append, List.append_assoc]
    rw [skipSpace_cons (c := ',') (by decide)]
    show scanFields fuel (before ++ [(key, v)]) (skipSpace (' ' :: ((writeString key').toList ++ _))) = _
    rw [toList_writeString] at hs ⊢
    exact hs

theorem scanValue_array {items : List Json} {text rest : List Char} {fuel : Nat}
    (ho : ∃ c text', text = c :: text' ∧ c ∈ ['\x22', '[', '\x7b']) (h : scanItems fuel text = .ok (items, rest)) :
    scanValue (fuel + 1) ('[' :: text) = .ok (array items, rest) := by
  obtain ⟨c, text', rfl, hc⟩ := ho
  simp only [List.mem_cons, List.not_mem_nil, or_false] at hc
  rw [scanValue]
  rcases hc with rfl | rfl | rfl <;> rw [skipSpace_cons (by decide)] <;>
    simp [h, bind, Except.bind, pure, Except.pure]

theorem scanValue_object {fields : List (String × Json)} {text rest : List Char} {fuel : Nat}
    (h : scanFields fuel [] ('\x22' :: text) = .ok (fields, rest)) :
    scanValue (fuel + 1) ('\x7b' :: '\x22' :: text) = .ok (object fields, rest) := by
  rw [scanValue, skipSpace_cons (by decide)]
  simp [h, bind, Except.bind, pure, Except.pure]

/-- **A value of strings, lists and objects reads back** from the front of any text. -/
theorem Verbal.readsBack (h : Verbal v) : ReadsBack v := by
  induction h with
  | string s =>
    refine ⟨⟨_, _, toList_writeString s, by simp⟩, fun fuel rest hf => ?_⟩
    rw [write, toList_writeString] at hf ⊢
    obtain ⟨fuel, rfl⟩ : ∃ k, fuel = k + 1 := ⟨fuel - 1, by rw [List.length_cons] at hf; omega⟩
    rw [List.cons_append, List.append_assoc, List.singleton_append, scanValue]
    simp [scanText_written, bind, Except.bind, pure, Except.pure]
  | @array items _ ih =>
    cases items with
    | nil =>
      refine ⟨⟨'[', [']'], rfl, by simp⟩, fun fuel rest hf => ?_⟩
      obtain ⟨fuel, rfl⟩ : ∃ k, fuel = k + 1 := ⟨fuel - 1, by simp [write] at hf; omega⟩
      rfl
    | cons w items =>
      refine ⟨⟨_, _, toList_write_array w items, by simp⟩, fun fuel rest hf => ?_⟩
      rw [toList_write_array] at hf ⊢
      simp only [List.length_cons, List.length_append] at hf
      obtain ⟨fuel, rfl⟩ : ∃ k, fuel = k + 1 := ⟨fuel - 1, by omega⟩
      have hs := scanItems_write ih fuel rest (by omega)
      obtain ⟨c, text, hw, hc⟩ := (ih w List.mem_cons_self).opens
      rw [List.cons_append, List.append_assoc, List.singleton_append]
      exact scanValue_array ⟨c, text ++ (writeItems items).toList ++ ']' :: rest, by rw [hw]; rfl, hc⟩ hs
  | @object fields hn _ ih =>
    cases fields with
    | nil =>
      refine ⟨⟨'\x7b', ['\x7d'], rfl, by simp⟩, fun fuel rest hf => ?_⟩
      obtain ⟨fuel, rfl⟩ : ∃ k, fuel = k + 1 := ⟨fuel - 1, by simp [write] at hf; omega⟩
      rfl
    | cons f fields =>
      obtain ⟨key, w⟩ := f
      refine ⟨⟨_, _, toList_write_object key w fields, by simp⟩, fun fuel rest hf => ?_⟩
      rw [toList_write_object] at hf ⊢
      simp only [List.length_cons, List.length_append] at hf
      obtain ⟨fuel, rfl⟩ : ∃ k, fuel = k + 1 := ⟨fuel - 1, by omega⟩
      have hn' : (([] ++ (key, w) :: fields).map Prod.fst).Nodup := hn
      have hw : ReadsBack w := ih (key, w) List.mem_cons_self
      have hs := scanFields_write hw (fun f hf => ih f (List.mem_cons_of_mem _ hf)) hn' fuel rest (by omega)
      simp only [toList_writeString, List.cons_append, List.append_assoc, List.nil_append] at hs ⊢
      exact scanValue_object hs

/-- **What is written of strings, lists and objects reads back.** -/
theorem Verbal.read_write (h : Verbal v) : read v.write = .ok v := by
  have hr := h.readsBack
  have hscan := hr.scan (2 * v.write.toList.length + 2) [] (by omega)
  have hskip := hr.skipSpace_write []
  rw [List.append_nil] at hscan hskip
  obtain ⟨c, text, hw, hc⟩ := hr.opens
  have hbom : c ≠ '\uFEFF' := by
    rintro rfl
    simp at hc
  unfold read readChars
  rw [hw] at hscan hskip ⊢
  split
  · next heq => exact absurd (List.cons.inj heq).1 hbom
  · rw [hskip, hscan]
    rfl

/-! ## The characters of a written text -/

theorem le_toNat_of_mem_stringChar {c d : Char} (h : d ∈ stringChar c) : 32 ≤ d.toNat := by
  have hpair : ∀ e : Char, 32 ≤ e.toNat → d ∈ ['\x5c', e] → 32 ≤ d.toNat := by
    intro e he hd
    rcases List.mem_pair.mp hd with rfl | rfl
    · decide
    · exact he
  unfold stringChar at h
  split_ifs at h with _ _ _ _ _ _ _ hlow
  · exact hpair _ (by decide) h
  · exact hpair _ (by decide) h
  · exact hpair _ (by decide) h
  · exact hpair _ (by decide) h
  · exact hpair _ (by decide) h
  · exact hpair _ (by decide) h
  · exact hpair _ (by decide) h
  · rw [hexDigits_four (by omega)] at h
    simp only [List.mem_cons, List.not_mem_nil, or_false] at h
    rcases h with rfl | rfl | rfl | rfl | rfl | rfl
    · decide
    · decide
    · exact Text.toNat_hexDigit (by omega)
    · exact Text.toNat_hexDigit (by omega)
    · exact Text.toNat_hexDigit (by omega)
    · exact Text.toNat_hexDigit (by omega)
  · obtain rfl := List.mem_singleton.mp h
    omega

theorem le_toNat_of_mem_writeString {s : String} {c : Char} (h : c ∈ (writeString s).toList) : 32 ≤ c.toNat := by
  rw [toList_writeString] at h
  simp only [List.mem_cons, List.mem_append, List.mem_flatMap, List.not_mem_nil, or_false] at h
  rcases h with rfl | ⟨d, -, hd⟩ | rfl
  · decide
  · exact le_toNat_of_mem_stringChar hd
  · decide

/-- **No character below the space is written**, so what is written is one line. -/
theorem Verbal.le_toNat_of_mem_write (h : Verbal v) : ∀ c ∈ v.write.toList, 32 ≤ c.toNat := by
  have hstring : ∀ s : String, ∀ c ∈ (writeString s).toList, 32 ≤ c.toNat :=
    fun s c hc => le_toNat_of_mem_writeString hc
  induction h with
  | string s => exact hstring s
  | @array items _ ih =>
    have hitems : ∀ items : List Json, (∀ w ∈ items, ∀ c ∈ w.write.toList, 32 ≤ c.toNat) →
        ∀ c ∈ (writeItems items).toList, 32 ≤ c.toNat := by
      intro items h
      induction items with
      | nil => simp [writeItems]
      | cons w items ih =>
        rw [List.forall_mem_cons] at h
        simp only [toList_writeItems_cons, List.forall_mem_cons, List.forall_mem_append]
        exact ⟨by decide, by decide, h.1, ih h.2⟩
    cases items with
    | nil => simp [write]
    | cons w items =>
      rw [List.forall_mem_cons] at ih
      simp only [toList_write_array, List.forall_mem_cons, List.forall_mem_append]
      exact ⟨by decide, ⟨ih.1, hitems items ih.2⟩, by decide, by simp⟩
  | @object fields _ _ ih =>
    have hfields : ∀ fields : List (String × Json), (∀ f ∈ fields, ∀ c ∈ f.2.write.toList, 32 ≤ c.toNat) →
        ∀ c ∈ (writeFields fields).toList, 32 ≤ c.toNat := by
      intro fields h
      induction fields with
      | nil => simp [writeFields]
      | cons f fields ih =>
        obtain ⟨key, w⟩ := f
        rw [List.forall_mem_cons] at h
        simp only [toList_writeFields_cons, List.forall_mem_cons, List.forall_mem_append]
        exact ⟨by decide, by decide, hstring key, by decide, by decide, h.1, ih h.2⟩
    cases fields with
    | nil => simp [write]
    | cons f fields =>
      obtain ⟨key, w⟩ := f
      rw [List.forall_mem_cons] at ih
      simp only [toList_write_object, List.forall_mem_cons, List.forall_mem_append]
      exact ⟨by decide, ⟨hstring key, by decide, by decide, ih.1, hfields fields ih.2⟩, by decide, by simp⟩

end Json

namespace Record

open Json (Verbal)

/-! ## Records -/

theorem verbal_nullary (tag : Tag) : Verbal (nullary tag) := by
  refine .object (by simp) fun f hf => ?_
  obtain rfl := List.mem_singleton.mp hf
  exact .string _

theorem verbal_tagged (tag : Tag) {contents : Json} (h : Verbal contents) : Verbal (tagged tag contents) := by
  refine .object (by simp) fun f hf => ?_
  rcases List.mem_pair.mp hf with rfl | rfl
  · exact .string _
  · exact h

theorem verbal_ofTy (ty : Ty) : Verbal (ofTy ty) := by
  induction ty with
  | unit | bool => exact verbal_nullary _
  | arrow d c ihd ihc => exact verbal_tagged _ (.array (by simp [ihd, ihc]))

theorem verbal_ofTerm (t : Term) : Verbal (ofTerm t) := by
  induction t with
  | unit | bool => exact verbal_nullary _
  | var x => exact verbal_tagged _ (.string x)
  | abs x ty body ih => exact verbal_tagged _ (.array (by simp [Verbal.string, verbal_ofTy, ih]))
  | cond g a b ihg iha ihb => exact verbal_tagged _ (.array (by simp [ihg, iha, ihb]))
  | app f a ihf iha => exact verbal_tagged _ (.array (by simp [ihf, iha]))

theorem verbal_ofDatum (v : Datum) : Verbal (ofDatum v) := by
  cases v with
  | term t => exact verbal_ofTerm t
  | type ty => exact verbal_ofTy ty

theorem read_toText (v : Datum) : Json.read (toText v) = .ok (ofDatum v) := (verbal_ofDatum v).read_write

theorem ofText_toText (v : Datum) : ofText (toText v) = .ok v := by
  rw [ofText, read_toText]
  simp [decode_ofDatum, Except.mapError]

theorem termOfLine_toText (t : Term) : termOfLine (toText (.term t)) = .ok t := by
  rw [termOfLine, ofText_toText]

/-- A text of a record begins and ends with a brace. -/
theorem exists_toText (v : Datum) : ∃ inner, (toText v).toList = '\x7b' :: (inner ++ ['\x7d']) := by
  have hobject : ∃ key w fields, ofDatum v = .object ((key, w) :: fields) := by
    rcases v with (_ | _ | _ | _ | _ | _) | (_ | _ | _) <;> exact ⟨_, _, _, rfl⟩
  obtain ⟨key, w, fields, h⟩ := hobject
  exact ⟨_, by rw [toText, h, Json.toList_write_object]⟩

theorem toText_ne_empty (v : Datum) : toText v ≠ "" := by
  obtain ⟨inner, hi⟩ := exists_toText v
  intro h
  rw [h] at hi
  cases hi

/-- A term or type is on one line. -/
theorem le_toNat_of_mem_toText (v : Datum) : ∀ c ∈ (toText v).toList, 32 ≤ c.toNat :=
  (verbal_ofDatum v).le_toNat_of_mem_write

/-- With blanks around it, the text of a record is what is on its line. -/
theorem content_of_margins (left right : List Char) (hl : ∀ c ∈ left, Text.isBlank c = true)
    (hr : ∀ c ∈ right, Text.isBlank c = true) (v : Datum) :
    Batch.content (String.ofList (left ++ (toText v).toList ++ right)) = toText v := by
  obtain ⟨inner, hi⟩ := exists_toText v
  have htrim : Text.trim (String.ofList (left ++ (toText v).toList ++ right)) = toText v := by
    have hfirst : ∀ c ∈ (toText v).toList.head?, Text.isBlank c = false := by
      rw [hi]
      simp [Text.isBlank]
    have hlast : ∀ c ∈ (toText v).toList.getLast?, Text.isBlank c = false := by
      rw [hi, ← List.cons_append, List.getLast?_concat]
      simp [Text.isBlank]
    rw [Text.trim, String.toList_ofList, Text.trimChars_of_margins hl hr (by simp [hi]) hfirst hlast,
      String.ofList_toList]
  have hcomment : Batch.commentMark.toList.isPrefixOf (toText v).toList = false := by
    rw [hi]
    rfl
  rw [Batch.content]
  simp only [htrim, hcomment, Bool.false_eq_true, if_false]

theorem content_toText (v : Datum) : Batch.content (toText v) = toText v := by
  have h := content_of_margins [] [] (by simp) (by simp) v
  simpa using h

/-- **A term or type is written on one line and reads back**, whatever its names are.  The line has no line end in it,
it begins and ends with a brace, and it is neither blank nor a comment nor does it lose a character at either end. -/
theorem written_on_one_line (v : Datum) :
    ofText (toText v) = .ok v ∧
    '\n' ∉ (toText v).toList ∧ '\r' ∉ (toText v).toList ∧
    (∃ inner, (toText v).toList = '\x7b' :: (inner ++ ['\x7d'])) ∧
    Batch.content (toText v) = toText v ∧ Batch.content (toText v) ≠ "" := by
  refine ⟨ofText_toText v, fun h => ?_, fun h => ?_, exists_toText v, content_toText v, ?_⟩
  · have := le_toNat_of_mem_toText v _ h
    revert this
    decide
  · have := le_toNat_of_mem_toText v _ h
    revert this
    decide
  · rw [content_toText]
    exact toText_ne_empty v

end Record

end SimplyTyped
