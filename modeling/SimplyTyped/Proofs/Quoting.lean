import Mathlib
import SimplyTyped.Proofs.TextForm
import SimplyTyped.Text.Quoted

/-!
# SimplyTyped.Proofs.Quoting — quoted text can be told from what follows it

A quoted character is read back off the front of any text (`firstChar?_quotedChar`): an escape says by its letter how
many digits follow, and they are as many as the code point needs.  No quoted character begins with the delimiter, so the
first delimiter ends the quoted text, whatever is in it (`delimitedAt_quotedChars`).  All characters of quoted text are
printable, so it breaks no line.
-/

namespace SimplyTyped.Text

/-- Where the text of a value stands, whatever follows it: no other value has a text that could stand there, and it is
known where the text ends. -/
def DelimitedAt {α : Type} (text : α → List Char) (x : α) : Prop :=
  ∀ ⦃y r s⦄, text x ++ r = text y ++ s → x = y ∧ r = s

/-- A row of texts with a separator between them is delimited when the texts are and their number is known. -/
theorem delimitedAt_intercalate {α : Type} {text : α → List Char} (sep : List Char) {xs ys : List α} {r s : List Char}
    (hx : ∀ x ∈ xs, DelimitedAt text x) (hlength : xs.length = ys.length)
    (h : sep.intercalate (xs.map text) ++ r = sep.intercalate (ys.map text) ++ s) : xs = ys ∧ r = s := by
  induction xs generalizing ys with
  | nil =>
    obtain rfl := List.length_eq_zero_iff.mp hlength.symm
    exact ⟨rfl, h⟩
  | cons x xs ih =>
    obtain ⟨y, ys, rfl⟩ := List.exists_cons_of_length_eq_add_one hlength.symm
    rw [List.forall_mem_cons] at hx
    have hrest : xs.length = ys.length := Nat.succ.inj hlength
    cases xs with
    | nil =>
      obtain rfl := List.length_eq_zero_iff.mp hrest.symm
      obtain ⟨rfl, hr⟩ := hx.1 (by simpa [List.intercalate] using h)
      exact ⟨rfl, hr⟩
    | cons x' xs =>
      obtain ⟨y', ys, rfl⟩ := List.exists_cons_of_length_eq_add_one hrest.symm
      simp only [List.map_cons, List.intercalate_cons_cons, List.append_assoc] at h
      obtain ⟨rfl, hbehind⟩ := hx.1 h
      obtain ⟨hxs, hr⟩ := ih hx.2 hrest (List.append_cancel_left hbehind)
      exact ⟨by rw [hxs], hr⟩

/-! ## Digits -/

/-- The number that hexadecimal digits stand for. -/
def ofHex (digits : List Char) : Nat := digits.foldl (fun n d => 16 * n + (hexValue? d).getD 0) 0

theorem length_hexDigits (width n : Nat) : (hexDigits width n).length = width := by
  induction width generalizing n with
  | zero => rfl
  | succ width ih => simp [hexDigits, ih]

theorem ofHex_hexDigits (width n : Nat) : ofHex (hexDigits width n) = n % 16 ^ width := by
  induction width generalizing n with
  | zero => simp [hexDigits, ofHex, Nat.mod_one]
  | succ width ih =>
    have hlast : (hexValue? (hexDigit (n % 16))).getD 0 = n % 16 := by
      rw [hexValue?_hexDigit (Nat.mod_lt n (by decide)), Option.getD_some]
    rw [hexDigits, ofHex, List.foldl_append, ← ofHex, ih, List.foldl_cons, List.foldl_nil, hlast, Nat.pow_succ,
      Nat.mul_comm (16 ^ width), Nat.mod_mul, Nat.add_comm]

/-! ## Characters -/

/-- The character whose code point is written in the first digits of a text, and what follows them. -/
def codedChar (width : Nat) (text : List Char) : Char × List Char :=
  (Char.ofNat (ofHex (text.take width)), text.drop width)

/-- The first character of quoted text, and what follows it. -/
def firstChar? : List Char → Option (Char × List Char)
  | [] => none
  | c :: rest =>
    if c = backslash then
      match rest with
      | [] => none
      | e :: rest =>
        if e = 'n' then some ('\n', rest)
        else if e = 'r' then some ('\r', rest)
        else if e = 't' then some ('\t', rest)
        else if e = 'x' then some (codedChar 2 rest)
        else if e = 'u' then some (codedChar 4 rest)
        else if e = 'U' then some (codedChar 8 rest)
        else some (e, rest)
    else some (c, rest)

variable {delimiter c c' : Char} {text rest rest' : List Char}

theorem delimiterFor_eq (text : List Char) : delimiterFor text = singleQuote ∨ delimiterFor text = doubleQuote := by
  unfold delimiterFor
  split
  · exact .inr rfl
  · exact .inl rfl

theorem toNat_lt (c : Char) : c.toNat < 16 ^ 8 := by
  have h := c.valid
  simp only [UInt32.isValidChar, Nat.isValidChar] at h
  simp only [Char.toNat]
  omega

theorem codedChar_hexDigits {width : Nat} (h : c.toNat < 16 ^ width) (rest : List Char) :
    codedChar width (hexDigits width c.toNat ++ rest) = (c, rest) := by
  have hlength := length_hexDigits width c.toNat
  rw [codedChar, List.take_left' hlength, List.drop_left' hlength, ofHex_hexDigits, Nat.mod_eq_of_lt h,
    Char.ofNat_toNat]

/-- **A quoted character is read back**, whatever follows it. -/
theorem firstChar?_quotedChar (hd : delimiter = singleQuote ∨ delimiter = doubleQuote) (c : Char) (rest : List Char) :
    firstChar? (quotedChar delimiter c ++ rest) = some (c, rest) := by
  unfold quotedChar
  split_ifs with hself hn hr ht hp
  · -- a delimiter or a backslash behind a backslash; no letter of an escape is one of these
    have hc : c = singleQuote ∨ c = doubleQuote ∨ c = backslash := by
      rcases hself with rfl | rfl
      · exact hd.imp_right .inl
      · exact .inr (.inr rfl)
    rcases hc with rfl | rfl | rfl <;> rfl
  · subst hn
    rfl
  · subst hr
    rfl
  · subst ht
    rfl
  · exact if_neg fun h => hself (.inr h)
  · unfold hexEscape
    split_ifs with h2 h4
    · exact congrArg some (codedChar_hexDigits h2 rest)
    · exact congrArg some (codedChar_hexDigits h4 rest)
    · exact congrArg some (codedChar_hexDigits (toNat_lt c) rest)

theorem delimitedAt_quotedChar (hd : delimiter = singleQuote ∨ delimiter = doubleQuote) (c : Char) :
    DelimitedAt (quotedChar delimiter) c := by
  intro c' rest rest' h
  have hfirst := congrArg firstChar? h
  rw [firstChar?_quotedChar hd, firstChar?_quotedChar hd, Option.some.injEq, Prod.mk.injEq] at hfirst
  exact hfirst

/-- No quoted character begins with the delimiter. -/
theorem quotedChar_append_ne (hd : delimiter = singleQuote ∨ delimiter = doubleQuote) (c : Char)
    (rest rest' : List Char) : quotedChar delimiter c ++ rest ≠ delimiter :: rest' := by
  have hb : backslash ≠ delimiter := by rcases hd with rfl | rfl <;> decide
  have hne : ∀ {e : Char} {tail : List Char}, e ≠ delimiter → e :: tail ++ rest ≠ delimiter :: rest' :=
    fun he h => he (List.cons.inj h).1
  unfold quotedChar
  split_ifs with hself
  · exact hne hb
  · exact hne hb
  · exact hne hb
  · exact hne hb
  · exact hne fun h => hself (.inl h)
  · unfold hexEscape
    split_ifs
    · exact hne hb
    · exact hne hb
    · exact hne hb

/-! ## Texts -/

theorem flatMap_quotedChar_append_inj (hd : delimiter = singleQuote ∨ delimiter = doubleQuote) {x y : List Char}
    (h : x.flatMap (quotedChar delimiter) ++ delimiter :: rest =
      y.flatMap (quotedChar delimiter) ++ delimiter :: rest') :
    x = y ∧ rest = rest' := by
  induction x generalizing y with
  | nil =>
    cases y with
    | nil => exact ⟨rfl, (List.cons.inj h).2⟩
    | cons c y =>
      rw [List.flatMap_cons, List.append_assoc] at h
      exact absurd h.symm (quotedChar_append_ne hd c _ _)
  | cons c x ih =>
    rw [List.flatMap_cons, List.append_assoc] at h
    cases y with
    | nil => exact absurd h (quotedChar_append_ne hd c _ _)
    | cons c' y =>
      rw [List.flatMap_cons, List.append_assoc] at h
      obtain ⟨rfl, hbehind⟩ := delimitedAt_quotedChar hd c h
      obtain ⟨rfl, hrest⟩ := ih hbehind
      exact ⟨rfl, hrest⟩

theorem quotedChars_append (text rest : List Char) :
    quotedChars text ++ rest =
      delimiterFor text :: (text.flatMap (quotedChar (delimiterFor text)) ++ delimiterFor text :: rest) := by
  simp [quotedChars]

/-- **Quoted text ends at its delimiter and says what was quoted.** -/
theorem delimitedAt_quotedChars (text : List Char) : DelimitedAt quotedChars text := by
  intro y r s h
  rw [quotedChars_append, quotedChars_append] at h
  obtain ⟨hd, hbehind⟩ := List.cons.inj h
  rw [← hd] at hbehind
  exact flatMap_quotedChar_append_inj (delimiterFor_eq text) hbehind

theorem mem_hexDigits {width n : Nat} (h : c ∈ hexDigits width n) : ∃ d < 16, c = hexDigit d := by
  induction width generalizing n with
  | zero => cases h
  | succ width ih =>
    rcases List.mem_append.mp h with h | h
    · exact ih h
    · exact ⟨n % 16, Nat.mod_lt n (by decide), List.mem_singleton.mp h⟩

theorem isPrintable_hexDigit {d : Nat} (h : d < 16) : isPrintable (hexDigit d) = true := by
  revert d
  decide

theorem isPrintable_of_mem_quotedChar (hd : delimiter = singleQuote ∨ delimiter = doubleQuote)
    (h : c ∈ quotedChar delimiter c') : isPrintable c = true := by
  have hpair : ∀ e, isPrintable e = true → c ∈ [backslash, e] → isPrintable c = true := by
    intro e he hc
    rcases List.mem_pair.mp hc with rfl | rfl
    · decide
    · exact he
  have hhex : ∀ e width, isPrintable e = true → c ∈ backslash :: e :: hexDigits width c'.toNat →
      isPrintable c = true := by
    intro e width he hc
    rcases List.mem_append.mp (show c ∈ [backslash, e] ++ _ from hc) with hc | hc
    · exact hpair e he hc
    · obtain ⟨d, hlt, rfl⟩ := mem_hexDigits hc
      exact isPrintable_hexDigit hlt
  unfold quotedChar at h
  split_ifs at h with hself hn hr ht hp
  · refine hpair c' ?_ h
    rcases hself with rfl | rfl
    · rcases hd with rfl | rfl <;> decide
    · decide
  · exact hpair 'n' (by decide) h
  · exact hpair 'r' (by decide) h
  · exact hpair 't' (by decide) h
  · rw [List.mem_singleton.mp h, hp]
  · unfold hexEscape at h
    split_ifs at h
    · exact hhex 'x' 2 (by decide) h
    · exact hhex 'u' 4 (by decide) h
    · exact hhex 'U' 8 (by decide) h

/-- **All of quoted text is printable.** -/
theorem all_isPrintable_quotedChars (text : List Char) : (quotedChars text).all isPrintable = true := by
  have hd := delimiterFor_eq text
  have hdelimiter : isPrintable (delimiterFor text) = true := by rcases hd with h | h <;> rw [h] <;> decide
  refine List.all_eq_true.mpr fun c h => ?_
  simp only [quotedChars, List.mem_cons, List.mem_append, List.mem_flatMap, List.not_mem_nil, or_false] at h
  rcases h with rfl | ⟨c', -, h⟩ | rfl
  · exact hdelimiter
  · exact isPrintable_of_mem_quotedChar hd h
  · exact hdelimiter

end SimplyTyped.Text
