import Mathlib
import SimplyTyped.Text.Lines

/-!
# SimplyTyped.Proofs.FileText — a text stored as UTF-8 is read back, and its lines are those that were joined

The bytes of a character lead the decoder from one start of a character to the next (`Utf8.decodeFrom_encodeChar`), so
the decoder gives back every text (`Utf8.decode_encode`).  A text is cut where its line ends are, and nowhere else: the
characters of a line may be any others (`Text.lines_joined`).
-/

namespace SimplyTyped

namespace Utf8

variable {b : UInt8} {p : Pending} {rest : List UInt8}

/-- The bytes of a text. -/
def encode (text : List Char) : List UInt8 := text.flatMap String.utf8EncodeChar

/-! ## One byte -/

theorem decodeFrom_ascii (h : b.toNat < 0x80) (position : Nat) (rest : List UInt8) :
    decodeFrom position none (b :: rest) = (decodeFrom (position + 1) none rest).cons (Char.ofNat b.toNat) :=
  if_pos (UInt8.lt_iff_toNat_lt.mpr h)

theorem decodeFrom_lead (hb : 0x80 ≤ b.toNat) (h : lead? b = some p) (position : Nat) (rest : List UInt8) :
    decodeFrom position none (b :: rest) = decodeFrom (position + 1) (some p) rest := by
  have hb' : ¬b < 0x80 := fun hlt => absurd (UInt8.lt_iff_toNat_lt.mp hlt) (Nat.not_lt.mpr hb)
  rw [decodeFrom, if_neg hb', h]

theorem decodeFrom_more (hb : p.low ≤ b ∧ b ≤ p.high) (hm : 1 < p.missing) (position : Nat) (rest : List UInt8) :
    decodeFrom position (some p) (b :: rest) = decodeFrom (position + 1) (some (p.extend b)) rest := by
  have hm' : (p.extend b).missing ≠ 0 := Nat.sub_ne_zero_of_lt hm
  rw [decodeFrom, if_pos hb, if_neg hm']

theorem decodeFrom_last (hb : p.low ≤ b ∧ b ≤ p.high) (hm : p.missing = 1) (position : Nat) (rest : List UInt8) :
    decodeFrom position (some p) (b :: rest) =
      (decodeFrom (position + 1) none rest).cons (Char.ofNat (p.code * 64 + (b.toNat - 0x80))) := by
  have hm' : (p.extend b).missing = 0 := by rw [Pending.extend, hm]
  rw [decodeFrom, if_pos hb, if_pos hm']
  rfl

theorem lead?_two (h : 0xC2 ≤ b.toNat) (h' : b.toNat ≤ 0xDF) :
    lead? b = some ⟨[b], 1, 0x80, 0xBF, b.toNat - 0xC0⟩ :=
  if_pos ⟨UInt8.le_iff_toNat_le.mpr h, UInt8.le_iff_toNat_le.mpr h'⟩

theorem lead?_three (h : 0xE0 ≤ b.toNat) (h' : b.toNat ≤ 0xEF) :
    lead? b = some ⟨[b], 2, if b = 0xE0 then 0xA0 else 0x80, if b = 0xED then 0x9F else 0xBF, b.toNat - 0xE0⟩ := by
  have htwo : ¬(0xC2 ≤ b ∧ b ≤ 0xDF) := fun hc => absurd (UInt8.le_iff_toNat_le.mp hc.2) (by simp; omega)
  rw [lead?, if_neg htwo, if_pos ⟨UInt8.le_iff_toNat_le.mpr h, UInt8.le_iff_toNat_le.mpr h'⟩]

theorem lead?_four (h : 0xF0 ≤ b.toNat) (h' : b.toNat ≤ 0xF4) :
    lead? b = some ⟨[b], 3, if b = 0xF0 then 0x90 else 0x80, if b = 0xF4 then 0x8F else 0xBF, b.toNat - 0xF0⟩ := by
  have htwo : ¬(0xC2 ≤ b ∧ b ≤ 0xDF) := fun hc => absurd (UInt8.le_iff_toNat_le.mp hc.2) (by simp; omega)
  have hthree : ¬(0xE0 ≤ b ∧ b ≤ 0xEF) := fun hc => absurd (UInt8.le_iff_toNat_le.mp hc.2) (by simp; omega)
  rw [lead?, if_neg htwo, if_neg hthree, if_pos ⟨UInt8.le_iff_toNat_le.mpr h, UInt8.le_iff_toNat_le.mpr h'⟩]

/-! ## One character -/

theorem toNat_ofNat {n : Nat} (h : n < 256) : (UInt8.ofNat n).toNat = n := UInt8.toNat_ofNat_of_lt' h

/-- A byte behind the first two of a character is always within its bounds. -/
theorem tail_within (n : Nat) : 0x80 ≤ UInt8.ofNat (n % 64 + 128) ∧ UInt8.ofNat (n % 64 + 128) ≤ 0xBF := by
  have hn : (UInt8.ofNat (n % 64 + 128)).toNat = n % 64 + 128 := toNat_ofNat (by omega)
  refine ⟨UInt8.le_iff_toNat_le.mpr ?_, UInt8.le_iff_toNat_le.mpr ?_⟩
  · show 128 ≤ _
    omega
  · show _ ≤ 191
    omega

/-- The byte behind the first of three is within its narrower bounds, for no surrogate is a character and none has
more bytes than it needs. -/
theorem second_of_three_within {n : Nat} (hlow : 0x800 ≤ n) (hhigh : n < 0xD800 ∨ 0xDFFF < n) (htop : n < 0x10000)
    (hb : b.toNat = n / 4096 % 16 + 224) :
    (if b = 0xE0 then 0xA0 else 0x80) ≤ UInt8.ofNat (n / 64 % 64 + 128) ∧
      UInt8.ofNat (n / 64 % 64 + 128) ≤ (if b = 0xED then 0x9F else 0xBF) := by
  have hn : (UInt8.ofNat (n / 64 % 64 + 128)).toNat = n / 64 % 64 + 128 := toNat_ofNat (by omega)
  constructor
  · split
    · next h =>
      have : b.toNat = 224 := congrArg UInt8.toNat h
      refine UInt8.le_iff_toNat_le.mpr (?_ : 160 ≤ _)
      omega
    · exact (tail_within _).1
  · split
    · next h =>
      have : b.toNat = 237 := congrArg UInt8.toNat h
      refine UInt8.le_iff_toNat_le.mpr (?_ : _ ≤ 159)
      omega
    · exact (tail_within _).2

/-- The same for the byte behind the first of four, for no character is beyond the last. -/
theorem second_of_four_within {n : Nat} (hlow : 0x10000 ≤ n) (htop : n < 0x110000)
    (hb : b.toNat = n / 262144 % 8 + 240) :
    (if b = 0xF0 then 0x90 else 0x80) ≤ UInt8.ofNat (n / 4096 % 64 + 128) ∧
      UInt8.ofNat (n / 4096 % 64 + 128) ≤ (if b = 0xF4 then 0x8F else 0xBF) := by
  have hn : (UInt8.ofNat (n / 4096 % 64 + 128)).toNat = n / 4096 % 64 + 128 := toNat_ofNat (by omega)
  constructor
  · split
    · next h =>
      have : b.toNat = 240 := congrArg UInt8.toNat h
      refine UInt8.le_iff_toNat_le.mpr (?_ : 144 ≤ _)
      omega
    · exact (tail_within _).1
  · split
    · next h =>
      have : b.toNat = 244 := congrArg UInt8.toNat h
      refine UInt8.le_iff_toNat_le.mpr (?_ : _ ≤ 143)
      omega
    · exact (tail_within _).2

/-- **The bytes of a character are read as that character.** -/
theorem decodeFrom_encodeChar (c : Char) (position : Nat) (rest : List UInt8) :
    decodeFrom position none (String.utf8EncodeChar c ++ rest) =
      (decodeFrom (position + (String.utf8EncodeChar c).length) none rest).cons c := by
  obtain ⟨n, hn⟩ : ∃ n, n = c.toNat := ⟨_, rfl⟩
  have hvalid : n < 0xD800 ∨ 0xDFFF < n ∧ n < 0x110000 := hn ▸ c.valid
  have htail : ∀ m, (UInt8.ofNat (m % 64 + 128)).toNat = m % 64 + 128 := fun m => toNat_ofNat (by omega)
  have hchar : ∀ m, m = n → Char.ofNat m = c := by
    rintro m rfl
    rw [hn, Char.ofNat_toNat]
  rw [String.utf8EncodeChar.eq_1, show c.val.toNat = n from hn.symm]
  split_ifs with h₁ h₂ h₃
  · have hb : (UInt8.ofNat n).toNat = n := toNat_ofNat (by omega)
    refine (decodeFrom_ascii (by omega) position rest).trans ?_
    rw [hchar _ hb]
    rfl
  · have hb : (UInt8.ofNat (n / 64 % 32 + 192)).toNat = n / 64 % 32 + 192 := toNat_ofNat (by omega)
    generalize UInt8.ofNat (n / 64 % 32 + 192) = b at hb ⊢
    refine (decodeFrom_lead (by omega) (lead?_two (by omega) (by omega)) position _).trans ?_
    refine (decodeFrom_last (tail_within n) rfl _ rest).trans ?_
    dsimp only
    rw [htail, hb, hchar _ (by omega)]
    rfl
  · have hb : (UInt8.ofNat (n / 4096 % 16 + 224)).toNat = n / 4096 % 16 + 224 := toNat_ofNat (by omega)
    generalize UInt8.ofNat (n / 4096 % 16 + 224) = b at hb ⊢
    have hsecond := second_of_three_within (by omega) (by omega) (by omega) hb
    refine (decodeFrom_lead (by omega) (lead?_three (by omega) (by omega)) position _).trans ?_
    refine Eq.trans (decodeFrom_more hsecond (Nat.lt_succ_self 1) _ _) ?_
    refine Eq.trans (decodeFrom_last (tail_within n) rfl _ rest) ?_
    dsimp only [Pending.extend]
    rw [htail, htail, hb, hchar _ (by omega)]
    rfl
  · have hb : (UInt8.ofNat (n / 262144 % 8 + 240)).toNat = n / 262144 % 8 + 240 := toNat_ofNat (by omega)
    generalize UInt8.ofNat (n / 262144 % 8 + 240) = b at hb ⊢
    have hsecond := second_of_four_within (by omega) (by omega) hb
    refine Eq.trans (decodeFrom_lead (by omega) (lead?_four (by omega) (by omega)) position _) ?_
    refine Eq.trans (decodeFrom_more hsecond (by simp) _ _) ?_
    refine Eq.trans (decodeFrom_more (tail_within (n / 64)) (by simp [Pending.extend]) _ _) ?_
    refine Eq.trans (decodeFrom_last (tail_within n) rfl _ rest) ?_
    dsimp only [Pending.extend]
    rw [htail, htail, htail, hb, hchar _ (by omega)]
    rfl

/-- **A text is read back from its bytes.** -/
theorem decode_encode (text : List Char) : decode (encode text) = ⟨text, .complete⟩ := by
  have hfrom : ∀ position, decodeFrom position none (encode text) = ⟨text, .complete⟩ := by
    induction text with
    | nil => exact fun position => rfl
    | cons c text ih =>
      intro position
      rw [encode, List.flatMap_cons, decodeFrom_encodeChar]
      exact congrArg (Decoded.cons c) (ih _)
  exact hfrom 0

end Utf8

namespace Text

/-! ## Lines -/

/-- What ends a line. -/
inductive LineEnd where
  | lf
  | crlf
  | cr
  deriving DecidableEq

/-- The characters of a line end. -/
def LineEnd.chars : LineEnd → List Char
  | lf => ['\n']
  | crlf => ['\r', '\n']
  | cr => ['\r']

/-- Lines with line ends between them, and one behind the last when that is closed. -/
def joined (e : LineEnd) (closed : Bool) : List (List Char) → List Char
  | [] => []
  | [line] => line ++ if closed then e.chars else []
  | line :: rest => line ++ (e.chars ++ joined e closed rest)

/-- A text within one line. -/
def OneLine (text : List Char) : Prop := '\n' ∉ text ∧ '\r' ∉ text

instance (text : List Char) : Decidable (OneLine text) := inferInstanceAs (Decidable (_ ∧ _))

variable {c : Char} {line text : List Char} {e : LineEnd} {closed : Bool} {ls : List (List Char)}

theorem oneLine_cons : OneLine (c :: line) ↔ (c ≠ '\n' ∧ c ≠ '\r') ∧ OneLine line := by
  simp only [OneLine, List.mem_cons, not_or, eq_comm]
  tauto

theorem lines_cons (hn : c ≠ '\n') (hr : c ≠ '\r') (text : List Char) :
    lines (c :: text) = consLine c (lines text) := by
  rw [lines]
  · simp [hn, hr]
  · rintro rest rfl
    exact absurd rfl hr

theorem lines_end (h : e = .cr → '\n' ∉ text.head?) : lines (e.chars ++ text) = [] :: lines text := by
  cases e with
  | lf => simp [LineEnd.chars, lines]
  | crlf => simp [LineEnd.chars, lines]
  | cr =>
    rw [show LineEnd.cr.chars ++ text = '\r' :: text from rfl, lines]
    · simp
    · rintro rest - rfl
      exact h rfl rfl

/-- The characters of a line up to its end are one line, whatever follows. -/
theorem lines_line (hl : OneLine line) (h : e = .cr → '\n' ∉ text.head?) :
    lines (line ++ (e.chars ++ text)) = line :: lines text := by
  induction line with
  | nil => exact lines_end h
  | cons c line ih =>
    obtain ⟨⟨hn, hr⟩, hl⟩ := oneLine_cons.mp hl
    rw [List.cons_append, lines_cons hn hr, ih hl]
    rfl

/-- Text without a line end is a line unless it is empty. -/
theorem lines_open (hl : OneLine line) : lines line = if line = [] then [] else [line] := by
  induction line with
  | nil => simp [lines]
  | cons c line ih =>
    obtain ⟨⟨hn, hr⟩, hl⟩ := oneLine_cons.mp hl
    rw [lines_cons hn hr, ih hl]
    by_cases h : line = [] <;> simp [h, consLine]

theorem notMem_joined_cr (hls : ∀ line ∈ ls, OneLine line) : '\n' ∉ joined .cr closed ls := by
  induction ls with
  | nil => simp [joined]
  | cons line rest ih =>
    obtain ⟨hl, hrest⟩ := List.forall_mem_cons.mp hls
    cases rest with
    | nil =>
      cases closed <;> simp [joined, LineEnd.chars, hl.1]
    | cons next rest =>
      have := ih hrest
      simp [joined, LineEnd.chars, hl.1, this]

/-- **The lines of a text are those that it was joined of**, whatever other characters are in them.  Only an empty text
behind the last line end is no line. -/
theorem lines_joined (e : LineEnd) (closed : Bool) (hls : ∀ line ∈ ls, OneLine line) :
    lines (joined e closed ls) = if closed = false ∧ ls.getLast? = some [] then ls.dropLast else ls := by
  induction ls with
  | nil => simp [joined, lines]
  | cons line rest ih =>
    obtain ⟨hl, hrest⟩ := List.forall_mem_cons.mp hls
    cases rest with
    | nil =>
      cases closed with
      | false =>
        rw [joined, if_neg Bool.false_ne_true, List.append_nil, lines_open hl]
        simp
      | true =>
        have hend : e = .cr → '\n' ∉ ([] : List Char).head? := by simp
        have := lines_line hl hend
        rw [joined, if_pos rfl, if_neg (by simp)]
        simpa [lines] using this
    | cons next rest =>
      have hhead : e = .cr → '\n' ∉ (joined e closed (next :: rest)).head? := by
        rintro rfl h
        exact notMem_joined_cr hrest (List.mem_of_mem_head? h)
      rw [joined, lines_line hl hhead, ih hrest, List.getLast?_cons_cons]
      · split <;> rfl
      · simp

end Text

end SimplyTyped
