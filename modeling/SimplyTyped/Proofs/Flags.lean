import Mathlib
import SimplyTyped.CommandLine.Arguments

/-!
# SimplyTyped.Proofs.Flags — a path among flags is understood as it is meant

A number in decimal digits reads as itself (`Text.wholeNumber?_repr`), and a negative one is taken for a value and not
for an option.  So the tokens of a path and flags are those of the path and of each flag, and taking them sets what the
flags say, in their order (`CommandLine.ofArguments_flags`).
-/

namespace SimplyTyped

namespace Text

/-! ## Decimal digits -/

/-- Characters that are decimal digits. -/
def AllDigits (text : List Char) : Prop := ∀ c ∈ text, c.isDigit = true

variable {c : Char} {text : List Char}

theorem toNat_of_isDigit (h : c.isDigit = true) : 48 ≤ c.toNat ∧ c.toNat ≤ 57 := Char.isDigit_iff_toNat.mp h

theorem digitValue?_of_isDigit (h : c.isDigit = true) : digitValue? c = some (c.toNat - '0'.toNat) := by
  rw [digitValue?, if_pos (toNat_of_isDigit h)]
  rfl

theorem ne_of_isDigit {d : Char} (h : c.isDigit = true) (hd : d.isDigit = false) : c ≠ d := by
  rintro rfl
  rw [h] at hd
  cases hd

theorem isNumberBlank_of_isDigit (h : c.isDigit = true) : isNumberBlank c = false := by
  have := toNat_of_isDigit h
  simp only [isNumberBlank, isBlank, Bool.and_eq_false_iff, Bool.or_eq_false_iff, decide_eq_false_iff_not]
  omega

theorem digitsFrom?_of_allDigits (h : AllDigits text) (value : Nat) :
    digitsFrom? value text = some (Nat.ofDigitChars 10 text value) := by
  induction text generalizing value with
  | nil => rfl
  | cons c text ih =>
    obtain ⟨hc, ht⟩ := List.forall_mem_cons.mp h
    rw [digitsFrom?]
    · rw [digitValue?_of_isDigit hc]
      exact ih ht _
    · intro d rest h
      exact absurd h (ne_of_isDigit hc rfl)

theorem unsigned?_of_allDigits (hne : text ≠ []) (h : AllDigits text) :
    unsigned? text = some (Nat.ofDigitChars 10 text 0) := by
  cases text with
  | nil => exact absurd rfl hne
  | cons c text =>
    obtain ⟨hc, ht⟩ := List.forall_mem_cons.mp h
    rw [unsigned?, digitValue?_of_isDigit hc]
    dsimp only
    rw [digitsFrom?_of_allDigits ht]
    simp [Nat.ofDigitChars]

theorem dropWhile_of_forall {p : Char → Bool} (h : ∀ c ∈ text, p c = false) : text.dropWhile p = text := by
  cases text with
  | nil => rfl
  | cons c text => exact List.dropWhile_cons_of_neg (by simp [h c List.mem_cons_self])

theorem allDigits_toDigits (n : Nat) : AllDigits (Nat.toDigits 10 n) :=
  fun _ hc => Nat.isDigit_of_mem_toDigits (by decide) (by decide) hc

theorem unsigned?_toDigits (n : Nat) : unsigned? (Nat.toDigits 10 n) = some n := by
  rw [unsigned?_of_allDigits Nat.toDigits_ne_nil (allDigits_toDigits n), Nat.ofDigitChars_ten_toDigits]

/-- A whole number is its digits, behind a minus sign when it is negative. -/
theorem repr_cases (n : Int) : (∃ m : Nat, n = m ∧ n.repr.toList = Nat.toDigits 10 m) ∨
    ∃ m : Nat, n = -m ∧ n.repr.toList = '-' :: Nat.toDigits 10 m := by
  cases n with
  | ofNat m => exact .inl ⟨m, rfl, Nat.toList_repr⟩
  | negSucc m =>
    refine .inr ⟨m + 1, rfl, ?_⟩
    rw [Int.repr, String.toList_append, Nat.toList_repr]
    rfl

/-- **A whole number is read from its decimal digits.** -/
theorem wholeNumber?_repr (n : Int) : wholeNumber? n.repr = some n := by
  have hkeep : ∀ text : List Char, (∀ c ∈ text, isNumberBlank c = false) →
      ((text.dropWhile isNumberBlank).reverse.dropWhile isNumberBlank).reverse = text := by
    intro text h
    rw [dropWhile_of_forall h, dropWhile_of_forall (by simpa using h), List.reverse_reverse]
  have hblank : ∀ m : Nat, ∀ c ∈ Nat.toDigits 10 m, isNumberBlank c = false :=
    fun m c hc => isNumberBlank_of_isDigit (allDigits_toDigits m c hc)
  obtain ⟨m, rfl, htext⟩ | ⟨m, rfl, htext⟩ := repr_cases n
  · have hall := allDigits_toDigits m
    rw [wholeNumber?, htext, hkeep _ (hblank m)]
    split
    · next heq => exact absurd (heq ▸ hall) (by simp [AllDigits])
    · next heq => exact absurd (heq ▸ hall) (by simp [AllDigits])
    · rw [unsigned?_toDigits]
      rfl
  · have hminus : ∀ c ∈ '-' :: Nat.toDigits 10 m, isNumberBlank c = false :=
      List.forall_mem_cons.mpr ⟨rfl, hblank m⟩
    rw [wholeNumber?, htext, hkeep _ hminus]
    simp [unsigned?_toDigits]

/-- A negative number looks like one. -/
theorem looksNegative_of_allDigits {s : String} (hs : s.toList = '-' :: text) (hne : text ≠ []) (h : AllDigits text) :
    looksNegative s = true := by
  have hlast : text.getLast? ≠ some '\n' := by
    intro hl
    exact ne_of_isDigit (h _ (List.mem_of_getLast? hl)) rfl rfl
  have hall : text.dropWhile (fun c => (digitValue? c).isSome) = [] := by
    rw [List.dropWhile_eq_nil_iff]
    intro c hc
    rw [digitValue?_of_isDigit (h c hc)]
    rfl
  rw [looksNegative, hs]
  simp [hlast, hall, hne]

end Text

namespace CommandLine

/-- An option of a call, apart from the help. -/
inductive Flag where
  | annotate
  | noCheck
  | maxSteps (n : Int)

/-- The arguments of a flag. -/
def Flag.spelled : Flag → List String
  | annotate => ["--annotate"]
  | noCheck => ["--no-check"]
  | maxSteps n => ["--max-steps", n.repr]

/-- What a flag sets. -/
def Flag.set (i : Invocation) : Flag → Invocation
  | annotate => { i with annotate := true }
  | noCheck => { i with check := false }
  | maxSteps n => { i with bound := .atMost n }

/-- The tokens of a flag. -/
def Flag.tokens : Flag → List Token
  | annotate => [.switch .annotate none]
  | noCheck => [.switch .noCheck none]
  | maxSteps n => [.switch .maxSteps none, .plain n.repr]

variable {text : String} {arguments : List String} {ts : List Token}

theorem token_of_head? (h : text.toList.head? ≠ some '-') : token text = .ok (.plain text) := by
  rw [token]
  split
  · next heq => exact absurd (by rw [heq]; rfl) h
  · rfl

theorem tokens_cons {t : Token} (hne : text ≠ "--") (ht : token text = .ok t) (hts : tokens arguments = .ok ts) :
    tokens (text :: arguments) = .ok (t :: ts) := by
  rw [tokens, if_neg hne, ht, hts]
  rfl

/-- A number is no option, also when it is negative. -/
theorem token_repr (n : Int) : n.repr ≠ "--" ∧ token n.repr = .ok (.plain n.repr) := by
  obtain ⟨m, -, htext⟩ | ⟨m, -, htext⟩ := Text.repr_cases n
  · have hdigits := Text.allDigits_toDigits m
    rw [← htext] at hdigits
    refine ⟨fun h => ?_, token_of_head? fun h => ?_⟩
    · rw [h] at hdigits
      exact absurd hdigits (by simp [Text.AllDigits])
    · exact Text.ne_of_isDigit (hdigits _ (List.mem_of_mem_head? h)) rfl rfl
  · have hdigits := Text.allDigits_toDigits m
    have hnegative := Text.looksNegative_of_allDigits htext Nat.toDigits_ne_nil hdigits
    obtain ⟨d, ds, hds⟩ := List.exists_cons_of_ne_nil (Nat.toDigits_ne_nil (n := m) (b := 10))
    rw [hds] at htext hdigits
    obtain ⟨hd, hrest⟩ := List.forall_mem_cons.mp hdigits
    -- no option has a digit behind its first dash
    have hsecond : ∀ s ∈ spellings, s.1.toList.tail.head? = some 'h' ∨ s.1.toList.tail.head? = some '-' := by decide
    have hspelling : ∀ s ∈ spellings, s.1 ≠ n.repr := by
      intro s hs h
      have hsecond := hsecond s hs
      rw [h, htext] at hsecond
      obtain hsecond | hsecond := hsecond
      · exact Text.ne_of_isDigit hd rfl (Option.some.inj hsecond)
      · exact Text.ne_of_isDigit hd rfl (Option.some.inj hsecond)
    have hexactly : exactly? n.repr = none := by
      rw [exactly?, List.find?_eq_none.mpr (by simpa using hspelling)]
      rfl
    refine ⟨fun h => ?_, ?_⟩
    · rw [h] at htext
      exact Text.ne_of_isDigit hd rfl (List.cons.inj (List.cons.inj htext).2).1.symm
    · have hcut : cutAtEquals n.repr.toList = (n.repr.toList, none) := by
        have hdrop : n.repr.toList.dropWhile (· ≠ '=') = [] := by
          rw [List.dropWhile_eq_nil_iff, htext]
          simp only [List.forall_mem_cons, decide_eq_true_eq]
          exact ⟨by decide, Text.ne_of_isDigit hd rfl, fun c hc => Text.ne_of_isDigit (hrest c hc) rfl⟩
        rw [cutAtEquals, hdrop]
      have hdashed : dashedToken n.repr = .ok (leftover n.repr) := by
        rw [dashedToken, hcut]
        simp only [htext]
        split
        · next heq => exact absurd (List.cons.inj (List.cons.inj heq).2).1 (Text.ne_of_isDigit hd rfl)
        · next heq => exact absurd (List.cons.inj (List.cons.inj heq).2).1 (Text.ne_of_isDigit hd rfl)
        · rfl
      rw [token, htext]
      simp only [hexactly, hdashed, leftover, hnegative, Bool.true_or, if_true]

theorem tokens_spelled (f : Flag) (hts : tokens arguments = .ok ts) :
    tokens (f.spelled ++ arguments) = .ok (f.tokens ++ ts) := by
  cases f with
  | annotate => exact tokens_cons (by decide) rfl hts
  | noCheck => exact tokens_cons (by decide) rfl hts
  | maxSteps n => exact tokens_cons (by decide) rfl (tokens_cons (token_repr n).1 (token_repr n).2 hts)

theorem tokens_flags (flags : List Flag) (hts : tokens arguments = .ok ts) :
    tokens (flags.flatMap Flag.spelled ++ arguments) = .ok (flags.flatMap Flag.tokens ++ ts) := by
  induction flags with
  | nil => exact hts
  | cons f flags ih =>
    rw [List.flatMap_cons, List.flatMap_cons, List.append_assoc, List.append_assoc]
    exact tokens_spelled f ih

theorem withMaxSteps_repr (n : Int) (i : Invocation) : withMaxSteps n.repr i = .ok (Flag.set i (.maxSteps n)) := by
  rw [withMaxSteps, if_neg (token_repr n).1, Text.wholeNumber?_repr]
  rfl

theorem take_flag (f : Flag) (i : Invocation) (place : FilePlace) (extras : List String) (ts : List Token) :
    take i place extras (f.tokens ++ ts) = take (f.set i) (take.later place) extras ts := by
  cases f with
  | annotate => rfl
  | noCheck => rfl
  | maxSteps n =>
    simp only [Flag.tokens, List.cons_append, List.nil_append, take, withMaxSteps_repr]

theorem take_flags (flags : List Flag) (i : Invocation) {place : FilePlace} (hp : take.later place = place)
    (extras : List String) (ts : List Token) :
    take i place extras (flags.flatMap Flag.tokens ++ ts) = take (flags.foldl Flag.set i) place extras ts := by
  induction flags generalizing i with
  | nil => rfl
  | cons f flags ih =>
    rw [List.flatMap_cons, List.append_assoc, take_flag, hp, ih, List.foldl_cons]

theorem take_nil_of_flags (flags : List Flag) (i : Invocation) (place : FilePlace) :
    take i place [] (flags.flatMap Flag.tokens) = .run (flags.foldl Flag.set i) := by
  induction flags generalizing i place with
  | nil => rfl
  | cons f flags ih => rw [List.flatMap_cons, take_flag, ih, List.foldl_cons]

theorem foldl_set_file (flags : List Flag) (i : Invocation) (file : Option String) :
    ({ flags.foldl Flag.set i with file } : Invocation) = flags.foldl Flag.set { i with file } := by
  induction flags generalizing i with
  | nil => rfl
  | cons f flags ih =>
    rw [List.foldl_cons, List.foldl_cons, ih]
    cases f <;> rfl

/-- The arguments of a call: flags around a path. -/
def callOf (before : List Flag) (path : String) (behind : List Flag) : List String :=
  before.flatMap Flag.spelled ++ path :: behind.flatMap Flag.spelled

/-- What such a call asks for: the last word of the flags on each option. -/
def invocationOf (before : List Flag) (path : String) (behind : List Flag) : Invocation :=
  (before ++ behind).foldl Flag.set ⟨some path, false, true, .unbounded⟩

/-- **Flags around a path are understood as they are meant**, in any order and any number, when the path does not begin
with a dash. -/
theorem ofArguments_callOf (before : List Flag) {path : String} (h : path.toList.head? ≠ some '-')
    (behind : List Flag) :
    Request.ofArguments (callOf before path behind) = .run (invocationOf before path behind) := by
  have hne : path ≠ "--" := by
    rintro rfl
    exact h rfl
  have hbehind : tokens (behind.flatMap Flag.spelled) = .ok (behind.flatMap Flag.tokens) := by
    have hnil : tokens [] = .ok [] := rfl
    simpa using tokens_flags behind hnil
  have htokens : tokens (callOf before path behind) =
      .ok (before.flatMap Flag.tokens ++ .plain path :: behind.flatMap Flag.tokens) :=
    tokens_flags before (tokens_cons hne (token_of_head? h) hbehind)
  rw [Request.ofArguments, htokens]
  show take ⟨none, false, true, .unbounded⟩ .pending [] (before.flatMap Flag.tokens ++ _) = _
  rw [take_flags before _ rfl]
  show take { before.foldl Flag.set ⟨none, false, true, .unbounded⟩ with file := some path } .justTaken []
    (behind.flatMap Flag.tokens) = _
  rw [take_nil_of_flags, foldl_set_file, invocationOf, List.foldl_append]

/-- The flags say the same of every path. -/
theorem invocationOf_eq (before : List Flag) (path : String) (behind : List Flag) (path' : String) :
    invocationOf before path' behind = { invocationOf before path behind with file := some path' } :=
  (foldl_set_file (before ++ behind) ⟨some path, false, true, .unbounded⟩ (some path')).symm

theorem file_invocationOf (before : List Flag) (path : String) (behind : List Flag) :
    (invocationOf before path behind).file = some path := by
  rw [invocationOf_eq before path behind path]

/-- Flags bound the steps by a number only. -/
theorem bound_invocationOf (before : List Flag) (path : String) (behind : List Flag) :
    (invocationOf before path behind).bound ≠ .unnumbered := by
  have hset : ∀ (flags : List Flag) (i : Invocation), i.bound ≠ .unnumbered →
      (flags.foldl Flag.set i).bound ≠ .unnumbered := by
    intro flags
    induction flags with
    | nil => exact fun i h => h
    | cons f flags ih =>
      intro i h
      refine ih _ ?_
      cases f with
      | annotate | noCheck => exact h
      | maxSteps n => exact StepBound.noConfusion
  exact hset _ _ StepBound.noConfusion

end CommandLine

end SimplyTyped
