import Mathlib
import SimplyTyped.Proofs.ExactlyOnce
import SimplyTyped.Proofs.FileText
import SimplyTyped.Proofs.TextForm

/-!
# SimplyTyped.Proofs.DataFiles — a file loads the terms that were written to it

What a line adds to the queue depends on the line alone (`Batch.reading`).  A batch that rests takes the lines of a file
one after the other: while each of them can be read, the terms queue up under the numbers of their lines
(`Batch.addLines_of_read`), and the first that cannot be read is the last to be looked at
(`Batch.addLines_of_unread`).

A file of items is UTF-8 with one item on each line, and items are terms between blanks or lines to skip.  The lines of
such a file are its items (`Text.lines_joined`), and each reads as what was written.
-/

namespace SimplyTyped

namespace Reporter

/-- The entry of a path. -/
def entryOf? (path : String) (r : Reporter) : Option Entry := r.entries.find? fun entry => entry.path = path

theorem entryOf?_registerLine (path : String) (line : Option String) (number : Option Int) (r : Reporter) :
    (r.registerLine path line number).entryOf? path = some ⟨path, line, number⟩ := by
  have hplace : ∀ entries : List Entry,
      (place ⟨path, line, number⟩ entries).find? (fun entry => entry.path = path) = some ⟨path, line, number⟩ := by
    intro entries
    induction entries with
    | nil => simp [place]
    | cons entry entries ih =>
      by_cases h : entry.path = path
      · simp [place, h]
      · simp [place, h, ih]
  exact hplace r.entries

end Reporter

namespace Batch

variable {b : Batch} {line path : String} {number : Int} {text : List Char} {files : Files} {e : Failure}
  {lines : List String} {ts : List (Option Term)}

/-! ## Lines -/

/-- The term that a line holds; a line to skip holds none. -/
def reading (line : String) : Except Failure (Option Term) :=
  if (content line).isEmpty then .ok none else (Record.termOfLine (content line)).map some

/-- Terms under the numbers of their lines. -/
def numbered : Int → List (Option Term) → List (Int × Term)
  | _, [] => []
  | number, t? :: rest => (t?.map fun t => (number, t)).toList ++ numbered (number + 1) rest

theorem reading_of_isEmpty (h : (content line).isEmpty = true) : reading line = .ok none := if_pos h

theorem reading_of_not_isEmpty (h : (content line).isEmpty = false) :
    reading line = (Record.termOfLine (content line)).map some := by
  rw [reading, h, if_neg Bool.false_ne_true]

theorem add_of_read {t? : Option Term} (h : reading line = .ok t?) (hb : b.reporter.removeLine b.path = b.reporter)
    (hn : ∀ item ∈ b.queue, item.1 < number) :
    add line number b = ⟨{ b with queue := b.queue ++ (t?.map fun t => (number, t)).toList }, "", .ok ()⟩ := by
  cases hc : (content line).isEmpty with
  | true =>
    obtain rfl := Except.ok.inj ((reading_of_isEmpty hc).symm.trans h)
    rw [add_of_isEmpty hc]
    simp
  | false =>
    rw [reading_of_not_isEmpty hc] at h
    cases ht : Record.termOfLine (content line) with
    | error e =>
      rw [ht] at h
      cases h
    | ok t =>
      rw [ht] at h
      obtain rfl := Except.ok.inj h
      have hnot : number ∉ b.queue.map Prod.fst := by
        intro hm
        obtain ⟨item, hi, rfl⟩ := List.mem_map.mp hm
        exact absurd (hn item hi) (Int.lt_irrefl _)
      have hidle : idle { working (content line) number b with queue := enqueue number t b.queue } =
          { b with queue := b.queue ++ [(number, t)] } := by
        unfold idle working Reporter.removeLine
        dsimp only
        rw [Reporter.registerLine_registerLine, enqueue_of_notMem t hnot]
        exact congrArg (fun reporter => ({ b with reporter, queue := b.queue ++ [(number, t)] } : Batch)) hb
      rw [add_of_ok hc ht, hidle]
      rfl

/-- A line cannot be read when it is not to be skipped and holds no term. -/
theorem reading_eq_error_iff :
    reading line = .error e ↔ (content line).isEmpty = false ∧ Record.termOfLine (content line) = .error e := by
  rw [reading]
  cases (content line).isEmpty with
  | true => simp
  | false => cases Record.termOfLine (content line) <;> simp [Except.map]

theorem add_of_unread (h : reading line = .error e) (number : Int) (b : Batch) :
    add line number b = ⟨working (content line) number b, "", .error e⟩ := by
  obtain ⟨hc, ht⟩ := reading_eq_error_iff.mp h
  exact add_of_error hc ht number b

theorem le_of_mem_numbered {item : Int × Term} (h : item ∈ numbered number ts) : number ≤ item.1 := by
  induction ts generalizing number with
  | nil => cases h
  | cons t? ts ih =>
    rcases List.mem_append.mp h with h | h
    · obtain ⟨t, -, rfl⟩ := Option.map_eq_some_iff.mp (Option.mem_toList.mp h)
      exact Int.le_refl number
    · have := ih h
      omega

theorem nodup_numbered (number : Int) (ts : List (Option Term)) : ((numbered number ts).map Prod.fst).Nodup := by
  induction ts generalizing number with
  | nil => exact List.nodup_nil
  | cons t? ts ih =>
    cases t? with
    | none => exact ih (number + 1)
    | some t =>
      refine List.nodup_cons.mpr ⟨fun hm => ?_, ih (number + 1)⟩
      obtain ⟨item, hi, hnumber⟩ := List.mem_map.mp hm
      have hle := le_of_mem_numbered hi
      dsimp only at hnumber
      omega

theorem numbered_append (number : Int) (ts ts' : List (Option Term)) :
    numbered number (ts ++ ts') = numbered number ts ++ numbered (number + ts.length) ts' := by
  induction ts generalizing number with
  | nil => simp [numbered]
  | cons t? ts ih =>
    have hcount : number + 1 + (ts.length : Int) = number + ((t? :: ts).length : Int) := by
      rw [List.length_cons]
      omega
    rw [List.cons_append, numbered, numbered, ih, hcount, List.append_assoc]

/-- Lines that can be read queue their terms, each under the number of its line, and the lines behind them come
next. -/
theorem addLines_append (h : List.Forall₂ (fun line t? => reading line = .ok t?) lines ts) (behind : List String)
    (number : Int) {b : Batch} (hb : b.reporter.removeLine b.path = b.reporter)
    (hn : ∀ item ∈ b.queue, item.1 < number) :
    addLines number (lines ++ behind) b =
      addLines (number + lines.length) behind { b with queue := b.queue ++ numbered number ts } := by
  induction h generalizing number b with
  | nil => simp [numbered]
  | @cons line t? lines ts hl _ ih =>
    have ha := add_of_read hl hb hn
    have hlast : ∀ item ∈ b.queue ++ (t?.map fun t => (number, t)).toList, item.1 < number + 1 := by
      intro item hi
      rcases List.mem_append.mp hi with hi | hi
      · have := hn item hi
        omega
      · obtain ⟨t, -, rfl⟩ := Option.map_eq_some_iff.mp (Option.mem_toList.mp hi)
        exact Int.lt_succ number
    have hcount : number + 1 + (lines.length : Int) = number + ((line :: lines).length : Int) := by
      rw [List.length_cons]
      omega
    show (add line number >>= fun _ => addLines (number + 1) (lines ++ behind)) b = _
    rw [Action.bind_of_ok (a := ()) (by rw [ha]), ha]
    dsimp only
    rw [ih (number + 1) (b := { b with queue := b.queue ++ (t?.map fun t => (number, t)).toList }) hb hlast, hcount,
      numbered, List.append_assoc, String.empty_append]

theorem addLines_of_read (h : List.Forall₂ (fun line t? => reading line = .ok t?) lines ts) (number : Int) {b : Batch}
    (hb : b.reporter.removeLine b.path = b.reporter) (hn : ∀ item ∈ b.queue, item.1 < number) :
    addLines number lines b = ⟨{ b with queue := b.queue ++ numbered number ts }, "", .ok ()⟩ := by
  have := addLines_append h [] number hb hn
  rwa [List.append_nil] at this

/-- The first line that cannot be read is the line being worked on; the terms before it wait. -/
theorem addLines_of_unread (h : List.Forall₂ (fun line t? => reading line = .ok t?) lines ts)
    (he : reading line = .error e) (behind : List String) (number : Int) {b : Batch}
    (hb : b.reporter.removeLine b.path = b.reporter) (hn : ∀ item ∈ b.queue, item.1 < number) :
    addLines number (lines ++ line :: behind) b =
      ⟨working (content line) (number + lines.length) { b with queue := b.queue ++ numbered number ts }, "",
        .error e⟩ := by
  have ha := add_of_unread he (number + lines.length) { b with queue := b.queue ++ numbered number ts }
  rw [addLines_append h (line :: behind) number hb hn]
  show (add line (number + lines.length) >>= fun _ => addLines (number + lines.length + 1) behind) _ = _
  rw [Action.bind_of_error (e := e) (by rw [ha]), ha]

/-! ## Files -/

/-- The file at a path can be read, and holds a text as UTF-8. -/
structure Stores (files : Files) (path : String) (text : List Char) : Prop where
  named : '\x00' ∉ path.toList
  bytes : files path = some (Utf8.encode text)

theorem Stores.sourceAt_eq (h : Stores files path text) :
    sourceAt files path = .ok ⟨(Text.lines text).map String.ofList, none⟩ := by
  rw [sourceAt, if_neg h.named, h.bytes]
  simp only [Source.ofBytes, Utf8.decode_encode]

/-- A file of text is loaded line by line. -/
theorem Stores.load_eq (h : Stores files b.path text) (hp : b.path ≠ promptPath) (interactive : Bool) :
    load files interactive b = addLines 1 ((Text.lines text).map String.ofList) b := by
  unfold load
  rw [Action.get_bind, if_neg hp, h.sourceAt_eq, Action.ofExcept_ok_bind]
  dsimp only
  cases ha : (addLines 1 ((Text.lines text).map String.ofList) b).answer with
  | error e =>
    rw [Action.bind_of_error ha, ← ha]
  | ok a =>
    rw [Action.bind_of_ok ha, Action.pure_apply, String.append_empty, ← ha]

/-! ## Items -/

/-- Blanks within a line. -/
abbrev Margin : Type := { text : List Char // Text.OneLine text ∧ ∀ c ∈ text, Text.isBlank c = true }

/-- A line to skip: blank, or a comment behind blanks. -/
abbrev Filler : Type :=
  { text : List Char // Text.OneLine text ∧
    (Text.trimChars text = [] ∨ commentMark.toList <+: Text.trimChars text) }

/-- What can be written on a line of a file. -/
inductive Item where
  | term (left : Margin) (t : Term) (right : Margin)
  | skipped (text : Filler)

/-- An item as it is written. -/
def Item.chars : Item → List Char
  | term left t right => left.1 ++ (Record.toText (.term t)).toList ++ right.1
  | skipped text => text.1

/-- The term of an item. -/
def Item.term? : Item → Option Term
  | term _ t _ => some t
  | skipped _ => none

/-- The text of a file of items. -/
def document (e : Text.LineEnd) (closed : Bool) (items : List Item) : List Char :=
  Text.joined e closed (items.map Item.chars)

theorem oneLine_chars (item : Item) : Text.OneLine item.chars := by
  cases item with
  | skipped text => exact text.2.1
  | term left t right =>
    have hlow := Record.le_toNat_of_mem_toText (.term t)
    have hrecord : Text.OneLine (Record.toText (.term t)).toList :=
      ⟨fun h => absurd (hlow _ h) (by decide), fun h => absurd (hlow _ h) (by decide)⟩
    simp only [Text.OneLine, Item.chars, List.mem_append, not_or]
    exact ⟨⟨⟨left.2.1.1, hrecord.1⟩, right.2.1.1⟩, ⟨⟨left.2.1.2, hrecord.2⟩, right.2.1.2⟩⟩

theorem content_filler (text : Filler) : content (String.ofList text.1) = "" := by
  obtain ⟨text, -, htext⟩ := text
  rw [content]
  simp only [Text.trim, String.toList_ofList]
  obtain h | h := htext
  · rw [h]
    rfl
  · rw [if_pos (List.isPrefixOf_iff_prefix.mpr h)]

/-- What an item reads as is what was written. -/
theorem reading_chars (item : Item) : reading (String.ofList item.chars) = .ok item.term? := by
  cases item with
  | skipped text => exact reading_of_isEmpty (by rw [Item.chars, content_filler]; rfl)
  | term left t right =>
    have hcontent : content (String.ofList (Item.term left t right).chars) = Record.toText (.term t) :=
      Record.content_of_margins left.1 right.1 left.2.2 right.2.2 (.term t)
    have hne : (content (String.ofList (Item.term left t right).chars)).isEmpty = false := by
      simpa [hcontent] using Record.toText_ne_empty (.term t)
    rw [reading_of_not_isEmpty hne, hcontent, Record.termOfLine_toText]
    rfl

/-- A term is on a line that is not empty. -/
theorem term?_of_chars_eq_nil {item : Item} (h : item.chars = []) : item.term? = none := by
  cases item with
  | skipped => rfl
  | term left t right =>
    obtain ⟨inner, hi⟩ := Record.exists_toText (.term t)
    rw [Item.chars, hi] at h
    simp at h

/-! ## Loading -/

theorem removeLine_start (reporter : Reporter) (path : String) (interactive : Bool) (options : Options) :
    (start reporter path interactive options).reporter.removeLine path =
      (start reporter path interactive options).reporter := by
  have hplace := Reporter.registerLine_registerLine path none none none none reporter
  cases interactive with
  | false => exact hplace
  | true => exact congrArg (fun r : Reporter => { r with fatal := false }) hplace

/-- **A file loads exactly the terms that were written to it**, each under the number of its line, and no line of the
file is being worked on any more. -/
theorem load_document (reporter : Reporter) (interactive : Bool) (options : Options) (ending : Text.LineEnd)
    (closed : Bool) (items : List Item) (hp : path ≠ promptPath)
    (h : Stores files path (document ending closed items)) :
    load files interactive (start reporter path interactive options) =
      ⟨{ start reporter path interactive options with queue := numbered 1 (items.map Item.term?) }, "", .ok ()⟩ ∧
    (start reporter path interactive options).reporter.entryOf? path = some ⟨path, none, none⟩ := by
  constructor
  · have hload := h.load_eq (b := start reporter path interactive options) hp interactive
    have hread : ∀ items : List Item, List.Forall₂ (fun line t? => reading line = .ok t?)
        ((items.map Item.chars).map String.ofList) (items.map Item.term?) := by
      intro items
      simp only [List.forall₂_map_left_iff, List.forall₂_map_right_iff, List.forall₂_same]
      exact fun item _ => reading_chars item
    have hadd := fun items => addLines_of_read (hread items) 1
      (removeLine_start reporter path interactive options) (fun item hi => absurd hi List.not_mem_nil)
    have hone : ∀ line ∈ items.map Item.chars, Text.OneLine line := by
      rw [List.forall_mem_map]
      exact fun item _ => oneLine_chars item
    rw [hload, document, Text.lines_joined ending closed hone]
    split
    · next hlast =>
      -- a file that ends without a line end behind an empty line has that line in the document only
      rw [List.getLast?_map, Option.map_eq_some_iff] at hlast
      obtain ⟨-, item, hi, hempty⟩ := hlast
      obtain ⟨init, rfl⟩ := List.getLast?_eq_some_iff.mp hi
      have hnone : numbered 1 ((init ++ [item]).map Item.term?) = numbered 1 (init.map Item.term?) := by
        rw [List.map_append, numbered_append, List.map_singleton, term?_of_chars_eq_nil hempty]
        exact List.append_nil _
      rw [List.map_append, List.map_singleton, List.dropLast_concat, hadd init, hnone]
      rfl
    · exact hadd items
  · cases interactive with
    | false => exact Reporter.entryOf?_registerLine path none none reporter
    | true => exact Reporter.entryOf?_registerLine path none none reporter

/-- Names and margins hold characters that end lines in other places, and the lines end with two characters each. -/
theorem load_document_with_separators_in_names :
    let t : Term := .abs "\u2028" .bool (.var "\u0085")
    let items : List Item := [.skipped ⟨" ;; a comment".toList, by decide +kernel⟩,
      .term ⟨['\u2029'], by decide, by simp [Text.isBlank]⟩ t ⟨['\x0b'], by decide, by simp [Text.isBlank]⟩]
    let text := document .crlf false items
    let files : Files := fun path => if path = "terms" then some (Utf8.encode text) else none
    let b := start (.start .plain true) "terms" false ⟨false, true, none, 8⟩
    "terms" ≠ promptPath ∧ Stores files "terms" text ∧
      load files false b = ⟨{ b with queue := [(2, t)] }, "", .ok ()⟩ ∧
      b.reporter.entryOf? "terms" = some ⟨"terms", none, none⟩ := by
  intro t items text files b
  have hp : "terms" ≠ promptPath := by decide
  have hs : Stores files "terms" text := ⟨by decide, if_pos rfl⟩
  exact ⟨hp, hs, load_document (.start .plain true) false ⟨false, true, none, 8⟩ .crlf false items hp hs⟩

end Batch

end SimplyTyped
