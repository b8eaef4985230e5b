import Mathlib
import SimplyTyped.Proofs.Reports

/-!
# SimplyTyped.Proofs.CurrentLine — the line that a report is about, read off the history of its reporter

What a program does with a reporter comes down to events: paths and lines are registered, lines are removed, and
notices are shown as warnings or reported.  A guarded block adds one event to those of its body when it ends with a
failure that is reported (`Operation.state_actAll`).

One event decides about a line as follows (`mem_entries_act_iff`): it is there afterwards if the event registers it, or
if it was there and the event does not end it; a report ends all lines if it can be made.  So the lines that are there
at the end of a history are those that stand in it (`mem_entries_after_iff`), and the first of them, in the order in
which the paths were first registered, is the current one (`KeepsTrack`).
-/

namespace SimplyTyped

/-- The notice that a failure is reported with at the end of a guarded block. -/
def Failure.reported? : Failure → Option Notice
  | mishap m => some m.notice
  | e => e.notice?

namespace Reporter

/-- What reaches a reporter.  The notice of a warning is made on the way, and that may fail. -/
inductive Event where
  | registerPath (path : String)
  | registerLine (path : String) (line : Option String) (number : Option Int)
  | removeLine (path : String)
  | warn (notice : Except Template.Fault Notice)
  | report (notice : Notice)

/-- What a program does with a reporter: one event, or a guarded block with all that its body does and the failure that
it ends with, if any. -/
inductive Operation where
  | event (e : Event)
  | block (body : List Operation) (ending : Option Failure)

/-- The paths that a reporter knows, in their order. -/
def paths (r : Reporter) : List String := r.entries.map Entry.path

namespace Event

/-- What an event does. -/
def act : Event → Action Reporter Unit
  | registerPath path => Action.modify (Reporter.registerPath path)
  | registerLine path line number => Action.modify (Reporter.registerLine path line number)
  | removeLine path => Action.modify (Reporter.removeLine path)
  | warn notice => do
    let n ← Action.ofExcept (notice.mapError fun fault => .mishap (.template fault))
    Reporter.warn n
  | report n => Reporter.report n

/-- The path that an event is about. -/
def path? : Event → Option String
  | registerPath path | registerLine path _ _ | removeLine path => some path
  | warn _ | report _ => none

/-- An event ends the line of a path: the path is registered anew, with a line or without, or its line is removed, or a
report is completed. -/
def Ends (path : String) (r : Reporter) : Event → Prop
  | registerPath p | registerLine p _ _ | removeLine p => p = path
  | warn _ => False
  | report n => (Reporter.report n r).answer = .ok ()

end Event

/-- The reporter after some events, each of which may fail. -/
def after (r : Reporter) (events : List Event) : Reporter := events.foldl (fun r e => (e.act r).state) r

/-- A line stands at the end of a history: it is not empty, it was registered, and nothing ended it from there on. -/
def Stands (r : Reporter) (events : List Event) (path line : String) (number : Option Int) : Prop :=
  line ≠ "" ∧ ∃ earlier later, events = earlier ++ .registerLine path (some line) number :: later ∧
    ∀ between e rest, later = between ++ e :: rest →
      ¬e.Ends path (r.after (earlier ++ .registerLine path (some line) number :: between))

namespace Operation

mutual

/-- What an operation does. -/
def act : Operation → Action Reporter Unit
  | event e => e.act
  | block body ending => do
    let _ ← Action.guarded (do
      actAll body
      ending.elim (pure ()) Action.fail)
    pure ()

/-- One operation after the other, whether or not they fail. -/
def actAll : List Operation → Action Reporter Unit
  | [] => pure ()
  | o :: rest => fun r =>
    let first := o.act r
    let others := actAll rest first.state
    ⟨others.state, first.printed ++ others.printed, others.answer⟩

end

mutual

/-- The events that an operation comes down to. -/
def events : Operation → List Event
  | event e => [e]
  | block body ending => eventsAll body ++ ((ending.bind Failure.reported?).map Event.report).toList

/-- The events that operations come down to. -/
def eventsAll : List Operation → List Event
  | [] => []
  | o :: rest => o.events ++ eventsAll rest

end

end Operation

variable {r : Reporter} {e : Event} {events : List Event} {path line : String} {number : Option Int}

/-! ## Operations as events -/

theorem after_append (r : Reporter) (events events' : List Event) :
    r.after (events ++ events') = (r.after events).after events' := List.foldl_append

theorem after_concat (r : Reporter) (events : List Event) (e : Event) :
    r.after (events ++ [e]) = (e.act (r.after events)).state := after_append r events [e]

/-- A failure leaves what its report leaves. -/
theorem state_absorb (e : Failure) (r : Reporter) :
    (absorb e r).state = r.after (e.reported?.map Event.report).toList := by
  cases e with
  | mishap m =>
    show ((report m.notice >>= fun _ => Action.fail (.mishap m) : Action Reporter Unit) r).state =
      (report m.notice r).state
    cases h : (report m.notice r).answer with
    | ok a => rw [Action.bind_of_ok h, Action.fail]
    | error e => rw [Action.bind_of_error h]
  | _ => rfl

theorem state_guarded (act : Action Reporter Unit) (r : Reporter) :
    (Action.guarded act r).state =
      match (act r).answer with
      | .ok _ => (act r).state
      | .error e => (absorb e (act r).state).state := by
  simp only [Action.guarded]
  cases (act r).answer with
  | ok a => rfl
  | error e => rfl

theorem answer_actAll (os : List Operation) (r : Reporter) : (Operation.actAll os r).answer = .ok () := by
  induction os generalizing r with
  | nil => rfl
  | cons o rest ih => exact ih _

mutual

theorem Operation.state_act (o : Operation) (r : Reporter) : (o.act r).state = r.after o.events := by
  cases o with
  | event e => rfl
  | block body ending =>
    have hbody := Operation.state_actAll body r
    have hdone (act : Action Reporter (Option Unit)) :
        ((act >>= fun _ => pure ()) r).state = (act r).state := by
      cases h : (act r).answer with
      | ok a => rw [Action.bind_of_ok h]; rfl
      | error e => rw [Action.bind_of_error h]
    rw [Operation.act, hdone, state_guarded, Action.bind_of_ok (answer_actAll body r), Operation.events, after_append,
      ← hbody]
    cases ending with
    | none => rfl
    | some e => exact state_absorb e _

/-- **The state after some operations is the one after the events that they come down to.** -/
theorem Operation.state_actAll (os : List Operation) (r : Reporter) :
    (Operation.actAll os r).state = r.after (Operation.eventsAll os) := by
  cases os with
  | nil => rfl
  | cons o rest =>
    have hfirst := Operation.state_act o r
    have hrest := Operation.state_actAll rest (o.act r).state
    rw [Operation.eventsAll, after_append, ← hfirst, ← hrest]
    rfl

end

theorem eventsAll_append (os os' : List Operation) :
    Operation.eventsAll (os ++ os') = Operation.eventsAll os ++ Operation.eventsAll os' := by
  induction os with
  | nil => rfl
  | cons o rest ih => rw [List.cons_append, Operation.eventsAll, Operation.eventsAll, ih, List.append_assoc]

/-! ## One event -/

theorem act_warn (notice : Except Template.Fault Notice) (r : Reporter) : ((Event.warn notice).act r).state = r := by
  cases notice with
  | error fault => exact congrArg Reply.state (Action.ofExcept_error_bind _ _ r)
  | ok n =>
    refine (congrArg Reply.state (Action.ofExcept_ok_bind n _ r)).trans ?_
    rw [warn_eq]

/-- A report that fails leaves everything as it is, and otherwise the lines are forgotten. -/
theorem report_cases (hr : r.fatal = false) (n : Notice) :
    (report n r).state = r ∧ (report n r).answer = .error (.mishap .noLine) ∨
      (report n r).state = r.forgetLines ∧ (report n r).answer = .ok () := by
  by_cases h : r.Lost n
  · rw [report_of_lost h]
    exact .inl ⟨rfl, rfl⟩
  · rw [report_of_not_lost hr h]
    exact .inr ⟨rfl, rfl⟩

/-- What holds of a reporter that does not end the program: a path has one entry. -/
structure Sound (r : Reporter) : Prop where
  fatal_eq : r.fatal = false
  nodup : r.paths.Nodup

theorem Sound.start (style : Style) : (start style false).Sound := ⟨rfl, List.nodup_nil⟩

theorem mem_place_iff {entry x : Entry} {entries : List Entry} (h : (entries.map Entry.path).Nodup) :
    x ∈ place entry entries ↔ x = entry ∨ x ∈ entries ∧ x.path ≠ entry.path := by
  induction entries with
  | nil => simp [place]
  | cons e rest ih =>
    rw [List.map_cons, List.nodup_cons] at h
    rw [place]
    by_cases he : e.path = entry.path
    · -- the entry with the path is gone, and no other one has it
      have hrest : ∀ y ∈ rest, y.path ≠ entry.path := fun y hy hp =>
        h.1 (he.trans hp.symm ▸ List.mem_map_of_mem hy)
      rw [if_pos he, List.mem_cons, List.mem_cons]
      constructor
      · rintro (rfl | hx)
        · exact .inl rfl
        · exact .inr ⟨.inr hx, hrest x hx⟩
      · rintro (rfl | ⟨rfl | hx, hne⟩)
        · exact .inl rfl
        · exact absurd he hne
        · exact .inr hx
    · rw [if_neg he, List.mem_cons, ih h.2, List.mem_cons]
      constructor
      · rintro (rfl | rfl | ⟨hx, hne⟩)
        · exact .inr ⟨.inl rfl, he⟩
        · exact .inl rfl
        · exact .inr ⟨.inr hx, hne⟩
      · rintro (rfl | ⟨rfl | hx, hne⟩)
        · exact .inr (.inl rfl)
        · exact .inl rfl
        · exact .inr (.inr ⟨hx, hne⟩)

/-- A new path comes behind all others, and the ones that are known stay in their places. -/
theorem paths_act (hr : r.fatal = false) (e : Event) :
    (e.act r).state.paths = r.paths ++ e.path?.toList.filter fun p => p ∉ r.paths := by
  have hplace (path : String) (line : Option String) (number : Option Int) :
      (r.registerLine path line number).paths = r.paths ++ [path].filter fun p => p ∉ r.paths := by
    refine (paths_place ⟨path, line, number⟩ r.entries).trans ?_
    by_cases h : path ∈ r.entries.map Entry.path
    · rw [if_pos h, List.filter_cons_of_neg (by simpa [paths] using h), List.filter_nil, List.append_nil, paths]
    · rw [if_neg h, List.filter_cons_of_pos (by simpa [paths] using h), List.filter_nil, paths]
  cases e with
  | registerPath path => exact hplace path none none
  | registerLine path line number => exact hplace path line number
  | removeLine path => exact hplace path none none
  | warn notice => simp [act_warn, Event.path?]
  | report n =>
    obtain ⟨h, -⟩ | ⟨h, -⟩ := report_cases hr n
    · simp [Event.act, Event.path?, h]
    · simp [Event.act, Event.path?, h, paths, paths_forgetLines]

theorem Sound.act (hr : r.Sound) (e : Event) : (e.act r).state.Sound where
  fatal_eq := by
    cases e with
    | registerPath | registerLine | removeLine => exact hr.fatal_eq
    | warn notice => rw [act_warn, hr.fatal_eq]
    | report n =>
      obtain ⟨h, -⟩ | ⟨h, -⟩ := report_cases hr.fatal_eq n
      · exact (congrArg fatal h).trans hr.fatal_eq
      · exact (congrArg fatal h).trans hr.fatal_eq
  nodup := by
    rw [paths_act hr.fatal_eq, List.nodup_append']
    refine ⟨hr.nodup, ?_, ?_⟩
    · cases e.path? with
      | none => exact List.nodup_nil
      | some p => exact (List.nodup_singleton p).filter _
    · intro p hp hf
      simpa [hp] using (List.mem_filter.mp hf).2

/-- **What one event does to a line**: it registers the line, or the line was there and the event does not end it. -/
theorem mem_entries_act_iff (hr : r.Sound) :
    ⟨path, some line, number⟩ ∈ (e.act r).state.entries ↔
      e = .registerLine path (some line) number ∨ ⟨path, some line, number⟩ ∈ r.entries ∧ ¬e.Ends path r := by
  have hplace (entry : Entry) : ⟨path, some line, number⟩ ∈ place entry r.entries ↔ _ := mem_place_iff hr.nodup
  cases e with
  | registerPath p =>
    refine (hplace ⟨p, none, none⟩).trans ?_
    simp [Event.Ends, eq_comm]
  | registerLine p l k =>
    refine (hplace ⟨p, l, k⟩).trans ?_
    simp [Event.Ends, eq_comm]
  | removeLine p =>
    refine (hplace ⟨p, none, none⟩).trans ?_
    simp [Event.Ends, eq_comm]
  | warn notice => simp [act_warn, Event.Ends]
  | report n =>
    obtain ⟨h, ha⟩ | ⟨h, ha⟩ := report_cases hr.fatal_eq n
    · simp [Event.act, Event.Ends, h, ha]
    · simp [Event.act, Event.Ends, h, ha, forgetLines]

/-! ## The current line -/

theorem text?_eq_some_iff {entry : Entry} : Entry.text? entry = some line ↔ entry.line = some line ∧ line ≠ "" := by
  rw [Entry.text?, Option.filter_eq_some_iff]
  simp

/-- A path has one entry. -/
theorem Sound.eq_of_mem (hr : r.Sound) {x y : Entry} (hx : x ∈ r.entries) (hy : y ∈ r.entries) (h : x.path = y.path) :
    x = y := List.inj_on_of_nodup_map hr.nodup hx hy h

/-- The current line is that of the first path that has a line which is not empty. -/
theorem current_eq_some_iff (hr : r.Sound) :
    r.current = some (line, number) ↔
      ∃ earlier path later, r.paths = earlier ++ path :: later ∧
        (line ≠ "" ∧ ⟨path, some line, number⟩ ∈ r.entries) ∧
        ∀ p ∈ earlier, ∀ l k, l ≠ "" → ⟨p, some l, k⟩ ∉ r.entries := by
  rw [current, List.findSome?_eq_some_iff]
  constructor
  · rintro ⟨before, entry, rest, h, hentry, hbefore⟩
    obtain ⟨l, htext, heq⟩ := Option.map_eq_some_iff.mp hentry
    obtain ⟨rfl, rfl⟩ := Prod.mk.inj heq
    obtain ⟨hline, hl⟩ := text?_eq_some_iff.mp htext
    refine ⟨before.map Entry.path, entry.path, rest.map Entry.path, by simp [paths, h], ⟨hl, ?_⟩, ?_⟩
    · rw [← hline, h]
      exact List.mem_append_right _ List.mem_cons_self
    · rintro p hp l' k hl' hmem
      obtain ⟨x, hx, hxp⟩ := List.mem_map.mp hp
      have hmemx : x ∈ r.entries := h ▸ List.mem_append_left _ hx
      have hnone := Option.map_eq_none_iff.mp (hbefore x hx)
      rw [hr.eq_of_mem hmemx hmem hxp, text?_of_ne hl'] at hnone
      cases hnone
  · rintro ⟨earlier, path, later, h, ⟨hl, hmem⟩, hearlier⟩
    obtain ⟨before, others, hentries, rfl, hothers⟩ := List.map_eq_append_iff.mp h
    obtain ⟨entry, rest, rfl, hpath, rfl⟩ := List.map_eq_cons_iff.mp hothers
    have hmemEntry : entry ∈ r.entries := hentries ▸ List.mem_append_right _ List.mem_cons_self
    obtain rfl := hr.eq_of_mem hmemEntry hmem hpath
    refine ⟨before, _, rest, hentries, by rw [text?_of_ne hl]; rfl, fun x hx => ?_⟩
    rw [Option.map_eq_none_iff, Option.eq_none_iff_forall_ne_some]
    intro l htext
    obtain ⟨hline, hl'⟩ := text?_eq_some_iff.mp htext
    refine hearlier x.path (List.mem_map_of_mem hx) l x.number hl' ?_
    rw [← hline, hentries]
    exact List.mem_append_left _ hx

/-! ## A history -/

theorem Sound.after (hr : r.Sound) (events : List Event) : (r.after events).Sound := by
  induction events generalizing r with
  | nil => exact hr
  | cons e rest ih => exact ih (hr.act e)

/-- A line stands after one more event if the event registers it, or it stood before and the event does not end it. -/
theorem stands_concat_iff :
    r.Stands (events ++ [e]) path line number ↔
      line ≠ "" ∧ e = .registerLine path (some line) number ∨
        r.Stands events path line number ∧ ¬e.Ends path (r.after events) := by
  constructor
  · rintro ⟨hl, earlier, later, h, hlater⟩
    rcases List.eq_nil_or_concat later with rfl | ⟨later, x, rfl⟩
    · obtain ⟨-, he⟩ := List.append_inj' h rfl
      exact .inl ⟨hl, (List.cons.inj he).1⟩
    · rw [List.concat_eq_append, ← List.cons_append, ← List.append_assoc] at h
      obtain ⟨rfl, hx⟩ := List.append_inj' h rfl
      obtain rfl := (List.cons.inj hx).1
      refine .inr ⟨⟨hl, earlier, later, rfl, fun between y rest hy => ?_⟩, hlater later e [] (by simp)⟩
      exact hlater between y (rest ++ [e]) (by simp [hy])
  · rintro (⟨hl, rfl⟩ | ⟨⟨hl, earlier, later, rfl, hlater⟩, he⟩)
    · exact ⟨hl, events, [], rfl, fun between x rest hx => by simp at hx⟩
    · refine ⟨hl, earlier, later ++ [e], by simp, fun between x rest hx => ?_⟩
      rcases List.eq_nil_or_concat rest with rfl | ⟨rest, y, rfl⟩
      · obtain ⟨rfl, hx'⟩ := List.append_inj' hx rfl
        obtain rfl := (List.cons.inj hx').1
        exact he
      · rw [List.concat_eq_append, ← List.cons_append, ← List.append_assoc] at hx
        exact hlater between x rest (List.append_inj' hx rfl).1

/-- **The lines that are there at the end of a history are those that stand in it.** -/
theorem mem_entries_after_iff (style : Style) (hl : line ≠ "") :
    ⟨path, some line, number⟩ ∈ ((start style false).after events).entries ↔
      (start style false).Stands events path line number := by
  induction events using List.reverseRecOn with
  | nil => simp [after, start, Stands]
  | append_singleton events e ih =>
    rw [after_concat, mem_entries_act_iff ((Sound.start style).after events), ih, stands_concat_iff]
    simp [hl]

/-- The paths are known in the order in which they were registered first. -/
theorem paths_after (style : Style) (events : List Event) :
    ((start style false).after events).paths = (events.filterMap Event.path?).eraseDups := by
  induction events using List.reverseRecOn with
  | nil => rfl
  | append_singleton events e ih =>
    have hpath : [e].filterMap Event.path? = e.path?.toList := by cases h : e.path? <;> simp [h]
    rw [after_concat, paths_act ((Sound.start style).after events).fatal_eq, ih, List.filterMap_append, hpath,
      List.eraseDups_append]
    cases e.path? with
    | none => rfl
    | some p =>
      generalize events.filterMap Event.path? = known
      by_cases hp : p ∈ known <;> simp [List.removeAll, hp, List.mem_eraseDups, List.eraseDups_cons]

/-- A reporter that is not fatal and knows no path at first, after all that a program does with it. -/
def atEnd (style : Style) (history : List Operation) : Reporter := (Operation.actAll history (start style false)).state

/-- At the end of a history a reporter speaks about the right line. -/
structure KeepsTrack (style : Style) (history : List Operation) : Prop where
  /-- The paths are there in the order in which they were registered first. -/
  paths_eq : (atEnd style history).paths = ((Operation.eventsAll history).filterMap Event.path?).eraseDups
  /-- Whatever comes later, they stay and keep their order. -/
  paths_stay : ∀ more, (atEnd style history).paths <+: (atEnd style (history ++ more)).paths
  /-- The current line and its number are those of the first path for which a line stands. -/
  current_eq_some_iff : ∀ line number, (atEnd style history).current = some (line, number) ↔
    ∃ earlier path later, (atEnd style history).paths = earlier ++ path :: later ∧
      (start style false).Stands (Operation.eventsAll history) path line number ∧
      ∀ p ∈ earlier, ∀ l k, ¬(start style false).Stands (Operation.eventsAll history) p l k
  /-- There is none when no line stands for any path. -/
  current_eq_none_iff : (atEnd style history).current = none ↔
    ∀ path line number, ¬(start style false).Stands (Operation.eventsAll history) path line number
  /-- A warning gives the number of the current line, points into that line and changes nothing. -/
  warn_eq : ∀ n, warn n (atEnd style history) = ⟨atEnd style history, (atEnd style history).caution n, .ok ()⟩
  /-- A report points into the current line. -/
  printed_report : ∀ n, (report n (atEnd style history)).printed =
    (atEnd style history).heading n ++ (atEnd style history).diagnosis n
  /-- A report that fails while it points changes nothing. -/
  state_report : ∀ n e, (report n (atEnd style history)).answer = .error e →
    (report n (atEnd style history)).state = atEnd style history

/-- **The current line is a function of the history.** -/
theorem keepsTrack (style : Style) (history : List Operation) : KeepsTrack style history := by
  have hend (os : List Operation) : atEnd style os = (start style false).after (Operation.eventsAll os) :=
    Operation.state_actAll os _
  have hsound : (atEnd style history).Sound := hend history ▸ (Sound.start style).after _
  have hstands (path line : String) (number : Option Int) :
      line ≠ "" ∧ ⟨path, some line, number⟩ ∈ (atEnd style history).entries ↔
        (start style false).Stands (Operation.eventsAll history) path line number := by
    rw [hend]
    constructor
    · rintro ⟨hl, hmem⟩
      exact (mem_entries_after_iff style hl).mp hmem
    · intro h
      exact ⟨h.1, (mem_entries_after_iff style h.1).mpr h⟩
  refine ⟨?_, fun more => ?_, fun line number => ?_, ?_, fun n => Reporter.warn_eq n _,
    fun n => Reporter.printed_report n _, fun n e he => ?_⟩
  · rw [hend, paths_after]
  · rw [hend, hend, paths_after, paths_after, eventsAll_append, List.filterMap_append, List.eraseDups_append]
    exact List.prefix_append _ _
  · simp only [Reporter.current_eq_some_iff hsound, ← hstands, not_and]
  · rw [current, List.findSome?_eq_none_iff]
    constructor
    · intro h path line number hs
      obtain ⟨hl, hmem⟩ := (hstands path line number).mpr hs
      have hnone := Option.map_eq_none_iff.mp (h _ hmem)
      rw [text?_of_ne hl] at hnone
      cases hnone
    · intro h entry hmem
      rw [Option.map_eq_none_iff, Option.eq_none_iff_forall_ne_some]
      intro line htext
      obtain ⟨hline, hl⟩ := text?_eq_some_iff.mp htext
      exact h entry.path line entry.number ((hstands _ _ _).mp ⟨hl, hline ▸ hmem⟩)
  · obtain ⟨h, -⟩ | ⟨-, h⟩ := report_cases hsound.fatal_eq n
    · exact h
    · rw [h] at he
      cases he

end Reporter

end SimplyTyped
