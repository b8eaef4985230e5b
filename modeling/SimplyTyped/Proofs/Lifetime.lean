import Mathlib
import SimplyTyped.Requests
import SimplyTyped.Proofs.NamelessReduction

/-!
# SimplyTyped.Proofs.Lifetime — one supply for all that a machine is ever asked

`HandsOut c xs d` says that a supply whose cursor goes from `c` to `d` hands out the names `xs`, one after the other.
The names that a substitution and a reduction draw are listed along their walks (`Term.draws`, `Machine.draws`), and
the cursor that comes back is the one behind them, also when a reduction is given up (`Machine.handsOut_draws`).

A history is a sequence of requests to one machine that is new at its beginning.  A request may hold names of the
supply when they occur in an earlier answer (`Request.Grounded`).  All names in answers are behind the cursor, so a
request never holds a name that the supply can still hand out, and it is served as the nameless reference asks
(`Machine.faithful_serve`).  That is all that the next request needs, and so it goes for all of them
(`History.keptApart`).
-/

namespace SimplyTyped

/-! ## Names handed out -/

/-- A name tells the place of its draw. -/
theorem nodup_freshNames (c : Int) (n : Nat) : (freshNames c n).Nodup := by
  rw [List.nodup_iff_getElem?_ne_getElem?]
  intro i j hij hj h
  rw [length_freshNames] at hj
  rw [getElem?_freshNames (by omega), getElem?_freshNames hj] at h
  have := fresh_injective (Option.some.inj h)
  omega

/-- The supply hands out names one after the other, and its cursor goes from one place to another. -/
def HandsOut (c : Int) (xs : List String) (d : Int) : Prop := ∃ n : Nat, xs = freshNames c n ∧ d = c + n

namespace HandsOut

variable {c d e : Int} {xs ys : List String}

theorem nil (c : Int) : HandsOut c [] c := ⟨0, rfl, by omega⟩

theorem draw (h : HandsOut (c + 1) xs d) : HandsOut c (fresh c :: xs) d := by
  obtain ⟨n, rfl, rfl⟩ := h
  exact ⟨n + 1, rfl, by omega⟩

theorem append (h : HandsOut c xs d) (h' : HandsOut d ys e) : HandsOut c (xs ++ ys) e := by
  obtain ⟨n, rfl, rfl⟩ := h
  induction n generalizing c with
  | zero =>
    have hc : c + (0 : Nat) = c := by omega
    rwa [hc] at h'
  | succ n ih =>
    have hc : c + (n + 1 : Nat) = c + 1 + n := by omega
    rw [hc] at h'
    exact (ih h').draw

theorem cursor_le (h : HandsOut c xs d) : c ≤ d := by
  obtain ⟨n, -, rfl⟩ := h
  omega

/-- A cursor that has not moved has handed out nothing. -/
theorem eq_nil (h : HandsOut c xs c) : xs = [] := by
  obtain ⟨n, rfl, hn⟩ := h
  obtain rfl : n = 0 := by omega
  rfl

/-- No name is handed out twice. -/
theorem nodup (h : HandsOut c xs d) : xs.Nodup := by
  obtain ⟨n, rfl, -⟩ := h
  exact nodup_freshNames c n

end HandsOut

/-- The names that `subst` draws, in the order of its walk. -/
def Term.draws (x : String) (u : Term) (t : Term) (cursor : Int) : List String :=
  match t with
  | unit | bool _ | var _ => []
  | abs y _ body =>
    if y = x then []
    else if y ∈ u.freeVars then fresh cursor :: draws x u (body.rename y (fresh cursor)) (cursor + 1)
    else draws x u body cursor
  | cond g a b =>
    draws x u g cursor ++ draws x u a (subst x u g cursor).2 ++
      draws x u b (subst x u a (subst x u g cursor).2).2
  | app f a => draws x u f cursor ++ draws x u a (subst x u f cursor).2
termination_by t.size
decreasing_by all_goals simp [size]; try omega

theorem Term.handsOut_draws (x : String) (u t : Term) (c : Int) :
    HandsOut c (draws x u t c) (subst x u t c).2 := by
  fun_induction subst x u t c with
  | case1 | case2 | case3 =>
    rw [draws]
    exact .nil _
  | case4 =>
    rw [draws, if_pos rfl]
    exact .nil _
  | case5 c y ty body hy hyu r ih =>
    rw [draws, if_neg hy, if_pos hyu]
    exact .draw ih
  | case6 c y ty body hy hyu r ih =>
    rw [draws, if_neg hy, if_neg hyu]
    exact ih
  | case7 c g a b rg ra rb ihg iha _ ihb =>
    rw [draws]
    exact (ihg.append iha).append ihb
  | case8 c f a rf ra ihf iha =>
    rw [draws]
    exact ihf.append iha

namespace Machine

/-- The names that a reduction draws, also one that is given up. -/
def draws : (fuel : Nat) → Term → Machine → List String
  | 0, _, _ => []
  | fuel + 1, .cond g a b, m =>
    if m.tick.isSpent then []
    else
      match g.truth? with
      | some c => draws fuel (if c then a else b) m.tick
      | none =>
        draws fuel g m.tick ++
          match reduce fuel g m.tick with
          | (.value g', m') => if g'.truth?.isSome then draws fuel (.cond g' a b) m' else []
          | _ => []
  | fuel + 1, .app f a, m =>
    if m.tick.isSpent then []
    else
      match f.lambda? with
      | some (x, body) =>
        let r := m.tick.subst x a body
        Term.draws x a body m.cursor ++ draws fuel r.1 r.2
      | none =>
        draws fuel f m.tick ++
          match reduce fuel f m.tick with
          | (.value f', m') => if f'.lambda?.isSome then draws fuel (.app f' a) m' else []
          | _ => []
  | _ + 1, _, _ => []

/-- **The cursor that a reduction leaves is behind the names that it has drawn**, however it ends. -/
theorem handsOut_draws (fuel : Nat) (t : Term) (m : Machine) :
    HandsOut m.cursor (draws fuel t m) (reduce fuel t m).2.cursor := by
  fun_induction reduce fuel t m with
  | case1 | case14 | case15 | case16 | case17 => exact .nil _
  | case2 fuel g a b m hs | case8 fuel f a m hs =>
    rw [draws, if_pos hs]
    exact .nil _
  | case3 fuel g a b m hs p hg ih =>
    rw [draws, if_neg hs, hg]
    exact ih
  | case4 fuel g a b m hs hg g' m' hr hg' ih ih' =>
    rw [hr] at ih
    rw [draws, if_neg hs, hg, hr]
    simp only [if_pos hg']
    exact HandsOut.append ih ih'
  | case5 fuel g a b m hs hg g' m' hr hg' ih =>
    rw [hr] at ih
    rw [draws, if_neg hs, hg, hr]
    simp only [if_neg hg', List.append_nil]
    exact ih
  | case6 fuel g a b m hs hg u m' hr ih | case7 fuel g a b m hs hg m' hr ih =>
    rw [hr] at ih
    rw [draws, if_neg hs, hg, hr]
    simp only [List.append_nil]
    exact ih
  | case9 fuel f a m hs x body hf r ih =>
    rw [draws, if_neg hs, hf]
    exact HandsOut.append (Term.handsOut_draws x a body m.cursor) ih
  | case10 fuel f a m hs hf f' m' hr hf' ih ih' =>
    rw [hr] at ih
    rw [draws, if_neg hs, hf, hr]
    simp only [if_pos hf']
    exact HandsOut.append ih ih'
  | case11 fuel f a m hs hf f' m' hr hf' ih =>
    rw [hr] at ih
    rw [draws, if_neg hs, hf, hr]
    simp only [if_neg hf', List.append_nil]
    exact ih
  | case12 fuel f a m hs hf u m' hr ih | case13 fuel f a m hs hf m' hr ih =>
    rw [hr] at ih
    rw [draws, if_neg hs, hf, hr]
    simp only [List.append_nil]
    exact ih

end Machine

/-! ## The reference -/

/-- Contractions of the head redex come to a term that has none. -/
inductive Nameless.ComesTo : Nameless → Nameless → Prop
  | rest {t : Nameless} : t.contract = none → ComesTo t t
  | step {t v : Nameless} {s : Contraction} : t.contract = some s → ComesTo s.result v → ComesTo t v

theorem Nameless.ComesTo.unique {t v w : Nameless} (h : ComesTo t v) (h' : ComesTo t w) : w = v := by
  induction h with
  | rest ht =>
    cases h' with
    | rest => rfl
    | step hs =>
      rw [ht] at hs
      cases hs
  | step hs _ ih =>
    cases h' with
    | rest ht =>
      rw [hs] at ht
      cases ht
    | step hs' h' =>
      obtain rfl := Option.some.inj (hs.symm.trans hs')
      exact ih h'

namespace Term

variable {t v : Term} {c d : Int} {rs : List Term}

/-- The contractions of a harmless term are those of its nameless form. -/
theorem Contracts.comesTo (hc : Contracts t c rs v d) (h : t.Harmless c) (hv : v.contract d = none) :
    (t.nameless []).ComesTo (v.nameless []) := by
  induction hc with
  | refl => exact .rest (by rw [contract_nameless h, hv, Option.map_none])
  | step hs _ ih => exact .step (nameless_contract_of_contract h hs) (ih (h.of_contract hs) hv)

theorem Contracts.freshFrom (hc : Contracts t c rs v d) (h : t.FreshFrom c) : v.FreshFrom d := by
  induction hc with
  | refl => exact h
  | step hs _ ih => exact ih (h.of_contract hs)

end Term

/-! ## One request -/

/-- The names in a request, in terms and as the name that is replaced. -/
def Request.names : Request → List String
  | .substitute x u t => x :: (u.names ++ t.names)
  | .evaluate t | .run t | .step t => t.names

/-- The names in an answer. -/
def Answer.names (a : Answer) : List String := (a.term?.map Term.names).getD []

/-- A request to a machine, with the machine before it, the reply, and the machine after it. -/
structure Exchange where
  request : Request
  before : Machine
  reply : Except Failure Answer
  after : Machine

namespace Exchange

/-- A machine serves a request. -/
def of (fuel : Nat) (m : Machine) (q : Request) : Exchange := ⟨q, m, (m.serve fuel q).1, (m.serve fuel q).2⟩

/-- The names in the answer, if there is one. -/
def told (e : Exchange) : List String :=
  match e.reply with
  | .ok a => a.names
  | .error _ => []

/-- The names drawn to serve the request. -/
def drawn (fuel : Nat) (e : Exchange) : List String :=
  match e.request with
  | .substitute x u t => Term.draws x u t e.before.cursor
  | .evaluate t | .run t => Machine.draws (Machine.fuelFor e.before.limit fuel) t e.before
  | .step _ => []

/-- An answer is that of the nameless reference: a term with another one put in, or the one that contractions of the
head redex come to. -/
def Faithful (e : Exchange) : Prop :=
  match e.request with
  | .substitute x u t =>
    ∃ r, e.reply = .ok (.term r) ∧ r.nameless [] = (t.nameless []).put x (u.nameless [])
  | .evaluate t =>
    ∀ a, e.reply = .ok a → ∃ v, a = .term v ∧ ∀ w, (t.nameless []).ComesTo w ↔ w = v.nameless []
  | .run t =>
    ∀ a, e.reply = .ok a →
      ∃ v, a = .counted v e.after.steps ∧ ∀ w, (t.nameless []).ComesTo w ↔ w = v.nameless []
  | .step _ => ∀ a, e.reply = .ok a → a = .nothing

end Exchange

namespace Machine

variable {m : Machine} {q : Request} {fuel : Nat}

/-- The value of a term without names that the supply can still hand out. -/
theorem run_apart {t v : Term} (ht : t.FreshFrom m.cursor) (h : (m.run fuel t).1 = .value v) :
    v.FreshFrom (m.run fuel t).2.cursor ∧ ∀ w, (t.nameless []).ComesTo w ↔ w = v.nameless [] := by
  obtain ⟨n, d, he, -, hm⟩ := evaluates_of_reduce (Prod.ext h rfl)
  obtain ⟨rs, hrs, hv, -⟩ := he.contracts
  have hd : (m.run fuel t).2.cursor = d := congrArg cursor hm
  have hc := hrs.comesTo (.inr ht) hv
  rw [hd]
  exact ⟨hrs.freshFrom ht, fun w => ⟨hc.unique, fun hw => hw ▸ hc⟩⟩

theorem map_toExcept_eq_ok_iff {w : Verdict} {limit : Option Int} {f : Term → Answer} {a : Answer} :
    (w.toExcept limit).map f = .ok a ↔ ∃ v, w = .value v ∧ a = f v := by
  cases w <;> simp [Verdict.toExcept, Except.map, eq_comm]

/-- The cursor is behind the names drawn for a request. -/
theorem handsOut_serve (fuel : Nat) (m : Machine) (q : Request) :
    HandsOut m.cursor ((Exchange.of fuel m q).drawn fuel) (m.serve fuel q).2.cursor := by
  cases q with
  | substitute x u t => exact Term.handsOut_draws x u t m.cursor
  | evaluate t | run t => exact handsOut_draws _ t m
  | step t => exact .nil _

/-- A request without names that the supply can still hand out is answered by terms without such names. -/
theorem notMem_told_serve (h : ∀ k, m.cursor ≤ k → fresh k ∉ q.names) (k : Int)
    (hk : (m.serve fuel q).2.cursor ≤ k) : fresh k ∉ (Exchange.of fuel m q).told := by
  have hvalue : ∀ t : Term, t.FreshFrom m.cursor → ∀ v, (m.run fuel t).1 = .value v →
      (m.run fuel t).2.cursor ≤ k → fresh k ∉ v.names := by
    intro t ht v hv hk
    exact (run_apart ht hv).1 k hk
  intro hm
  cases hr : (m.serve fuel q).1 with
  | error e => simp [Exchange.told, Exchange.of, hr] at hm
  | ok a =>
    replace hm : fresh k ∈ a.names := by simpa [Exchange.told, Exchange.of, hr] using hm
    cases q with
    | substitute x u t =>
      obtain rfl := Except.ok.inj hr
      have hu : u.FreshFrom m.cursor := fun j hj hx => h j hj (by simp [Request.names, hx])
      have ht : t.FreshFrom m.cursor := fun j hj hx => h j hj (by simp [Request.names, hx])
      exact ht.subst hu x k hk hm
    | evaluate t | run t =>
      obtain ⟨v, hv, rfl⟩ := map_toExcept_eq_ok_iff.mp hr
      exact hvalue t h v hv hk hm
    | step t =>
      obtain ⟨_, -, rfl⟩ : ∃ u, (m.charge (.term t)).1 = .ok u ∧ Answer.nothing = a := by
        cases hc : (m.charge (.term t)).1 <;> simp [serve, hc, Except.map] at hr ⊢
        exact hr
      simp [Answer.names, Answer.term?] at hm

/-- **A request without names that the supply can still hand out is served as the nameless reference asks.** -/
theorem faithful_serve (h : ∀ k, m.cursor ≤ k → fresh k ∉ q.names) : (Exchange.of fuel m q).Faithful := by
  cases q with
  | substitute x u t =>
    have hx : ∀ k, m.cursor ≤ k → fresh k ≠ x := fun k hk e => h k hk (by simp [Request.names, e])
    have hu : u.FreshFrom m.cursor := fun k hk hm => h k hk (by simp [Request.names, hm])
    have ht : t.FreshFrom m.cursor := fun k hk hm => h k hk (by simp [Request.names, hm])
    refine ⟨_, rfl, ?_⟩
    exact Term.nameless_subst (Term.supplyApart_of_freshFrom hx hu) (Term.drawsClear_of_freshFrom ht x u)
      List.not_mem_nil fun _ _ => List.not_mem_nil
  | evaluate t =>
    intro a ha
    obtain ⟨v, hv, rfl⟩ := map_toExcept_eq_ok_iff.mp ha
    exact ⟨v, rfl, (run_apart h hv).2⟩
  | run t =>
    intro a ha
    obtain ⟨v, hv, rfl⟩ := map_toExcept_eq_ok_iff.mp ha
    exact ⟨v, rfl, (run_apart h hv).2⟩
  | step t =>
    intro a ha
    cases hc : (m.charge (.term t)).1 <;> simp [Exchange.of, serve, hc, Except.map] at ha
    exact ha.symm

end Machine

/-! ## A history of requests -/

/-- The names of the supply in a request are known from earlier answers. -/
def Request.Grounded (known : List String) (q : Request) : Prop :=
  ∀ k : Int, 0 ≤ k → fresh k ∈ q.names → fresh k ∈ known

/-- What a machine that starts with a bound has served so far, and the machine as it is now.  A request that was given
up leaves the machine as it was then. -/
inductive History (limit : Option Int) (fuel : Nat) : List Exchange → Machine → Prop
  | start : History limit fuel [] (Machine.start limit)
  | serve {es : List Exchange} {m : Machine} {q : Request} :
      History limit fuel es m → q.Grounded (es.flatMap Exchange.told) →
        History limit fuel (es ++ [Exchange.of fuel m q]) (m.serve fuel q).2

/-- One supply has served all requests without a mix-up. -/
structure KeptApart (fuel : Nat) (es : List Exchange) (m : Machine) : Prop where
  /-- The cursor begins at the first name and never goes back. -/
  cursors : (0 :: es.map fun e => e.after.cursor).Pairwise (· ≤ ·)
  /-- The names drawn are those of the supply up to the cursor, in their order. -/
  drawn : HandsOut 0 (es.flatMap (Exchange.drawn fuel)) m.cursor
  /-- No name is drawn twice. -/
  nodup : (es.flatMap (Exchange.drawn fuel)).Nodup
  /-- The names of the supply that occur in answers are behind the cursor. -/
  told : ∀ k, fresh k ∈ es.flatMap Exchange.told → k < m.cursor
  /-- The answers are those of the nameless reference. -/
  faithful : ∀ e ∈ es, e.Faithful

variable {limit : Option Int} {fuel : Nat} {es : List Exchange} {m : Machine} {q : Request}

/-- All names drawn so far were handed out by one supply. -/
theorem History.handsOut (h : History limit fuel es m) : HandsOut 0 (es.flatMap (Exchange.drawn fuel)) m.cursor := by
  induction h with
  | start => exact .nil _
  | @serve es m q _ _ ih =>
    rw [List.flatMap_append, List.flatMap_singleton]
    exact ih.append (Machine.handsOut_serve fuel m q)

theorem History.cursor_le (h : History limit fuel es m) : ∀ e ∈ es, e.after.cursor ≤ m.cursor := by
  induction h with
  | start => exact fun e he => absurd he List.not_mem_nil
  | @serve es m q _ _ ih =>
    have hle := (Machine.handsOut_serve fuel m q).cursor_le
    intro e he
    rcases List.mem_append.mp he with he | he
    · exact (ih e he).trans hle
    · obtain rfl := List.mem_singleton.mp he
      exact le_rfl

/-- A request whose names are known holds none that the supply can still hand out. -/
theorem Request.Grounded.notMem (hq : q.Grounded (es.flatMap Exchange.told)) (hm : 0 ≤ m.cursor)
    (ht : ∀ k, fresh k ∈ es.flatMap Exchange.told → k < m.cursor) (k : Int) (hk : m.cursor ≤ k) :
    fresh k ∉ q.names := by
  intro hmem
  have hlt := ht k (hq k (hm.trans hk) hmem)
  omega

/-- **One machine never mixes up names**, whatever it is asked and in which order, as long as the names of the supply
in a request are known from earlier answers. -/
theorem History.keptApart (h : History limit fuel es m) : KeptApart fuel es m := by
  induction h with
  | start => exact ⟨by simp, .nil 0, by simp, by simp, by simp⟩
  | @serve es m q h hq ih =>
    have hle := (Machine.handsOut_serve fuel m q).cursor_le
    have hq' := hq.notMem h.handsOut.cursor_le ih.told
    refine ⟨?_, (h.serve hq).handsOut, (h.serve hq).handsOut.nodup, ?_, ?_⟩
    · rw [List.map_append, ← List.cons_append, List.pairwise_append]
      refine ⟨ih.cursors, List.pairwise_singleton _ _, ?_⟩
      intro c hc d hd
      obtain rfl : d = (m.serve fuel q).2.cursor := by simpa [Exchange.of] using hd
      rcases List.mem_cons.mp hc with rfl | hc
      · exact (h.serve hq).handsOut.cursor_le
      · obtain ⟨e, he, rfl⟩ := List.mem_map.mp hc
        exact (h.cursor_le e he).trans hle
    · intro k hk
      rw [List.flatMap_append, List.flatMap_singleton, List.mem_append] at hk
      rcases hk with hk | hk
      · exact (ih.told k hk).trans_le hle
      · by_contra hlt
        exact Machine.notMem_told_serve hq' k (not_lt.mp hlt) hk
    · intro e he
      rcases List.mem_append.mp he with he | he
      · exact ih.faithful e he
      · obtain rfl := List.mem_singleton.mp he
        exact Machine.faithful_serve hq'

/-- A substitution that renames a binder, an evaluation that is given up after it has drawn a name, and a substitution
into the first answer that renames the same binder again. -/
theorem keptApart_past_abandoned_evaluation :
    let m := Machine.start (some 2)
    let q := Request.substitute "x" (.var "y") (.abs "y" .bool (.app (.var "x") (.var "y")))
    let m' := (m.serve 0 q).2
    let q' := Request.evaluate (.app (.app (.abs "x" .bool (.abs "y" .bool (.var "x"))) (.var "y")) (.var "z"))
    let m'' := (m'.serve 0 q').2
    let q'' := Request.substitute "y" (.var "#0") (.abs "#0" .bool (.app (.var "y") (.var "#0")))
    let es := [Exchange.of 0 m q, Exchange.of 0 m' q', Exchange.of 0 m'' q'']
    History (some 2) 0 es (m''.serve 0 q'').2 ∧
      (m'.serve 0 q').1 = .error (.stepLimit (.app (.abs "#1" .bool (.var "y")) (.var "z")) 2) ∧
      (m''.serve 0 q'').1 = .ok (.term (.abs "#2" .bool (.app (.var "#0") (.var "#2")))) ∧
      KeptApart 0 es (m''.serve 0 q'').2 := by
  intro m q m' q' m'' q'' es
  have hplain : ∀ (q : Request) (known : List String), (∀ x ∈ q.names, x.toList.head? ≠ some '#') →
      q.Grounded known := by
    intro q known hq k _ hm
    exact absurd rfl (fresh_ne_of_head? (hq _ hm) k)
  have hfirst : (Exchange.of 0 m q).told = ["#0", "y", "#0"] := by
    cbv
  have hground : q''.Grounded ([Exchange.of 0 m q, Exchange.of 0 m' q'].flatMap Exchange.told) := by
    intro k _ hm
    have hk : fresh k = "y" ∨ fresh k = "#0" := by
      have hs : q''.names ⊆ ["y", "#0"] := by decide
      simpa using hs hm
    rcases hk with hk | hk
    · exact absurd hk (fresh_ne_of_head? (by decide) k)
    · rw [hk, List.flatMap_cons, hfirst]
      exact List.mem_append_left _ List.mem_cons_self
  have h : History (some 2) 0 es (m''.serve 0 q'').2 :=
    .serve (.serve (.serve .start (hplain q _ (by decide))) (hplain q' _ (by decide))) hground
  have hcursor : m''.cursor = 2 := by
    unfold m'' m' m q' q
    cbv
  have hserve : ∀ n : Machine, (n.serve 0 q'').1 =
      .ok (.term (Term.subst "y" (.var "#0") (.abs "#0" .bool (.app (.var "y") (.var "#0"))) n.cursor).1) :=
    fun _ => rfl
  have habandoned : (m'.serve 0 q').1 = .error (.stepLimit (.app (.abs "#1" .bool (.var "y")) (.var "z")) 2) := by
    unfold m' m q' q
    cbv
  refine ⟨h, habandoned, ?_, h.keptApart⟩
  rw [hserve, hcursor]
  cbv

end SimplyTyped
