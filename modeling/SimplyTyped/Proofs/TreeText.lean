import Mathlib
import SimplyTyped.Proofs.Quoting
import SimplyTyped.Proofs.Spans
import SimplyTyped.Tree

/-!
# SimplyTyped.Proofs.TreeText — the tree of a term determines the term and has a line for each node

What opens a node says what the node is apart from its subterms, and so how many of them there are
(`opening_append_inj`).  The trees of the subterms follow with separators between them, so the tree of a term is
delimited: it can be told from whatever follows it, at any level (`delimitedAt_treeAt`).

All text within a line is printable, so line breaks stand only where the layout puts them, and the lines of a tree are
those of its subtrees with a line before and a line behind (`showsNodes_treeAt`).  Each node has one line that opens it,
in preorder, and if it has subterms one that closes it (`ShowsNodes`).
-/

namespace SimplyTyped

open Text (DelimitedAt quotedChars isPrintable)

/-! ## Types -/

namespace Ty

theorem toList_fullForm_arrow (domain codomain : Ty) : (arrow domain codomain).fullForm.toList =
    "FunctionType(domain=".toList ++ (domain.fullForm.toList ++
      (", codomain=".toList ++ (codomain.fullForm.toList ++ ")".toList))) := by
  have h : (arrow domain codomain).fullForm =
    "FunctionType(domain=" ++ domain.fullForm ++ ", codomain=" ++ codomain.fullForm ++ ")" := rfl
  simp only [h, String.toList_append, List.append_assoc]

/-- The letter that the full form of a type begins with. -/
def initial : Ty → Char
  | unit => 'U'
  | bool => 'B'
  | arrow _ _ => 'F'

theorem head?_fullForm (ty : Ty) (rest : List Char) : (ty.fullForm.toList ++ rest).head? = some ty.initial := by
  cases ty with
  | unit | bool => rfl
  | arrow domain codomain =>
    rw [toList_fullForm_arrow]
    rfl

theorem initial_eq {ty ty' : Ty} {r s : List Char} (h : ty.fullForm.toList ++ r = ty'.fullForm.toList ++ s) :
    ty.initial = ty'.initial := by
  have hhead := congrArg List.head? h
  rw [head?_fullForm, head?_fullForm] at hhead
  exact Option.some.inj hhead

theorem delimitedAt_fullForm (ty : Ty) : DelimitedAt (fun ty : Ty => ty.fullForm.toList) ty := by
  induction ty with
  | unit =>
    intro ty' r s h
    cases ty' with
    | unit => exact ⟨rfl, List.append_cancel_left h⟩
    | bool | arrow => cases initial_eq h
  | bool =>
    intro ty' r s h
    cases ty' with
    | bool => exact ⟨rfl, List.append_cancel_left h⟩
    | unit | arrow => cases initial_eq h
  | arrow domain codomain ihd ihc =>
    intro ty' r s h
    cases ty' with
    | unit | bool => cases initial_eq h
    | arrow domain' codomain' =>
      simp only [toList_fullForm_arrow, List.append_assoc] at h
      obtain ⟨rfl, hcodomain⟩ := ihd (List.append_cancel_left h)
      obtain ⟨rfl, hrest⟩ := ihc (List.append_cancel_left hcodomain)
      exact ⟨rfl, List.append_cancel_left hrest⟩

theorem all_isPrintable_fullForm (ty : Ty) : ty.fullForm.toList.all isPrintable = true := by
  induction ty with
  | unit | bool => rfl
  | arrow domain codomain ihd ihc =>
    have hlead : "FunctionType(domain=".toList.all isPrintable = true := rfl
    have hbetween : ", codomain=".toList.all isPrintable = true := rfl
    have hend : ")".toList.all isPrintable = true := rfl
    simp only [toList_fullForm_arrow, List.all_append, hlead, ihd, hbetween, ihc, hend, Bool.and_true]

end Ty

namespace Term

/-! ## What stands on the lines of a tree -/

/-- What opens a node, behind the blanks; for a node without subterms it is all there is. -/
def opening : Term → List Char
  | unit => "UnitTerm()".toList
  | bool b => (if b then "TrueTerm()" else "FalseTerm()").toList
  | var x => "Variable(name=".toList ++ (quotedChars x.toList ++ ")".toList)
  | abs x ty _ =>
    "Abstraction(param=".toList ++ (quotedChars x.toList ++ (", param_type=".toList ++
      (ty.fullForm.toList ++ ", nodes=[".toList)))
  | cond _ _ _ => "Conditional(nodes=[".toList
  | app _ _ => "Application(nodes=[".toList

-- The two equations are stated because `simp [opening]` would have to tell the cases apart by their long literals.

theorem opening_var (x : String) : (var x).opening = "Variable(name=".toList ++ (quotedChars x.toList ++ ")".toList) :=
  rfl

theorem opening_abs (x : String) (ty : Ty) (body : Term) :
    (abs x ty body).opening = "Abstraction(param=".toList ++ (quotedChars x.toList ++ (", param_type=".toList ++
      (ty.fullForm.toList ++ ", nodes=[".toList))) :=
  rfl

/-- What closes a node that has subterms, behind the blanks. -/
def closing : List Char := "])".toList

/-- The blanks before a line. -/
def margin (level : Int) : List Char := (indentation level).toList

variable {t u : Term} {level : Int} {r s : List Char}

theorem toList_quoted (x : String) : (Text.quoted x).toList = quotedChars x.toList := String.toList_ofList

theorem toList_bracketed (level : Int) (subtrees : List String) :
    (bracketed level subtrees).toList ++ ")".toList =
      "nodes=[".toList ++ '\n' :: ([',', '\n'].intercalate (subtrees.map String.toList) ++
        '\n' :: (margin level ++ closing)) := by
  have h : bracketed level subtrees =
    "nodes=[\n" ++ ",\n".intercalate subtrees ++ "\n" ++ indentation level ++ "]" := rfl
  simp [h, String.toList_intercalate, margin, closing]

/-- What stands between the opening of a node and the end of its tree. -/
def inside (level : Int) : List Term → List Char
  | [] => []
  | subterms =>
    '\n' :: ([',', '\n'].intercalate (subterms.map fun s => (s.treeAt (level + 1)).toList) ++
      '\n' :: (margin level ++ closing))

theorem inside_of_ne_nil (level : Int) {subterms : List Term} (h : subterms ≠ []) :
    inside level subterms =
      '\n' :: ([',', '\n'].intercalate (subterms.map fun s => (s.treeAt (level + 1)).toList) ++
        '\n' :: (margin level ++ closing)) := by
  cases subterms with
  | nil => exact absurd rfl h
  | cons => rfl

theorem toList_treeAt (level : Int) (t : Term) :
    (t.treeAt level).toList = margin level ++ (t.opening ++ inside level t.children) := by
  have hnode (lead : String) (subtrees : List String) :
      (indentation level ++ (lead ++ bracketed level subtrees ++ ")")).toList =
        margin level ++ (lead.toList ++ ("nodes=[".toList ++ '\n' ::
          ([',', '\n'].intercalate (subtrees.map String.toList) ++ '\n' :: (margin level ++ closing)))) := by
    rw [String.toList_append, String.toList_append, String.toList_append, List.append_assoc, toList_bracketed]
    rfl
  have hleaf (text : String) :
      (indentation level ++ text).toList = margin level ++ (text.toList ++ inside level []) := by
    rw [String.toList_append, inside, List.append_nil, margin]
  cases t with
  | unit => exact hleaf "UnitTerm()"
  | bool b => exact hleaf (if b then "TrueTerm()" else "FalseTerm()")
  | var x =>
    have h : (var x).treeAt level = indentation level ++ ("Variable(name=" ++ Text.quoted x ++ ")") := rfl
    rw [h, hleaf, String.toList_append, String.toList_append, toList_quoted, List.append_assoc "Variable(name=".toList]
    rfl
  | abs x ty body =>
    have h : (abs x ty body).treeAt level = indentation level ++
      ("Abstraction(param=" ++ Text.quoted x ++ ", param_type=" ++ ty.fullForm ++ ", " ++
        bracketed level [body.treeAt (level + 1)] ++ ")") := rfl
    have hlead : ("Abstraction(param=" ++ Text.quoted x ++ ", param_type=" ++ ty.fullForm ++ ", ").toList ++
        "nodes=[".toList = (abs x ty body).opening := by
      simp only [String.toList_append, toList_quoted, List.append_assoc]
      rfl
    rw [h, hnode, ← List.append_assoc _ "nodes=[".toList, hlead]
    rfl
  | cond g a b =>
    exact hnode "Conditional(" [g.treeAt (level + 1), a.treeAt (level + 1), b.treeAt (level + 1)]
  | app f a => exact hnode "Application(" [f.treeAt (level + 1), a.treeAt (level + 1)]

/-! ## The tree determines the term -/

/-- A term with the unit in place of each subterm. -/
def bare : Term → Term
  | abs x ty _ => abs x ty unit
  | cond _ _ _ => cond unit unit unit
  | app _ _ => app unit unit
  | t => t

theorem eq_of_bare_of_children (hb : t.bare = u.bare) (hc : t.children = u.children) : t = u := by
  cases t <;> cases u <;> simp_all [bare, children]

theorem length_children_bare (t : Term) : t.bare.children.length = t.children.length := by
  cases t <;> rfl

/-- The two letters that the opening of a node begins with. -/
def initials : Term → List Char
  | unit => ['U', 'n']
  | bool true => ['T', 'r']
  | bool false => ['F', 'a']
  | var _ => ['V', 'a']
  | abs _ _ _ => ['A', 'b']
  | cond _ _ _ => ['C', 'o']
  | app _ _ => ['A', 'p']

theorem take_opening (t : Term) (rest : List Char) : (t.opening ++ rest).take 2 = t.initials := by
  cases t with
  | bool b => cases b <;> rfl
  | _ => rfl

theorem initials_eq (h : t.opening ++ r = u.opening ++ s) : t.initials = u.initials := by
  rw [← take_opening t r, h, take_opening]

theorem opening_bare (t : Term) : t.bare.opening = t.opening := by
  cases t <;> rfl

/-- Nodes whose openings begin alike are the same apart from their subterms, unless both have a name to be compared. -/
theorem alike_of_initials (h : t.initials = u.initials) :
    t.bare = u.bare ∨ (∃ x y, t = var x ∧ u = var y) ∨
      ∃ x ty body y ty' body', t = abs x ty body ∧ u = abs y ty' body' := by
  rcases t with _ | ⟨_ | _⟩ | _ | _ | _ | _ <;> rcases u with _ | ⟨_ | _⟩ | _ | _ | _ | _ <;>
    simp_all [initials, bare]

/-- **The opening of a node says what the node is** apart from its subterms, and it is known where the opening ends. -/
theorem opening_append_inj (h : t.opening ++ r = u.opening ++ s) : t.bare = u.bare ∧ r = s := by
  rcases alike_of_initials (initials_eq h) with hbare | ⟨x, y, rfl, rfl⟩ | ⟨x, ty, body, y, ty', body', rfl, rfl⟩
  · rw [← opening_bare t, hbare, opening_bare] at h
    exact ⟨hbare, List.append_cancel_left h⟩
  · simp only [opening_var, List.append_assoc] at h
    obtain ⟨hxy, hbehind⟩ := Text.delimitedAt_quotedChars _ (List.append_cancel_left h)
    exact ⟨by rw [String.toList_inj.mp hxy], List.append_cancel_left hbehind⟩
  · simp only [opening_abs, List.append_assoc] at h
    obtain ⟨hxy, hbehind⟩ := Text.delimitedAt_quotedChars _ (List.append_cancel_left h)
    obtain ⟨hty, hrest⟩ := ty.delimitedAt_fullForm (List.append_cancel_left hbehind)
    exact ⟨by rw [bare, bare, String.toList_inj.mp hxy, hty], List.append_cancel_left hrest⟩

/-- Subterms whose trees are delimited are known from what stands inside their node, once their number is. -/
theorem inside_append_inj {ts us : List Term}
    (ht : ∀ t ∈ ts, DelimitedAt (fun t : Term => (t.treeAt (level + 1)).toList) t) (hlength : ts.length = us.length)
    (h : inside level ts ++ r = inside level us ++ s) : ts = us ∧ r = s := by
  cases ts with
  | nil =>
    obtain rfl := List.length_eq_zero_iff.mp hlength.symm
    exact ⟨rfl, h⟩
  | cons t ts =>
    obtain ⟨u, us, rfl⟩ := List.exists_cons_of_length_eq_add_one hlength.symm
    simp only [inside, List.cons_append, List.append_assoc, List.cons.injEq, true_and] at h
    obtain ⟨htu, hbehind⟩ := Text.delimitedAt_intercalate _ ht hlength h
    exact ⟨htu, by simpa using hbehind⟩

/-- **The tree of a term ends where its first node ends**, and no other term has it. -/
theorem delimitedAt_treeAt (t : Term) (level : Int) : DelimitedAt (fun t : Term => (t.treeAt level).toList) t := by
  induction t using induction_children generalizing level with
  | step t ih =>
    intro u r s h
    simp only [toList_treeAt, List.append_assoc] at h
    obtain ⟨hbare, hinside⟩ := opening_append_inj (List.append_cancel_left h)
    have hlength : t.children.length = u.children.length := by
      rw [← length_children_bare, hbare, length_children_bare]
    obtain ⟨hchildren, hrest⟩ := inside_append_inj (fun s hs => ih s hs (level + 1)) hlength hinside
    exact ⟨eq_of_bare_of_children hbare hchildren, hrest⟩

theorem treeAt_injective (level : Int) : Function.Injective (treeAt level) := by
  intro t u h
  exact (delimitedAt_treeAt t level (congrArg (·.toList ++ []) h)).1

/-! ## The lines of a tree -/

/-- What stands behind the tree of a subterm: a comma if a sibling follows. -/
def Separates (comma : List Char) : Prop := comma = [] ∨ comma = [',']

/-- A line that opens a node.  A comma can stand on it only if the node has no subterms. -/
def Opens (level : Int) (node : Path × Term) (line : List Char) : Prop :=
  ∃ comma, (comma = [] ∨ node.2.children = [] ∧ comma = [',']) ∧
    line = margin (level + node.1.length) ++ (node.2.opening ++ comma)

/-- A line that closes a node. -/
def Closes (level : Int) (node : Path × Term) (line : List Char) : Prop :=
  ∃ comma, Separates comma ∧ line = margin (level + node.1.length) ++ (closing ++ comma)

/-- Whether a line begins with a closing bracket. -/
def isClosing (line : List Char) : Bool := (line.dropWhile (· = ' ')).head? = some ']'

/-- The nodes that have subterms. -/
def inner (nodes : List (Path × Term)) : List (Path × Term) := nodes.filter fun node => node.2.children ≠ []

/-- What lines show nodes in preorder, the root at a level.  The lines that do not begin with a closing bracket open the
nodes in their order; those that do close the nodes with subterms, in some order. -/
structure ShowsNodes (level : Int) (nodes : List (Path × Term)) (lines : List (List Char)) : Prop where
  opened : List.Forall₂ (Opens level) nodes (lines.filter (!isClosing ·))
  closed : ∃ order, List.Perm order (inner nodes) ∧ List.Forall₂ (Closes level) order (lines.filter isClosing)
  printable : ∀ line ∈ lines, line.all isPrintable = true

variable {nodes nodes' : List (Path × Term)} {lines lines' : List (List Char)} {line comma : List Char}

theorem all_isPrintable_margin (level : Int) : (margin level).all isPrintable = true := by
  rw [List.all_eq_true, margin, indentation, String.toList_ofList]
  intro c hc
  rw [List.eq_of_mem_replicate hc]
  rfl

theorem all_isPrintable_opening (t : Term) : t.opening.all isPrintable = true := by
  cases t with
  | bool b => cases b <;> rfl
  | var x =>
    have hlead : "Variable(name=".toList.all isPrintable = true := rfl
    have hend : ")".toList.all isPrintable = true := rfl
    simp only [opening_var, List.all_append, hlead, Text.all_isPrintable_quotedChars, hend, Bool.and_true]
  | abs x ty body =>
    have hlead : "Abstraction(param=".toList.all isPrintable = true := rfl
    have hbetween : ", param_type=".toList.all isPrintable = true := rfl
    have hend : ", nodes=[".toList.all isPrintable = true := rfl
    simp only [opening_abs, List.all_append, hlead, Text.all_isPrintable_quotedChars, hbetween,
      Ty.all_isPrintable_fullForm, hend, Bool.and_true]
  | unit | cond | app => rfl

theorem all_isPrintable_closing : closing.all isPrintable = true := rfl

theorem dropWhile_margin (level : Int) (text : List Char) :
    (margin level ++ text).dropWhile (· = ' ') = text.dropWhile (· = ' ') := by
  refine List.dropWhile_append_of_pos fun c hc => ?_
  rw [margin, indentation, String.toList_ofList] at hc
  simpa using List.eq_of_mem_replicate hc

theorem isClosing_opening (level : Int) (t : Term) (rest : List Char) :
    isClosing (margin level ++ (t.opening ++ rest)) = false := by
  rw [isClosing, dropWhile_margin]
  cases t with
  | bool b => cases b <;> rfl
  | _ => rfl

theorem isClosing_closing (level : Int) (rest : List Char) : isClosing (margin level ++ (closing ++ rest)) = true := by
  rw [isClosing, dropWhile_margin]
  rfl

/-- Printable text is a line. -/
theorem splitOn_of_printable (h : line.all isPrintable = true) : line.splitOn '\n' = [line] :=
  List.splitOn_eq_singleton fun hmem => absurd (List.all_eq_true.mp h _ hmem) (by decide)

theorem ShowsNodes.append (h : ShowsNodes level nodes lines) (h' : ShowsNodes level nodes' lines') :
    ShowsNodes level (nodes ++ nodes') (lines ++ lines') where
  opened := by
    rw [List.filter_append]
    exact List.rel_append h.opened h'.opened
  closed := by
    obtain ⟨order, hperm, hclosed⟩ := h.closed
    obtain ⟨order', hperm', hclosed'⟩ := h'.closed
    rw [inner, List.filter_append, List.filter_append]
    exact ⟨order ++ order', hperm.append hperm', List.rel_append hclosed hclosed'⟩
  printable := List.forall_mem_append.mpr ⟨h.printable, h'.printable⟩

theorem inner_underChild (i : Nat) (nodes : List (Path × Term)) :
    inner (underChild i nodes) = underChild i (inner nodes) := List.filter_map

theorem level_underChild (level : Int) (i : Nat) (p : Path) : level + 1 + p.length = level + (i :: p).length := by
  rw [List.length_cons]
  omega

/-- Nodes that lines show a level deeper are shown below their parent. -/
theorem ShowsNodes.underChild (i : Nat) (h : ShowsNodes (level + 1) nodes lines) :
    ShowsNodes level (underChild i nodes) lines where
  opened := by
    refine List.forall₂_map_left_iff.mpr (h.opened.imp fun node line hopens => ?_)
    obtain ⟨comma, hcomma, rfl⟩ := hopens
    exact ⟨comma, hcomma, by rw [level_underChild level i]⟩
  closed := by
    obtain ⟨order, hperm, hclosed⟩ := h.closed
    rw [inner_underChild]
    refine ⟨Term.underChild i order, hperm.map _, ?_⟩
    refine List.forall₂_map_left_iff.mpr (hclosed.imp fun node line hcloses => ?_)
    obtain ⟨comma, hcomma, rfl⟩ := hcloses
    exact ⟨comma, hcomma, by rw [level_underChild level i]⟩
  printable := h.printable

theorem Separates.all_isPrintable (h : Separates comma) : comma.all isPrintable = true := by
  rcases h with rfl | rfl <;> rfl

theorem all_isPrintable_opens (level : Int) (t : Term) (h : Separates comma) :
    (margin level ++ (t.opening ++ comma)).all isPrintable = true := by
  rw [List.all_append, List.all_append, all_isPrintable_margin, all_isPrintable_opening, h.all_isPrintable]
  rfl

theorem all_isPrintable_closes (level : Int) (h : Separates comma) :
    (margin level ++ (closing ++ comma)).all isPrintable = true := by
  rw [List.all_append, List.all_append, all_isPrintable_margin, all_isPrintable_closing, h.all_isPrintable]
  rfl

/-- A node without subterms is shown by the line that opens it. -/
theorem showsNodes_leaf (level : Int) (h : t.children = []) (hcomma : Separates comma) :
    ShowsNodes level [([], t)] [margin level ++ (t.opening ++ comma)] where
  opened := by
    rw [List.filter_singleton, isClosing_opening]
    exact .cons ⟨comma, hcomma.imp_right (⟨h, ·⟩), by simp⟩ .nil
  closed := by
    refine ⟨[], ?_, ?_⟩
    · simp [inner, h]
    · rw [List.filter_singleton, isClosing_opening]
      exact .nil
  printable := by
    rw [List.forall_mem_singleton]
    exact all_isPrintable_opens level t hcomma

/-- Around the lines of its subterms, a node has a line that opens it and one that closes it. -/
theorem ShowsNodes.node (h : t.children ≠ []) (hcomma : Separates comma) (hinside : ShowsNodes level nodes lines) :
    ShowsNodes level (([], t) :: nodes)
      ((margin level ++ (t.opening ++ [])) :: (lines ++ [margin level ++ (closing ++ comma)])) where
  opened := by
    rw [List.filter_cons, List.filter_append, List.filter_singleton, isClosing_opening, isClosing_closing]
    refine .cons ⟨[], .inl rfl, by simp⟩ ?_
    simpa using hinside.opened
  closed := by
    obtain ⟨order, hperm, hclosed⟩ := hinside.closed
    refine ⟨order ++ [([], t)], ?_, ?_⟩
    · have hinner : inner (([], t) :: nodes) = ([], t) :: inner nodes := List.filter_cons_of_pos (by simpa using h)
      rw [hinner]
      exact (List.perm_append_singleton _ _).trans (hperm.cons _)
    · rw [List.filter_cons, List.filter_append, List.filter_singleton, isClosing_opening, isClosing_closing]
      exact List.rel_append hclosed (.cons ⟨comma, hcomma, by simp⟩ .nil)
  printable := by
    simp only [List.forall_mem_cons, List.forall_mem_append]
    exact ⟨all_isPrintable_opens level t (.inl rfl), hinside.printable, all_isPrintable_closes level hcomma,
      List.forall_mem_nil _⟩

/-- The lines of the subterms, one after the other. -/
theorem showsNodes_subterms {ts : List Term} (f : Nat → Nat) (hne : ts ≠ [])
    (h : ∀ t ∈ ts, ∀ comma, Separates comma →
      ShowsNodes (level + 1) t.occurrences (((t.treeAt (level + 1)).toList ++ comma).splitOn '\n')) :
    ShowsNodes level (ts.mapIdx fun i t => underChild (f i) t.occurrences).flatten
      (([',', '\n'].intercalate (ts.map fun t => (t.treeAt (level + 1)).toList)).splitOn '\n') := by
  induction ts generalizing f with
  | nil => exact absurd rfl hne
  | cons t ts ih =>
    rw [List.forall_mem_cons] at h
    cases ts with
    | nil =>
      have hlast := (h.1 [] (.inl rfl)).underChild (f 0)
      rw [List.append_nil] at hlast
      simpa [List.intercalate] using hlast
    | cons t' ts =>
      have hfirst := (h.1 [','] (.inr rfl)).underChild (f 0)
      have hrest := ih (fun i => f (i + 1)) (List.cons_ne_nil t' ts) h.2
      rw [List.mapIdx_cons, List.flatten_cons, List.map_cons, List.map_cons, List.intercalate_cons_cons,
        List.append_cons _ ',' ['\n'], List.append_assoc, List.singleton_append, List.splitOn_append_cons_self]
      exact hfirst.append hrest

/-- **The lines of a tree** open its nodes, one line each, and close those with subterms. -/
theorem showsNodes_treeAt (t : Term) (level : Int) (hcomma : Separates comma) :
    ShowsNodes level t.occurrences (((t.treeAt level).toList ++ comma).splitOn '\n') := by
  induction t using induction_children generalizing level comma with
  | step t ih =>
    rw [occurrences_eq, toList_treeAt]
    by_cases h : t.children = []
    · rw [h, inside, List.append_nil, List.append_assoc, splitOn_of_printable (all_isPrintable_opens level t hcomma)]
      exact showsNodes_leaf level h hcomma
    · have hlines := showsNodes_subterms id h fun s hs comma hcomma => ih s hs (level + 1) hcomma
      have htext : margin level ++ (t.opening ++ inside level t.children) ++ comma =
          margin level ++ (t.opening ++ []) ++ '\n' ::
            ([',', '\n'].intercalate (t.children.map fun s => (s.treeAt (level + 1)).toList) ++
              '\n' :: (margin level ++ (closing ++ comma))) := by
        rw [inside_of_ne_nil level h]
        simp
      rw [htext, List.splitOn_append_cons_self, List.splitOn_append_cons_self,
        splitOn_of_printable (all_isPrintable_opens level t (.inl rfl)),
        splitOn_of_printable (all_isPrintable_closes level hcomma)]
      exact hlines.node h hcomma

theorem ShowsNodes.length_eq (h : ShowsNodes level nodes lines) :
    lines.length = nodes.length + (inner nodes).length := by
  obtain ⟨order, hperm, hclosed⟩ := h.closed
  rw [List.length_eq_length_filter_add isClosing, ← hclosed.length_eq, hperm.length_eq, ← h.opened.length_eq,
    Nat.add_comm]

/-- **The tree of a term determines the term**, at any level.  Its lines open the nodes, one line each, and close those
that have subterms, one line each, and there are no others. -/
theorem tree_determines (level : Int) :
    Function.Injective (treeAt level) ∧
      ∀ t : Term, ShowsNodes level t.occurrences ((t.treeAt level).toList.splitOn '\n') ∧
        ((t.treeAt level).toList.splitOn '\n').length = t.occurrences.length + (inner t.occurrences).length := by
  refine ⟨treeAt_injective level, fun t => ?_⟩
  have hlines := showsNodes_treeAt t level (.inl rfl)
  rw [List.append_nil] at hlines
  exact ⟨hlines, hlines.length_eq⟩

example : (app (abs "it's" .bool (var "it's")) (bool true)).tree =
    "Application(nodes=[\n" ++
    "    Abstraction(param=\"it's\", param_type=BoolType(), nodes=[\n" ++
    "        Variable(name=\"it's\")\n" ++
    "    ]),\n" ++
    "    TrueTerm()\n" ++
    "])" := by decide +kernel

end Term

end SimplyTyped
