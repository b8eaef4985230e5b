/-!
# SimplyTyped.Names — the supply of fresh names

The supply hands out `#0`, `#1`, `#2`, … from a cursor on.  No name is handed out twice by a cursor that only grows.
-/

namespace SimplyTyped

/-- The name of the supply at a cursor. -/
def fresh (cursor : Int) : String := "#" ++ cursor.repr

/-- The names drawn by `count` draws from a cursor, in order. -/
def freshNames (cursor : Int) : Nat → List String
  | 0 => []
  | count + 1 => fresh cursor :: freshNames (cursor + 1) count

@[simp] theorem length_freshNames (cursor : Int) (count : Nat) : (freshNames cursor count).length = count := by
  induction count generalizing cursor with
  | zero => rfl
  | succ n ih => rw [freshNames, List.length_cons, ih]

/-- The `i`-th draw gives the name `i` places behind the cursor. -/
theorem getElem?_freshNames {cursor : Int} {count i : Nat} (h : i < count) :
    (freshNames cursor count)[i]? = some (fresh (cursor + i)) := by
  induction count generalizing cursor i with
  | zero => omega
  | succ n ih =>
    cases i with
    | zero => simp [freshNames]
    | succ j =>
      rw [freshNames, List.getElem?_cons_succ, ih (by omega)]
      congr 2
      omega

end SimplyTyped
