/-!
# Sorting by a Test

A list is put in order by a test whether one item comes before another. It is cut into runs, each
of which is in order already, or is so in reverse; short runs take in the items after them, one by
one, at a place found by halving; and the runs are merged. A list shorter than 64 is one run.

Where the test is an order, this is the stable arrangement and it does not matter how it is found.
A test need not be one: of three items, each may come before the next and the last before the
first. Then no two neighbours in the result are out of order, a list in which none are stays as it
is, and the rest depends on the places at which the test is asked.
-/

namespace Corridor.Sorting

variable {α : Type}

/-- Cuts a list at the first item that does not follow the one before it as asked. -/
def cut (follows : α → α → Bool) : α → List α → List α × List α
  | _, [] => ([], [])
  | x, y :: ys =>
      if follows x y then (y :: (cut follows y ys).1, (cut follows y ys).2) else ([], y :: ys)

theorem length_cut_le (follows : α → α → Bool) (x : α) (ys : List α) :
    (cut follows x ys).2.length ≤ ys.length := by
  induction ys generalizing x with
  | nil => exact Nat.le_refl _
  | cons y ys ih =>
      rw [cut]
      split
      · exact Nat.le_succ_of_le (ih y)
      · exact Nat.le_refl _

variable (before : α → α → Bool)

/-- Whether an item may stand in front of another one. -/
def notAfter (x y : α) : Bool := !before y x

/-- The run at the start of a list, in order, and the rest. If the second item comes before the
first, the run goes on while items come before the last one, and is reversed. -/
def firstRun (x : α) : List α → List α × List α
  | [] => ([x], [])
  | y :: ys =>
      if before y x then
        let parts := cut (fun a b => before b a) y ys
        ((x :: y :: parts.1).reverse, parts.2)
      else
        let parts := cut (notAfter before) y ys
        (x :: y :: parts.1, parts.2)

theorem length_firstRun_le (x : α) (xs : List α) : (firstRun before x xs).2.length ≤ xs.length := by
  cases xs with
  | nil => exact Nat.le_refl _
  | cons y ys =>
      rw [firstRun]
      split
      · exact Nat.le_succ_of_le (length_cut_le _ y ys)
      · exact Nat.le_succ_of_le (length_cut_le _ y ys)

/-- Puts an item into a run: in front of the middle one if it comes before it, and behind it
otherwise. -/
def insert (x : α) (run : List α) : List α :=
  match _hmiddle : run.drop (run.length / 2) with
  | [] => [x]
  | y :: later =>
      if before x y then insert x (run.take (run.length / 2)) ++ y :: later
      else run.take (run.length / 2) ++ y :: insert x later
termination_by run.length
decreasing_by
  all_goals
    have hlength := congrArg List.length _hmiddle
    simp only [List.length_drop, List.length_cons, List.length_take] at hlength ⊢
    omega

/-- The least length of a run in a list of the given length: the length itself if it is less than
64, and between 32 and 64 otherwise. -/
def leastRun (length : Nat) : Nat :=
  let halvings := length.log2 - 5
  (length >>> halvings) + if (length >>> halvings) <<< halvings = length then 0 else 1

/-- The runs of a list, of which none but the last is shorter than the least length. -/
def runs (least : Nat) : List α → List (List α)
  | [] => []
  | x :: xs =>
      let parts := firstRun before x xs
      let missing := least - parts.1.length
      (parts.2.take missing).foldl (fun run y => insert before y run) parts.1 ::
        runs least (parts.2.drop missing)
termination_by xs => xs.length
decreasing_by
  have hrest := length_firstRun_le before x xs
  simp only [List.length_drop, List.length_cons]
  omega

/-- The items in order. -/
def sort (xs : List α) : List α :=
  (runs before (leastRun xs.length) xs).foldr (fun run sorted => run.merge sorted (notAfter before))
    []

end Corridor.Sorting
