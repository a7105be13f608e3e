/-!
# Greedy Partitions

A list is cut into groups in one pass: each item joins the group before it if a test allows it,
and starts a new group if not. The test sees the whole group and may fail.
-/

namespace Corridor.Partition

variable {α ε : Type}

/-- Continues with a group that is open, over the items that follow it. -/
def extend (joins : List α → α → Except ε Bool) (group : List α) :
    List α → Except ε (List (List α))
  | [] => .ok [group]
  | x :: xs => do
      if ← joins group x then extend joins (group ++ [x]) xs
      else return group :: (← extend joins [x] xs)

/-- The groups of a list. Each item joins the open group if the test allows it. -/
def greedy (joins : List α → α → Except ε Bool) : List α → Except ε (List (List α))
  | [] => .ok []
  | x :: xs => extend joins [x] xs

end Corridor.Partition
