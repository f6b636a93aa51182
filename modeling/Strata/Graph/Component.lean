/-
# Strongly connected components

Specification, section 4.3: strongly connected components by the algorithm of Tarjan.

Two nodes of a directed graph belong to the same component when each can be
reached from the other. A single depth-first search finds all components.

While it runs, a node is in one of three states:

| mark | meaning |
| --- | --- |
| `fresh` | not discovered yet |
| `open number` | discovered as the `number`-th node; its component is not complete |
| `closed` | its component was reported |

The open nodes stand on a stack in the order of their discovery. Those of them
whose successors are not all looked at have a frame, the latest first: the
successors that are left, and the smallest number `low` of an open node that
the node is known to reach. Each step of the search takes the latest frame:

| the next successor is | the step |
| --- | --- |
| fresh | discovers it; it gets a frame of its own |
| open | lowers `low` to its number |
| closed | passes it over |
| missing | drops the frame, and lowers the `low` of the frame below to that of the dropped one |

When a frame is dropped whose `low` is the number of its own node, that node is
the first discovered of its component, and the component is the part of the
stack down to it. So a component is reported before every component that it can
be reached from.
-/

namespace Strata
namespace Graph

/-- A directed graph on the numbers below its size: the successors of each
node. -/
abbrev Adjacency := Array (List Nat)

/-- The successors of a node; a number that is no node has none. -/
def successors (g : Adjacency) (v : Nat) : List Nat := g.getD v []

/-- `Reaches g v w` holds when a path leads from `v` to `w`. -/
inductive Reaches (g : Adjacency) : Nat → Nat → Prop where
  | refl (v : Nat) : Reaches g v v
  | step {u v w : Nat} : v ∈ successors g u → Reaches g v w → Reaches g u w

theorem Reaches.trans {g : Adjacency} {u v w : Nat} (h : Reaches g u v) (k : Reaches g v w) :
    Reaches g u w := by
  induction h with
  | refl => exact k
  | step hs _ ih => exact .step hs (ih k)

/-- The state of a node. -/
inductive Mark where
  | fresh
  | open (number : Nat)
  | closed
  deriving Repr, DecidableEq, Inhabited

/-- An open node whose successors are being looked at. -/
structure Frame where
  node : Nat
  number : Nat
  /-- the smallest number of an open node that the node is known to reach -/
  low : Nat
  /-- the successors that are left -/
  pending : List Nat
  deriving Repr, DecidableEq

namespace Frame

/-- The frame of a node that was just discovered. -/
def enter (g : Adjacency) (v number : Nat) : Frame := ⟨v, number, number, successors g v⟩

/-- The frame when it is known that the node reaches an open node. -/
def lower (f : Frame) (number : Nat) : Frame := { f with low := min f.low number }

/-- The frame when only some successors are left. -/
def leaving (f : Frame) (pending : List Nat) : Frame := { f with pending }

end Frame

/-- The state of the search: the number of the node that is discovered next,
the marks, the open nodes, the frames and the reported components, all three
with the latest first. -/
structure Search where
  next : Nat
  marks : Array Mark
  stack : List Nat
  frames : List Frame
  reported : List (List Nat)
  deriving Repr

/-- A stack down to a node, and the rest below it. -/
def cutStack (v : Nat) : List Nat → List Nat × List Nat
  | [] => ([], [])
  | w :: below =>
    if w = v then ([w], below)
    else
      let (above, rest) := cutStack v below
      (w :: above, rest)

/-- The marks when a component is complete. -/
def closeAll (component : List Nat) (marks : Array Mark) : Array Mark :=
  component.foldl (fun marks w => marks.setIfInBounds w .closed) marks

namespace Search

/-- Before the search. -/
def start (size : Nat) : Search := ⟨0, Array.replicate size .fresh, [], [], []⟩

/-- The mark of a node; a number that is no node counts as closed. -/
def markOf (s : Search) (v : Nat) : Mark := s.marks.getD v .closed

/-- Discovers a node. -/
def discover (g : Adjacency) (s : Search) (v : Nat) : Search :=
  { s with
    next := s.next + 1
    marks := s.marks.setIfInBounds v (.open s.next)
    stack := v :: s.stack
    frames := .enter g v s.next :: s.frames }

/-- Reports the component of its first discovered node. -/
def report (s : Search) (v : Nat) : Search :=
  let (component, below) := cutStack v s.stack
  { s with
    marks := closeAll component s.marks
    stack := below
    reported := component.mergeSort (· ≤ ·) :: s.reported }

/-- The search with other frames. -/
def withFrames (s : Search) (frames : List Frame) : Search := { s with frames }

/-- Looks at the next successor of the latest frame. -/
def look (g : Adjacency) (s : Search) (f : Frame) (outer : List Frame) (w : Nat)
    (rest : List Nat) : Search :=
  match s.markOf w with
  | .fresh => (s.withFrames (f.leaving rest :: outer)).discover g w
  | .open number => s.withFrames ((f.leaving rest).lower number :: outer)
  | .closed => s.withFrames (f.leaving rest :: outer)

/-- Drops the latest frame, whose successors were all looked at. -/
def finish (s : Search) (f : Frame) (outer : List Frame) : Search :=
  let s := s.withFrames (outer.modifyHead (·.lower f.low))
  if f.low = f.number then s.report f.node else s

/-- One step of the search. -/
def step (g : Adjacency) (s : Search) : Search :=
  match s.frames with
  | [] => s
  | f :: outer =>
    match f.pending with
    | [] => s.finish f outer
    | w :: rest => s.look g f outer w rest

/-- How many nodes are not discovered yet. -/
def freshCount (s : Search) : Nat := s.marks.toList.count .fresh

/-- How many successors the frames are left with. -/
def pendingCount (s : Search) : Nat := s.frames.foldr (fun f n => f.pending.length + n) 0

theorem count_fresh_setIfInBounds_le (marks : Array Mark) (v : Nat) {mark : Mark}
    (h : mark ≠ .fresh) :
    (marks.setIfInBounds v mark).toList.count .fresh ≤ marks.toList.count .fresh := by
  rw [Array.toList_setIfInBounds]
  by_cases hv : v < marks.toList.length
  · rw [List.count_set hv, show (mark == .fresh) = false by simpa using h]
    exact Nat.sub_le _ _
  · exact Nat.le_of_eq (congrArg _ (List.set_eq_of_length_le (Nat.not_lt.1 hv)))

theorem count_fresh_closeAll_le (component : List Nat) (marks : Array Mark) :
    (closeAll component marks).toList.count .fresh ≤ marks.toList.count .fresh := by
  induction component generalizing marks with
  | nil => exact Nat.le_refl _
  | cons v rest ih =>
    exact Nat.le_trans (ih _) (count_fresh_setIfInBounds_le marks v (by simp))

/-- A discovery leaves one fresh node less. -/
theorem freshCount_discover_lt (g : Adjacency) {s : Search} {v : Nat}
    (h : s.markOf v = .fresh) : (s.discover g v).freshCount < s.freshCount := by
  have hv : v < s.marks.toList.length := by
    refine Nat.lt_of_not_le fun hle => ?_
    simp [markOf, Array.getElem?_eq_none hle] at h
  have hmark : s.marks.toList[v] = .fresh := by
    simpa [markOf, Array.getElem?_eq_getElem hv] using h
  have hpos : 0 < s.marks.toList.count .fresh :=
    List.count_pos_iff.2 (hmark ▸ List.getElem_mem hv)
  have hset : (s.discover g v).freshCount = s.marks.toList.count .fresh - 1 := by
    simp only [freshCount, discover, Array.toList_setIfInBounds]
    rw [List.count_set hv, hmark]
    rfl
  rw [hset]
  exact Nat.sub_lt hpos Nat.one_pos

theorem freshCount_finish_le (s : Search) (f : Frame) (outer : List Frame) :
    (s.finish f outer).freshCount ≤ s.freshCount := by
  unfold finish
  split
  · exact count_fresh_closeAll_le _ _
  · exact Nat.le_refl _

/-- The frames below a dropped one stay, but for a `low`. -/
theorem frames_finish (s : Search) (f : Frame) (outer : List Frame) :
    (s.finish f outer).frames = outer.modifyHead (·.lower f.low) := by
  unfold finish
  split <;> rfl

/-- How far the search is from its end: fresh nodes count first, then the
successors that are left, then the frames. -/
def remaining (s : Search) : Nat × Nat × Nat := (s.freshCount, s.pendingCount, s.frames.length)

/-- **A step brings the search closer to its end.** -/
theorem remaining_step (g : Adjacency) {s : Search} {f : Frame} {outer : List Frame}
    (h : s.frames = f :: outer) :
    Prod.Lex (· < ·) (Prod.Lex (· < ·) (· < ·)) (s.step g).remaining s.remaining := by
  have hpending : s.pendingCount =
      f.pending.length + outer.foldr (fun f n => f.pending.length + n) 0 := by
    rw [pendingCount, h, List.foldr_cons]
  -- a finished frame leaves one frame less; a look discovers a node or leaves one successor less
  cases hp : f.pending with
  | nil =>
    have hstep : s.step g = s.finish f outer := by simp [step, h, hp]
    have hsum : (s.finish f outer).pendingCount = s.pendingCount := by
      rw [hpending, pendingCount, frames_finish, hp]
      cases outer <;> simp [Frame.lower]
    have hlen : (s.finish f outer).frames.length < s.frames.length := by
      rw [frames_finish, List.length_modifyHead, h]
      exact Nat.lt_succ_self _
    rw [hstep]
    exact Prod.Lex.right' _ (freshCount_finish_le s f outer)
      (Prod.Lex.right' _ (Nat.le_of_eq hsum) hlen)
  | cons w rest =>
    have hstep : s.step g = s.look g f outer w rest := by simp [step, h, hp]
    rw [hstep]
    unfold look
    split
    · rename_i hfresh
      exact .left _ _ (freshCount_discover_lt g hfresh)
    · exact .right _ (.left _ _ (by simp [pendingCount, withFrames, Frame.leaving,
        Frame.lower, h, hp]))
    · exact .right _ (.left _ _ (by simp [pendingCount, withFrames, Frame.leaving, h, hp]))

/-- Steps until no frame is left. -/
def run (g : Adjacency) (s : Search) : Search :=
  match _h : s.frames with
  | [] => s
  | _ :: _ => run g (s.step g)
termination_by s.remaining
decreasing_by exact remaining_step g _h

/-- Searches from a node, if it is fresh. -/
def explore (g : Adjacency) (s : Search) (v : Nat) : Search :=
  match s.markOf v with
  | .fresh => run g (s.discover g v)
  | .open _ | .closed => s

end Search

/-- The strongly connected components in the order in which they are reported,
each in increasing order. -/
def components (g : Adjacency) : List (List Nat) :=
  ((List.range g.size).foldl (Search.explore g) (.start g.size)).reported.reverse

end Graph
end Strata
